/-
The texts of scalars: plain, quoted, and the two block forms. Each reader takes a place in the text
and gives the scalar's value with the place after it, or nothing when the text is malformed.
-/
import PromptGraph.Text.Quoted
import PromptGraph.Yaml.Cursor

namespace PromptGraph.Yaml

inductive Style where
  | plain
  | single
  | double
  | literal
  | folded
  deriving DecidableEq, Inhabited

-- ==== gaps

/-- Blanks and breaks between the words of a scalar that may span lines. -/
structure Gap where
  /-- Blanks, as long as no break was seen. -/
  blanks : List Char := []
  /-- The first break, when there is one. -/
  first : Option (List Char) := none
  /-- The breaks after the first. -/
  later : List Char := []

/-- A single break is a space; more breaks lose the first. -/
def Gap.fold (g : Gap) : List Char :=
  match g.first with
  | none => g.blanks
  | some ['\n'] => if g.later.isEmpty then [' '] else g.later
  | some b => b ++ g.later

/-- Reads blanks and breaks. A tab before column `least` of a later line is malformed. -/
def readGap (least : Nat) : Nat → Gap → Cursor → Option (Gap × Cursor)
  | 0, g, c => some (g, c)
  | fuel + 1, g, c =>
    match c.rest with
    | [] => some (g, c)
    | x :: _ =>
      if isBlank x then
        if g.first.isSome then
          if x = '\t' && c.column < least then none else readGap least fuel g c.next
        else readGap least fuel { g with blanks := g.blanks ++ [x] } c.next
      else if isBreak x then
        let g := match g.first with
          | none => { g with blanks := [], first := some c.breakText }
          | some _ => { g with later := g.later ++ c.breakText }
        readGap least fuel g c.skipBreak
      else some (g, c)

-- ==== plain

/-- What ends a plain scalar, given what follows. -/
def endsPlain (inFlow : Bool) (x : Char) (rest : List Char) : Bool :=
  isBlank x || isBreak x || (x = ':' && endsWord rest)
    || (inFlow && (x = ',' || x = '?' || x = '[' || x = ']' || x = '\x7b' || x = '\x7d'))

def plainWord (inFlow : Bool) : List Char → List Char
  | [] => []
  | x :: rest => if endsPlain inFlow x rest then [] else x :: plainWord inFlow rest

/-- Words and the gaps between them. The flag tells that a break was passed after the last word. -/
def readPlain (inFlow : Bool) (least : Nat) : Nat → List Char → Gap → Cursor →
    Option (List Char × Bool × Cursor)
  | 0, text, g, c => some (text, g.first.isSome, c)
  | fuel + 1, text, g, c =>
    if c.atMarker || c.head? = some '#' then some (text, g.first.isSome, c)
    else
      let word := plainWord inFlow c.rest
      if word.isEmpty then some (text, g.first.isSome, c)
      else
        let text := text ++ g.fold ++ word
        let c := c.drop word.length
        match c.rest with
        | x :: _ =>
          if isBlank x || isBreak x then do
            let (g, c) ← readGap least c.rest.length {} c
            if !inFlow && c.column < least then return (text, g.first.isSome, c)
            readPlain inFlow least fuel text g c
          else some (text, false, c)
        | [] => some (text, false, c)

-- ==== quoted

def escape? : Char → Option Char
  | '0' => some '\x00'
  | 'a' => some '\x07'
  | 'b' => some '\x08'
  | 't' => some '\t'
  | '\t' => some '\t'
  | 'n' => some '\n'
  | 'v' => some '\x0b'
  | 'f' => some '\x0c'
  | 'r' => some '\r'
  | 'e' => some '\x1b'
  | ' ' => some ' '
  | '"' => some '"'
  | '\'' => some '\''
  | '/' => some '/'
  | '\\' => some '\\'
  | 'N' => some '\x85'
  | '_' => some '\xa0'
  | 'L' => some '\u2028'
  | 'P' => some '\u2029'
  | _ => none

def hexEscape? : Char → Option Nat
  | 'x' => some 2
  | 'u' => some 4
  | 'U' => some 8
  | _ => none

/-- The character that hexadecimal digits name. -/
def charOfHex? (digits : List Char) : Option Char := do
  let n ← Text.Quoted.numeral? 16 Text.Quoted.hexValue? digits
  if n.isValidChar then some (Char.ofNat n) else none

/-- A word of a quoted scalar up to a blank, a break or the closing quote. The flag tells that the
word ended in an escaped break, which is passed over. -/
def readQuotedWord (quote : Char) : Nat → List Char → Cursor → Option (List Char × Bool × Cursor)
  | 0, text, c => some (text, false, c)
  | fuel + 1, text, c =>
    match c.rest with
    | [] => some (text, false, c)
    | x :: rest =>
      if isBlank x || isBreak x then some (text, false, c)
      else if quote = '\'' && x = '\'' then
        if rest.head? = some '\'' then readQuotedWord quote fuel (text ++ ['\'']) (c.drop 2)
        else some (text, false, c)
      else if x = quote then some (text, false, c)
      else if quote = '"' && x = '\\' then
        match rest with
        | [] => none
        | y :: more =>
          if isBreak y then some (text, true, c.next.skipBreak)
          else
            match hexEscape? y with
            | some width => do
              let digits := more.take width
              if digits.length < width then none
              let char ← charOfHex? digits
              readQuotedWord quote fuel (text ++ [char]) (c.drop (2 + width))
            | none => do
              let char ← escape? y
              readQuotedWord quote fuel (text ++ [char]) (c.drop 2)
      else readQuotedWord quote fuel (text ++ [x]) c.next

/-- The rest of a quoted scalar, with its closing quote. -/
def readQuoted (quote : Char) : Nat → List Char → Cursor → Option (List Char × Cursor)
  | 0, _, _ => none
  | fuel + 1, text, c => do
    if c.atMarker || c.rest.isEmpty then none
    let (text, escaped, c) ← readQuotedWord quote c.rest.length text c
    if c.head? = some quote then return (text, c.next)
    let (g, c) ← readGap 0 c.rest.length (if escaped then { first := some [] } else {}) c
    readQuoted quote fuel (text ++ g.fold) c

-- ==== blocks

/-- Which breaks at the end of a block scalar are kept. -/
inductive Chomping where
  | strip
  | clip
  | keep
  deriving DecidableEq, Inhabited

structure BlockHeader where
  chomping : Chomping := .clip
  /-- The indentation, when it is given. -/
  indentation : Option Nat := none

def chomping? : Char → Option Chomping
  | '+' => some .keep
  | '-' => some .strip
  | _ => none

def indentation? (c : Char) : Option Nat :=
  if '1' ≤ c && c ≤ '9' then some (c.toNat - '0'.toNat) else none

/-- The indicators after the first character of a block scalar, in either order. -/
def blockHeader : List Char → BlockHeader × Nat
  | x :: y :: _ =>
    match chomping? x, indentation? x with
    | some k, _ =>
      match indentation? y with
      | some n => (⟨k, some n⟩, 2)
      | none => (⟨k, none⟩, 1)
    | none, some n =>
      match chomping? y with
      | some k => (⟨k, some n⟩, 2)
      | none => (⟨.clip, some n⟩, 1)
    | none, none => ({}, 0)
  | [x] =>
    match chomping? x, indentation? x with
    | some k, _ => (⟨k, none⟩, 1)
    | none, some n => (⟨.clip, some n⟩, 1)
    | none, none => ({}, 0)
  | [] => ({}, 0)

/-- Empty lines before the next line of text, and the widest indentation among them. With no
indentation known, any number of spaces is passed over. A tab in the indentation is malformed. -/
def readEmptyLines (indent : Option Nat) : Nat → Nat → List Char → Cursor →
    Option (Nat × List Char × Cursor)
  | 0, widest, breaks, c => some (widest, breaks, c)
  | fuel + 1, widest, breaks, c =>
    let inMargin := match indent with
      | none => true
      | some n => c.column < n
    match c.rest with
    | [] => some (max widest c.column, breaks, c)
    | x :: _ =>
      if inMargin && x = ' ' then readEmptyLines indent fuel widest breaks c.next
      else if inMargin && x = '\t' then none
      else if isBreak x then
        readEmptyLines indent fuel (max widest c.column) (breaks ++ c.breakText) c.skipBreak
      else some (max widest c.column, breaks, c)

def restOfLine : List Char → List Char := List.takeWhile fun x => !isBreak x

/-- The lines of a block scalar. `held` is the break after the last line, and `breaks` are those of
the empty lines after it; `indented` tells that the last line began with a blank. -/
def readLines (style : Style) (indent : Nat) : Nat → List Char → List Char → List Char → Bool →
    Cursor → Option (List Char × List Char × List Char × Cursor)
  | 0, text, held, breaks, _, c => some (text, held, breaks, c)
  | fuel + 1, text, held, breaks, indented, c =>
    match c.rest with
    | [] => some (text, held, breaks, c)
    | x :: _ =>
      if c.column ≠ indent then some (text, held, breaks, c)
      else
        let blank := isBlank x
        let joint :=
          if style = .folded && !indented && !blank && held = ['\n'] then
            if breaks.isEmpty then [' '] else []
          else held
        let line := restOfLine c.rest
        let text := text ++ joint ++ breaks ++ line
        let c := c.drop line.length
        if c.rest.isEmpty then some (text, [], [], c)
        else do
          let held := c.breakText
          let c := c.skipBreak
          let (_, breaks, c) ← readEmptyLines (some indent) c.rest.length 0 [] c
          readLines style indent fuel text held breaks blank c

/-- A block scalar after its first character, inside a block indented by `outer`. -/
def readBlock (style : Style) (outer : Int) (c : Cursor) : Option (List Char × Cursor) := do
  let (header, width) := blockHeader c.rest
  let c := c.drop width
  let c := c.drop (c.rest.takeWhile isBlank).length
  let c := if c.head? = some '#' then c.drop (restOfLine c.rest).length else c
  if !endsLine c.rest then none
  let c := if c.rest.isEmpty then c else c.skipBreak
  let given := header.indentation.map fun n => if 0 ≤ outer then outer.toNat + n else n
  let (widest, breaks, c) ← readEmptyLines given c.rest.length 0 [] c
  let indent := given.getD (max (max widest (outer + 1).toNat) 1)
  let (text, held, breaks, c) ← readLines style indent (c.rest.length + 1) [] [] breaks false c
  return (match header.chomping with
    | .strip => text
    | .clip => text ++ held
    | .keep => text ++ held ++ breaks, c)

end PromptGraph.Yaml

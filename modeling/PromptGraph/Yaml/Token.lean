/-
Tokens of a YAML text. Structure that shows only as indentation becomes tokens for the beginning and
end of a block. A mapping's key is recognised by the colon after it, so its token is put in front of
a key that has already been read; a key that could be one is kept as a candidate until then.
-/
import PromptGraph.Yaml.Scalar

namespace PromptGraph.Yaml

inductive Token where
  | streamEnd
  | documentStart
  | documentEnd
  | versionDirective (major minor : Nat)
  | tagDirective (handle expansion : String)
  | blockSequenceStart
  | blockMappingStart
  | blockEnd
  | flowSequenceStart
  | flowSequenceEnd
  | flowMappingStart
  | flowMappingEnd
  | blockEntry
  | flowEntry
  | key
  | value
  | reference (name : String)
  | anchor (name : String)
  | tag (handle suffix : String)
  | scalar (text : String) (style : Style)
  deriving DecidableEq, Inhabited

/-- A place where a key may have begun. -/
structure Candidate where
  /-- It has to be a key, as it stands in the margin of its block. -/
  required : Bool
  /-- How many tokens stand before it. -/
  position : Nat
  line : Nat
  column : Nat
  index : Nat

structure Lexer where
  cursor : Cursor
  tokens : Array Token := #[]
  /-- The margin of the block, -1 outside of all. -/
  indent : Int := -1
  indents : List Int := []
  /-- A key may begin here. -/
  keyAllowed : Bool := true
  /-- A candidate for each bracket that is open, and one for the block around them, last. -/
  candidates : List (Option Candidate) := [none]

namespace Lexer

def inFlow (l : Lexer) : Bool := 1 < l.candidates.length

def emit (l : Lexer) (t : Token) : Lexer := { l with tokens := l.tokens.push t }

def move (l : Lexer) (c : Cursor) : Lexer := { l with cursor := c }

def allowKey (l : Lexer) (b : Bool) : Lexer := { l with keyAllowed := b }

/-- Puts a token in front of those after the first `position`. -/
def insert (l : Lexer) (position : Nat) (t : Token) : Lexer :=
  { l with tokens := (l.tokens.toList.take position ++ t :: l.tokens.toList.drop position).toArray }

-- ==== blocks and keys

/-- Opens a block with its margin at `column`, unless it is open or inside brackets. -/
def openBlock (l : Lexer) (column : Nat) (position : Nat) (t : Token) : Lexer :=
  if l.inFlow || column ≤ l.indent then l
  else { l.insert position t with indent := column, indents := l.indent :: l.indents }

def closeAll (column : Int) : List Int → Int → Nat → List Int × Int × Nat
  | indents, indent, closed =>
    if indent ≤ column then (indents, indent, closed)
    else
      match indents with
      | [] => ([], -1, closed + 1)
      | outer :: rest => closeAll column rest outer (closed + 1)

/-- Closes the blocks whose margin is right of `column`. -/
def closeBlocks (l : Lexer) (column : Int) : Lexer :=
  if l.inFlow then l
  else
    let (indents, indent, closed) := closeAll column l.indents l.indent 0
    { l with indents, indent, tokens := l.tokens ++ (List.replicate closed Token.blockEnd).toArray }

def candidate (l : Lexer) : Option Candidate := l.candidates.head?.join

def setCandidate (l : Lexer) (k : Option Candidate) : Lexer :=
  { l with candidates := k :: l.candidates.drop 1 }

/-- Gives the candidate up; one that has to be a key must not be given up. -/
def dropCandidate (l : Lexer) : Option Lexer :=
  match l.candidate with
  | some k => if k.required then none else some (l.setCandidate none)
  | none => some l

/-- Notes that a key may begin here. -/
def noteCandidate (l : Lexer) : Option Lexer :=
  if !l.keyAllowed then some l
  else do
    let c := l.cursor
    let required := !l.inFlow && l.indent = (c.column : Int)
    let l ← l.dropCandidate
    return l.setCandidate (some ⟨required, l.tokens.size, c.line, c.column, c.index⟩)

/-- A key ends on the line it begins on, within 1024 characters. -/
def isCurrent (k : Candidate) (c : Cursor) : Bool :=
  k.line = c.line && c.index ≤ k.index + 1024

-- ==== blanks

/-- Passes over blanks, comments and breaks. After a break a key may begin, outside of brackets. Tabs
are blanks except where a key may begin. -/
def skipBlanks : Nat → Lexer → Lexer
  | 0, l => l
  | fuel + 1, l =>
    let c := l.cursor
    match c.rest with
    | [] => l
    | x :: _ =>
      if c.column = 0 && x = '\ufeff' then skipBlanks fuel (l.move c.next)
      else if x = ' ' || (x = '\t' && (l.inFlow || !l.keyAllowed)) then
        skipBlanks fuel (l.move c.next)
      else if x = '#' then skipBlanks fuel (l.move (c.drop (restOfLine c.rest).length))
      else if isBreak x then
        let l := l.move c.skipBreak
        skipBlanks fuel (if l.inFlow then l else l.allowKey true)
      else l

-- ==== directives

def natural? (cs : List Char) : Option Nat :=
  if cs.isEmpty then none else Text.Quoted.numeral? 10 (fun c => (c.toString.toNat?)) cs

def word (cs : List Char) : List Char := cs.takeWhile isWord

def isTagChar (c : Char) : Bool := isWord c || ";/?:@&=+$.!~*'()%".toList.contains c

def skipBlank (c : Cursor) : Cursor := c.drop (c.rest.takeWhile isBlank).length

/-- A line that begins with a percent sign: the version or the meaning of a tag's handle. -/
def directive? (c : Cursor) : Option (Token × Cursor) := do
  let c := c.next
  let name := word c.rest
  let c := c.drop name.length
  if name.isEmpty || !endsWord c.rest then none
  let c := skipBlank c
  let (token, c) ← match String.ofList name with
    | "YAML" => do
      let major := c.rest.takeWhile (·.isDigit)
      let c := c.drop major.length
      if c.head? ≠ some '.' then none
      let c := c.next
      let minor := c.rest.takeWhile (·.isDigit)
      let m ← natural? major
      let n ← natural? minor
      some (Token.versionDirective m n, c.drop minor.length)
    | "TAG" => do
      let handle := c.rest.takeWhile fun x => !isBlank x && !isBreak x
      if handle.head? ≠ some '!' then none
      let c := skipBlank (c.drop handle.length)
      let expansion := c.rest.takeWhile fun x => !isBlank x && !isBreak x
      if expansion.isEmpty then none
      some (Token.tagDirective (String.ofList handle) (String.ofList expansion),
        c.drop expansion.length)
    | _ => none
  let c := skipBlank c
  let c := if c.head? = some '#' then c.drop (restOfLine c.rest).length else c
  if !endsLine c.rest then none
  return (token, if c.rest.isEmpty then c else c.skipBreak)

-- ==== properties

/-- The name after an ampersand or an asterisk. -/
def anchorName? (c : Cursor) : Option (String × Cursor) :=
  let name := word c.next.rest
  let c := c.next.drop name.length
  let ended := endsWord c.rest || match c.head? with
    | some x => "?:,]\x7d%@".toList.contains x || x = '\x60'
    | none => true
  if name.isEmpty || !ended then none else some (String.ofList name, c)

def tag? (c : Cursor) : Option (Token × Cursor) :=
  let (token, c) : Option Token × Cursor := match c.rest with
    | '!' :: '<' :: more =>
      let name := more.takeWhile isTagChar
      let after := c.drop (2 + name.length)
      if name.isEmpty || after.head? ≠ some '>' then (none, c)
      else (some (.tag "" (String.ofList name)), after.next)
    | '!' :: more =>
      let head := word more
      match more.drop head.length with
      | '!' :: suffix =>
        let name := suffix.takeWhile isTagChar
        if name.isEmpty then (none, c)
        else (some (.tag ("!" ++ String.ofList head ++ "!") (String.ofList name)),
          c.drop (2 + head.length + name.length))
      | _ =>
        let name := more.takeWhile isTagChar
        (some (if name.isEmpty then .tag "" "!" else .tag "!" (String.ofList name)),
          c.drop (1 + name.length))
    | _ => (none, c)
  match token with
  | some t => if endsWord c.rest then some (t, c) else none
  | none => none

-- ==== tokens

/-- A colon: what was read since the candidate is a key, or else a key was given by a question
mark. -/
def readValue (l : Lexer) : Option Lexer := do
  let plainValue (l : Lexer) : Lexer := (l.move l.cursor.next).emit .value
  let current := match l.candidate with
    | some k => if isCurrent k l.cursor then some k else none
    | none => none
  match current with
  | some k =>
    let l := (l.insert k.position .key).openBlock k.column k.position .blockMappingStart
    return plainValue ((l.setCandidate none).allowKey false)
  | none =>
    let l ← l.dropCandidate
    if !l.inFlow && !l.keyAllowed then none
    let l := if l.inFlow then l else
      l.openBlock l.cursor.column l.tokens.size .blockMappingStart
    return plainValue (l.allowKey (!l.inFlow))

/-- A dash or a question mark, which begin an entry or a key. -/
def readIndicator (l : Lexer) (start t : Token) (after : Bool) : Option Lexer := do
  if !l.inFlow && !l.keyAllowed then none
  let l := l.openBlock l.cursor.column l.tokens.size start
  let l ← l.dropCandidate
  return ((l.allowKey after).move l.cursor.next).emit t

/-- A bracket that opens. -/
def readOpening (l : Lexer) (t : Token) : Option Lexer := do
  let l ← l.noteCandidate
  return ({ l with candidates := none :: l.candidates, keyAllowed := true }.move l.cursor.next).emit t

/-- A bracket that closes. -/
def readClosing (l : Lexer) (t : Token) : Option Lexer := do
  let l ← l.dropCandidate
  let candidates := if l.inFlow then l.candidates.drop 1 else l.candidates
  return ({ l with candidates, keyAllowed := false }.move l.cursor.next).emit t

/-- Something that may be a key: a scalar, an alias or a property. -/
def readContent (l : Lexer) (read? : Cursor → Option (Token × Bool × Cursor)) : Option Lexer := do
  let l ← l.noteCandidate
  let (t, keyAllowed, c) ← read? l.cursor
  return (({ l with keyAllowed }).move c).emit t

def quoted (style : Style) (quote : Char) (c : Cursor) : Option (Token × Bool × Cursor) := do
  let (text, c) ← readQuoted quote (c.rest.length + 1) [] c.next
  return (.scalar (String.ofList text) style, false, c)

def plain (l : Lexer) (c : Cursor) : Option (Token × Bool × Cursor) := do
  let (text, passed, c) ← readPlain l.inFlow (l.indent + 1).toNat (c.rest.length + 1) [] {} c
  return (.scalar (String.ofList text) .plain, passed, c)

def block (l : Lexer) (style : Style) : Option Lexer := do
  let l ← l.dropCandidate
  let (text, c) ← readBlock style l.indent l.cursor.next
  return ((l.allowKey true).move c).emit (.scalar (String.ofList text) style)

/-- A marker between documents closes all blocks. -/
def readMarker (l : Lexer) (t : Token) : Option Lexer := do
  let l ← (l.closeBlocks (-1)).dropCandidate
  return ((l.allowKey false).move (l.cursor.drop 3)).emit t

/-- Characters that cannot begin a plain scalar. -/
def isIndicator (x : Char) : Bool := "-?:,[]\x7b\x7d#&*!|>'\"%@".toList.contains x || x = '\x60'

/-- A plain scalar begins here. -/
def beginsPlain (l : Lexer) (x : Char) (rest : List Char) : Bool :=
  !isIndicator x || (x = '-' && !(rest.head?.any isBlank))
    || (!l.inFlow && (x = '?' || x = ':') && !endsWord rest)

/-- The next token, once blanks are passed over. -/
def readToken (l : Lexer) (x : Char) (rest : List Char) : Option Lexer :=
  let c := l.cursor
  if c.column = 0 && x = '%' then do
    let l ← (l.closeBlocks (-1)).dropCandidate
    let (t, c) ← directive? c
    return ((l.allowKey false).move c).emit t
  else if c.atMarker then l.readMarker (if x = '-' then .documentStart else .documentEnd)
  else if x = '[' then l.readOpening .flowSequenceStart
  else if x = '\x7b' then l.readOpening .flowMappingStart
  else if x = ']' then l.readClosing .flowSequenceEnd
  else if x = '\x7d' then l.readClosing .flowMappingEnd
  else if x = ',' then do
    let l ← l.dropCandidate
    return ((l.allowKey true).move c.next).emit .flowEntry
  else if x = '-' && endsWord rest then l.readIndicator .blockSequenceStart .blockEntry true
  else if x = '?' && (l.inFlow || endsWord rest) then
    l.readIndicator .blockMappingStart .key (!l.inFlow)
  else if x = ':' && (l.inFlow || endsWord rest) then l.readValue
  else if x = '*' then
    l.readContent fun c => (anchorName? c).map fun (n, c) => (.reference n, false, c)
  else if x = '&' then
    l.readContent fun c => (anchorName? c).map fun (n, c) => (.anchor n, false, c)
  else if x = '!' then l.readContent fun c => (tag? c).map fun (t, c) => (t, false, c)
  else if x = '|' && !l.inFlow then l.block .literal
  else if x = '>' && !l.inFlow then l.block .folded
  else if x = '\'' then l.readContent (quoted .single '\'')
  else if x = '"' then l.readContent (quoted .double '"')
  else if l.beginsPlain x rest then l.readContent l.plain
  else none

/-- One step: the next token, or the end of the stream. -/
def step (l : Lexer) : Option (Lexer × Bool) := do
  let l := l.skipBlanks l.cursor.rest.length
  let l := l.closeBlocks l.cursor.column
  match l.cursor.rest with
  | [] =>
    let l ← (l.closeBlocks (-1)).dropCandidate
    return (l.emit .streamEnd, true)
  | x :: rest =>
    let l ← l.readToken x rest
    return (l, false)

/-- Runs to the end of the stream, or to the first thing that is no token. The flag tells which. -/
def run : Nat → Lexer → Array Token × Bool
  | 0, l => (l.tokens, false)
  | fuel + 1, l =>
    match l.step with
    | none => (l.tokens, false)
    | some (l, true) => (l.tokens, true)
    | some (l, false) => run fuel l

end Lexer

/-- The tokens of a text. Two tokens are looked ahead of the one in hand, so those just before a place
that has no token are left out. -/
def tokens (text : String) : List Token :=
  let cs := text.toList
  let cs := if cs.head? = some '\ufeff' then cs.drop 1 else cs
  if !cs.all isAllowed then []
  else
    let (ts, complete) := Lexer.run (cs.length + 1) { cursor := { rest := cs } }
    if complete then ts.toList else ts.toList.take (ts.size - 2)

end PromptGraph.Yaml

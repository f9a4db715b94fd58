/-
Replacing `$NAME` and `$\{NAME\}` in a text by the values of variables.
-/
import PromptGraph.Number.Integer

namespace PromptGraph.Settings

/-- Names of a single character that need no letter. -/
def isSpecial (c : Char) : Bool := "*#$@!?-".toList.contains c || Number.isDigit c

def isNameChar (c : Char) : Bool :=
  c = '_' || Number.isDigit c || ('a' ≤ c && c ≤ 'z') || ('A' ≤ c && c ≤ 'Z')

/-- The name after a dollar sign, and how many characters it takes. No name in some characters means
that they are malformed; no name in none means that the dollar sign stands for itself. -/
def nameAfter : List Char → List Char × Nat
  | '\x7b' :: more =>
    match more with
    | c :: '\x7d' :: _ => if isSpecial c then ([c], 3) else braced more
    | _ => braced more
  | c :: more =>
    if isSpecial c then ([c], 1)
    else
      let name := (c :: more).takeWhile isNameChar
      (name, name.length)
  | [] => ([], 0)
where
  /-- A name up to its closing brace. -/
  braced (more : List Char) : List Char × Nat :=
    let name := more.takeWhile (· ≠ '\x7d')
    if name.length = more.length then ([], 1) else (name, name.length + 2)

/-- A piece of a text with variables in it. -/
inductive Piece where
  | char (c : Char)
  | named (name : String)
  deriving DecidableEq

/-- The pieces of a text; `fuel` bounds their number. -/
def pieces : Nat → List Char → List Piece
  | 0, cs => cs.map .char
  | _ + 1, [] => []
  | fuel + 1, c :: rest =>
    if c = '$' && !rest.isEmpty then
      let (name, width) := nameAfter rest
      let more := pieces fuel (rest.drop width)
      if !name.isEmpty then .named (String.ofList name) :: more
      else if width = 0 then .char '$' :: more
      else more
    else .char c :: pieces fuel rest

def piecesOf (text : String) : List Piece := pieces text.toList.length text.toList

def Piece.name? : Piece → Option String
  | char _ => none
  | named name => some name

/-- The names of the variables in a text. -/
def variableNames (text : String) : List String := (piecesOf text).filterMap Piece.name?

def Piece.expand (lookUp : String → String) : Piece → List Char
  | char c => [c]
  | named name => (lookUp name).toList

/-- Replaces the variables of a text. -/
def expand (lookUp : String → String) (text : String) : String :=
  String.ofList ((piecesOf text).flatMap (Piece.expand lookUp))

end PromptGraph.Settings

/-
A place in a text with its line and column, and the classes of characters that YAML distinguishes.
-/

namespace PromptGraph.Yaml

/-- Characters a text may hold. -/
def isAllowed (c : Char) : Bool :=
  let n := c.toNat
  n = 0x9 || n = 0xA || n = 0xD || (0x20 ≤ n && n ≤ 0x7E) || n = 0x85 || (0xA0 ≤ n && n ≤ 0xFFFD)
    || 0x10000 ≤ n

def isBlank (c : Char) : Bool := c = ' ' || c = '\t'

def isBreak (c : Char) : Bool :=
  c = '\n' || c = '\r' || c = '\x85' || c = '\u2028' || c = '\u2029'

/-- Letters of anchors and directives. -/
def isWord (c : Char) : Bool :=
  ('0' ≤ c && c ≤ '9') || ('A' ≤ c && c ≤ 'Z') || ('a' ≤ c && c ≤ 'z') || c = '_' || c = '-'

/-- A break or the end is next. -/
def endsLine : List Char → Bool
  | [] => true
  | c :: _ => isBreak c

/-- A blank, a break or the end is next. -/
def endsWord : List Char → Bool
  | [] => true
  | c :: _ => isBlank c || isBreak c

structure Cursor where
  rest : List Char
  line : Nat := 0
  column : Nat := 0
  index : Nat := 0
  deriving Inhabited

namespace Cursor

/-- Passes over characters of one line. -/
def drop (c : Cursor) (n : Nat) : Cursor :=
  { c with rest := c.rest.drop n, column := c.column + n, index := c.index + n }

def next (c : Cursor) : Cursor := c.drop 1

/-- Passes over a line break; a carriage return and a line feed are one. -/
def skipBreak (c : Cursor) : Cursor :=
  match c.rest with
  | '\r' :: '\n' :: rest => { rest, line := c.line + 1, column := 0, index := c.index + 2 }
  | _ :: rest => { rest, line := c.line + 1, column := 0, index := c.index + 1 }
  | [] => c

/-- What a break stands for in a value: most are line feeds. -/
def breakText (c : Cursor) : List Char :=
  match c.rest with
  | '\u2028' :: _ => ['\u2028']
  | '\u2029' :: _ => ['\u2029']
  | _ => ['\n']

def head? (c : Cursor) : Option Char := c.rest.head?

/-- A marker between documents stands here: three equal characters at the start of a line. -/
def atMarker (c : Cursor) : Bool :=
  c.column = 0 && match c.rest with
    | '-' :: '-' :: '-' :: rest => endsWord rest
    | '.' :: '.' :: '.' :: rest => endsWord rest
    | _ => false

end Cursor

end PromptGraph.Yaml

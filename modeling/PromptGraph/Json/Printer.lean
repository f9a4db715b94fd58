/-
JSON as this library writes it: no blanks in the compact form, two blanks a level in the indented
one; control characters, the characters that end a script or a line in a web page, and quotes and
backslashes are escaped, everything else stands as it is.
-/
import PromptGraph.Json.Basic
import PromptGraph.Text.Quoted

namespace PromptGraph.Json

/-- Characters that end a script or a line in a web page. -/
def isMarkup (c : Char) : Bool :=
  c = '<' || c = '>' || c = '&' || c.toNat = 0x2028 || c.toNat = 0x2029

def unitEscape (c : Char) : List Char := '\\' :: 'u' :: Text.Quoted.hexDigits 4 c.toNat

/-- A JSON text with the markup in its strings escaped; outside strings there is none. -/
def escapeMarkup (text : String) : String :=
  String.ofList (text.toList.flatMap fun c => if isMarkup c then unitEscape c else [c])

/-- A character inside a written string. -/
def escapeChar (c : Char) : List Char :=
  let n := c.toNat
  if c = '"' || c = '\\' then ['\\', c]
  else if n = 8 then ['\\', 'b']
  else if n = 12 then ['\\', 'f']
  else if n = 10 then ['\\', 'n']
  else if n = 13 then ['\\', 'r']
  else if n = 9 then ['\\', 't']
  else if n < 0x20 || isMarkup c then unitEscape c
  else [c]

/-- What stands for an octet of no character: the replacement character, always escaped. -/
def escapeMark : Option Char → List Char
  | some c => escapeChar c
  | none => unitEscape Text.replacement

/-- Texts that can be written into a document. -/
class Texts (τ : Type) where
  ofString : String → τ
  /-- What stands between the quotes of the written text. -/
  inside : τ → List Char

instance : Texts String where
  ofString := id
  inside s := s.toList.flatMap escapeChar

instance : Texts Text.Octets where
  ofString := Text.octets
  inside bs := (Text.marks bs).flatMap escapeMark

section

variable {τ : Type} [Texts τ]

def quoteChars (t : τ) : List Char := '"' :: (Texts.inside t ++ ['"'])

def quote (t : τ) : String := String.ofList (quoteChars t)

end

-- ==== layouts

/-- Where a printed value breaks into lines: nowhere, or before every member and closing bracket, with
so many blanks a level. -/
structure Layout where
  step : Option Nat

namespace Layout

def compact : Layout := ⟨none⟩

def indented : Layout := ⟨some 2⟩

/-- What stands before a member or closing bracket at a depth. -/
def gap (l : Layout) (depth : Nat) : List Char :=
  match l.step with
  | none => []
  | some n => '\n' :: List.replicate (n * depth) ' '

/-- What stands after the colon of a field. -/
def space (l : Layout) : List Char :=
  match l.step with
  | none => []
  | some _ => [' ']

variable {τ : Type} [Texts τ] (l : Layout)

mutual

/-- A value in the layout; `depth` counts the lists and objects around it. -/
def chars (depth : Nat) : Json τ → List Char
  | null => "null".toList
  | bool true => "true".toList
  | bool false => "false".toList
  | number t => t.toList
  | string s => quoteChars s
  | array [] => ['[', ']']
  | array (v :: rest) =>
    '[' :: (l.gap (depth + 1) ++ (chars (depth + 1) v ++ items depth rest))
  | object [] => ['{', '}']
  | object ((k, v) :: rest) =>
    '{' :: (l.gap (depth + 1) ++ (quoteChars k ++ ':' ::
      (l.space ++ (chars (depth + 1) v ++ fields depth rest))))

/-- The items after the first, and the closing bracket. -/
def items (depth : Nat) : List (Json τ) → List Char
  | [] => l.gap depth ++ [']']
  | v :: rest => ',' :: (l.gap (depth + 1) ++ (chars (depth + 1) v ++ items depth rest))

/-- The fields after the first, and the closing brace. -/
def fields (depth : Nat) : List (τ × Json τ) → List Char
  | [] => l.gap depth ++ ['}']
  | (k, v) :: rest =>
    ',' :: (l.gap (depth + 1) ++ (quoteChars k ++ ':' ::
      (l.space ++ (chars (depth + 1) v ++ fields depth rest))))

end

def print (j : Json τ) : String := String.ofList (l.chars 0 j)

end Layout

section

variable {τ : Type} [Texts τ]

/-- The compact form. -/
def write (j : Json τ) : String := Layout.compact.print j

/-- The indented form. -/
def pretty (j : Json τ) : String := Layout.indented.print j

end

end PromptGraph.Json

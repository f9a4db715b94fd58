/-
The plain text of a value: strings bare, lists in brackets with blanks between the items, maps by
ascending names.
-/
import PromptGraph.Json.Basic
import PromptGraph.Number.Layout
import PromptGraph.Number.Literal

namespace PromptGraph.Json

/-- The double that a number's text denotes; nothing if it is out of range. -/
def double? (text : String) : Option Number.Double :=
  match Number.Literal.read? text with
  | some (.finite d) => some d
  | _ => none

mutual

/-- The text of a value inside a list or map; `number` writes the numbers. -/
def display (number : String → String) : Json → String
  | null => "<nil>"
  | bool true => "true"
  | bool false => "false"
  | .number t => number t
  | string s => s
  | array items => "[" ++ displayItems number items ++ "]"
  | object fields => "map[" ++ displayFields number fields ++ "]"

def displayItems (number : String → String) : List Json → String
  | [] => ""
  | [v] => display number v
  | v :: w :: rest => display number v ++ " " ++ displayItems number (w :: rest)

def displayFields (number : String → String) : List (String × Json) → String
  | [] => ""
  | [(k, v)] => k ++ ":" ++ display number v
  | (k, v) :: f :: rest => k ++ ":" ++ display number v ++ " " ++ displayFields number (f :: rest)

end

/-- A number as text written in another layout. -/
def relayout (style : Number.Layout) (text : String) : String :=
  match double? text with
  | some d => d.render style
  | none => text

mutual

/-- Every number in the value is a double in range. -/
def inRange : Json → Bool
  | .number t => (double? t).isSome
  | array items => inRangeItems items
  | object fields => inRangeFields fields
  | _ => true

def inRangeItems : List Json → Bool
  | [] => true
  | v :: rest => inRange v && inRangeItems rest

def inRangeFields : List (String × Json) → Bool
  | [] => true
  | (_, v) :: rest => inRange v && inRangeFields rest

end

/-- The text under which a widget's value is looked up in a table: numbers as they are written. -/
def key : Json → String
  | null => ""
  | string s => s
  | .number t => t
  | v => display id v

/-- The text under which a declared value is looked up: numbers are doubles, written without an
exponent on their own and compactly inside a list or map. -/
def declaredKey : Json → String
  | null => ""
  | string s => s
  | .number t => relayout .positional t
  | v => display (relayout .compact) v

end PromptGraph.Json

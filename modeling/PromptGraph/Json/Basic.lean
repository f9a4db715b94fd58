/-
JSON values. A number is the text it was written with, so no digit is lost; an object holds its
fields once each, in ascending order of their names. What is read has Unicode texts, since a document
is taken to be UTF-8; a value that is written may have octets for texts.
-/
import PromptGraph.Assoc

namespace PromptGraph

/-- A value with texts of the type `τ`: Unicode texts, unless another type is named. -/
inductive Json (τ : Type := String) where
  | null
  | bool (value : Bool)
  | number (text : String)
  | string (text : τ)
  | array (items : List (Json τ))
  | object (fields : List (τ × Json τ))
  deriving Inhabited

namespace Json

/-- A whole number. -/
def int {τ : Type} (n : Int) : Json τ := number (toString n)

/-- The object with these fields; of two with one name the later counts. -/
def mk (fields : List (String × Json)) : Json := object (Assoc.ofList fields)

/-- A field of an object. -/
def get? (j : Json) (name : String) : Option Json :=
  match j with
  | object fields => Assoc.get? fields name
  | _ => none

def isNull : Json → Bool
  | null => true
  | _ => false

def string? : Json → Option String
  | string s => some s
  | _ => none

def array? : Json → Option (List Json)
  | array items => some items
  | _ => none

def object? : Json → Option (List (String × Json))
  | object fields => some fields
  | _ => none

end Json

end PromptGraph

/-
What an input's tag says about it: whether it carries a literal, and of which sort, or only a wire.
-/
import PromptGraph.Text.Letter
import PromptGraph.Text.Octets

namespace PromptGraph

inductive Kind where
  | other
  | int
  | float
  | string
  | boolean
  | combo
  /-- A choice whose value brings further inputs with it. -/
  | dynamicCombo
  | wire
  | wildcard
  deriving DecidableEq, Inhabited

namespace Kind

def comboTag : String := "COMBO"

/-- Fixed tags first; any other tag of at least two octets without lower case is a wire. -/
def classify (tag : String) : Kind :=
  if tag = "*" then wildcard
  else if tag = "COMFY_DYNAMICCOMBO_V3" then dynamicCombo
  else if tag = "INT" then int
  else if tag = "FLOAT" then float
  else if tag = "STRING" then string
  else if tag = "BOOLEAN" then boolean
  else if tag = comboTag then combo
  else if Text.octetLength tag > 1 && Text.upper tag = tag then wire
  else other

/-- Never filled from an embedded literal. -/
def wireOnly : Kind → Bool
  | wire => true
  | wildcard => true
  | _ => false

def name : Kind → String
  | other => "other"
  | int => "int"
  | float => "float"
  | string => "string"
  | boolean => "boolean"
  | combo => "combo"
  | dynamicCombo => "dynamic_combo"
  | wire => "wire"
  | wildcard => "wildcard"

end Kind

end PromptGraph

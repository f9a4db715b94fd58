/-
Node types as a server declares them, and the table of all of them.
-/
import PromptGraph.Assoc
import PromptGraph.NodeType.Kind

namespace PromptGraph

inductive InputSection where
  | required
  | optional
  | hidden
  deriving DecidableEq, Inhabited

def InputSection.name : InputSection → String
  | required => "required"
  | optional => "optional"
  | hidden => "hidden"

/-- A declared input. -/
inductive InputType where
  | mk (name tag : String) (kind : Kind) (sec : InputSection) (control : Bool)
      (choices : Option (List String)) (formats : Assoc (List String))
      (options : Option (List (String × List InputType)))
  deriving Inhabited

namespace InputType

def name : InputType → String
  | mk n .. => n

def tag : InputType → String
  | mk _ t .. => t

def kind : InputType → Kind
  | mk _ _ k .. => k

/-- The section it is declared in. -/
def sec : InputType → InputSection
  | mk _ _ _ s .. => s

/-- A companion control value follows this input's value. -/
def control : InputType → Bool
  | mk _ _ _ _ c .. => c

/-- The values a choice allows, when they are declared. -/
def choices : InputType → Option (List String)
  | mk _ _ _ _ _ cs _ _ => cs

/-- Names of the extra inputs that follow a selected value. -/
def formats : InputType → Assoc (List String)
  | mk _ _ _ _ _ _ fs _ => fs

/-- The sub-inputs that each value of a dynamic choice brings with it. -/
def options : InputType → Option (List (String × List InputType))
  | mk _ _ _ _ _ _ _ os => os

/-- An input with nothing declared about it. -/
def blank : InputType := mk "" "" .other .required false none [] none

/-- The sub-inputs that a value selects. -/
def subInputs? (i : InputType) (value : String) : Option (List InputType) :=
  ((i.options.getD []).find? (·.1 = value)).map Prod.snd

end InputType

structure OutputType where
  name : String
  tag : String
  isList : Bool
  deriving DecidableEq, Inhabited

structure NodeType where
  name : String
  displayName : String
  category : String
  isOutput : Bool
  inputs : List InputType
  outputs : List OutputType
  deriving Inhabited

def NodeType.input? (t : NodeType) (name : String) : Option InputType :=
  t.inputs.find? (·.name = name)

/-- Node types by name. -/
abbrev NodeTable := Assoc NodeType

def NodeTable.ofTypes (types : List NodeType) : NodeTable := Assoc.ofList (types.map fun t => (t.name, t))

end PromptGraph

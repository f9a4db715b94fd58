/-
Nodes and links of one level of an editor graph. As everywhere in an editor graph, the texts are
Unicode unless another type `τ` of texts is named: a document is taken to be UTF-8, and what is read
from it has no other texts. A graph that is put together may hold any octets.
-/
import PromptGraph.Editor.Id
import PromptGraph.Editor.Widgets

namespace PromptGraph.Editor

/-- A declared input slot. `widget` is the name of the widget behind it, if there is one. -/
structure NodeInput (τ : Type := String) where
  name : τ := by exact ""
  type : τ := by exact ""
  link : Option Id := none
  widget : Option τ := none
  deriving DecidableEq

instance : Inhabited NodeInput := ⟨{}⟩

/-- The slot names a link. -/
def NodeInput.wire? (i : NodeInput) : Option Id :=
  match i.link with
  | some l => if l.isEmpty then none else some l
  | none => none

def NodeInput.linked (i : NodeInput) : Bool := i.wire?.isSome

/-- A declared output slot. `linkList` is absent when the document lists no links. -/
structure NodeOutput (τ : Type := String) where
  name : τ := by exact ""
  type : τ := by exact ""
  linkList : Option (List Id) := none
  deriving DecidableEq

instance : Inhabited NodeOutput := ⟨{}⟩

def NodeOutput.links {τ : Type} (o : NodeOutput τ) : List Id := o.linkList.getD []

/-- One operation of a level. -/
structure Node (τ : Type := String) where
  id : Id := .empty
  type : τ := by exact ""
  title : τ := by exact ""
  mode : Int := 0
  inputs : List (NodeInput τ) := []
  outputs : List (NodeOutput τ) := []
  widgets : Widgets τ := .none

instance : Inhabited Node := ⟨{}⟩

namespace Mode

def always : Int := 0

def never : Int := 2

def bypass : Int := 4

end Mode

/-- Muted and bypassed nodes do not execute. -/
def Node.disabled (n : Node) : Bool := n.mode = Mode.never || n.mode = Mode.bypass

/-- The number of widget-backed slots before the first one with this name. -/
def widgetIndex? (name : String) : List NodeInput → Option Nat
  | [] => none
  | i :: rest =>
    if i.widget.isNone then widgetIndex? name rest
    else if i.name = name then some 0
    else (widgetIndex? name rest).map (· + 1)

def Node.widgetIndex? (n : Node) (name : String) : Option Nat :=
  Editor.widgetIndex? name n.inputs

/-- A wire from an output slot to an input slot of the same level. -/
structure Link (τ : Type := String) where
  id : Id := .empty
  origin : Id := .empty
  originSlot : Int := 0
  target : Id := .empty
  targetSlot : Int := 0
  type : τ := by exact ""
  deriving DecidableEq

instance : Inhabited Link := ⟨{}⟩

end PromptGraph.Editor

/-
Workflows: a root level and the definitions that its nodes, and each other's, may be instances of.
-/
import PromptGraph.Editor.Level

namespace PromptGraph.Editor

/-- A declared port of a definition. -/
structure Port (τ : Type := String) where
  id : τ := by exact ""
  name : τ := by exact ""
  type : τ := by exact ""
  links : List Id := []
  deriving DecidableEq

instance : Inhabited Port := ⟨{}⟩

/-- A reusable level with ports. A node whose type is the definition's id is an instance of it. The
four lists are absent when the document has none. -/
structure Definition (τ : Type := String) where
  id : τ := by exact ""
  name : τ := by exact ""
  inputList : Option (List (Port τ)) := none
  outputList : Option (List (Port τ)) := none
  nodeList : Option (List (Node τ)) := none
  linkList : Option (List (Link τ)) := none
  inputNode : Option Id := none
  outputNode : Option Id := none
  /-- Positions of the link entries that could not be read. -/
  skipped : List Nat := []

instance : Inhabited Definition := ⟨{}⟩

namespace Definition

section

variable {τ : Type}

def inputs (d : Definition τ) : List (Port τ) := d.inputList.getD []

def outputs (d : Definition τ) : List (Port τ) := d.outputList.getD []

def nodes (d : Definition τ) : List (Node τ) := d.nodeList.getD []

def links (d : Definition τ) : List (Link τ) := d.linkList.getD []

end

def sentinelOr (fallback : Id) : Option Id → Id
  | some i => if i.isEmpty then fallback else i
  | none => fallback

def sentinels (d : Definition) : Sentinels :=
  ⟨sentinelOr ⟨"-10"⟩ d.inputNode, sentinelOr ⟨"-20"⟩ d.outputNode⟩

def level (d : Definition) : Level := ⟨d.nodes, d.links, some d.sentinels⟩

end Definition

structure Workflow (τ : Type := String) where
  nodes : List (Node τ) := []
  linkList : Option (List (Link τ)) := none
  definitions : List (Definition τ) := []
  /-- Positions of the link entries that could not be read. -/
  skipped : List Nat := []
  deriving Inhabited

namespace Workflow

def links {τ : Type} (w : Workflow τ) : List (Link τ) := w.linkList.getD []

def root (w : Workflow) : Level := ⟨w.nodes, w.links, none⟩

/-- The first definition with this id. -/
def definition? (w : Workflow) (id : String) : Option Definition :=
  w.definitions.find? (·.id = id)

end Workflow

-- ==== copies

/-- A copied list of links: one that has none is absent from the copy. -/
def copyLinks {α : Type} : Option (List α) → Option (List α)
  | some [] => none
  | links => links

def NodeOutput.clone (o : NodeOutput) : NodeOutput := { o with linkList := copyLinks o.linkList }

def Node.clone (n : Node) : Node := { n with outputs := n.outputs.map NodeOutput.clone }

def Definition.clone (d : Definition) : Definition :=
  { d with nodeList := d.nodeList.map (List.map Node.clone), linkList := copyLinks d.linkList }

/-- A copy of the workflow. It differs in lists of links that are empty. -/
def Workflow.clone (w : Workflow) : Workflow :=
  { w with
    nodes := w.nodes.map Node.clone
    linkList := copyLinks w.linkList
    definitions := w.definitions.map Definition.clone }

end PromptGraph.Editor

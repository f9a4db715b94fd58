/-
Copies of workflows. A copy has the nodes, the links and the definitions
of the workflow, and it differs from it in one thing: a list of links
that is there and holds none is absent from the copy. Lists that are
absent and lists that are empty say the same, so a workflow with all of
its lists there (`filled`) is the same for both (`filled_clone`), and a
workflow is its own copy unless it has such a list (`clone_eq_self_iff`).
-/
import Mathlib.Data.List.Basic
import PromptGraph.Editor.Workflow

namespace PromptGraph.Editor

-- ==== lists

section Lists

variable {α : Type}

/-- A list is kept by what keeps its members, and by nothing else. -/
theorem map_eq_self_iff {f : α → α} {as : List α} :
    as.map f = as ↔ ∀ a ∈ as, f a = a := by
  have h : as.map f = as.map id ↔ ∀ a ∈ as, f a = id a := List.map_inj_left
  rwa [List.map_id] at h

theorem optionMap_eq_self_iff {f : α → α} {as : Option (List α)} :
    as.map (List.map f) = as ↔ ∀ a ∈ as.getD [], f a = a := by
  cases as with
  | none => simp
  | some as => rw [Option.map_some, Option.some_inj, map_eq_self_iff, Option.getD_some]

/-- A copied list has the same links. -/
theorem getD_copyLinks (links : Option (List α)) :
    (copyLinks links).getD [] = links.getD [] := by
  unfold copyLinks
  split
  · rfl
  · rfl

/-- An empty list is copied as none. -/
theorem copyLinks_ne (links : Option (List α)) : copyLinks links ≠ some [] := by
  unfold copyLinks
  split
  · exact nofun
  · assumption

/-- Only a list without members gets lost. -/
theorem copyLinks_eq_self_iff (links : Option (List α)) :
    copyLinks links = links ↔ links ≠ some [] := by
  refine ⟨fun h hempty => copyLinks_ne links (h.trans hempty), fun h => ?_⟩
  unfold copyLinks
  split
  · exact absurd rfl h
  · rfl

end Lists

-- ==== copies

theorem NodeOutput.links_clone (o : NodeOutput) : o.clone.links = o.links :=
  getD_copyLinks o.linkList

theorem Definition.nodes_clone (d : Definition) :
    d.clone.nodes = d.nodes.map Node.clone := by
  obtain ⟨id, name, inputs, outputs, nodes, links, inputNode, outputNode, skipped⟩ := d
  cases nodes with
  | none => rfl
  | some ns => rfl

theorem Definition.links_clone (d : Definition) : d.clone.links = d.links :=
  getD_copyLinks d.linkList

theorem Workflow.links_clone (w : Workflow) : w.clone.links = w.links :=
  getD_copyLinks w.linkList

-- ==== lists that get lost

/-- No output of the node has a list of links with nothing in it. -/
def Node.Trim (n : Node) : Prop := ∀ o ∈ n.outputs, o.linkList ≠ some []

/-- No list of links of the workflow is there with nothing in it. -/
structure Workflow.Trim (w : Workflow) : Prop where
  links : w.linkList ≠ some []
  nodes : ∀ n ∈ w.nodes, n.Trim
  definitions : ∀ d ∈ w.definitions, d.linkList ≠ some [] ∧ ∀ n ∈ d.nodes, n.Trim

/-- A trim node is its own copy. -/
theorem Node.clone_eq_self_iff (n : Node) : n.clone = n ↔ n.Trim := by
  have houtput : ∀ o : NodeOutput, o.clone = o ↔ o.linkList ≠ some [] := by
    rintro ⟨name, type, links⟩
    simp [NodeOutput.clone, copyLinks_eq_self_iff]
  obtain ⟨id, type, title, mode, inputs, outputs, widgets⟩ := n
  simp [clone, Trim, map_eq_self_iff, houtput]

/-- So is a trim definition. -/
theorem Definition.clone_eq_self_iff (d : Definition) :
    d.clone = d ↔ d.linkList ≠ some [] ∧ ∀ n ∈ d.nodes, n.Trim := by
  obtain ⟨id, name, inputs, outputs, nodes, links, inputNode, outputNode, skipped⟩ := d
  simp [clone, Definition.nodes, optionMap_eq_self_iff, copyLinks_eq_self_iff,
    Node.clone_eq_self_iff, and_comm]

/-- A workflow is its own copy exactly if nothing gets lost. -/
theorem Workflow.clone_eq_self_iff (w : Workflow) : w.clone = w ↔ w.Trim := by
  have hsplit : w.Trim ↔ w.linkList ≠ some [] ∧ (∀ n ∈ w.nodes, n.Trim)
      ∧ ∀ d ∈ w.definitions, d.linkList ≠ some [] ∧ ∀ n ∈ d.nodes, n.Trim :=
    ⟨fun h => ⟨h.links, h.nodes, h.definitions⟩, fun h => ⟨h.1, h.2.1, h.2.2⟩⟩
  rw [hsplit]
  obtain ⟨nodes, links, definitions, skipped⟩ := w
  simp [clone, map_eq_self_iff, copyLinks_eq_self_iff, Node.clone_eq_self_iff,
    Definition.clone_eq_self_iff, and_left_comm]

def NodeOutput.filled (o : NodeOutput) : NodeOutput := { o with linkList := some o.links }

def Node.filled (n : Node) : Node := { n with outputs := n.outputs.map NodeOutput.filled }

def Definition.filled (d : Definition) : Definition :=
  { d with nodeList := d.nodeList.map (List.map Node.filled), linkList := some d.links }

/-- The workflow with an empty list in the place of each list of links
that is absent. -/
def Workflow.filled (w : Workflow) : Workflow :=
  { w with
    nodes := w.nodes.map Node.filled
    linkList := some w.links
    definitions := w.definitions.map Definition.filled }

/-- A copy differs in absent lists only. -/
theorem Node.filled_clone (n : Node) : n.clone.filled = n.filled := by
  have houtput : ∀ o : NodeOutput, o.clone.filled = o.filled := by
    intro o
    unfold NodeOutput.filled
    rw [o.links_clone]
    rfl
  unfold filled clone
  dsimp only
  rw [List.map_map]
  exact congrArg (Node.mk _ _ _ _ _ · _) (List.map_congr_left fun o _ => houtput o)

/-- So does that of a definition. -/
theorem Definition.filled_clone (d : Definition) : d.clone.filled = d.filled := by
  have hnodes : d.clone.nodeList.map (List.map Node.filled)
      = d.nodeList.map (List.map Node.filled) := by
    show (d.nodeList.map (List.map Node.clone)).map (List.map Node.filled) = _
    have hcomp : Node.filled ∘ Node.clone = Node.filled := funext Node.filled_clone
    rw [Option.map_map, List.map_comp_map, hcomp]
  unfold filled
  rw [hnodes, d.links_clone]
  rfl

/-- A copy says the same as the workflow. -/
theorem Workflow.filled_clone (w : Workflow) : w.clone.filled = w.filled := by
  have hnodes : w.clone.nodes.map Node.filled = w.nodes.map Node.filled := by
    show (w.nodes.map Node.clone).map Node.filled = _
    rw [List.map_map]
    exact List.map_congr_left fun n _ => n.filled_clone
  have hdefinitions : w.clone.definitions.map Definition.filled
      = w.definitions.map Definition.filled := by
    show (w.definitions.map Definition.clone).map Definition.filled = _
    rw [List.map_map]
    exact List.map_congr_left fun d _ => d.filled_clone
  unfold filled
  rw [hnodes, hdefinitions, w.links_clone]
  rfl

end PromptGraph.Editor

/-
What a read workflow holds. The widget values of its nodes come from
JSON texts, so each of them is canonical: reading is followed through
the nodes of the root and of every definition, everything else a
workflow holds being of no account here.

Main statement: `canonical_of_parse`.
-/
import PromptGraph.Editor.Reader
import PromptGraph.Proofs.Json.Canonical
import PromptGraph.Proofs.Json.Decode

namespace PromptGraph.Editor

open Json (Source Decode)
open Json.Decode (Ensures)

-- ==== widgets

/-- Every widget value is canonical. -/
def Widgets.Canonical : Widgets → Prop
  | .positional vs => ∀ v ∈ vs, v.Canonical
  | .keyed t => ∀ f ∈ t, f.2.Canonical

variable {text : String}

/-- What is read from a text is canonical. -/
theorem canonical_of_value? {j : Json}
    (h : (Source.read? .lenient text).bind Source.value? = some j) :
    j.Canonical := by
  obtain ⟨s, hs, hj⟩ := Option.bind_eq_some_iff.1 h
  exact (Source.spelled_of_read? hs).canonical hj

/-- So are widget values. -/
theorem Widgets.canonical_of_read {w : Widgets} (h : Widgets.read text = .ok w) :
    w.Canonical := by
  unfold Widgets.read at h
  dsimp only at h
  split at h
  · cases h
    exact fun v hv => absurd hv List.not_mem_nil
  · split at h
    · split at h
      · next fields hvalue =>
        cases h
        cases canonical_of_value? hvalue with
        | object _ hfields => exact hfields
      · cases h
    · split at h
      · next items hvalue =>
        cases h
        cases canonical_of_value? hvalue with
        | array hitems => exact hitems
      · cases h
    · cases h

/-- They are canonical in any place. -/
theorem ensures_readWidgets (v : Source) :
    Ensures (readWidgets v) Widgets.Canonical := by
  unfold readWidgets
  split
  · next w hw => exact .pure (Widgets.canonical_of_read hw)
  · exact .throw _

-- ==== nodes

/-- The widget values of the node are canonical. -/
def Node.Canonical (n : Node) : Prop := n.widgets.Canonical

/-- A node without values is canonical. -/
theorem Node.canonical_default : Node.Canonical {} :=
  fun _ hv => absurd hv List.not_mem_nil

/-- A node that is read is canonical. -/
theorem ensures_readNode (n : Node) (v : Source) (hn : n.Canonical) :
    Ensures (readNode n v) Node.Canonical := by
  -- every field but the last leaves the widgets as they are
  refine .record (S := fun _ => True) (fun r name x hr _ => ?_)
    (fun _ _ _ _ _ => trivial) hn
  split
  iterate 6 exact .bind (.of_forall fun _ => trivial) fun _ _ => .pure hr
  exact (ensures_readWidgets x).bind fun w hw => .pure hw

/-- So is a list of nodes. -/
theorem ensures_readNodes {old : Option (List Node)}
    (hold : ∀ n ∈ old.getD [], n.Canonical) (v : Source) :
    Ensures (Decode.list {} readNode old v)
      fun l => ∀ n ∈ l.getD [], n.Canonical :=
  .list Node.canonical_default ensures_readNode hold v

-- ==== documents

/-- The nodes of the definition have canonical widget values. -/
def Definition.Canonical (d : Definition) : Prop := ∀ n ∈ d.nodes, n.Canonical

/-- A field keeps a definition canonical. -/
theorem ensures_readDefinitionField (r : Draft Definition) (name : String)
    (v : Source) (hr : r.value.Canonical) :
    Ensures (readDefinitionField r name v) fun r => r.value.Canonical := by
  unfold readDefinitionField
  dsimp only
  split
  iterate 4 exact .bind (.of_forall fun _ => trivial) fun _ _ => .pure hr
  · exact (ensures_readNodes hr v).bind fun l hl => .pure hl
  iterate 3 exact .bind (.of_forall fun _ => trivial) fun _ _ => .pure hr

/-- A definition that is read is canonical. -/
theorem ensures_readDefinition (v : Source) :
    Ensures (readDefinition v) Definition.Canonical := by
  refine .sealed (.bind (P := fun r => r.value.Canonical) ?_ fun r hr => .pure ?_)
  · exact .record (S := fun _ => True)
      (fun r name x hr _ => ensures_readDefinitionField r name x hr)
      (fun _ _ _ _ _ => trivial) fun n hn => absurd hn List.not_mem_nil
  · unfold Draft.definition
    split
    · exact hr
    · exact hr

/-- All nodes of the workflow have canonical widget values. -/
structure Workflow.Canonical (w : Workflow) : Prop where
  nodes : ∀ n ∈ w.nodes, n.Canonical
  definitions : ∀ d ∈ w.definitions, d.Canonical

/-- Definitions that are read are canonical. -/
theorem ensures_readDefinitions {ds : List Definition}
    (hds : ∀ d ∈ ds, d.Canonical) (v : Source) :
    Ensures (readDefinitions ds v) fun ds => ∀ d ∈ ds, d.Canonical := by
  refine .record (S := fun _ => True) (fun ds name x hds _ => ?_)
    (fun _ _ _ _ _ => trivial) hds
  refine .bind (P := fun l => ∀ d ∈ l.getD [], d.Canonical) ?_
    fun l hl => .pure hl
  have hold : ∀ d ∈ (some ds).getD [], d.Canonical := hds
  exact .list (fun n hn => absurd hn List.not_mem_nil)
    (fun _ v _ => ensures_readDefinition v) hold x

/-- A field keeps a workflow canonical. -/
theorem ensures_readWorkflowField (r : Draft Workflow) (name : String)
    (v : Source) (hr : r.value.Canonical) :
    Ensures (readWorkflowField r name v) fun r => r.value.Canonical := by
  unfold readWorkflowField
  dsimp only
  split
  · have hold : ∀ n ∈ (some r.value.nodes).getD [], n.Canonical := hr.nodes
    exact (ensures_readNodes hold v).bind
      fun l hl => .pure ⟨hl, hr.definitions⟩
  · exact .bind (.of_forall fun _ => trivial) fun _ _ => .pure hr
  · exact (ensures_readDefinitions hr.definitions v).bind
      fun ds hds => .pure ⟨hr.nodes, hds⟩

/-- A workflow that is read is canonical. -/
theorem ensures_readWorkflow (v : Source) :
    Ensures (readWorkflow v) Workflow.Canonical := by
  refine .bind (P := fun r => r.value.Canonical) ?_ fun r hr => .pure ?_
  · refine .record (S := fun _ => True)
      (fun r name x hr _ => ensures_readWorkflowField r name x hr)
      (fun _ _ _ _ _ => trivial) ⟨fun n hn => ?_, fun d hd => ?_⟩
    · cases hn
    · cases hd
  · unfold Draft.workflow
    split
    · exact ⟨hr.nodes, hr.definitions⟩
    · exact hr

/-- So is what a file gives. -/
theorem Workflow.canonical_of_parse {w : Workflow}
    (h : Workflow.parse text = .ok w) : w.Canonical := by
  unfold Workflow.parse at h
  split at h
  · cases h
  · cases h
  · split at h
    · cases h
    · split at h
      · cases h
      · split at h
        · next w' hw =>
          cases h
          exact (ensures_readWorkflow _).run hw
        · cases h
      · cases h

end PromptGraph.Editor

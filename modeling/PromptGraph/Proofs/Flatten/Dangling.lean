/-
Which references dangle after a conversion. Of the references that it
makes, none: what names no entry is swept away (`ref_names_entry`). But
an input may also hold a literal that is written like a reference, and
the sweep passes over literals, while validation reads them as
references. So validation complains about unknown nodes exactly for such
literals (`unknown_reported_iff`), and each of them is a widget value of
some node of the workflow.
-/
import PromptGraph.Proofs.Execution.Validation
import PromptGraph.Proofs.Flatten.Values

namespace PromptGraph.Flatten

open Editor
open Execution (Input Ref Entry Graph)

variable {registry : Registry} {table : NodeTable} {source : String}
  {w : Workflow}

-- ==== references that hold

/-- Every reference of the graph names an entry. -/
theorem ref_names_entry {key name : String} {e : Entry} {r : Ref}
    (he : Assoc.get? (convertWorkflow registry table source w).graph key
      = some e) (hr : e.input? name = some (.ref r)) :
    Assoc.contains (convertWorkflow registry table source w).graph r.node
      = true := by
  obtain ⟨-, e₀, -, hinputs⟩ := settled_entry he
  obtain ⟨x, -, hsettles⟩ := (hinputs name _).1 hr
  rw [convertWorkflow_graph, contains_settledEntries]
  cases x with
  | literal j => cases hsettles
  | ref s => exact hsettles.2 r rfl

-- ==== literals like references

/-- Validation complains about unknown nodes exactly for literals that
are written like references and name no entry. -/
theorem unknown_reported_iff :
    (∃ d ∈ (convertWorkflow registry table source w).graph.validate,
        d.code = "GR-001")
      ↔ ∃ key e name v r,
          Assoc.get? (convertWorkflow registry table source w).graph key
            = some e
          ∧ e.input? name = some (.literal v)
          ∧ Ref.ofPair? Number.int64? v = some r
          ∧ Assoc.contains
              (convertWorkflow registry table source w).graph r.node
            = false := by
  constructor
  · rintro ⟨d, hd, hcode⟩
    obtain ⟨key, e, name, r, he, hr, hno, -⟩ :=
      (Graph.mem_validate_unknown hcode).1 hd
    obtain ⟨v, hmem, hv⟩ := Execution.Entry.mem_refs.1 hr
    have hinput : e.input? name = some v :=
      (settled_entry he).1.mem_iff.1 hmem
    cases v with
    | literal j => exact ⟨key, e, name, j, r, he, hinput, hv, hno⟩
    | ref s =>
        cases hv
        rw [ref_names_entry he hinput] at hno
        cases hno
  · rintro ⟨key, e, name, v, r, he, hinput, hv, hno⟩
    have hmem := (settled_entry he).1.mem_iff.2 hinput
    refine ⟨Execution.unknownNode key name r, ?_, rfl⟩
    refine (Graph.mem_validate_unknown rfl).2 ⟨key, e, name, r, he, ?_, hno,
      rfl⟩
    exact Execution.Entry.mem_refs.2 ⟨_, hmem, hv⟩

variable (registry table source w) in
/-- What validation finds of dangling references after a conversion.
Every reference that was made names an entry, and every literal is a
widget value of a node. Unknown nodes are reported exactly if a literal
is written like a reference and names no entry, so never if no widget
value is written so. -/
theorem only_written_references_dangle :
    (∀ key e name r,
      Assoc.get? (convertWorkflow registry table source w).graph key
        = some e → e.input? name = some (.ref r) →
      Assoc.contains (convertWorkflow registry table source w).graph r.node
        = true)
    ∧ (∀ key e name v,
      Assoc.get? (convertWorkflow registry table source w).graph key
        = some e → e.input? name = some (.literal v) →
      ∃ l ∈ levelsOf w, ∃ n ∈ l.nodes, WidgetValue n.widgets v)
    ∧ ((∃ d ∈ (convertWorkflow registry table source w).graph.validate,
        d.code = "GR-001")
      ↔ ∃ key e name v r,
          Assoc.get? (convertWorkflow registry table source w).graph key
            = some e
          ∧ e.input? name = some (.literal v)
          ∧ Ref.ofPair? Number.int64? v = some r
          ∧ Assoc.contains
              (convertWorkflow registry table source w).graph r.node
            = false)
    ∧ ((∀ l ∈ levelsOf w, ∀ n ∈ l.nodes, ∀ v, WidgetValue n.widgets v →
        Ref.ofPair? Number.int64? v = none) →
      ∀ d ∈ (convertWorkflow registry table source w).graph.validate,
        d.code ≠ "GR-001") := by
  refine ⟨fun key e name r => ref_names_entry,
    fun key e name v => literal_fromWidgets, unknown_reported_iff, ?_⟩
  intro hwidgets d hd hcode
  obtain ⟨key, e, name, v, r, he, hinput, hv, -⟩ :=
    unknown_reported_iff.1 ⟨d, hd, hcode⟩
  obtain ⟨l, hl, n, hn, hvalue⟩ := literal_fromWidgets he hinput
  rw [hwidgets l hl n hn v hvalue] at hv
  cases hv

/-- The type of a node with one text, which is not wired. -/
def textType : NodeType :=
  { name := "Text", displayName := "Text", category := "", isOutput := false,
    inputs := [.mk "text" "STRING" .string .required false none [] none],
    outputs := [] }

/-- A node wired from a muted one. -/
def mutedSource : Workflow :=
  { nodes := [{ id := ⟨"1"⟩, type := "Text", mode := Mode.never },
      { id := ⟨"2"⟩, type := "Text",
        inputs := [
          { name := "text", type := "STRING", link := some ⟨"1"⟩ }] }],
    linkList := some [{ id := ⟨"1"⟩, origin := ⟨"1"⟩, target := ⟨"2"⟩ }] }

/-- The wire from the muted node leaves no unknown node behind. -/
theorem only_written_references_dangle_mutedSource :
    ∀ d ∈ (convertWorkflow {} [("Text", textType)] ""
      mutedSource).graph.validate, d.code ≠ "GR-001" := by
  have hall := only_written_references_dangle {} [("Text", textType)] ""
    mutedSource
  refine hall.2.2.2 fun l hl n hn v hv => ?_
  obtain rfl := List.mem_singleton.1 hl
  have hwidgets : n.widgets = .positional [] := by
    rcases List.mem_cons.1 hn with rfl | hn
    · rfl
    · cases List.mem_singleton.1 hn
      rfl
  rw [hwidgets] at hv
  cases hv

/-- A node whose text is a list that looks like a reference. -/
def ghostNode : Node :=
  { id := ⟨"1"⟩, type := "Text",
    widgets := .positional [.array [.string "ghost", .number "0"]] }

def ghostText : Workflow := { nodes := [ghostNode] }

/-- The only place in it. -/
theorem ghostText_chain {p : List Frame}
    (hp : Chain (contextOf {} [("Text", textType)] ghostText)
      ghostText.root p) {n : Node}
    (hn : n ∈ (levelAt ghostText.root p).nodes) : p = [] ∧ n = ghostNode := by
  cases hp with
  | nil => exact ⟨rfl, List.mem_singleton.1 hn⟩
  | cons _ _ isInstance _ => exact absurd isInstance.2.1 List.not_mem_nil

/-- Its text is passed on, and validation takes it for a reference to a
node that is not there. -/
theorem written_reference_dangles :
    ∃ d ∈ (convertWorkflow {} [("Text", textType)] ""
      ghostText).graph.validate, d.code = "GR-001" := by
  have hu : UniqueNodeIds ghostText := by decide
  have hkey : Assoc.contains (convertWorkflow {} [("Text", textType)] ""
      ghostText).graph "1" = true :=
    (contains_graph_iff hu _).2
      ⟨[], ghostNode, .nil, .head _, by decide, by decide⟩
  obtain ⟨e, he⟩ := Assoc.contains_iff.1 hkey
  obtain ⟨-, e₀, he₀, hinputs⟩ := settled_entry he
  obtain ⟨p, n, s, hp, hn, -, -, rfl⟩ := inlined_entry hu he₀
  obtain ⟨rfl, rfl⟩ := ghostText_chain hp hn
  refine unknown_reported_iff.2 ⟨"1", e, "text",
    .array [.string "ghost", .number "0"], ⟨"ghost", 0⟩, he, ?_, by decide,
    ?_⟩
  · exact (hinputs _ _).2 ⟨_, .head _, rfl⟩
  · rw [Bool.eq_false_iff]
    intro hin
    obtain ⟨p, n, hp, hn, -, hid⟩ := (contains_graph_iff hu _).1 hin
    obtain ⟨rfl, rfl⟩ := ghostText_chain hp hn
    exact absurd hid (by decide)

end PromptGraph.Flatten

/-
What validation says about references: it names every input that is, or
is written like, a reference to something that is no entry, and nothing
else under that code (`mem_validate_unknown`).
-/
import PromptGraph.Execution.Validation
import PromptGraph.Proofs.Assoc

namespace PromptGraph.Execution

-- ==== order

variable {g : Graph} {e : Entry}

/-- The entries in the order of their ids are the entries that are
found. -/
theorem Graph.mem_ordered {key : String} :
    (key, e) ∈ g.ordered ↔ Assoc.get? g key = some e := by
  unfold Graph.ordered
  rw [List.mem_filterMap]
  constructor
  · rintro ⟨id, -, hid⟩
    obtain ⟨e', he', heq⟩ := Option.map_eq_some_iff.1 hid
    cases heq
    exact he'
  · intro he
    refine ⟨key, ?_, by rw [he]; rfl⟩
    unfold Graph.ids sortIds
    rw [(List.mergeSort_perm _ _).mem_iff, ← Assoc.contains_iff_mem_keys]
    exact Assoc.contains_iff.2 ⟨e, he⟩

/-- Entries, and the inputs of each, are tables that hold every name once,
in ascending order. -/
structure Graph.Canonical (g : Graph) : Prop where
  entries : g.Ascending
  inputs : ∀ e ∈ g, e.2.inputTable.Ascending

instance (g : Graph) : Decidable g.Canonical :=
  decidable_of_iff (g.Ascending ∧ ∀ e ∈ g, e.2.inputTable.Ascending)
    ⟨fun h => ⟨h.1, h.2⟩, fun h => ⟨h.entries, h.inputs⟩⟩

-- ==== references

theorem Entry.mem_refs {name : String} {r : Ref} :
    (name, r) ∈ e.refs
      ↔ ∃ v, (name, v) ∈ e.inputTable ∧ v.asRef? = some r := by
  unfold Entry.refs
  rw [List.mem_filterMap]
  constructor
  · rintro ⟨⟨k, v⟩, hmem, hv⟩
    obtain ⟨r', hr', heq⟩ := Option.map_eq_some_iff.1 hv
    cases heq
    exact ⟨v, hmem, hr'⟩
  · rintro ⟨v, hmem, hv⟩
    refine ⟨(name, v), hmem, ?_⟩
    dsimp only
    rw [hv]
    rfl

theorem noClass_code (id : String) : (noClass id).code = "GR-002" := rfl

theorem cycleFound_code (ids : List String) :
    (cycleFound ids).code = "GR-004" := rfl

/-- What there is to say about an entry: it has no class, or it refers to
something that is no entry. -/
theorem mem_checkEntry {id : String} {d : Diagnostic} :
    d ∈ checkEntry g id e
      ↔ (e.classType = "" ∧ d = noClass id)
        ∨ ∃ name r, (name, r) ∈ e.refs
            ∧ Assoc.contains g r.node = false ∧ d = unknownNode id name r := by
  unfold checkEntry
  rw [List.mem_append, List.mem_filterMap]
  refine or_congr ?_ ?_
  · split
    · next hclass => simp [hclass]
    · next hclass => simp [hclass]
  · constructor
    · rintro ⟨⟨name, r⟩, hr, hd⟩
      dsimp only at hd
      split at hd
      · cases hd
      · next hno =>
        cases hd
        exact ⟨name, r, hr, by simpa using hno, rfl⟩
    · rintro ⟨name, r, hr, hno, rfl⟩
      refine ⟨(name, r), hr, ?_⟩
      dsimp only
      rw [if_neg (by simp [hno])]

/-- The complaints about an entry with the code of unknown nodes. -/
theorem mem_checkEntry_unknown {id : String} {d : Diagnostic}
    (hcode : d.code = "GR-001") :
    d ∈ checkEntry g id e
      ↔ ∃ name r, (name, r) ∈ e.refs
          ∧ Assoc.contains g r.node = false ∧ d = unknownNode id name r := by
  rw [mem_checkEntry]
  refine or_iff_right fun h => ?_
  rw [h.2, noClass_code] at hcode
  exact absurd hcode (by decide)

/-- Validation complains about unknown nodes exactly where a reference
names no entry. -/
theorem Graph.mem_validate_unknown {d : Diagnostic} (hcode : d.code = "GR-001") :
    d ∈ g.validate
      ↔ ∃ key e name r, Assoc.get? g key = some e ∧ (name, r) ∈ e.refs
          ∧ Assoc.contains g r.node = false
          ∧ d = unknownNode key name r := by
  have hentries : d ∈ (g.ordered.flatMap fun x => checkEntry g x.1 x.2)
      ↔ ∃ key e name r, Assoc.get? g key = some e ∧ (name, r) ∈ e.refs
          ∧ Assoc.contains g r.node = false
          ∧ d = unknownNode key name r := by
    rw [List.mem_flatMap]
    constructor
    · rintro ⟨⟨key, e⟩, he, hd⟩
      obtain ⟨name, r, hr⟩ := (mem_checkEntry_unknown hcode).1 hd
      exact ⟨key, e, name, r, Graph.mem_ordered.1 he, hr⟩
    · rintro ⟨key, e, name, r, he, hr⟩
      exact ⟨(key, e), Graph.mem_ordered.2 he,
        (mem_checkEntry_unknown hcode).2 ⟨name, r, hr⟩⟩
  refine Iff.trans ?_ hentries
  unfold Graph.validate
  dsimp only
  split
  · exact Iff.rfl
  · -- the complaint about cycles has another code
    rw [List.mem_append, List.mem_singleton]
    refine ⟨fun h => h.resolve_right fun hd => ?_, Or.inl⟩
    rw [hd, cycleFound_code] at hcode
    exact absurd hcode (by decide)

end PromptGraph.Execution

/-
What edits do to a graph that can be executed. A text written into an
entry, an image, a date filled in: none of them makes a reference, so
the references that are there afterwards were there before. An override
may write a reference, and nothing else of what it writes matters.

`Graph.Edits` says this once for all of them. From it follows exactly
when an edited graph has errors (`Graph.Edits.hasErrors_iff`): some new
reference names no entry, or it closes a cycle.
-/
import PromptGraph.Execution.Edit
import PromptGraph.Proofs.Execution.Executability

namespace PromptGraph.Execution

open Relation (TransGen ReflTransGen)

variable {g g' : Graph} {new : String → String → Ref → Prop}

-- ==== executable

/-- An entry's input is, or is written like, a reference. -/
def Entry.Reads (e : Entry) (name : String) (r : Ref) : Prop :=
  ∃ v, e.input? name = some v ∧ v.asRef? = some r

def Graph.Reads (g : Graph) (id name : String) (r : Ref) : Prop :=
  ∃ e, Assoc.get? g id = some e ∧ e.Reads name r

variable {a b : String}

/-- An entry feeds another that reads it. -/
theorem Graph.feeds_iff :
    g.Feeds a b ↔ ∃ name r, g.Reads b name r ∧ r.node = a := by
  constructor
  · rintro ⟨e, name, v, r, he, hv, hr, ha⟩
    exact ⟨name, r, ⟨e, he, v, hv, hr⟩, ha⟩
  · rintro ⟨name, r, ⟨e, he, v, hv, hr⟩, ha⟩
    exact ⟨e, name, v, r, he, hv, hr, ha⟩

/-- Every entry has a class, every reference names an entry, and the
references form no cycle. -/
structure Graph.Executable (g : Graph) : Prop where
  classes : ∀ id e, Assoc.get? g id = some e → e.classType ≠ ""
  closed : g.Closed
  acyclic : ∀ a, ¬ TransGen g.Feeds a a

/-- Without errors a graph can be run. -/
theorem Graph.hasErrors_eq_false_iff (hg : g.Canonical) :
    hasErrors g.validate = false ↔ g.Executable := by
  have hnone : hasErrors g.validate = false ↔ ∀ d, d ∉ g.validate := by
    unfold hasErrors
    rw [List.any_eq_false]
    refine forall_congr' fun d => ?_
    exact ⟨fun h hd => h hd (Graph.isError_of_mem_validate hg hd),
      fun h hd => absurd hd h⟩
  rw [hnone]
  constructor
  · intro hquiet
    have hcomplaints : ∀ d, d ∉ g.complaints := fun d hd =>
      hquiet d ((Graph.mem_validate hg).2 (.inl hd))
    have hclosed : g.Closed := by
      by_contra hopen
      obtain ⟨d, hd, -⟩ := List.any_eq_true.1 ((Graph.any_unknown_iff hg).2 hopen)
      exact hcomplaints d hd
    refine ⟨fun id e he hclass => ?_, hclosed, fun a hcycle => ?_⟩
    · exact hcomplaints _ ((Graph.mem_complaints hg).2
        (.inl ⟨id, e, he, hclass, rfl⟩))
    · have hstuck := (Graph.stuck_ne_nil_iff hg hclosed).2 ⟨a, hcycle⟩
      exact hquiet _ ((Graph.mem_validate hg).2 (.inr ⟨hclosed, hstuck, rfl⟩))
  · intro h d hd
    rcases (Graph.mem_validate hg).1 hd with hd | ⟨-, hstuck, -⟩
    · rcases (Graph.mem_complaints hg).1 hd with
        ⟨id, e, he, hclass, -⟩ | ⟨id, e, name, v, r, he, hv, hr, hno, -⟩
      · exact h.classes id e he hclass
      · have hin := h.closed r.node id ⟨e, name, v, r, he, hv, hr, rfl⟩
        rw [hno] at hin
        cases hin
    · obtain ⟨a, hcycle⟩ := (Graph.stuck_ne_nil_iff hg h.closed).1 hstuck
      exact h.acyclic a hcycle

-- ==== edits

/-- A graph with some of its inputs changed: it has the same entries with
the same classes, and every reference in it was there before or is new
in the sense given. -/
structure Graph.Edits (new : String → String → Ref → Prop) (g g' : Graph) :
    Prop where
  canonical : g.Canonical → g'.Canonical
  classes : ∀ id, (Assoc.get? g' id).map Entry.classType
    = (Assoc.get? g id).map Entry.classType
  reads : ∀ id name r, g'.Reads id name r →
    g.Reads id name r ∨ new id name r

namespace Graph.Edits

theorem refl (g : Graph) : g.Edits new g :=
  ⟨fun h => h, fun _ => rfl, fun _ _ _ => Or.inl⟩

/-- Edits one after the other are edits. -/
theorem trans {g₁ g₂ g₃ : Graph} (h : g₁.Edits new g₂)
    (h' : g₂.Edits new g₃) : g₁.Edits new g₃ := by
  refine ⟨fun hg => h'.canonical (h.canonical hg),
    fun id => (h'.classes id).trans (h.classes id), fun id name r hr => ?_⟩
  rcases h'.reads id name r hr with hr | hr
  · exact h.reads id name r hr
  · exact .inr hr

/-- An edit leaves the ids. -/
theorem contains_eq (h : g.Edits new g') (id : String) :
    Assoc.contains g' id = Assoc.contains g id := by
  have hclass := congrArg Option.isSome (h.classes id)
  rw [Option.isSome_map, Option.isSome_map] at hclass
  exact hclass

/-- One entry is replaced by a changed copy. -/
theorem insert {id : String} {e e' : Entry} (he : Assoc.get? g id = some e)
    (hclass : e'.classType = e.classType)
    (hasc : e.inputTable.Ascending → e'.inputTable.Ascending)
    (hreads : ∀ name r, e'.Reads name r → e.Reads name r ∨ new id name r) :
    g.Edits new (Assoc.insert g id e') := by
  refine ⟨fun hg => ⟨hg.entries.insert id e', fun x hx => ?_⟩,
    fun other => ?_, fun other name r => ?_⟩
  · rcases Assoc.mem_insert hx with rfl | hx
    · exact hasc (hg.inputs _ (Assoc.mem_of_get? he))
    · exact hg.inputs x hx
  · rw [Assoc.get?_insert]
    split
    · next heq => rw [← heq, he, Option.map_some, Option.map_some, hclass]
    · rfl
  · rintro ⟨x, hx, hr⟩
    rw [Assoc.get?_insert] at hx
    split at hx
    · next heq =>
      cases hx
      subst heq
      exact (hreads name r hr).imp_left fun hr => ⟨e, he, hr⟩
    · exact .inl ⟨x, hx, hr⟩

/-- All entries are replaced by changed copies without new references. -/
theorem mapValues (g : Graph) {f : Entry → Entry}
    (hclass : ∀ e, (f e).classType = e.classType)
    (hasc : ∀ e, e.inputTable.Ascending → (f e).inputTable.Ascending)
    (hreads : ∀ e name r, (f e).Reads name r → e.Reads name r) :
    g.Edits new (Assoc.mapValues f g) := by
  refine ⟨fun hg => ⟨Assoc.ascending_mapValues.2 hg.entries, fun x hx => ?_⟩,
    fun id => ?_, fun id name r => ?_⟩
  · obtain ⟨e, he, heq⟩ := Assoc.mem_mapValues.1 hx
    rw [heq]
    exact hasc _ (hg.inputs _ he)
  · rw [Assoc.get?_mapValues, Option.map_map]
    exact congrArg (fun k => (Assoc.get? g id).map k) (funext hclass)
  · rintro ⟨x, hx, hr⟩
    rw [Assoc.get?_mapValues] at hx
    obtain ⟨e, he, rfl⟩ := Option.map_eq_some_iff.1 hx
    exact .inl ⟨e, he, hreads e name r hr⟩

/-- One edit after another, beside something else that is kept up. -/
theorem foldl {α β : Type} {step : Graph × β → α → Graph × β} {l : List α}
    (hstep : ∀ acc : Graph × β, ∀ x ∈ l, acc.1.Edits new (step acc x).1)
    (acc : Graph × β) : acc.1.Edits new (l.foldl step acc).1 := by
  induction l generalizing acc with
  | nil => exact .refl acc.1
  | cons x l ih =>
      refine (hstep acc x List.mem_cons_self).trans ?_
      exact ih (fun acc y hy => hstep acc y (List.mem_cons_of_mem _ hy)) _

-- ==== errors

/-- What feeds what after an edit: what did before, or a new reference
does. -/
theorem feeds (h : g.Edits new g') (hab : g'.Feeds a b) :
    g.Feeds a b ∨ ∃ name r, new b name r ∧ g'.Reads b name r ∧ r.node = a := by
  obtain ⟨name, r, hr, ha⟩ := Graph.feeds_iff.1 hab
  rcases h.reads b name r hr with hold | hnew
  · exact .inl (Graph.feeds_iff.2 ⟨name, r, hold, ha⟩)
  · exact .inr ⟨name, r, hnew, hr, ha⟩

/-- A way along references is one that was there before, or it takes a
new reference. -/
theorem transGen_feeds (h : g.Edits new g') (hab : TransGen g'.Feeds a b) :
    TransGen g.Feeds a b ∨ ∃ id name r, new id name r ∧ g'.Reads id name r
      ∧ ReflTransGen g'.Feeds a r.node ∧ ReflTransGen g'.Feeds id b := by
  induction hab with
  | single hb =>
      rcases h.feeds hb with hold | ⟨name, r, hnew, hr, rfl⟩
      · exact .inl (.single hold)
      · exact .inr ⟨_, name, r, hnew, hr, .refl, .refl⟩
  | tail hmid hb ih =>
      rcases ih with hold | ⟨id, name, r, hnew, hr, hto, hfrom⟩
      · rcases h.feeds hb with hb | ⟨name, r, hnew, hr, rfl⟩
        · exact .inl (hold.tail hb)
        · exact .inr ⟨_, name, r, hnew, hr, hmid.to_reflTransGen, .refl⟩
      · exact .inr ⟨id, name, r, hnew, hr, hto, hfrom.tail hb⟩

/-- A graph that could be executed has errors after an edit exactly if a
new reference names no entry, or leads back to the entry that holds
it. -/
theorem hasErrors_iff (h : g.Edits new g') (hg : g.Canonical)
    (hok : hasErrors g.validate = false) :
    hasErrors g'.validate = true
      ↔ ∃ id name r, new id name r ∧ g'.Reads id name r
          ∧ (Assoc.contains g' r.node = false
            ∨ ReflTransGen g'.Feeds id r.node) := by
  have hgood := (Graph.hasErrors_eq_false_iff hg).1 hok
  have hbad := Graph.hasErrors_eq_false_iff (h.canonical hg)
  rw [← Bool.not_eq_false, hbad]
  constructor
  · intro hnot
    by_contra hnone
    push Not at hnone
    refine hnot ⟨fun id e' he' => ?_, fun a b hab => ?_, fun a hcycle => ?_⟩
    · have hclass := h.classes id
      rw [he', Option.map_some] at hclass
      obtain ⟨e, he, heq⟩ := Option.map_eq_some_iff.1 hclass.symm
      rw [← heq]
      exact hgood.classes id e he
    · rcases h.feeds hab with hold | ⟨name, r, hnew, hr, rfl⟩
      · rw [h.contains_eq]
        exact hgood.closed a b hold
      · exact Bool.not_eq_false _ ▸ (hnone b name r hnew hr).1
    · rcases h.transGen_feeds hcycle with hold | ⟨id, name, r, hnew, hr, hto, hfrom⟩
      · exact hgood.acyclic a hold
      · exact (hnone id name r hnew hr).2 (hfrom.trans hto)
  · rintro ⟨id, name, r, -, hr, hwrong⟩ hgood'
    have hfeeds : g'.Feeds r.node id := Graph.feeds_iff.2 ⟨name, r, hr, rfl⟩
    rcases hwrong with hno | hback
    · have hin := hgood'.closed _ _ hfeeds
      rw [hno] at hin
      cases hin
    · exact hgood'.acyclic id (TransGen.tail' hback hfeeds)

end Graph.Edits

-- ==== entries

variable {e : Entry}

/-- A text that is set is no reference. -/
theorem Entry.reads_setInput {field text name : String} {r : Ref}
    (h : (e.setInput field (.literal (.string text))).Reads name r) :
    e.Reads name r := by
  obtain ⟨v, hv, hr⟩ := h
  have hv' : Assoc.get? (Assoc.insert e.inputTable field
      (.literal (.string text))) name = some v := hv
  rw [Assoc.get?_insert] at hv'
  split at hv'
  · -- a text is no reference
    cases hv'
    cases hr
  · exact ⟨v, hv', hr⟩

/-- A text in an input of an entry. -/
theorem Graph.edits_setInput {id field text : String}
    (he : Assoc.get? g id = some e) :
    g.Edits new
      (Assoc.insert g id (e.setInput field (.literal (.string text)))) :=
  .insert he rfl (fun hasc => hasc.insert _ _)
    fun _ _ hr => .inl (Entry.reads_setInput hr)

theorem Input.asRef?_ofJson (v : Json) :
    (Input.ofJson v).asRef? = Ref.ofPair? Number.int64? v := by
  unfold Input.ofJson
  split
  · next r hr => exact hr.symm
  · rfl

theorem Entry.inputTable_override (e : Entry) (updates : Assoc Json) :
    (e.override updates).inputTable
      = (Assoc.mapValues Input.ofJson updates).foldl
          (fun t x => Assoc.insert t x.1 x.2) e.inputTable := by
  unfold Assoc.mapValues
  rw [List.foldl_map]
  rfl

/-- An override brings in the references it writes. -/
theorem Entry.reads_override {updates : Assoc Json} {name : String} {r : Ref}
    (h : (e.override updates).Reads name r) :
    e.Reads name r
      ∨ ∃ v, (name, v) ∈ updates ∧ Ref.ofPair? Number.int64? v = some r := by
  obtain ⟨i, hi, hr⟩ := h
  unfold Entry.input? at hi
  rw [Entry.inputTable_override] at hi
  rcases Assoc.get?_foldl_insert hi with hi | hi
  · exact .inl ⟨i, hi, hr⟩
  · obtain ⟨v, hv, rfl⟩ := Assoc.mem_mapValues.1 hi
    rw [Input.asRef?_ofJson] at hr
    exact .inr ⟨v, hv, hr⟩

-- ==== graphs

/-- A copy is an edit. -/
theorem Graph.edits_copy (g : Graph) : g.Edits new g.copy :=
  .mapValues g (fun _ => rfl) (fun _ hasc => hasc) fun _ _ _ hr => hr

/-- So is setting a text. -/
theorem Graph.edits_setText (g : Graph) (text : String)
    (classTypes : List String) :
    g.Edits new (g.setText text classTypes).1 := by
  refine Graph.Edits.foldl (fun acc id _ => ?_) (g, [])
  dsimp only
  split
  · exact .refl acc.1
  · next e he =>
    split
    · exact Graph.edits_setInput he
    · exact .refl acc.1

/-- The overrides write a value that is written like a reference. -/
def Overrides.Write (o : Overrides) (id name : String) (r : Ref) : Prop :=
  ∃ updates v, (id, updates) ∈ o ∧ (name, v) ∈ updates
    ∧ Ref.ofPair? Number.int64? v = some r

/-- Overrides are an edit. -/
theorem Graph.edits_applyOverrides (g : Graph) (o : Overrides) :
    g.Edits o.Write (g.applyOverrides o).1 := by
  refine Graph.Edits.foldl (fun acc x hx => ?_) (g, [])
  obtain ⟨id, updates⟩ := x
  dsimp only
  split
  · next e he =>
    refine .insert he rfl (fun hasc => ?_) fun name r hr => ?_
    · rw [Entry.inputTable_override]
      exact hasc.foldl_insert _
    · refine (Entry.reads_override hr).imp_right ?_
      rintro ⟨v, hv, hvr⟩
      exact ⟨updates, v, hx, hv, hvr⟩
  · exact .refl acc.1

/-- Dates change no reference. -/
theorem Input.asRef?_resolveDates (now : DateTime) (i : Input) :
    (i.resolveDates now).1.asRef? = i.asRef? := by
  unfold Input.resolveDates
  split
  · dsimp only
    split
    · rfl
    · rfl
  · rfl

theorem resolveTable_fst (now : DateTime) (t : Assoc Input) :
    (resolveTable now t).1
      = Assoc.mapValues (fun i => (i.resolveDates now).1) t := by
  induction t with
  | nil => rfl
  | cons x t ih =>
      unfold resolveTable Assoc.mapValues
      rw [List.map_cons]
      exact congrArg _ ih

/-- An entry with the dates in its texts filled in. -/
def Entry.resolveDates (now : DateTime) (e : Entry) : Entry :=
  { e with inputs := e.inputs.map fun t => (resolveTable now t).1 }

/-- Dates are resolved entry by entry. -/
theorem Graph.resolveDates_fst (now : DateTime) (g : Graph) :
    (g.resolveDates now).1 = Assoc.mapValues (Entry.resolveDates now) g := by
  induction g with
  | nil => rfl
  | cons x g ih =>
      obtain ⟨id, c, inputs, title⟩ := x
      cases inputs with
      | none => exact congrArg _ ih
      | some t => exact congrArg _ ih

theorem Entry.inputTable_resolveDates (now : DateTime) (e : Entry) :
    (e.resolveDates now).inputTable
      = Assoc.mapValues (fun i => (i.resolveDates now).1) e.inputTable := by
  obtain ⟨c, inputs, title⟩ := e
  cases inputs with
  | none => rfl
  | some t => exact resolveTable_fst now t

/-- Resolving dates is an edit. -/
theorem Graph.edits_resolveDates (now : DateTime) (g : Graph) :
    g.Edits new (g.resolveDates now).1 := by
  rw [Graph.resolveDates_fst]
  refine .mapValues g (fun _ => rfl) (fun e hasc => ?_) fun e name r hr => ?_
  · rw [Entry.inputTable_resolveDates]
    exact Assoc.ascending_mapValues.2 hasc
  · obtain ⟨v, hv, hvr⟩ := hr
    unfold Entry.input? at hv
    rw [Entry.inputTable_resolveDates, Assoc.get?_mapValues] at hv
    obtain ⟨i, hi, rfl⟩ := Option.map_eq_some_iff.1 hv
    rw [Input.asRef?_resolveDates] at hvr
    exact ⟨i, hi, hvr⟩

end PromptGraph.Execution

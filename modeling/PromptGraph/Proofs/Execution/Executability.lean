/-
Validation decides whether a graph can be executed: whether every entry
has a class, every reference names an entry, and the entries can be
ranked so that each one ranks above all that it reads.

The search for cycles counts references down (`Countdown.lean`). Here its
outcome is read without the run. An entry is stuck exactly if some way
back along its references goes on for ever (`Graph.mem_stuck`), and since
a graph is finite, such a way enters a cycle (`Sequenced.left_iff`).
-/
import PromptGraph.Proofs.Execution.Countdown
import PromptGraph.Proofs.Execution.Validation

namespace PromptGraph.Execution

open Relation (TransGen ReflTransGen)

-- ==== who reads whom

/-- An input of `b` is, or is written like, a reference to `a`. -/
def Graph.Feeds (g : Graph) (a b : String) : Prop :=
  ∃ e name v r, Assoc.get? g b = some e ∧ e.input? name = some v
    ∧ v.asRef? = some r ∧ r.node = a

/-- Every reference names an entry. -/
def Graph.Closed (g : Graph) : Prop :=
  ∀ a b, g.Feeds a b → Assoc.contains g a = true

/-- The entry is on a cycle of references or downstream of one. -/
def Graph.BehindCycle (g : Graph) (id : String) : Prop :=
  ∃ a, TransGen g.Feeds a a ∧ ReflTransGen g.Feeds a id

variable {g : Graph} {e : Entry}

/-- The references of an entry. -/
theorem Graph.Canonical.mem_refs (hg : g.Canonical) {id name : String}
    {r : Ref} (he : Assoc.get? g id = some e) :
    (name, r) ∈ e.refs
      ↔ ∃ v, e.input? name = some v ∧ v.asRef? = some r := by
  have hasc := hg.inputs _ (Assoc.mem_of_get? he)
  rw [Entry.mem_refs]
  exact exists_congr fun v => and_congr_left fun _ => hasc.mem_iff

variable {a b : String}

/-- The wires of a graph. -/
theorem Graph.mem_wires (hg : g.Canonical) :
    (a, b) ∈ g.wires ↔ g.Feeds a b := by
  unfold Graph.wires
  rw [List.mem_flatMap]
  constructor
  · rintro ⟨⟨id, e⟩, he, hmem⟩
    obtain ⟨⟨name, r⟩, hr, heq⟩ := List.mem_map.1 hmem
    cases heq
    have he' := Graph.mem_ordered.1 he
    obtain ⟨v, hv, hvr⟩ := (hg.mem_refs he').1 hr
    exact ⟨e, name, v, r, he', hv, hvr, rfl⟩
  · rintro ⟨e, name, v, r, he, hv, hvr, rfl⟩
    refine ⟨(b, e), Graph.mem_ordered.2 he, List.mem_map.2 ⟨(name, r), ?_, rfl⟩⟩
    exact (hg.mem_refs he).2 ⟨v, hv, hvr⟩

/-- Each leads to an entry. -/
theorem Graph.wires_reader {w : String × String} (hw : w ∈ g.wires) :
    w.2 ∈ g.ids := by
  obtain ⟨⟨id, e⟩, he, hmem⟩ := List.mem_flatMap.1 hw
  obtain ⟨x, -, rfl⟩ := List.mem_map.1 hmem
  exact Graph.mem_ids.2 ⟨e, Graph.mem_ordered.1 he⟩

-- ==== the countdown

variable {id : String}

/-- Among entries with different ids, the references held under an id
are those of its entry. -/
theorem countP_wires {l : List (String × Entry)} (hl : (l.map Prod.fst).Nodup)
    (he : (id, e) ∈ l) :
    (l.flatMap fun x => x.2.refs.map fun y => (y.2.node, x.1)).countP
        (fun w => decide (w.2 = id))
      = e.refs.length := by
  induction l with
  | nil => cases he
  | cons x l ih =>
      obtain ⟨hx, hl⟩ := List.nodup_cons.1 hl
      rw [List.flatMap_cons, List.countP_append, List.countP_map]
      rcases List.mem_cons.1 he with rfl | he
      · have hrest : (l.flatMap fun x => x.2.refs.map
            fun y => (y.2.node, x.1)).countP (fun w => decide (w.2 = id))
              = 0 := by
          rw [List.countP_eq_zero]
          intro w hw hid
          obtain ⟨y, hy, hmem⟩ := List.mem_flatMap.1 hw
          obtain ⟨z, -, rfl⟩ := List.mem_map.1 hmem
          exact hx (List.mem_map.2 ⟨y, hy, of_decide_eq_true hid⟩)
        rw [hrest, Nat.add_zero]
        exact List.countP_eq_length.2 fun _ _ => decide_eq_true rfl
      · have hne : x.1 ≠ id := by
          rintro rfl
          exact hx (List.mem_map.2 ⟨_, he, rfl⟩)
        rw [ih hl he, List.countP_eq_zero.2, Nat.zero_add]
        exact fun y _ hid => hne (of_decide_eq_true hid)

theorem Graph.map_fst_ordered (g : Graph) : g.ordered.map Prod.fst = g.ids := by
  unfold Graph.ordered
  rw [List.map_filterMap]
  have hall : ∀ l : List String, (∀ id ∈ l, id ∈ g.ids) →
      l.filterMap (fun id => ((Assoc.get? g id).map (id, ·)).map Prod.fst)
        = l := by
    intro l hl
    induction l with
    | nil => rfl
    | cons id l ih =>
        obtain ⟨e, he⟩ := Graph.mem_ids.1 (hl id List.mem_cons_self)
        rw [List.filterMap_cons, he]
        exact congrArg _ (ih fun x hx => hl x (List.mem_cons_of_mem _ hx))
  exact hall g.ids fun _ hid => hid

/-- At first all references of an entry are open. -/
theorem Graph.waitsOf_countdown (hg : g.Canonical) (hid : id ∈ g.ids) :
    g.countdown.waitsOf id = Countdown.openWires g.wires [] id := by
  obtain ⟨e, he⟩ := Graph.mem_ids.1 hid
  have hget : g.countdown.waitsOf id = e.refs.length := by
    show (Assoc.get? (Assoc.mapValues (fun x => x.refs.length) g) id).getD 0
      = _
    rw [Assoc.get?_mapValues, he]
    rfl
  have hnodup : (g.ordered.map Prod.fst).Nodup := by
    rw [g.map_fst_ordered]
    exact Graph.nodup_ids hg.entries
  rw [hget, ← countP_wires hnodup (Graph.mem_ordered.2 he)]
  unfold Countdown.openWires Graph.wires
  refine List.countP_congr fun w _ => ?_
  simp

/-- The countdown starts with nothing taken. -/
theorem Graph.countdown_progress (hg : g.Canonical) :
    Countdown.Progress g.wires g.ids [] g.countdown := by
  refine ⟨fun id hid => Graph.waitsOf_countdown hg hid, ?_, fun id => ?_,
    .nil⟩
  · exact (Graph.nodup_ids hg.entries).filter _
  · show id ∈ g.ids.filter _ ↔ _
    rw [List.mem_filter, decide_eq_true_eq]
    refine and_congr_right fun hid => ?_
    rw [← Graph.waitsOf_countdown hg hid]
    rfl

/-- What the countdown leaves behind: the entries that are not stuck, in
an order in which each comes after all that it reads, while each stuck
one reads something that is not among them. -/
theorem Graph.exists_history (hg : g.Canonical) :
    ∃ history : List String, history.Nodup
      ∧ Sequenced g.wires history
      ∧ (∀ id ∈ g.ids, id ∈ history ↔ id ∉ g.stuck)
      ∧ ∀ id ∈ g.stuck, ∃ a, (a, id) ∈ g.wires ∧ a ∉ history := by
  have hfuel : g.ids.length ≤ g.length + ([] : List String).length := by
    rw [g.length_ids]
    exact Nat.le_refl _
  obtain ⟨history, hprogress, hqueue⟩ :=
    (Graph.countdown_progress hg).run (fun w => Graph.wires_reader) hfuel
  obtain ⟨hwaits, hnodup, hsettled, hseq⟩ := hprogress
  rw [hqueue, List.append_nil] at hnodup hsettled
  have hstuck : ∀ id, id ∈ g.stuck
      ↔ id ∈ g.ids ∧ Countdown.openWires g.wires history id ≠ 0 := by
    intro id
    unfold Graph.stuck
    rw [List.mem_filter, decide_eq_true_eq]
    refine and_congr_right fun hid => ?_
    rw [← hwaits id hid, Nat.pos_iff_ne_zero]
  refine ⟨history, hnodup, hseq, fun id hid => ?_, fun id hid => ?_⟩
  · rw [hsettled, hstuck]
    simp [hid]
  · have hopen := ((hstuck id).1 hid).2
    rw [ne_eq, Countdown.openWires_eq_zero] at hopen
    push Not at hopen
    exact hopen

-- ==== cycles

/-- Behind a cycle, a way back goes on for ever. -/
theorem Graph.BehindCycle.not_acc (h : g.BehindCycle id) :
    ¬ Acc g.Feeds id :=
  PromptGraph.BehindCycle.not_acc h

/-- What feeds an entry is one. -/
theorem Graph.Closed.mem_ids (hclosed : g.Closed) (h : g.Feeds a b) :
    a ∈ g.ids :=
  Graph.mem_ids.2 (Assoc.contains_iff.1 (hclosed a b h))

/-- The stuck entries are those behind a cycle. -/
theorem Graph.mem_stuck (hg : g.Canonical) (hclosed : g.Closed) :
    id ∈ g.stuck ↔ g.BehindCycle id := by
  obtain ⟨history, -, hseq, hids, hstuck⟩ := Graph.exists_history hg
  have hfeeds : g.Feeds = fun a b => (a, b) ∈ g.wires := by
    funext a b
    exact propext (Graph.mem_wires hg).symm
  have hlisted : ∀ {x}, x ∈ g.stuck → x ∈ g.ids :=
    fun hx => List.mem_of_mem_filter hx
  have hleft : id ∈ g.ids → (id ∉ history ↔ g.BehindCycle id) := by
    intro hid
    unfold Graph.BehindCycle
    rw [hfeeds]
    refine hseq.left_iff
      (fun w hw => hclosed.mem_ids ((Graph.mem_wires hg).1 hw))
      (fun b hb hout => hstuck b ?_) hid
    by_contra hfree
    exact hout ((hids b hb).2 hfree)
  constructor
  · intro hid
    refine (hleft (hlisted hid)).1 fun hmem => ?_
    exact (hids id (hlisted hid)).1 hmem hid
  · intro hbehind
    have hin : id ∈ g.ids := by
      obtain ⟨a, hcycle, hdown⟩ := hbehind
      obtain ⟨b, -, e, -, -, -, he, -⟩ :=
        TransGen.tail'_iff.1 (hcycle.trans_left hdown)
      exact Graph.mem_ids.2 ⟨e, he⟩
    by_contra hfree
    exact (hleft hin).2 hbehind ((hids id hin).2 hfree)

/-- Entries can be ranked exactly if none is stuck. -/
theorem Graph.exists_ranking_iff (hg : g.Canonical) (hclosed : g.Closed) :
    (∃ rank : String → Nat, ∀ a b, g.Feeds a b → rank a < rank b)
      ↔ g.stuck = [] := by
  constructor
  · rintro ⟨rank, hrank⟩
    refine List.eq_nil_iff_forall_not_mem.2 fun id hid => ?_
    refine ((Graph.mem_stuck hg hclosed).1 hid).not_acc ?_
    have hwf : WellFounded g.Feeds :=
      Subrelation.wf (fun {a b} hab => hrank a b hab) (measure rank).wf
    exact hwf.apply id
  · intro hnone
    obtain ⟨history, hnodup, hseq, hids, -⟩ := Graph.exists_history hg
    obtain ⟨rank, -, hrank⟩ := hseq.ranking hnodup
    refine ⟨rank, fun a b hab => ?_⟩
    obtain ⟨e, -, -, -, he, -⟩ := id hab
    have hb : b ∈ history := by
      rw [hids b (Graph.mem_ids.2 ⟨e, he⟩), hnone]
      exact List.not_mem_nil
    exact (hrank a b hb ((Graph.mem_wires hg).2 hab)).2

-- ==== verdicts

/-- What validation has to say about single entries. -/
def Graph.complaints (g : Graph) : List Diagnostic :=
  g.ordered.flatMap fun x => checkEntry g x.1 x.2

/-- Complaints, and cycles if all is known. -/
theorem Graph.validate_eq (g : Graph) :
    g.validate
      = if g.complaints.any (·.code = "GR-001") || g.stuck.isEmpty
        then g.complaints else g.complaints ++ [cycleFound g.stuck] := rfl

variable {d : Diagnostic}

/-- A complaint about an entry: it has no class, or one of its references
names no entry. -/
theorem Graph.mem_complaints (hg : g.Canonical) :
    d ∈ g.complaints
      ↔ (∃ id e, Assoc.get? g id = some e ∧ e.classType = ""
          ∧ d = noClass id)
        ∨ ∃ id e name v r, Assoc.get? g id = some e
            ∧ e.input? name = some v ∧ v.asRef? = some r
            ∧ Assoc.contains g r.node = false ∧ d = unknownNode id name r := by
  unfold Graph.complaints
  rw [List.mem_flatMap]
  constructor
  · rintro ⟨⟨id, e⟩, he, hd⟩
    have he' := Graph.mem_ordered.1 he
    rcases mem_checkEntry.1 hd with ⟨hclass, hd⟩ | ⟨name, r, hr, hno, hd⟩
    · exact Or.inl ⟨id, e, he', hclass, hd⟩
    · obtain ⟨v, hv, hvr⟩ := (hg.mem_refs he').1 hr
      exact Or.inr ⟨id, e, name, v, r, he', hv, hvr, hno, hd⟩
  · rintro (⟨id, e, he, hclass, hd⟩ | ⟨id, e, name, v, r, he, hv, hvr, hno, hd⟩)
    · exact ⟨(id, e), Graph.mem_ordered.2 he, mem_checkEntry.2 (.inl ⟨hclass, hd⟩)⟩
    · exact ⟨(id, e), Graph.mem_ordered.2 he, mem_checkEntry.2
        (.inr ⟨name, r, (hg.mem_refs he).2 ⟨v, hv, hvr⟩, hno, hd⟩)⟩

/-- Some complaint is about an unknown node exactly if some reference
names no entry. -/
theorem Graph.any_unknown_iff (hg : g.Canonical) :
    g.complaints.any (·.code = "GR-001") = true ↔ ¬ g.Closed := by
  rw [List.any_eq_true]
  unfold Graph.Closed
  push Not
  constructor
  · rintro ⟨d, hd, hcode⟩
    rcases (Graph.mem_complaints hg).1 hd with
      ⟨id, e, -, -, rfl⟩ | ⟨id, e, name, v, r, he, hv, hvr, hno, -⟩
    · exact absurd (of_decide_eq_true hcode) (by simp [noClass_code])
    · exact ⟨r.node, id, ⟨e, name, v, r, he, hv, hvr, rfl⟩, by simp [hno]⟩
  · rintro ⟨a, id, ⟨e, name, v, r, he, hv, hvr, rfl⟩, hno⟩
    refine ⟨unknownNode id name r, ?_, decide_eq_true rfl⟩
    exact (Graph.mem_complaints hg).2
      (.inr ⟨id, e, name, v, r, he, hv, hvr, by simpa using hno, rfl⟩)

/-- Every complaint is an error. -/
theorem Graph.complaint_isError (hg : g.Canonical) (hd : d ∈ g.complaints) :
    d.isError = true ∧ d.code ≠ "GR-004" := by
  rcases (Graph.mem_complaints hg).1 hd with
    ⟨id, e, -, -, rfl⟩ | ⟨id, e, name, v, r, -, -, -, -, rfl⟩
  · exact ⟨rfl, by simp [noClass_code]⟩
  · exact ⟨rfl, show ("GR-001" : String) ≠ "GR-004" by decide⟩

/-- Everything that validation says is an error: a complaint about an
entry or, if all references name entries, the report of a cycle. -/
theorem Graph.mem_validate (hg : g.Canonical) :
    d ∈ g.validate
      ↔ d ∈ g.complaints
        ∨ g.Closed ∧ g.stuck ≠ [] ∧ d = cycleFound g.stuck := by
  have hunknown := Graph.any_unknown_iff hg
  rw [g.validate_eq]
  split
  · next hquiet =>
    rw [Bool.or_eq_true, hunknown, List.isEmpty_iff] at hquiet
    refine ⟨Or.inl, fun h => h.resolve_right ?_⟩
    rintro ⟨hclosed, hstuck, -⟩
    rcases hquiet with hquiet | hquiet
    · exact hquiet hclosed
    · exact hstuck hquiet
  · next hcycle =>
    rw [Bool.or_eq_true, hunknown, List.isEmpty_iff] at hcycle
    push Not at hcycle
    rw [List.mem_append, List.mem_singleton]
    exact or_congr_right ⟨fun hd => ⟨hcycle.1, hcycle.2, hd⟩, fun h => h.2.2⟩

/-- All that is reported is an error. -/
theorem Graph.isError_of_mem_validate (hg : g.Canonical) (hd : d ∈ g.validate) :
    d.isError = true := by
  rcases (Graph.mem_validate hg).1 hd with hd | ⟨-, -, rfl⟩
  · exact (Graph.complaint_isError hg hd).1
  · rfl

/-- Entries are stuck exactly if there is a cycle. -/
theorem Graph.stuck_ne_nil_iff (hg : g.Canonical) (hclosed : g.Closed) :
    g.stuck ≠ [] ↔ ∃ a, TransGen g.Feeds a a := by
  rw [ne_eq, List.eq_nil_iff_forall_not_mem]
  push Not
  constructor
  · rintro ⟨id, hid⟩
    obtain ⟨a, hcycle, -⟩ := (Graph.mem_stuck hg hclosed).1 hid
    exact ⟨a, hcycle⟩
  · rintro ⟨a, hcycle⟩
    exact ⟨a, (Graph.mem_stuck hg hclosed).2 ⟨a, hcycle, .refl⟩⟩

/-- Validation finds an error exactly if an entry has no class, a
reference names no entry, or the entries cannot be ranked so that every
reference goes from a lower rank to a higher one. If all references name
entries, a cycle is reported exactly if there is one, and the report
lists the entries on a cycle or downstream of one in id order. -/
theorem validate_decides_executability {g : Graph} (hg : g.Canonical) :
    (hasErrors g.validate = true
      ↔ (∃ id e, Assoc.get? g id = some e ∧ e.classType = "")
        ∨ (∃ a b, g.Feeds a b ∧ Assoc.contains g a = false)
        ∨ ¬ ∃ rank : String → Nat, ∀ a b, g.Feeds a b → rank a < rank b)
    ∧ ((∀ a b, g.Feeds a b → Assoc.contains g a = true) →
        ∃ ids : List String,
          ids.Pairwise (fun a b => lessId a b = true)
          ∧ (∀ id, id ∈ ids
              ↔ ∃ a, TransGen g.Feeds a a ∧ ReflTransGen g.Feeds a id)
          ∧ ∀ d : Diagnostic, d.code = "GR-004" →
              (d ∈ g.validate
                ↔ (∃ a, TransGen g.Feeds a a) ∧ d = cycleFound ids)) := by
  refine ⟨?_, fun hclosed => ?_⟩
  · unfold hasErrors
    rw [List.any_eq_true]
    constructor
    · rintro ⟨d, hd, -⟩
      rcases (Graph.mem_validate hg).1 hd with hd | ⟨hclosed, hstuck, -⟩
      · rcases (Graph.mem_complaints hg).1 hd with
          ⟨id, e, he, hclass, -⟩ | ⟨id, e, name, v, r, he, hv, hvr, hno, -⟩
        · exact .inl ⟨id, e, he, hclass⟩
        · exact .inr (.inl ⟨r.node, id, ⟨e, name, v, r, he, hv, hvr, rfl⟩, hno⟩)
      · rw [Graph.exists_ranking_iff hg hclosed]
        exact .inr (.inr hstuck)
    · intro h
      suffices hsome : ∃ d, d ∈ g.validate by
        obtain ⟨d, hd⟩ := hsome
        exact ⟨d, hd, Graph.isError_of_mem_validate hg hd⟩
      rcases h with ⟨id, e, he, hclass⟩
        | ⟨a, id, ⟨e, name, v, r, he, hv, hvr, rfl⟩, hno⟩ | hrank
      · exact ⟨_, (Graph.mem_validate hg).2 (.inl ((Graph.mem_complaints hg).2
          (.inl ⟨id, e, he, hclass, rfl⟩)))⟩
      · exact ⟨_, (Graph.mem_validate hg).2 (.inl ((Graph.mem_complaints hg).2
          (.inr ⟨id, e, name, v, r, he, hv, hvr, hno, rfl⟩)))⟩
      · by_cases hclosed : g.Closed
        · rw [Graph.exists_ranking_iff hg hclosed] at hrank
          exact ⟨_, (Graph.mem_validate hg).2 (.inr ⟨hclosed, hrank, rfl⟩)⟩
        · -- a dangling reference is reported, whatever the ranking
          obtain ⟨d, hd, -⟩ := List.any_eq_true.1
            ((Graph.any_unknown_iff hg).2 hclosed)
          exact ⟨d, (Graph.mem_validate hg).2 (.inl hd)⟩
  · refine ⟨g.stuck, (Graph.ids_ordered hg.entries).filter _,
      fun id => Graph.mem_stuck hg hclosed, fun d hcode => ?_⟩
    rw [Graph.mem_validate hg, ← Graph.stuck_ne_nil_iff hg hclosed]
    constructor
    · rintro (hd | ⟨-, hstuck, hd⟩)
      · exact absurd hcode (Graph.complaint_isError hg hd).2
      · exact ⟨hstuck, hd⟩
    · rintro ⟨hstuck, hd⟩
      exact .inr ⟨hclosed, hstuck, hd⟩

/-- Two entries that read each other, one that reads the first of them
twice, and one that reads nothing. -/
def knot : Graph :=
  [("1", { classType := "A", inputs := some [("x", .ref ⟨"2", 0⟩)] }),
   ("2", { classType := "A", inputs := some [("x", .ref ⟨"1", 0⟩)] }),
   ("3", { classType := "B", inputs := some [
      ("x", .ref ⟨"1", 0⟩),
      ("y", .literal (.array [.string "1", .number "0"]))] }),
   ("4", { classType := "C" })]

theorem knot_canonical : knot.Canonical := by decide

theorem knot_feeds :
    knot.Feeds a b ↔ (a, b) ∈ [("2", "1"), ("1", "2"), ("1", "3"), ("1", "3")] := by
  have hlist : (knot.flatMap fun e => e.2.refs.map fun x => (x.2.node, e.1))
      = [("2", "1"), ("1", "2"), ("1", "3"), ("1", "3")] := by
    decide
  rw [← Graph.mem_wires knot_canonical, ← hlist]
  unfold Graph.wires
  rw [List.mem_flatMap, List.mem_flatMap]
  refine exists_congr fun e => and_congr_left fun _ => ?_
  rw [Graph.mem_ordered, ← knot_canonical.entries.mem_iff]

/-- Its references name entries, and its cycle is reported, together with
the entry that reads it and without the one that does not. -/
theorem validate_decides_executability_knot :
    hasErrors knot.validate = true
      ∧ ∃ ids, "3" ∈ ids ∧ "4" ∉ ids ∧ cycleFound ids ∈ knot.validate := by
  obtain ⟨herrors, hreport⟩ := validate_decides_executability knot_canonical
  have h12 : knot.Feeds "1" "2" := knot_feeds.2 (by decide)
  have h21 : knot.Feeds "2" "1" := knot_feeds.2 (by decide)
  have h13 : knot.Feeds "1" "3" := knot_feeds.2 (by decide)
  have hcycle : TransGen knot.Feeds "1" "1" := .tail (.single h12) h21
  have hclosed : ∀ a b, knot.Feeds a b → Assoc.contains knot a = true := by
    intro a b hab
    have hmem := knot_feeds.1 hab
    simp only [List.mem_cons, Prod.mk.injEq, List.not_mem_nil, or_false]
      at hmem
    rcases hmem with ⟨rfl, -⟩ | ⟨rfl, -⟩ | ⟨rfl, -⟩ | ⟨rfl, -⟩
    · decide
    · decide
    · decide
    · decide
  obtain ⟨ids, -, hids, hfound⟩ := hreport hclosed
  refine ⟨herrors.2 (.inr (.inr ?_)), ids, ?_, ?_, ?_⟩
  · rintro ⟨rank, hrank⟩
    exact absurd (hrank _ _ h12) (Nat.lt_asymm (hrank _ _ h21))
  · exact (hids "3").2 ⟨"1", hcycle, .single h13⟩
  · rw [hids]
    rintro ⟨a, hcycle', hdown⟩
    obtain ⟨b, -, hb⟩ := TransGen.tail'_iff.1 (hcycle'.trans_left hdown)
    exact absurd (knot_feeds.1 hb) (by simp)
  · exact (hfound _ rfl).2 ⟨⟨"1", hcycle⟩, rfl⟩

end PromptGraph.Execution

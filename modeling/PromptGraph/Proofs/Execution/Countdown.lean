/-
Counting references down. A run takes entries without open references
from a queue, one after the other, and closes the references to each.
This file follows the run by its history: the entries taken so far, the
latest first.

- At any time the count of an entry is the number of its references to
  entries not taken yet, an entry that holds several references to one
  producer waiting for each of them (`Progress.waits`). So an entry is
  queued exactly when the last of these is met.
- Nothing is taken twice (`Progress.nodup`), so as many rounds as there
  are entries are enough to empty the queue (`Progress.run`).
- What is taken reads only what was taken before (`Sequenced`). So taken
  entries are accessible along their references (`Sequenced.acc`) and can
  be ranked (`Sequenced.ranking`).

Whether references dangle does not matter here: a reference to something
that is no entry is never met.
-/
import Mathlib.Data.List.Nodup
import PromptGraph.Execution.Validation
import PromptGraph.Proofs.Cycle
import PromptGraph.Proofs.KeyOrder

namespace PromptGraph.Execution

namespace Countdown

-- ==== open references

/-- The references of an entry to what is not done. -/
def openWires (wires : List (String × String)) (done : List String)
    (id : String) : Nat :=
  wires.countP fun w => decide (w.2 = id ∧ w.1 ∉ done)

theorem openWires_eq_zero {wires : List (String × String)}
    {done : List String} {id : String} :
    openWires wires done id = 0 ↔ ∀ a, (a, id) ∈ wires → a ∈ done := by
  unfold openWires
  rw [List.countP_eq_zero]
  constructor
  · intro h a ha
    by_contra hdone
    exact h (a, id) ha (decide_eq_true ⟨rfl, hdone⟩)
  · rintro h ⟨a, b⟩ hmem hopen
    obtain ⟨hb, hdone⟩ := of_decide_eq_true hopen
    cases hb
    exact hdone (h a hmem)

/-- Once one more entry is done, each of its readers has fewer open
references: as many fewer as it has references to that entry. -/
theorem openWires_cons {wires : List (String × String)} {done : List String}
    {a : String} (ha : a ∉ done) (id : String) :
    openWires wires done id
      = openWires wires (a :: done) id + (readers wires a).count id := by
  induction wires with
  | nil => rfl
  | cons w wires ih =>
      obtain ⟨x, y⟩ := w
      unfold openWires readers at ih ⊢
      rw [List.countP_cons, List.countP_cons, ih, List.filterMap_cons]
      by_cases hx : x = a
      · subst hx
        by_cases hy : y = id
        · simp [hy, ha]
          omega
        · simp [hy, ha]
      · simp [hx]
        omega

theorem mem_readers {wires : List (String × String)} {a b : String} :
    b ∈ readers wires a ↔ (a, b) ∈ wires :=
  mem_filterMap_wires

-- ==== meeting references

theorem waitsOf_meet (c : Countdown) (a id : String) :
    (c.meet a).waitsOf id
      = if a = id then c.waitsOf a - 1 else c.waitsOf id := by
  unfold meet
  show (Assoc.get? (Assoc.insert c.waits a _) id).getD 0 = _
  rw [Assoc.get?_insert]
  split
  · rfl
  · rfl

theorem queue_meet (c : Countdown) (a : String) :
    (c.meet a).queue
      = c.queue ++ if c.waitsOf a - 1 = 0 then [a] else [] := by
  unfold meet
  dsimp only
  split
  · rfl
  · rw [List.append_nil]

theorem count_cons_eq (a id : String) (ids : List String) :
    (a :: ids).count id = ids.count id + if a = id then 1 else 0 := by
  rw [List.count_cons]
  simp only [beq_iff_eq]

/-- Meeting references one by one takes them off the counts. -/
theorem waitsOf_foldl_meet (ids : List String) (c : Countdown) (id : String) :
    (ids.foldl meet c).waitsOf id = c.waitsOf id - ids.count id := by
  induction ids generalizing c with
  | nil => rfl
  | cons a ids ih =>
      rw [List.foldl_cons, ih, waitsOf_meet, count_cons_eq]
      split
      · next heq =>
        rw [heq]
        omega
      · omega

/-- It queues each entry that has no reference left after that. -/
theorem queue_foldl_meet {ids : List String} {c : Countdown}
    (h : ∀ id, ids.count id ≤ c.waitsOf id) :
    ∃ fresh, (ids.foldl meet c).queue = c.queue ++ fresh ∧ fresh.Nodup
      ∧ ∀ id, id ∈ fresh ↔ id ∈ ids ∧ c.waitsOf id = ids.count id := by
  induction ids generalizing c with
  | nil => exact ⟨[], by simp⟩
  | cons a ids ih =>
      have hstep : ∀ id, ids.count id ≤ (c.meet a).waitsOf id := by
        intro id
        have hid := h id
        rw [count_cons_eq] at hid
        rw [waitsOf_meet]
        split
        · next heq =>
          rw [if_pos heq] at hid
          rw [heq]
          omega
        · omega
      obtain ⟨fresh, hqueue, hnodup, hfresh⟩ := ih hstep
      have ha := h a
      rw [count_cons_eq, if_pos rfl] at ha
      have hself : a ∈ fresh ↔ a ∈ ids ∧ c.waitsOf a - 1 = ids.count a := by
        rw [hfresh, waitsOf_meet, if_pos rfl]
      have hother : ∀ id, a ≠ id → (id ∈ fresh
          ↔ id ∈ a :: ids ∧ c.waitsOf id = (a :: ids).count id) := by
        intro id hne
        rw [hfresh, waitsOf_meet, if_neg hne, count_cons_eq, if_neg hne,
          List.mem_cons, Nat.add_zero]
        exact and_congr_left fun _ =>
          ⟨Or.inr, fun hmem => hmem.resolve_left fun h => hne h.symm⟩
      rw [List.foldl_cons, hqueue, queue_meet, List.append_assoc]
      refine ⟨_, rfl, ?_, fun id => ?_⟩
      · -- with its last reference met, `a` does not come again
        split
        · next hleft =>
          refine List.nodup_cons.2 ⟨fun hmem => ?_, hnodup⟩
          have hpos := List.count_pos_iff.2 (hself.1 hmem).1
          omega
        · exact hnodup
      · by_cases hid : a = id
        · subst hid
          rw [List.mem_append, hself, count_cons_eq, if_pos rfl]
          split
          · next hleft =>
            simp only [List.mem_cons_self, true_or, true_and, true_iff]
            omega
          · next hleft =>
            have hmem : c.waitsOf a - 1 = ids.count a → a ∈ ids := fun heq =>
              List.count_pos_iff.1 (by omega)
            simp only [List.not_mem_nil, false_or, List.mem_cons_self, true_and]
            exact ⟨fun h => by omega, fun h => ⟨hmem (by omega), by omega⟩⟩
        · rw [List.mem_append, hother id hid, or_iff_right]
          split
          · exact fun hmem => hid (List.mem_singleton.1 hmem).symm
          · exact List.not_mem_nil

-- ==== runs

variable {wires : List (String × String)} {done : List String}

/-- What a countdown has come to after the entries `done` were taken. -/
structure Progress (wires : List (String × String)) (ids done : List String)
    (c : Countdown) : Prop where
  waits : ∀ id ∈ ids, c.waitsOf id = openWires wires done id
  nodup : (done ++ c.queue).Nodup
  settled : ∀ id, id ∈ done ++ c.queue
    ↔ id ∈ ids ∧ openWires wires done id = 0
  sequenced : Sequenced wires done

variable {ids : List String} {c : Countdown}

/-- The head of the queue is not done, and all it reads is. -/
theorem Progress.head (h : Progress wires ids done c) {a : String}
    {queue : List String} (hqueue : c.queue = a :: queue) :
    a ∉ done ∧ openWires wires done a = 0 := by
  have hnodup := h.nodup
  have hsettled := h.settled a
  rw [hqueue] at hnodup hsettled
  have hmid := (List.perm_middle.nodup_iff).1 hnodup
  refine ⟨fun hmem => ?_, (hsettled.1 (by simp)).2⟩
  exact (List.nodup_cons.1 hmid).1 (List.mem_append_left _ hmem)

/-- Its readers still wait for it. -/
theorem Progress.count_readers_le (hwires : ∀ w ∈ wires, w.2 ∈ ids)
    (h : Progress wires ids done c) {a : String} (ha : a ∉ done)
    (id : String) : (readers wires a).count id ≤ c.waitsOf id := by
  by_cases hid : id ∈ readers wires a
  · rw [h.waits id (hwires _ (mem_readers.1 hid)), openWires_cons ha]
    exact Nat.le_add_left _ _
  · rw [List.count_eq_zero.2 hid]
    exact Nat.zero_le _

/-- Taking the head of the queue. -/
theorem Progress.take (hwires : ∀ w ∈ wires, w.2 ∈ ids)
    (h : Progress wires ids done c) {a : String} {queue : List String}
    (hqueue : c.queue = a :: queue) :
    Progress wires ids (a :: done)
      ((readers wires a).foldl meet { c with queue }) := by
  obtain ⟨ha, haopen⟩ := h.head hqueue
  obtain ⟨fresh, hnew, hfresh, hmem⟩ := queue_foldl_meet
    (c := { c with queue }) (h.count_readers_le hwires ha)
  obtain ⟨hwaits, hnodup, hsettled, hseq⟩ := h
  rw [hqueue] at hnodup hsettled
  have hmid : (a :: (done ++ queue)).Nodup :=
    (List.perm_middle.nodup_iff).1 hnodup
  have hopen : ∀ id, openWires wires done id = openWires wires (a :: done) id
      + (readers wires a).count id := openWires_cons ha
  have hreader : ∀ id, id ∈ readers wires a → id ∈ ids := fun id hid =>
    hwires _ (mem_readers.1 hid)
  have hmem' : ∀ id, id ∈ fresh ↔ id ∈ readers wires a
      ∧ openWires wires done id = (readers wires a).count id := by
    intro id
    rw [hmem]
    exact and_congr_right fun hid => by
      rw [← hwaits id (hreader id hid)]
      rfl
  -- an entry is queued now exactly if it was waiting, but only for `a`
  have hold : ∀ id ∈ fresh, id ∉ a :: (done ++ queue) := by
    intro id hid hmem
    obtain ⟨hread, hcount⟩ := (hmem' id).1 hid
    have hpos := List.count_pos_iff.2 hread
    have hzero := ((hsettled id).1 (List.perm_middle.mem_iff.2 hmem)).2
    omega
  refine ⟨fun id hid => ?_, ?_, fun id => ?_, ?_⟩
  · have hw : c.waitsOf id = _ := hwaits id hid
    have := hopen id
    rw [waitsOf_foldl_meet]
    show c.waitsOf id - _ = _
    omega
  · rw [hnew]
    show (a :: (done ++ (queue ++ fresh))).Nodup
    rw [← List.append_assoc, ← List.cons_append]
    refine hmid.append hfresh ?_
    exact fun id hid hid' => hold id hid' hid
  · rw [hnew]
    show id ∈ a :: (done ++ (queue ++ fresh)) ↔ _
    rw [← List.append_assoc, ← List.cons_append, List.mem_append,
      ← List.perm_middle.mem_iff, hsettled, hmem']
    have := hopen id
    constructor
    · rintro (⟨hid, hzero⟩ | ⟨hread, hcount⟩)
      · exact ⟨hid, by omega⟩
      · exact ⟨hreader id hread, by omega⟩
    · rintro ⟨hid, hzero⟩
      by_cases hread : id ∈ readers wires a
      · exact Or.inr ⟨hread, by omega⟩
      · have hnone := List.count_eq_zero.2 hread
        exact Or.inl ⟨hid, by omega⟩
  · exact .cons hseq (openWires_eq_zero.1 haopen)

/-- No more entries are taken than there are. -/
theorem Progress.length_le (h : Progress wires ids done c) :
    done.length + c.queue.length ≤ ids.length := by
  rw [← List.length_append]
  exact List.Nodup.length_le_of_subset h.nodup
    fun id hid => ((h.settled id).1 hid).1

/-- With a round for each entry left, the queue runs empty. -/
theorem Progress.run (hwires : ∀ w ∈ wires, w.2 ∈ ids) {fuel : Nat}
    (h : Progress wires ids done c)
    (hfuel : ids.length ≤ fuel + done.length) :
    ∃ history, Progress wires ids history (run wires fuel c)
      ∧ (Countdown.run wires fuel c).queue = [] := by
  induction fuel generalizing done c with
  | zero =>
      have := h.length_le
      refine ⟨done, h, ?_⟩
      show c.queue = []
      exact List.length_eq_zero_iff.1 (by omega)
  | succ fuel ih =>
      unfold Countdown.run
      cases hqueue : c.queue with
      | nil => exact ⟨done, h, hqueue⟩
      | cons a queue =>
          refine ih (h.take hwires hqueue) ?_
          rw [List.length_cons]
          omega

end Countdown

end PromptGraph.Execution

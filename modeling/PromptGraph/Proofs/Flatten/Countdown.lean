/-
Counting down to the order of instances. For each instance there is a
count of those that feed it and are not placed yet (`Countdown.Right`).
Placing one takes it off the counts of its consumers. These are listed
once each, so the ones for which it was the last are queued in the order
of the list (`queue_foldl_meet`).

So the counts decide what can be asked of the wires themselves: whether
everything that feeds an instance is placed (`ready`). That is how the
run is followed from here on (`Countdown.Right.place`).
-/
import Mathlib.Data.List.Nodup
import PromptGraph.Flatten.Order
import PromptGraph.Proofs.Cycle
import PromptGraph.Proofs.KeyOrder

namespace PromptGraph.Flatten

open Editor

variable {wires : List (Id × Id)}

-- ==== feeding and fed

/-- The consumers are what is wired from it. -/
theorem mem_consumers {a b : Id} :
    b ∈ consumers wires a ↔ (a, b) ∈ wires := by
  unfold consumers sortIds
  rw [(List.mergeSort_perm _ _).mem_iff, List.mem_eraseDups]
  exact mem_filterMap_wires

theorem nodup_consumers (wires : List (Id × Id)) (a : Id) :
    (consumers wires a).Nodup :=
  (List.mergeSort_perm _ _).nodup_iff.2 (nodup_eraseDups _)

/-- The feeders are what is wired to it. -/
theorem mem_feeders {a b : Id} : a ∈ feeders wires b ↔ (a, b) ∈ wires := by
  unfold feeders
  rw [List.mem_eraseDups, List.mem_filterMap]
  constructor
  · rintro ⟨⟨x, y⟩, hmem, hx⟩
    obtain ⟨hyb, hxa⟩ := Option.ite_none_right_eq_some.1 hx
    rwa [← hyb, ← Option.some.inj hxa]
  · intro hmem
    exact ⟨(a, b), hmem, if_pos rfl⟩

/-- Those that feed `b` and are not placed. -/
def openFeeders (wires : List (Id × Id)) (placed : List Id) (b : Id) : List Id :=
  (feeders wires b).filter fun a => !placed.contains a

/-- At first everything that feeds a member is open. -/
theorem openFeeders_nil (wires : List (Id × Id)) (b : Id) :
    openFeeders wires [] b = feeders wires b :=
  List.filter_eq_self.2 fun _ _ => rfl

/-- Everything that feeds `b` has been placed. -/
def ready (wires : List (Id × Id)) (placed : List Id) (b : Id) : Bool :=
  wires.all fun (x, y) => y ≠ b || placed.contains x

variable {placed : List Id}

/-- What is ready has all its feeders placed. -/
theorem ready_iff {b : Id} :
    ready wires placed b = true ↔ ∀ a, (a, b) ∈ wires → a ∈ placed := by
  unfold ready
  simp only [List.all_eq_true, Bool.or_eq_true, decide_eq_true_eq,
    List.contains_iff_mem]
  constructor
  · intro h a hmem
    exact (h (a, b) hmem).resolve_left fun hne => hne rfl
  · rintro h ⟨a, c⟩ hmem
    by_cases hcb : c = b
    · subst hcb
      exact Or.inr (h a hmem)
    · exact Or.inl hcb

/-- What waits for nothing is ready. -/
theorem length_openFeeders_eq_zero {b : Id} :
    (openFeeders wires placed b).length = 0 ↔ ready wires placed b = true := by
  unfold openFeeders
  rw [List.length_eq_zero_iff, List.filter_eq_nil_iff, ready_iff]
  simp only [mem_feeders, Bool.not_eq_true', Bool.not_eq_false, List.contains_iff_mem]

/-- Placing one more: those that it feeds wait for one less. -/
theorem length_openFeeders_append {a : Id} (ha : a ∉ placed) (b : Id) :
    (openFeeders wires (placed ++ [a]) b).length
      = (openFeeders wires placed b).length
        - if b ∈ consumers wires a then 1 else 0 := by
  have hopen : openFeeders wires (placed ++ [a]) b
      = (openFeeders wires placed b).erase a := by
    have hnodup : (openFeeders wires placed b).Nodup :=
      (nodup_eraseDups _).filter _
    rw [hnodup.erase_eq_filter]
    unfold openFeeders
    rw [List.filter_filter]
    refine List.filter_congr fun x _ => ?_
    simp [List.contains_eq_mem, Bool.and_comm, bne, beq_eq_decide]
  have hmem : a ∈ openFeeders wires placed b ↔ b ∈ consumers wires a := by
    unfold openFeeders
    rw [List.mem_filter, mem_feeders, mem_consumers]
    simp [ha]
  rw [hopen, List.length_erase]
  by_cases hfed : b ∈ consumers wires a
  · rw [if_pos (hmem.2 hfed), if_pos hfed]
  · rw [if_neg (hmem.not.2 hfed), if_neg hfed, Nat.sub_zero]

-- ==== meeting wires

namespace Countdown

/-- A meeting takes one off a count. -/
theorem waitsOf_meet (c : Countdown) (a b : Id) :
    (c.meet a).waitsOf b
      = if a = b then c.waitsOf a - 1 else c.waitsOf b := by
  show (((c.waits.map _).find? _).map Prod.snd).getD 0 = _
  rw [List.find?_map]
  unfold waitsOf
  by_cases hab : a = b
  · subst hab
    rw [if_pos rfl]
    show (((c.waits.find? (·.1 = a)).map _).map _).getD 0 = _
    cases hfind : c.waits.find? (·.1 = a) with
    | none => rfl
    | some e =>
        have hkey : e.1 = a := by simpa using List.find?_some hfind
        exact if_pos hkey
  · rw [if_neg hab]
    show (((c.waits.find? (·.1 = b)).map _).map _).getD 0 = _
    cases hfind : c.waits.find? (·.1 = b) with
    | none => rfl
    | some e =>
        have hkey : e.1 = b := by simpa using List.find?_some hfind
        exact if_neg fun h => hab (h.symm.trans hkey)

/-- The last one queues it. -/
theorem queue_meet (c : Countdown) (a : Id) :
    (c.meet a).queue
      = c.queue ++ if c.waitsOf a - 1 = 0 then [a] else [] := by
  unfold meet
  dsimp only
  split
  · rfl
  · rw [List.append_nil]

/-- Each of the members listed waits for one less. -/
theorem waitsOf_foldl_meet {ids : List Id} (hids : ids.Nodup) (c : Countdown)
    (b : Id) :
    (ids.foldl meet c).waitsOf b
      = c.waitsOf b - if b ∈ ids then 1 else 0 := by
  induction ids generalizing c with
  | nil => rfl
  | cons a ids ih =>
      obtain ⟨ha, hids⟩ := List.nodup_cons.1 hids
      rw [List.foldl_cons, ih hids, waitsOf_meet]
      by_cases hab : a = b
      · subst hab
        rw [if_pos rfl, if_neg ha, if_pos List.mem_cons_self, Nat.sub_zero]
      · have hmem : b ∈ a :: ids ↔ b ∈ ids :=
          List.mem_cons.trans (or_iff_right fun h => hab h.symm)
        rw [if_neg hab]
        simp only [hmem]

/-- Those of them that waited for nothing else are queued, in the order
of the list. -/
theorem queue_foldl_meet {ids : List Id} (hids : ids.Nodup) (c : Countdown) :
    (ids.foldl meet c).queue
      = c.queue ++ ids.filter fun b => c.waitsOf b - 1 = 0 := by
  induction ids generalizing c with
  | nil => exact (List.append_nil _).symm
  | cons a ids ih =>
      obtain ⟨ha, hids⟩ := List.nodup_cons.1 hids
      have hrest : (ids.filter fun b => (c.meet a).waitsOf b - 1 = 0)
          = ids.filter fun b => c.waitsOf b - 1 = 0 := by
        refine List.filter_congr fun b hb => ?_
        have hab : a ≠ b := fun h => ha (h ▸ hb)
        rw [waitsOf_meet, if_neg hab]
      rw [List.foldl_cons, ih hids, hrest, queue_meet, List.append_assoc,
        List.filter_cons]
      by_cases hlast : c.waitsOf a - 1 = 0
      · simp [hlast]
      · simp [hlast]

/-- The counts are right: each member waits for those that feed it and
are not placed. -/
def Right (wires : List (Id × Id)) (placed : List Id) (c : Countdown) : Prop :=
  ∀ b, c.waitsOf b = (openFeeders wires placed b).length

/-- Placing the head of the queue keeps the counts right, and queues the
consumers that are ready with that. -/
theorem Right.place {placed queue : List Id} {a : Id} {c : Countdown}
    (h : c.Right wires placed) (ha : a ∉ placed) :
    let next := (consumers wires a).foldl meet { c with queue }
    next.Right wires (placed ++ [a])
      ∧ next.queue
        = queue ++ (consumers wires a).filter (ready wires (placed ++ [a])) := by
  have hcount : ∀ b, waitsOf { c with queue } b
      - (if b ∈ consumers wires a then 1 else 0)
        = (openFeeders wires (placed ++ [a]) b).length := by
    intro b
    rw [length_openFeeders_append ha, ← h b]
    rfl
  refine ⟨fun b => ?_, ?_⟩
  · rw [waitsOf_foldl_meet (nodup_consumers wires a), hcount]
  · rw [queue_foldl_meet (nodup_consumers wires a)]
    refine congrArg (queue ++ ·) (List.filter_congr fun b hb => ?_)
    have hb' := hcount b
    rw [if_pos hb] at hb'
    rw [hb', Bool.eq_iff_iff, decide_eq_true_eq, length_openFeeders_eq_zero]

end Countdown

/-- The counts begin right. -/
theorem countdown_right {ids : List Id} (hwires : ∀ w ∈ wires, w.2 ∈ ids) :
    (countdown wires ids).Right wires [] := by
  intro b
  rw [openFeeders_nil]
  unfold countdown Countdown.waitsOf
  dsimp only
  rw [List.find?_map]
  show (((ids.find? (· = b)).map _).map _).getD 0 = _
  cases hfind : ids.find? (· = b) with
  | none =>
      have hnone : ∀ a, a ∉ feeders wires b := by
        intro a hfed
        have hb := hwires _ (mem_feeders.1 hfed)
        exact List.find?_eq_none.1 hfind b hb (decide_eq_true rfl)
      rw [List.eq_nil_iff_forall_not_mem.2 hnone]
      rfl
  | some e =>
      have hkey : e = b := by simpa using List.find?_some hfind
      rw [← hkey]
      rfl

/-- What is queued at first are the members that are ready at once. -/
theorem queue_countdown (wires : List (Id × Id)) (ids : List Id) :
    (countdown wires ids).queue = ids.filter (ready wires []) := by
  refine List.filter_congr fun b _ => ?_
  rw [Bool.eq_iff_iff, decide_eq_true_eq, ← length_openFeeders_eq_zero,
    openFeeders_nil]

end PromptGraph.Flatten

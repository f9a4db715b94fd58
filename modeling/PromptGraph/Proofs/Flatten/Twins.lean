/-
Ids that the order of nodes does not tell apart. Ids that spell numbers
are compared by their numbers alone, so two spellings of one number
(`1`, `01`, `+1`) are twins: neither comes before the other. Twins are the
only such ids (`key_eq_iff`), and all that is wanted of the order holds
up to them.

The instances of a level are enumerated in any order and then sorted, by
a sort that may leave equals as it likes. Where no two are twins there is
one outcome; where two are, exchanging them is another, and a level
without links expands its instances as the sort left them
(`instanceOrder_unlinked`).

Main statement: `node_ids_ordered_iff_no_twins`.
-/
import PromptGraph.Proofs.Flatten.InstanceOrder

namespace PromptGraph.Flatten

open Editor

-- ==== twins

/-- Different ids of one number. -/
def Twins (a b : Id) : Prop :=
  a ≠ b ∧ ∃ n, a.int? = some n ∧ b.int? = some n

theorem key_eq_iff {a b : Id} : a.key = b.key ↔ a = b ∨ Twins a b := by
  have htext : a.text = b.text ↔ a = b := by
    cases a
    cases b
    simp
  have hne : a.int? ≠ b.int? → a ≠ b := fun h heq => h (by rw [heq])
  unfold Twins Id.key
  cases ha : a.int? with
  | none =>
      cases hb : b.int? with
      | none => simp [htext]
      | some n => simp [hne (by simp [ha, hb])]
  | some m =>
      cases hb : b.int? with
      | none => simp [hne (by simp [ha, hb])]
      | some n =>
          by_cases heq : a = b
          · have hmn : m = n := by
              rw [heq, hb] at ha
              exact (Option.some.inj ha).symm
            simp [heq, hmn]
          · simp [heq, eq_comm]

/-- No two of the ids are twins. -/
def NoTwins (ids : List Id) : Prop := ∀ a ∈ ids, ∀ b ∈ ids, ¬ Twins a b

variable {ids : List Id}

theorem distinct_iff_noTwins :
    Distinct Id.key ids ↔ NoTwins ids := by
  constructor
  · intro h a ha b hb htwins
    exact htwins.1 (h a ha b hb (key_eq_iff.2 (.inr htwins)))
  · intro h a ha b hb hkey
    exact (key_eq_iff.1 hkey).resolve_right (h a ha b hb)

/-- Only twins are left incomparable. -/
theorem total_iff_noTwins :
    (∀ a ∈ ids, ∀ b ∈ ids, a ≠ b → Id.less a b = !Id.less b a)
      ↔ NoTwins ids := by
  constructor
  · intro htotal a ha b hb htwins
    have hboth := (Id.less_byKey.incomparable_iff a b).2
      (key_eq_iff.2 (.inr htwins))
    have hone := htotal a ha b hb htwins.1
    rw [hboth.1, hboth.2] at hone
    cases hone
  · intro hno a ha b hb hne
    refine Id.less_byKey.less_eq_not fun hkey => ?_
    exact (key_eq_iff.1 hkey).elim hne (hno a ha b hb)

/-- Twins can be sorted in two ways. -/
theorem Twins.exists_sortings (hids : ids.Nodup) {a b : Id} (h : Twins a b)
    (ha : a ∈ ids) (hb : b ∈ ids) :
    ∃ s s', Sorting Id.less ids s ∧ Sorting Id.less ids s' ∧ s ≠ s' := by
  have hsort : Sorting Id.less ids (sortIds ids) :=
    Id.less_byKey.sorting_sort ids
  have hswap := Id.less_byKey.sorting_swap hsort hids ha hb
    (key_eq_iff.2 (.inr h))
  refine ⟨_, _, hsort, hswap, fun heq => h.1 ?_⟩
  -- a list that an exchange leaves as it is does not hold what is exchanged
  have hfixed : ∀ x ∈ sortIds ids, Equiv.swap a b x = x := by
    have hmap : (sortIds ids).map (Equiv.swap a b) = (sortIds ids).map id := by
      rw [← heq, List.map_id]
    exact List.map_inj_left.1 hmap
  have hself := hfixed a (hsort.perm.mem_iff.2 ha)
  rw [Equiv.swap_apply_left] at hself
  exact hself.symm

/-- There is one way to sort ids exactly if there are no twins among
them. -/
theorem sorting_iff_noTwins (hids : ids.Nodup) :
    (∀ s, Sorting Id.less ids s ↔ s = sortIds ids) ↔ NoTwins ids := by
  constructor
  · intro hone a ha b hb htwins
    obtain ⟨s, s', hs, hs', hne⟩ := htwins.exists_sortings hids ha hb
    exact hne (((hone s).1 hs).trans ((hone s').1 hs').symm)
  · intro hno s
    exact Id.less_byKey.sorting_iff (distinct_iff_noTwins.2 hno)

-- ==== instances

/-- Without wires the queue is placed as it stands. -/
theorem Countdown.run_unwired (waits : List (Id × Nat))
    (queue placed : List Id) :
    run [] queue.length ⟨waits, queue⟩ placed = placed ++ queue := by
  induction queue generalizing placed with
  | nil => exact (List.append_nil placed).symm
  | cons a queue ih =>
      have hnone : consumers [] a = [] := by simp [consumers, sortIds]
      rw [List.length_cons, run]
      dsimp only
      rw [hnone, List.foldl_nil, ih, List.append_assoc, List.singleton_append]

/-- Instances that nothing connects are expanded as they were sorted. -/
theorem instanceOrder_unlinked (nodes : List Node) (ids : List Id) :
    instanceOrder ⟨nodes, [], none⟩ ids = (ids, []) := by
  have hwires : wiresAmong ⟨nodes, [], none⟩ ids = [] := rfl
  have hqueue : (ids.filter fun b => (feeders [] b).length = 0) = ids :=
    List.filter_eq_self.2 fun _ _ => rfl
  have hcyclic : ids.filter (fun a => !ids.contains a) = [] := by simp
  unfold instanceOrder countdown
  dsimp only
  rw [hwires, hqueue, Countdown.run_unwired, List.nil_append, hcyclic,
    List.append_nil]

/-- Instances have one order exactly if there are no twins among them. -/
theorem instanceOrder_eq_iff_noTwins (hids : ids.Nodup) :
    (∀ level s s', Sorting Id.less ids s → Sorting Id.less ids s' →
        instanceOrder level s = instanceOrder level s')
      ↔ NoTwins ids := by
  have hsort : Sorting Id.less ids (sortIds ids) :=
    Id.less_byKey.sorting_sort ids
  rw [← sorting_iff_noTwins hids]
  constructor
  · intro hone s
    refine ⟨fun hs => ?_, fun hs => hs ▸ hsort⟩
    have horder := hone ⟨[], [], none⟩ s (sortIds ids) hs hsort
    rw [instanceOrder_unlinked, instanceOrder_unlinked] at horder
    exact congrArg Prod.fst horder
  · intro hsorts level s s' hs hs'
    rw [(hsorts s).1 hs, (hsorts s').1 hs']

/-- The instances of a plan are sorted. -/
theorem plan_sites_sorting (ctx : Context) (available : List Definition)
    (path : String) (nodes : List Node) (b : Build) :
    let ids := (plan ctx available path nodes b).1.sites.map (·.id)
    Sorting Id.less ids ids :=
  ⟨.refl _, (pairwise_sortNodes nodes).sublist
    (plan_sites ctx available path nodes b).1⟩

/-- The order of node ids: no id comes before itself, and what comes before
an earlier id is earlier. Of two different ids exactly one comes before
the other, as long as there are no twins. Exactly then every sort gives
one list, and the instances of every level are expanded in one order,
however they were enumerated and sorted: for the instances of a level it
is the order of the conversion. -/
theorem node_ids_ordered_iff_no_twins {ids : List Id} (hids : ids.Nodup) :
    (∀ a, Id.less a a = false)
      ∧ (∀ a b c, Id.less a b = true → Id.less b c = true →
          Id.less a c = true)
      ∧ ((∀ a ∈ ids, ∀ b ∈ ids, a ≠ b → Id.less a b = !Id.less b a)
          ↔ NoTwins ids)
      ∧ ((∀ s, Sorting Id.less ids s ↔ s = sortIds ids) ↔ NoTwins ids)
      ∧ ((∀ level s s', Sorting Id.less ids s → Sorting Id.less ids s' →
            instanceOrder level s = instanceOrder level s')
          ↔ NoTwins ids)
      ∧ ∀ ctx available path level b,
          ids = (plan ctx available path level.nodes b).1.sites.map (·.id) →
          NoTwins ids → ∀ s, Sorting Id.less ids s →
            instanceOrder level s = instanceOrder level ids := by
  refine ⟨Id.less_byKey.irrefl, fun a b c => Id.less_byKey.trans,
    total_iff_noTwins, sorting_iff_noTwins hids,
    instanceOrder_eq_iff_noTwins hids, ?_⟩
  intro ctx available path level b heq hno s hs
  have hself : Sorting Id.less ids ids := by
    rw [heq]
    exact plan_sites_sorting ctx available path level.nodes b
  exact (instanceOrder_eq_iff_noTwins hids).2 hno level s ids hs hself

/-- Numbers out of order and a text are expanded in one order. -/
theorem node_ids_ordered_iff_no_twins_three :
    ([⟨"10"⟩, ⟨"a"⟩, ⟨"9"⟩] : List Id).Nodup
      ∧ ∀ level s, Sorting Id.less [⟨"10"⟩, ⟨"a"⟩, ⟨"9"⟩] s →
          instanceOrder level s
            = instanceOrder level (sortIds [⟨"10"⟩, ⟨"a"⟩, ⟨"9"⟩]) := by
  have hids : ([⟨"10"⟩, ⟨"a"⟩, ⟨"9"⟩] : List Id).Nodup := by decide
  obtain ⟨-, -, htotal, hsorts, -⟩ := node_ids_ordered_iff_no_twins hids
  have hno := htotal.1 (by decide)
  refine ⟨hids, fun level s hs => ?_⟩
  rw [(hsorts.2 hno s).1 hs]

/-- `1` and `01` are different ids, and neither comes before the other. -/
theorem padded_id_incomparable :
    ¬ ∀ a b : Id, a ≠ b → Id.less a b = !Id.less b a := by
  intro h
  exact absurd (h ⟨"1"⟩ ⟨"01"⟩ (by decide)) (by decide)

end PromptGraph.Flatten

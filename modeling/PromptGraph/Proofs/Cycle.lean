/-
Orders and cycles in a finite graph, given by what feeds what.

A run that takes members one after the other, each after all that feed
it, leaves a history (`Sequenced`). It stops when everything left is fed
by something else that is left. Then what is left is exactly what lies on
a cycle or downstream of one (`Sequenced.left_iff`): going back from it
never ends, and in a finite graph such a way enters a cycle
(`exists_cycle_of_not_acc`).
-/
import Mathlib.Data.Fintype.Order
import Mathlib.Data.Set.Finite.List

namespace PromptGraph

open Relation (TransGen ReflTransGen)

variable {α : Type}

-- ==== cycles

section
variable {feeds : α → α → Prop}

/-- It is on a cycle or downstream of one. -/
def BehindCycle (feeds : α → α → Prop) (b : α) : Prop :=
  ∃ a, TransGen feeds a a ∧ ReflTransGen feeds a b

/-- In a finite graph, where a way back goes on for ever there is a cycle
upstream. -/
theorem exists_cycle_of_not_acc {ids : List α}
    (hclosed : ∀ a b, feeds a b → b ∈ ids → a ∈ ids) {id : α}
    (hid : id ∈ ids) (hacc : ¬ Acc feeds id) : BehindCycle feeds id := by
  by_contra hnone
  unfold BehindCycle at hnone
  push Not at hnone
  -- all that is upstream of `id`, a finite set without a cycle
  let Upstream := { a : α // ReflTransGen feeds a id }
  have hmem : ∀ a, ReflTransGen feeds a id → a ∈ ids := by
    intro a ha
    induction ha using ReflTransGen.head_induction_on with
    | refl => exact hid
    | head hab _ ih => exact hclosed _ _ hab ih
  have hfinite : Finite Upstream :=
    (ids.finite_toSet.subset hmem).to_subtype
  let before : Upstream → Upstream → Prop :=
    fun a b => TransGen feeds a.1 b.1
  have htrans : IsTrans Upstream before :=
    ⟨fun _ _ _ hab hbc => TransGen.trans hab hbc⟩
  have hirrefl : Std.Irrefl before := ⟨fun a ha => hnone a.1 ha a.2⟩
  have hwf : WellFounded before :=
    Finite.wellFounded_of_trans_of_irrefl before
  have hall : ∀ a : Upstream, Acc feeds a.1 := by
    intro a
    induction a using hwf.induction with
    | _ a ih =>
        exact ⟨_, fun b hb => ih ⟨b, .head hb a.2⟩ (.single hb)⟩
  exact hacc (hall ⟨id, .refl⟩)

/-- Behind a cycle, a way back goes on for ever. -/
theorem BehindCycle.not_acc {b : α} (h : BehindCycle feeds b) :
    ¬ Acc feeds b := by
  obtain ⟨a, hcycle, hdown⟩ := h
  intro hacc
  have ha : Acc feeds a := by
    rcases Relation.reflTransGen_iff_eq_or_transGen.1 hdown with rfl | hdown
    · exact hacc
    · exact hacc.inv_of_transGen hdown
  exact not_acc_iff_exists_descending_chain.2
    ⟨fun _ => a, rfl, fun _ => hcycle⟩ (acc_transGen_iff.2 ha)

end

-- ==== histories

/-- What a member is wired to, as a list of wires tells it. -/
theorem mem_filterMap_wires [DecidableEq α] {wires : List (α × α)} {a b : α} :
    b ∈ wires.filterMap (fun (x, y) => if x = a then some y else none)
      ↔ (a, b) ∈ wires := by
  rw [List.mem_filterMap]
  constructor
  · rintro ⟨⟨x, y⟩, hmem, hy⟩
    dsimp only at hy
    split at hy
    · next hxa =>
      cases hy
      rwa [← hxa]
    · cases hy
  · intro hmem
    exact ⟨(a, b), hmem, if_pos rfl⟩

/-- A history, the latest first, in which every member comes after all
that feed it. -/
inductive Sequenced (wires : List (α × α)) : List α → Prop where
  | nil : Sequenced wires []
  | cons {done : List α} {id : α} (before : Sequenced wires done)
      (reads : ∀ a, (a, id) ∈ wires → a ∈ done) :
      Sequenced wires (id :: done)

namespace Sequenced

variable {wires : List (α × α)} {done : List α}

/-- From a member of the history no way back goes on for ever. -/
theorem acc (h : Sequenced wires done) :
    ∀ id ∈ done, Acc (fun a b => (a, b) ∈ wires) id := by
  induction h with
  | nil => exact fun _ hid => absurd hid List.not_mem_nil
  | cons _ reads ih =>
      intro id hid
      rcases List.mem_cons.1 hid with rfl | hid
      · exact ⟨_, fun a ha => ih a (reads a ha)⟩
      · exact ih id hid

/-- Whatever feeds a member of the history stands further back in it. -/
theorem exists_split (h : Sequenced wires done) {b : α} (hb : b ∈ done) :
    ∃ later earlier, done = later ++ b :: earlier
      ∧ ∀ a, (a, b) ∈ wires → a ∈ earlier := by
  induction h with
  | nil => cases hb
  | @cons done id _ reads ih =>
      rcases List.mem_cons.1 hb with rfl | hb
      · exact ⟨[], done, rfl, reads⟩
      · obtain ⟨later, earlier, rfl, hfed⟩ := ih hb
        exact ⟨id :: later, earlier, rfl, hfed⟩

/-- The members of the history can be ranked so that each ranks above all
that feed it. -/
theorem ranking [DecidableEq α] (h : Sequenced wires done)
    (hnodup : done.Nodup) :
    ∃ rank : α → Nat, (∀ id ∈ done, rank id ≤ done.length)
      ∧ ∀ a b, b ∈ done → (a, b) ∈ wires → a ∈ done ∧ rank a < rank b := by
  induction h with
  | nil => exact ⟨fun _ => 0, fun _ _ => Nat.le_refl _,
      fun _ _ hb => absurd hb List.not_mem_nil⟩
  | @cons done id _ reads ih =>
      obtain ⟨hid, hdone⟩ := List.nodup_cons.1 hnodup
      obtain ⟨rank, hle, hlt⟩ := ih hdone
      have hne : ∀ x ∈ done, x ≠ id := fun x hx h => hid (h ▸ hx)
      refine ⟨fun x => if x = id then done.length + 1 else rank x,
        fun x hx => ?_, fun a b hb hab => ?_⟩
      · dsimp only
        rw [List.length_cons]
        split
        · exact Nat.le_refl _
        · next hx' =>
          have := hle x ((List.mem_cons.1 hx).resolve_left hx')
          omega
      · dsimp only
        rcases List.mem_cons.1 hb with rfl | hb
        · have ha := reads a hab
          have := hle a ha
          refine ⟨List.mem_cons_of_mem _ ha, ?_⟩
          rw [if_neg (hne a ha), if_pos rfl]
          omega
        · obtain ⟨ha, hrank⟩ := hlt a b hb hab
          refine ⟨List.mem_cons_of_mem _ ha, ?_⟩
          rw [if_neg (hne a ha), if_neg (hne b hb)]
          exact hrank

/-- If everything that the history leaves out is fed by something that it
leaves out, then that is what lies behind a cycle. -/
theorem left_iff (h : Sequenced wires done) {ids : List α}
    (hwires : ∀ w ∈ wires, w.1 ∈ ids)
    (hleft : ∀ b ∈ ids, b ∉ done → ∃ a, (a, b) ∈ wires ∧ a ∉ done)
    {id : α} (hid : id ∈ ids) :
    id ∉ done ↔ BehindCycle (fun a b => (a, b) ∈ wires) id := by
  constructor
  · intro hout
    refine exists_cycle_of_not_acc (fun a b hab _ => hwires _ hab) hid
      fun hacc => ?_
    induction hacc with
    | intro id _ ih =>
        obtain ⟨a, ha, haout⟩ := hleft id hid hout
        exact ih a ha (hwires _ ha) haout
  · exact fun hbehind hmem => hbehind.not_acc (h.acc id hmem)

end Sequenced

end PromptGraph

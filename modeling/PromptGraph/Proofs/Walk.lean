/-
Going back from a place to where its content comes from.

A place either has content of its own or passes on that of the place that
feeds it, if any does (`Relay`). So there is one way back from every
place, and it can end in two ways: at a place with content of its own
(`ComesFrom`), or at one that passes on and is not fed (`Unfed`). If only
finitely many places are fed, the one thing that it can do instead is to
run into a loop (`Circles`); `not_comesFrom_iff` says so.

The places on a way back that ends are all different
(`Trail.nodup`), so there are no more of them than places that are fed.
That is why a search with so much fuel is exhaustive.
-/
import PromptGraph.Proofs.Cycle

namespace PromptGraph

open Relation (TransGen ReflTransGen)

/-- Places of which some pass on what feeds them. -/
structure Relay (α : Type) where
  passes : α → Prop
  feed? : α → Option α

namespace Relay

variable {α : Type} (r : Relay α)

/-- One step back. -/
def Back (a b : α) : Prop := r.passes a ∧ r.feed? a = some b

/-- The way back ends at a place with content of its own. -/
def ComesFrom (a e : α) : Prop := ReflTransGen r.Back a e ∧ ¬ r.passes e

/-- The way back ends at a place that passes on and is not fed. -/
def Unfed (a : α) : Prop :=
  ∃ u, ReflTransGen r.Back a u ∧ r.passes u ∧ r.feed? u = none

/-- The way back runs into a loop. -/
def Circles (a : α) : Prop :=
  ∃ u, ReflTransGen r.Back a u ∧ TransGen r.Back u u

variable {r}

/-- There is one step back. -/
theorem Back.unique {a b c : α} (hb : r.Back a b) (hc : r.Back a c) : b = c :=
  Option.some.inj (hb.2.symm.trans hc.2)

/-- What is not passed comes from itself. -/
theorem ComesFrom.self {e : α} (h : ¬ r.passes e) : r.ComesFrom e e :=
  ⟨.refl, h⟩

/-- A step back leads to the same end. -/
theorem ComesFrom.back {a b e : α} (hab : r.Back a b)
    (h : r.ComesFrom b e) : r.ComesFrom a e :=
  ⟨.head hab h.1, h.2⟩

theorem comesFrom_of_not_passes {a e : α} (ha : ¬ r.passes a) :
    r.ComesFrom a e ↔ a = e := by
  constructor
  · intro h
    rcases ReflTransGen.cases_head h.1 with heq | ⟨b, hab, -⟩
    · exact heq
    · exact absurd hab.1 ha
  · intro heq
    rw [← heq]
    exact .self ha

/-- A step back comes from the same end. -/
theorem comesFrom_of_back {a b e : α} (hab : r.Back a b) :
    r.ComesFrom a e ↔ r.ComesFrom b e := by
  constructor
  · intro h
    rcases ReflTransGen.cases_head h.1 with heq | ⟨c, hac, hce⟩
    · rw [← heq] at h
      exact absurd hab.1 h.2
    · rw [hab.unique hac]
      exact ⟨hce, h.2⟩
  · exact .back hab

/-- Without a feed it comes from nowhere. -/
theorem not_comesFrom_of_feed?_none {a e : α} (ha : r.passes a)
    (hnone : r.feed? a = none) : ¬ r.ComesFrom a e := by
  intro h
  rcases ReflTransGen.cases_head h.1 with heq | ⟨b, hab, -⟩
  · rw [← heq] at h
    exact h.2 ha
  · rw [hab.2] at hnone
    cases hnone

-- ==== trails

/-- The places passed through on the way back from `a` to `e`. -/
inductive Trail (r : Relay α) : α → List α → α → Prop where
  | here {e : α} (own : ¬ r.passes e) : Trail r e [] e
  | back {a b e : α} {l : List α} (step : r.Back a b) (rest : Trail r b l e) :
      Trail r a (a :: l) e

/-- A way back has a trail. -/
theorem ComesFrom.exists_trail {a e : α} (h : r.ComesFrom a e) :
    ∃ l, Trail r a l e := by
  obtain ⟨hback, hown⟩ := h
  induction hback using ReflTransGen.head_induction_on with
  | refl => exact ⟨[], .here hown⟩
  | head hab _ ih =>
      obtain ⟨l, hl⟩ := ih
      exact ⟨_, .back hab hl⟩

namespace Trail

variable {a b e e' : α} {l l' : List α}

/-- There is one trail. -/
theorem unique (h : Trail r a l e) (h' : Trail r a l' e') : l = l' := by
  induction h generalizing l' with
  | here own =>
      cases h' with
      | here _ => rfl
      | back step _ => exact absurd step.1 own
  | back step _ ih =>
      cases h' with
      | here own => exact absurd step.1 own
      | back step' rest' =>
          rw [step.unique step'] at ih
          rw [ih rest']

/-- From any place on a trail the rest of it leads on. -/
theorem from_mem (h : Trail r a l e) (hb : b ∈ l) :
    ∃ l', Trail r b l' e ∧ l'.length ≤ l.length := by
  induction h with
  | here own => cases hb
  | @back a c e l step rest ih =>
      rcases List.mem_cons.1 hb with rfl | hb
      · exact ⟨b :: l, .back step rest, Nat.le_refl _⟩
      · obtain ⟨l', hl', hle⟩ := ih hb
        exact ⟨l', hl', Nat.le_succ_of_le hle⟩

/-- A trail passes through no place twice: it would go on from there as
it did before, and never end. -/
theorem nodup (h : Trail r a l e) : l.Nodup := by
  induction h with
  | here own => exact List.nodup_nil
  | @back a b e l step rest ih =>
      refine List.nodup_cons.2 ⟨fun hmem => ?_, ih⟩
      obtain ⟨l', hl', hle⟩ := rest.from_mem hmem
      have hsame : l' = a :: l := hl'.unique (.back step rest)
      rw [hsame, List.length_cons] at hle
      omega

theorem fed (h : Trail r a l e) : ∀ b ∈ l, ∃ c, r.Back b c := by
  induction h with
  | here own => exact fun _ hb => absurd hb List.not_mem_nil
  | back step rest ih =>
      intro b hb
      rcases List.mem_cons.1 hb with rfl | hb
      · exact ⟨_, step⟩
      · exact ih b hb

/-- There are no more places on a trail than places that are fed. -/
theorem length_le (h : Trail r a l e) {places : List α}
    (hplaces : ∀ a b, r.Back a b → a ∈ places) :
    l.length ≤ places.length := by
  refine h.nodup.length_le_of_subset fun b hb => ?_
  obtain ⟨c, hc⟩ := h.fed b hb
  exact hplaces b c hc

end Trail

-- ==== three ways

/-- A way that ends is finite. -/
theorem ComesFrom.acc {a e : α} (h : r.ComesFrom a e) :
    Acc (fun b a => r.Back a b) a := by
  obtain ⟨hback, hown⟩ := h
  induction hback using ReflTransGen.head_induction_on with
  | refl => exact ⟨_, fun b hb => absurd hb.1 hown⟩
  | head hab _ ih => exact ⟨_, fun c hac => hac.unique hab ▸ ih⟩

/-- A way back that goes on for ever runs into a loop. -/
theorem circles_iff {places : List α}
    (hplaces : ∀ a b, r.Back a b → a ∈ places) {a : α} :
    r.Circles a ↔ ¬ Acc (fun b a => r.Back a b) a := by
  have hswap : r.Circles a ↔ BehindCycle (fun b a => r.Back a b) a := by
    unfold Circles BehindCycle
    refine exists_congr fun u => ?_
    rw [and_comm]
    exact and_congr Relation.transGen_swap.symm Relation.reflTransGen_swap.symm
  rw [hswap]
  constructor
  · exact BehindCycle.not_acc
  · have hclosed : ∀ c b, r.Back b c → b ∈ a :: places.filterMap r.feed? →
        c ∈ a :: places.filterMap r.feed? := fun c b hbc _ =>
      List.mem_cons_of_mem a
        (List.mem_filterMap.2 ⟨b, hplaces b c hbc, hbc.2⟩)
    exact exists_cycle_of_not_acc hclosed List.mem_cons_self

/-- A way back that does not end at a place with content of its own ends
at one that is not fed or runs into a loop. -/
theorem not_comesFrom_iff {places : List α}
    (hplaces : ∀ a b, r.Back a b → a ∈ places) {a : α} :
    (¬ ∃ e, r.ComesFrom a e) ↔ r.Unfed a ∨ r.Circles a := by
  constructor
  · intro hnone
    by_cases hacc : Acc (fun b a => r.Back a b) a
    · left
      induction hacc with
      | intro a _ ih =>
          by_cases ha : r.passes a
          · cases hfeed : r.feed? a with
            | none => exact ⟨a, .refl, ha, hfeed⟩
            | some b =>
                have hab : r.Back a b := ⟨ha, hfeed⟩
                obtain ⟨u, hback, hu⟩ := ih b hab fun ⟨e, he⟩ =>
                  hnone ⟨e, .back hab he⟩
                exact ⟨u, .head hab hback, hu⟩
          · exact absurd ⟨a, .self ha⟩ hnone
    · exact Or.inr ((circles_iff hplaces).2 hacc)
  · intro hend hfound
    obtain ⟨e, he⟩ := hfound
    rcases hend with ⟨u, hback, hu, hnone⟩ | hcircles
    · induction hback using ReflTransGen.head_induction_on with
      | refl => exact not_comesFrom_of_feed?_none hu hnone he
      | head hab _ ih => exact ih ((comesFrom_of_back hab).1 he)
    · exact (circles_iff hplaces).1 hcircles he.acc

end Relay

end PromptGraph

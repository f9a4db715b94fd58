/-
Where nodes occur. A node of a definition is met once for every chain of
instances that ends there, and what becomes of it depends on the chain:
at its end it is ordinary, excluded for a reason (`Excluded`,
`role_dropped_iff`), or an instance that makes the chain longer.

Occurrences of each kind are listed along the chains from a given one on
(`along`). A list along a chain is what is found at its end and the lists
along the chains one instance longer (`along_eq`), as a conversion meets
them. The three lists together have as many members as the root and the
definitions of all expanded occurrences have nodes (`length_occurrences`).
-/
import Mathlib.Algebra.BigOperators.Group.List.Basic
import Mathlib.Algebra.GroupWithZero.Nat
import PromptGraph.Proofs.Flatten.Count
import PromptGraph.Proofs.Flatten.Rounds

namespace PromptGraph.Flatten

open Editor

variable {ctx : Context} {root : Level}

-- ==== excluded nodes

/-- The node is left out of the level at the end of a chain, for this
reason. -/
def Excluded (ctx : Context) (p : List Frame) (n : Node) :
    DropReason → Prop
  | .disabled => n.disabled = true
  | .uiOnly => n.disabled = false ∧ ctx.registry.isUiOnly n.type = true
  | .recursive => Active ctx n ∧ ∃ g ∈ p, g.definition.id = n.type
  | .unknownType =>
      Active ctx n ∧ (∀ d ∈ ctx.definitions, d.id ≠ n.type)
        ∧ Assoc.contains ctx.table n.type = false

variable {p : List Frame}

/-- A definition is no longer available exactly if the chain has an
instance of it. -/
theorem find?_remaining_eq_none {type : String}
    (hany : ∃ d ∈ ctx.definitions, d.id = type) :
    (remaining ctx p).find? (·.id = type) = none
      ↔ ∃ g ∈ p, g.definition.id = type := by
  obtain ⟨d, hd, hid⟩ := hany
  rw [List.find?_eq_none]
  constructor
  · intro h
    by_contra hno
    have hfresh : ∀ g ∈ p, d.id ≠ g.definition.id := by
      intro g hg heq
      exact hno ⟨g, hg, heq.symm.trans hid⟩
    exact h d (mem_remaining.2 ⟨hd, hfresh⟩) (decide_eq_true hid)
  · intro h e he heq
    obtain ⟨g, hg, hgid⟩ := h
    have heq := of_decide_eq_true heq
    exact (mem_remaining.1 he).2 g hg (heq.trans hgid.symm)

variable {n : Node}

/-- A node is dropped exactly if it is excluded. -/
theorem role_dropped_iff (hp : Chain ctx root p) {reason : DropReason} :
    role ctx (remaining ctx p) n = .dropped reason
      ↔ Excluded ctx p n reason := by
  have hdefs : ∀ g ∈ p, ∃ d ∈ ctx.definitions, d.id = g.definition.id := by
    intro g hg
    have hmem := hp.definitions_subset (List.mem_map_of_mem hg)
    exact List.mem_map.1 hmem
  unfold role
  by_cases hdis : n.disabled = true
  · rw [if_pos hdis]
    cases reason <;> simp [Excluded, Active, hdis]
  rw [if_neg hdis]
  rw [Bool.not_eq_true] at hdis
  by_cases hui : ctx.registry.isUiOnly n.type = true
  · rw [if_pos hui]
    cases reason <;> simp [Excluded, Active, hdis, hui]
  rw [if_neg hui]
  rw [Bool.not_eq_true] at hui
  by_cases hany : ctx.definitions.any (·.id = n.type) = true
  · rw [if_pos hany]
    have hex : ∃ d ∈ ctx.definitions, d.id = n.type := by simpa using hany
    have hrec := find?_remaining_eq_none (p := p) hex
    split
    · next e he =>
      rw [he] at hrec
      have hno : ¬ ∃ g ∈ p, g.definition.id = n.type := by simpa using hrec
      cases reason <;> simp_all [Excluded, Active]
    · next hnone =>
      have hg := hrec.1 hnone
      cases reason <;> simp_all [Excluded, Active]
  · rw [if_neg hany]
    have hno : ∀ d ∈ ctx.definitions, d.id ≠ n.type := by simpa using hany
    have hg : ¬ ∃ g ∈ p, g.definition.id = n.type := by
      intro h
      obtain ⟨g, hg, hgid⟩ := h
      obtain ⟨d, hd, hid⟩ := hdefs g hg
      exact hno d hd (hid.trans hgid)
    by_cases htable : Assoc.contains ctx.table n.type = true
    · rw [if_pos htable]
      cases reason <;> simp_all [Excluded, Active]
    · rw [if_neg htable]
      cases reason <;> simp_all [Excluded, Active]

-- ==== occurrences by kind

/-- An excluded node with its reason. -/
def dropped? (ctx : Context) (p : List Frame) (n : Node) :
    Option (Node × DropReason) :=
  match role ctx (remaining ctx p) n with
  | .dropped reason => some (n, reason)
  | _ => none

/-- The nodes of the level at the end of a chain that are left out. -/
def droppedAt (ctx : Context) (root : Level) (p : List Frame) :
    List (Node × DropReason) :=
  (levelAt root p).nodes.filterMap (dropped? ctx p)

/-- Those that become entries. -/
def ordinaryAt (ctx : Context) (root : Level) (p : List Frame) :
    List Node :=
  ordinaryNodes ctx (levelAt root p)

theorem dropped?_eq_some {x : Node × DropReason} :
    dropped? ctx p n = some x
      ↔ x.1 = n ∧ role ctx (remaining ctx p) n = .dropped x.2 := by
  obtain ⟨m, reason⟩ := x
  unfold dropped?
  cases role ctx (remaining ctx p) n with
  | ordinary => simp
  | occurrence d mem => simp
  | dropped r =>
      simp only [Option.some.injEq, Prod.mk.injEq, Role.dropped.injEq]
      exact and_congr_left fun _ => eq_comm

theorem mem_droppedAt (hp : Chain ctx root p) {reason : DropReason} :
    (n, reason) ∈ droppedAt ctx root p
      ↔ n ∈ (levelAt root p).nodes ∧ Excluded ctx p n reason := by
  unfold droppedAt
  rw [List.mem_filterMap]
  constructor
  · intro h
    obtain ⟨m, hm, hsome⟩ := h
    obtain ⟨hmn, hr⟩ := dropped?_eq_some.1 hsome
    cases hmn
    exact ⟨hm, (role_dropped_iff hp).1 hr⟩
  · intro h
    exact ⟨n, h.1, dropped?_eq_some.2 ⟨rfl, (role_dropped_iff hp).2 h.2⟩⟩

theorem nodup_droppedAt (hw : WellNamed ctx root) (hp : Chain ctx root p) :
    (droppedAt ctx root p).Nodup := by
  refine List.Nodup.filterMap ?_ (List.Nodup.of_map _ (hp.uniqueIds hw))
  intro m n x hm hn
  rw [← (dropped?_eq_some.1 hm).1, ← (dropped?_eq_some.1 hn).1]

/-- Each node is of one of the three kinds. -/
theorem length_nodes_eq (p : List Frame) :
    (levelAt root p).nodes.length
      = (ordinaryAt ctx root p).length + (droppedAt ctx root p).length
        + (framesAt ctx root p).length := by
  unfold ordinaryAt ordinaryNodes droppedAt framesAt
  induction (levelAt root p).nodes with
  | nil => rfl
  | cons n l ih =>
      have hiff : role ctx (remaining ctx p) n = .ordinary
          ↔ Ordinary ctx n := role_ordinary_iff
      rw [List.filter_cons, List.filterMap_cons, List.filterMap_cons,
        List.length_cons, ih]
      unfold dropped? frame?
      cases hr : role ctx (remaining ctx p) n with
      | ordinary =>
          have ho : Ordinary ctx n := hiff.1 hr
          simp only [ho, decide_true, if_true, List.length_cons]
          omega
      | dropped reason =>
          have ho : ¬ Ordinary ctx n := by simp [← hiff, hr]
          simp only [ho, decide_false, if_neg Bool.false_ne_true,
            List.length_cons]
          omega
      | occurrence d mem =>
          have ho : ¬ Ordinary ctx n := by simp [← hiff, hr]
          simp only [ho, decide_false, if_neg Bool.false_ne_true,
            List.length_cons]
          omega

-- ==== along chains

/-- What is found at the ends of the chains from `p` on. -/
def along {α : Type} (ctx : Context) (root : Level) (p : List Frame)
    (found : List Frame → List α) : List (List Frame × α) :=
  (chainsAt ctx root p).flatMap fun q => (found q).map fun a => (q, a)

theorem chainsAt_eq_frames (p : List Frame) :
    chainsAt ctx root p
      = p :: (framesAt ctx root p).flatMap fun f =>
          chainsAt ctx root (f :: p) := by
  rw [chainsAt_eq]
  unfold framesAt
  rw [List.filterMap_eq_flatMap_toList, List.flatMap_assoc]
  congr 2
  funext n
  unfold chainsThrough frame?
  cases role ctx (remaining ctx p) n with
  | ordinary => rfl
  | dropped reason => rfl
  | occurrence d mem => simp

variable {α : Type}

/-- What is found from a chain on is found at its end or from a longer
chain on. -/
theorem along_eq (p : List Frame) (found : List Frame → List α) :
    along ctx root p found
      = ((found p).map fun a => (p, a))
        ++ (framesAt ctx root p).flatMap fun f =>
            along ctx root (f :: p) found := by
  unfold along
  rw [chainsAt_eq_frames, List.flatMap_cons, List.flatMap_assoc]

theorem map_along {β : Type} (p : List Frame) (found : List Frame → List α)
    (g : List Frame × α → β) :
    (along ctx root p found).map g
      = ((found p).map fun a => g (p, a))
        ++ (framesAt ctx root p).flatMap fun f =>
            (along ctx root (f :: p) found).map g := by
  rw [along_eq, List.map_append, List.map_map, List.map_flatMap]
  rfl

theorem mem_along (hw : WellNamed ctx root) {p q : List Frame}
    (hp : Chain ctx root p) {found : List Frame → List α} {a : α} :
    (q, a) ∈ along ctx root p found
      ↔ (Chain ctx root q ∧ p <:+ q) ∧ a ∈ found q := by
  unfold along
  simp only [List.mem_flatMap, mem_chainsAt hw hp, List.mem_map,
    Prod.mk.injEq]
  constructor
  · intro h
    obtain ⟨r, hr, b, hb, hrq, hba⟩ := h
    cases hrq
    cases hba
    exact ⟨hr, hb⟩
  · intro h
    exact ⟨q, h.1, a, h.2, rfl, rfl⟩

theorem nodup_along (hw : WellNamed ctx root) (hp : Chain ctx root p)
    {found : List Frame → List α}
    (hfound : ∀ q, Chain ctx root q → (found q).Nodup) :
    (along ctx root p found).Nodup := by
  unfold along
  rw [List.nodup_flatMap]
  refine ⟨fun q hq => ?_, ?_⟩
  · refine (hfound q ((mem_chainsAt hw hp q).1 hq).1).map ?_
    intro a b h
    exact congrArg Prod.snd h
  · refine (nodup_chainsAt hw hp).imp ?_
    intro q r hne x hq hr
    obtain ⟨a, -, hxa⟩ := List.mem_map.1 hq
    obtain ⟨b, -, hxb⟩ := List.mem_map.1 hr
    exact hne (congrArg Prod.fst (hxa.trans hxb.symm))

theorem placements_eq :
    placements ctx root = along ctx root [] (ordinaryAt ctx root) := by
  unfold placements along
  rw [chains_eq]
  rfl

/-- The chains are the empty one and one for each instance at the end of
a chain. -/
theorem chains_perm (hw : WellNamed ctx root) :
    (chainsAt ctx root []).Perm
      ([] :: (along ctx root [] (framesAt ctx root)).map fun x =>
        x.2 :: x.1) := by
  have hsites : ((along ctx root [] (framesAt ctx root)).map fun x =>
      x.2 :: x.1).Nodup := by
    refine (nodup_along hw .nil fun q hq => nodup_framesAt hw hq).map ?_
    intro x y h
    exact Prod.ext (List.cons.inj h).2 (List.cons.inj h).1
  have hnil : [] ∉ (along ctx root [] (framesAt ctx root)).map fun x =>
      x.2 :: x.1 := by
    intro h
    obtain ⟨x, -, hx⟩ := List.mem_map.1 h
    cases hx
  refine (List.perm_ext_iff_of_nodup (nodup_chainsAt hw .nil)
    (List.nodup_cons.2 ⟨hnil, hsites⟩)).2 fun q => ?_
  rw [mem_chainsAt hw .nil, List.mem_cons, List.mem_map]
  cases q with
  | nil => exact ⟨fun _ => Or.inl rfl, fun _ => ⟨.nil, List.nil_suffix⟩⟩
  | cons f q =>
      constructor
      · intro h
        refine Or.inr ⟨(q, f), (mem_along hw .nil).2 ?_, rfl⟩
        exact ⟨⟨h.1.tail, List.nil_suffix⟩, (mem_framesAt hw h.1.tail).2 h.1⟩
      · intro h
        obtain ⟨x, hx, hxq⟩ := h.resolve_left (List.cons_ne_nil f q)
        cases hxq
        obtain ⟨⟨hq, -⟩, hf⟩ := (mem_along hw .nil).1 hx
        exact ⟨(mem_framesAt hw hq).1 hf, List.nil_suffix⟩

/-- Occurrences of the three kinds make up the nodes of the root and of
the definition of each instance. -/
theorem length_occurrences (hw : WellNamed ctx root) :
    (along ctx root [] (ordinaryAt ctx root)).length
        + (along ctx root [] (droppedAt ctx root)).length
        + (along ctx root [] (framesAt ctx root)).length
      = root.nodes.length
        + ((along ctx root [] (framesAt ctx root)).map fun x =>
            x.2.definition.level.nodes.length).sum := by
  have hlen : ∀ {β : Type} (found : List Frame → List β),
      (along ctx root [] found).length
        = ((chainsAt ctx root []).map fun q => (found q).length).sum := by
    intro β found
    unfold along
    rw [List.length_flatMap]
    simp only [List.length_map]
  have hperm := (chains_perm hw).map fun q => (levelAt root q).nodes.length
  calc (along ctx root [] (ordinaryAt ctx root)).length
        + (along ctx root [] (droppedAt ctx root)).length
        + (along ctx root [] (framesAt ctx root)).length
      = ((chainsAt ctx root []).map fun q =>
          (levelAt root q).nodes.length).sum := by
        simp only [hlen, ← List.sum_map_add, ← length_nodes_eq]
    _ = _ := by
        rw [hperm.sum_nat, List.map_cons, List.sum_cons, List.map_map]
        rfl

end PromptGraph.Flatten

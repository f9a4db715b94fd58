/-
A level in two arrangements. A document lists the nodes and the links of
a level in some order, and a conversion walks through both lists. Yet
where ids and link ends tell the members apart (`Unambiguous`), it sees
the same level in every arrangement (`Arranged`):

- a node, or a link, is found under its id or its end whatever stands
  before it (`node?_eq`, `link?_eq`, `lastLinkInto_eq`);
- nodes are taken in the order of their ids (`sortNodes_eq`), and so are
  the instances that become ready at once (`instanceOrder_eq`);
- no output port has two links to choose from (`chooseOutputs_eq_ports`).

Only the order in which output ports are bound, and what is reported on
the way, is still that of the links (`Reordered`).
-/
import Mathlib.Data.List.Pairwise
import Mathlib.Tactic.MkIffOfInductiveProp
import PromptGraph.Proofs.Flatten.Source
import PromptGraph.Proofs.KeyOrder

namespace PromptGraph.Flatten

open Editor

variable {α β : Type} {kept : Prop}

-- ==== lists in order

/-- The same members, perhaps in another order: in the same one if the
order was `kept`. -/
structure Reordered (kept : Prop) (l l' : List α) : Prop where
  perm : l.Perm l'
  eq : kept → l = l'

namespace Reordered

variable {l l' m m' : List α}

theorem refl (l : List α) : Reordered kept l l := ⟨.refl l, fun _ => rfl⟩

/-- Reorderings one behind the other. -/
theorem append (h : Reordered kept l l') (k : Reordered kept m m') :
    Reordered kept (l ++ m) (l' ++ m') :=
  ⟨h.perm.append k.perm, fun hk => by rw [h.eq hk, k.eq hk]⟩

/-- What is taken from each is reordered alike. -/
theorem filterMap (h : Reordered kept l l') (f : α → Option β) :
    Reordered kept (l.filterMap f) (l'.filterMap f) :=
  ⟨h.perm.filterMap f, fun hk => by rw [h.eq hk]⟩

theorem flatMap (h : Reordered kept l l') (f : α → List β) :
    Reordered kept (l.flatMap f) (l'.flatMap f) :=
  ⟨h.perm.flatMap_right f, fun hk => by rw [h.eq hk]⟩

end Reordered

/-- A search that only one member can answer does not depend on the
order. -/
theorem find?_eq_of_perm {p : α → Bool} {l l' : List α} (h : l.Perm l')
    (hone : ∀ a ∈ l, ∀ b ∈ l, p a = true → p b = true → a = b) :
    l.find? p = l'.find? p := by
  cases hfind : l.find? p with
  | none =>
      refine (List.find?_eq_none.2 fun a ha => ?_).symm
      exact List.find?_eq_none.1 hfind a (h.mem_iff.2 ha)
  | some a =>
      have ha := List.mem_of_find?_eq_some hfind
      cases hfind' : l'.find? p with
      | none =>
          have hno := List.find?_eq_none.1 hfind' a (h.mem_iff.1 ha)
          exact absurd (List.find?_some hfind) hno
      | some b =>
          have hb := h.mem_iff.2 (List.mem_of_find?_eq_some hfind')
          rw [hone a ha b hb (List.find?_some hfind) (List.find?_some hfind')]

/-- The same for a search from the end. -/
theorem find?_reverse_eq_of_perm {p : α → Bool} {l l' : List α}
    (h : l.Perm l')
    (hone : ∀ a ∈ l, ∀ b ∈ l, p a = true → p b = true → a = b) :
    l.reverse.find? p = l'.reverse.find? p := by
  refine find?_eq_of_perm
    ((List.reverse_perm l).trans (h.trans (List.reverse_perm l').symm)) ?_
  intro a ha b hb
  exact hone a (List.mem_reverse.1 ha) b (List.mem_reverse.1 hb)

-- ==== unambiguous levels

/-- Ids and ends tell the members of a level apart: of two nodes one
comes first by its id, and two links share neither their id nor the slot
they end at. -/
@[mk_iff] structure Unambiguous (l : Level) : Prop where
  nodes : l.nodes.Pairwise fun m n =>
    Id.less m.id n.id = true ∨ Id.less n.id m.id = true
  linkIds : (l.links.map (·.id)).Nodup
  targets : (l.links.map fun k => (k.target, k.targetSlot)).Nodup

instance (l : Level) : Decidable (Unambiguous l) :=
  decidable_of_iff' _ (unambiguous_iff l)

/-- Links of one end are of one target and slot. -/
theorem target_injective {l : Level} {k j : Link}
    (h : l.target k = l.target j) :
    (k.target, k.targetSlot) = (j.target, j.targetSlot) := by
  unfold Level.target at h
  split at h
  · next s _ =>
    split at h
    · next hk =>
      split at h
      · next hj => rw [hk, hj, Endpoint.outputPort.inj h]
      · cases h
    · split at h
      · cases h
      · rw [(Endpoint.node.inj h).1, (Endpoint.node.inj h).2]
  · rw [(Endpoint.node.inj h).1, (Endpoint.node.inj h).2]

namespace Unambiguous

variable {l : Level}

/-- Nodes are told apart by the keys of their ids. -/
theorem distinct (h : Unambiguous l) :
    Distinct (fun n : Node => n.id.key) l.nodes := by
  intro m hm n hn hkey
  have hsymm : Std.Symm fun m n : Node =>
      Id.less m.id n.id = true ∨ Id.less n.id m.id = true :=
    ⟨fun _ _ => Or.symm⟩
  by_contra hne
  rcases h.nodes.forall hm hn hne with hless | hless
  · exact absurd hkey (ne_of_lt ((Id.less_byKey _ _).1 hless))
  · exact absurd hkey.symm (ne_of_lt ((Id.less_byKey _ _).1 hless))

/-- There is one node with an id. -/
theorem node_eq (h : Unambiguous l) {m n : Node} (hm : m ∈ l.nodes)
    (hn : n ∈ l.nodes) (hid : m.id = n.id) : m = n :=
  h.distinct m hm n hn (congrArg Id.key hid)

/-- No two links end at the same place. -/
theorem link_eq (h : Unambiguous l) {k j : Link} (hk : k ∈ l.links)
    (hj : j ∈ l.links) (heq : l.target k = l.target j) : k = j :=
  List.inj_on_of_nodup_map h.targets hk hj (target_injective heq)

end Unambiguous

-- ==== arrangements

/-- Two arrangements of one unambiguous level. -/
structure Arranged (kept : Prop) (l l' : Level) : Prop where
  clear : Unambiguous l
  nodes : l.nodes.Perm l'.nodes
  links : Reordered kept l.links l'.links
  sentinels : l'.sentinels = l.sentinels

namespace Arranged

variable {l l' : Level}

/-- No arrangement is more ambiguous than another. -/
theorem clear' (h : Arranged kept l l') : Unambiguous l' where
  nodes := h.nodes.pairwise h.clear.nodes Or.symm
  linkIds := (h.links.perm.map _).nodup_iff.1 h.clear.linkIds
  targets := (h.links.perm.map _).nodup_iff.1 h.clear.targets

/-- Links start where they did. -/
theorem origin_eq (h : Arranged kept l l') : l'.origin = l.origin := by
  funext k
  unfold Level.origin
  rw [h.sentinels]

/-- They end where they did. -/
theorem target_eq (h : Arranged kept l l') : l'.target = l.target := by
  funext k
  unfold Level.target
  rw [h.sentinels]

/-- The same node is found under an id. -/
theorem node?_eq (h : Arranged kept l l') (id : Id) :
    l'.node? id = l.node? id := by
  refine (find?_reverse_eq_of_perm h.nodes fun m hm n hn hmid hnid => ?_).symm
  refine h.clear.node_eq hm hn ?_
  rw [of_decide_eq_true hmid, of_decide_eq_true hnid]

/-- So is the same link. -/
theorem link?_eq (h : Arranged kept l l') : l'.link? = l.link? := by
  funext id
  refine (find?_reverse_eq_of_perm h.links.perm
    fun k hk j hj hkid hjid => ?_).symm
  refine List.inj_on_of_nodup_map h.clear.linkIds hk hj ?_
  rw [of_decide_eq_true hkid, of_decide_eq_true hjid]

/-- The same link ends at a slot. -/
theorem lastLinkInto_eq (h : Arranged kept l l') (id : Id) (slot : Int) :
    lastLinkInto l' id slot = lastLinkInto l id slot := by
  unfold lastLinkInto
  rw [h.target_eq]
  refine (find?_reverse_eq_of_perm h.links.perm
    fun k hk j hj hkend hjend => ?_).symm
  refine h.clear.link_eq hk hj ?_
  rw [of_decide_eq_true hkend, of_decide_eq_true hjend]

/-- Nodes are converted in the order of their ids. -/
theorem sortNodes_eq (h : Arranged kept l l') :
    sortNodes l'.nodes = sortNodes l.nodes := by
  have hby : ByKey (fun m n : Node => Id.less m.id n.id)
      (fun n : Node => n.id.key) := fun m n => Id.less_byKey m.id n.id
  exact (hby.sort_eq_of_perm h.nodes h.clear.distinct).symm

-- ==== the order of instances

/-- The same wires lead from instance to instance. -/
theorem wiresAmong_perm (h : Arranged kept l l') (ids : List Id) :
    (wiresAmong l ids).Perm (wiresAmong l' ids) := by
  unfold wiresAmong
  rw [h.origin_eq, h.target_eq]
  exact h.links.perm.filterMap _

end Arranged

variable {wires wires' : List (Id × Id)}

/-- Each instance has as many feeders. -/
theorem length_feeders_eq_of_perm (h : wires.Perm wires') (b : Id) :
    (feeders wires b).length = (feeders wires' b).length := by
  refine ((List.perm_ext_iff_of_nodup (nodup_eraseDups _)
    (nodup_eraseDups _)).2 fun a => ?_).length_eq
  rw [List.mem_eraseDups, List.mem_eraseDups]
  exact (h.filterMap _).mem_iff

variable {ids : List Id}

/-- A wire leads to an instance. -/
theorem mem_wiresAmong {l : Level} {w : Id × Id} (h : w ∈ wiresAmong l ids) :
    w.2 ∈ ids := by
  obtain ⟨k, -, hk⟩ := List.mem_filterMap.1 h
  split at hk
  · split at hk
    · next hin =>
      cases hk
      rw [Bool.and_eq_true, Bool.and_eq_true] at hin
      exact List.contains_iff_mem.1 hin.1.2
    · cases hk
  · cases hk

/-- Ids that are told apart by their keys are queued in one order. -/
theorem consumers_eq_of_perm (hids : Distinct Id.key ids)
    (hwires : ∀ w ∈ wires, w.2 ∈ ids) (h : wires.Perm wires') :
    consumers wires = consumers wires' := by
  funext a
  unfold consumers sortIds
  have hfed : ∀ b ∈ (wires.filterMap fun w =>
      if w.1 = a then some w.2 else none).eraseDups, b ∈ ids := by
    intro b hb
    obtain ⟨w, hw, hb⟩ := List.mem_filterMap.1 (List.mem_eraseDups.1 hb)
    split at hb
    · cases hb
      exact hwires w hw
    · cases hb
  refine Id.less_byKey.sort_eq_of_perm ?_ ?_
  · refine (List.perm_ext_iff_of_nodup (nodup_eraseDups _)
      (nodup_eraseDups _)).2 fun b => ?_
    rw [List.mem_eraseDups, List.mem_eraseDups]
    exact (h.filterMap _).mem_iff
  · intro b hb c hc hkey
    exact hids b (hfed b hb) c (hfed c hc) hkey

/-- A run asks the wires only for the consumers. -/
theorem Countdown.run_congr (hconsumers : consumers wires = consumers wires')
    (fuel : Nat) (c : Countdown) (placed : List Id) :
    c.run wires fuel placed = c.run wires' fuel placed := by
  induction fuel generalizing c placed with
  | zero => rfl
  | succ fuel ih =>
      unfold run
      split
      · rfl
      · rw [hconsumers]
        exact ih _ _

/-- Instances are expanded in one order. -/
theorem Arranged.instanceOrder_eq {l l' : Level} (h : Arranged kept l l')
    (hids : Distinct Id.key ids) :
    instanceOrder l' ids = instanceOrder l ids := by
  have hwires := h.wiresAmong_perm ids
  have hconsumers :=
    consumers_eq_of_perm hids (fun _ => mem_wiresAmong) hwires
  have hstart : countdown (wiresAmong l ids) ids
      = countdown (wiresAmong l' ids) ids := by
    unfold countdown
    simp only [length_feeders_eq_of_perm hwires]
  unfold instanceOrder
  dsimp only
  rw [← hstart, Countdown.run_congr hconsumers]

-- ==== output ports

/-- The output port a link ends at, with the link. -/
def portLink? (l : Level) (k : Link) : Option (Int × Link) :=
  match l.target k with
  | .outputPort slot => some (slot, k)
  | _ => none

/-- A link at an output port. -/
theorem portLink?_eq_some {l : Level} {k : Link} {c : Int × Link}
    (h : portLink? l k = some c) :
    l.target k = .outputPort c.1 ∧ c.2 = k := by
  unfold portLink? at h
  split at h
  · next hslot =>
    cases h
    exact ⟨hslot, rfl⟩
  · cases h

theorem Arranged.portLink?_eq {l l' : Level} (h : Arranged kept l l') :
    portLink? l' = portLink? l := by
  funext k
  unfold portLink?
  rw [h.target_eq]

/-- No two links end at one port. -/
theorem Unambiguous.nodup_portLinks {l : Level} (h : Unambiguous l) :
    ((l.links.filterMap (portLink? l)).map Prod.fst).Nodup := by
  have hlinks : l.links.Nodup := h.linkIds.of_map _
  refine List.pairwise_map.2 (List.pairwise_filterMap.2 ?_)
  refine hlinks.imp_of_mem fun {k j} hk hj hne c hc e he hslot => hne ?_
  refine h.link_eq hk hj ?_
  rw [(portLink?_eq_some hc).1, (portLink?_eq_some he).1, hslot]

/-- Where no port has two links, each gets its own and there is nothing
to report. -/
theorem chooseOutputs_eq_ports {l : Level} (h : Unambiguous l)
    (path : String) (d : Definition) :
    chooseOutputs l path d = (l.links.filterMap (portLink? l), []) := by
  unfold chooseOutputs
  have hslots := h.nodup_portLinks
  generalize l.links = links at hslots ⊢
  induction links using List.reverseRecOn with
  | nil => rfl
  | append_singleton links k ih =>
      rw [List.filterMap_append, List.map_append, List.nodup_append] at hslots
      rw [List.foldl_append, ih hslots.1, List.foldl_cons, List.foldl_nil,
        List.filterMap_append]
      dsimp only
      split
      · next slot hslot =>
        have hk : portLink? l k = some (slot, k) := by
          unfold portLink?
          rw [hslot]
        have hfree : (links.filterMap (portLink? l)).find? (·.1 = slot)
            = none := by
          refine List.find?_eq_none.2 fun c hc heq => ?_
          refine hslots.2.2 c.1 (List.mem_map_of_mem hc) slot ?_
            (of_decide_eq_true heq)
          rw [List.filterMap_cons_some hk]
          exact List.mem_cons_self
        rw [hfree, List.filterMap_cons_some hk]
        rfl
      · next hno =>
        have hk : portLink? l k = none := by
          unfold portLink?
          split
          · next slot hslot => exact absurd hslot (hno slot)
          · rfl
        rw [List.filterMap_cons_none hk]
        exact Prod.ext (List.append_nil _).symm rfl

end PromptGraph.Flatten

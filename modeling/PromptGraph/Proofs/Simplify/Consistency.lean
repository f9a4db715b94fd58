/-
A wire is told twice: the slot it ends in names the link, and the link
names the slot. Both are used. An ordinary node looks its wires up by
the link ids of its slots, an instance by the slots that links end in.
In a consistent level (`Level.Consistent`) the two look-ups see the same
wire (`Level.Consistent.incoming?_eq`).

Simplifying keeps levels consistent. In between they are not: links are
gone whose ids still stand in slots, until the last pass clears these.
What holds all the way is `Thins`, that nodes and links only disappear
and that no slot forgets a link which is still there.

Main statement: `simplify_consistent`.
-/
import Mathlib.Data.List.Nodup
import PromptGraph.Flatten.Expansion
import PromptGraph.Proofs.Simplify.Idempotence

namespace PromptGraph.Editor

-- ==== consistent levels

/-- Slots and links tell the same wires. -/
structure Level.Consistent (l : Level) : Prop where
  nodeIds : (l.nodes.map (·.id)).Nodup
  linkIds : (l.links.map (·.id)).Nodup
  /-- A slot that names a link is where this link ends. -/
  named : ∀ n ∈ l.nodes, ∀ slot ∈ n.inputs.zipIdx, ∀ id ∈ slot.1.wire?,
    ∃ k ∈ l.links, k.id = id ∧ k.target = n.id ∧ k.targetSlot = slot.2
  /-- A link into a slot that is there is the one that the slot names. -/
  reached : ∀ k ∈ l.links, ∀ n ∈ l.nodes, n.id = k.target →
    ∀ slot ∈ n.inputs.zipIdx, k.targetSlot = slot.2 → slot.1.wire? = some k.id

instance (l : Level) : Decidable l.Consistent :=
  decidable_of_iff
    ((l.nodes.map (·.id)).Nodup ∧ (l.links.map (·.id)).Nodup
      ∧ (∀ n ∈ l.nodes, ∀ slot ∈ n.inputs.zipIdx, ∀ id ∈ slot.1.wire?,
        ∃ k ∈ l.links, k.id = id ∧ k.target = n.id ∧ k.targetSlot = slot.2)
      ∧ ∀ k ∈ l.links, ∀ n ∈ l.nodes, n.id = k.target →
        ∀ slot ∈ n.inputs.zipIdx, k.targetSlot = slot.2 → slot.1.wire? = some k.id)
    ⟨fun h => ⟨h.1, h.2.1, h.2.2.1, h.2.2.2⟩,
      fun h => ⟨h.nodeIds, h.linkIds, h.named, h.reached⟩⟩

/-- When a link ends at a node. -/
theorem Level.target_eq_node_iff {l : Level} {id : Id}
    (hid : ∀ s, l.sentinels = some s → id ≠ s.output) (k : Link) (j : Int) :
    l.target k = .node id j ↔ k.target = id ∧ k.targetSlot = j := by
  unfold Level.target
  split
  · next s hs =>
    by_cases hport : k.target = s.output
    · rw [if_pos hport]
      constructor
      · intro h
        cases h
      · rintro ⟨htarget, -⟩
        exact absurd (htarget.symm.trans hport) (hid s hs)
    · rw [if_neg hport, Endpoint.node.injEq]
  · rw [Endpoint.node.injEq]

/-- The link that ends in a slot is the one that the slot names. The ids
that stand for output ports are no nodes. -/
theorem Level.Consistent.incoming?_eq {l : Level} (h : l.Consistent) {n : Node}
    (hn : n ∈ l.nodes) (hport : ∀ s, l.sentinels = some s → n.id ≠ s.output)
    {slot : NodeInput × Nat} (hslot : slot ∈ n.inputs.zipIdx) {scope : Flatten.Scope}
    (hscope : scope.level = l) :
    scope.incoming? n.id slot.2 = slot.1.wire?.bind l.link? := by
  have hends : ∀ k ∈ l.links.reverse,
      decide (l.target k = .node n.id slot.2) = decide (slot.1.wire? = some k.id) := by
    intro k hk
    rw [List.mem_reverse] at hk
    rw [decide_eq_decide, Level.target_eq_node_iff hport]
    constructor
    · rintro ⟨hid, hj⟩
      exact h.reached k hk n hn hid.symm slot hslot hj
    · intro hwire
      obtain ⟨k', hk', hid, hends⟩ := h.named n hn slot hslot k.id hwire
      rwa [List.inj_on_of_nodup_map h.linkIds hk' hk hid] at hends
  unfold Flatten.Scope.incoming?
  rw [hscope, ← List.head?_filter, List.filter_congr hends, List.head?_filter]
  cases hwire : slot.1.wire? with
  | none => simp
  | some id =>
      show _ = l.link? id
      unfold Level.link?
      simp [eq_comm]

/-- The root and every definition are consistent. -/
structure Workflow.Consistent (w : Workflow) : Prop where
  root : w.root.Consistent
  definitions : ∀ d ∈ w.definitions, d.level.Consistent

instance (w : Workflow) : Decidable w.Consistent :=
  decidable_of_iff (w.root.Consistent ∧ ∀ d ∈ w.definitions, d.level.Consistent)
    ⟨fun h => ⟨h.1, h.2⟩, fun h => ⟨h.root, h.definitions⟩⟩

end PromptGraph.Editor

namespace PromptGraph.Simplify

open Editor

-- ==== thinning

/-- Nodes and links only disappear, and a slot forgets no link that is
still there. -/
structure Thins (w w' : Wiring) : Prop where
  ids : (w'.nodes.map (·.id)).Sublist (w.nodes.map (·.id))
  endings : (w'.links.map ending).Sublist (w.links.map ending)
  nodes : ∀ n' ∈ w'.nodes, ∃ n ∈ w.nodes, NodeKept w'.lacks n n'

namespace Thins

variable {w w' w'' : Wiring}

theorem refl (w : Wiring) : Thins w w :=
  ⟨.refl _, .refl _, fun n hn => ⟨n, hn, .refl n⟩⟩

/-- A link that is left was there before, with the same end. -/
theorem exists_link (h : Thins w w') {k' : Link} (hk' : k' ∈ w'.links) :
    ∃ k ∈ w.links, ending k = ending k' :=
  List.mem_map.1 (h.endings.subset (List.mem_map_of_mem hk'))

theorem lacks (h : Thins w w') {l : Id} (hl : w.lacks l) : w'.lacks l := by
  intro k' hk' hid
  obtain ⟨k, hk, hends⟩ := h.exists_link hk'
  exact hl k hk ((congrArg Prod.fst hends).trans hid)

/-- Thinning twice is thinning. -/
theorem trans (h : Thins w w') (h' : Thins w' w'') : Thins w w'' := by
  refine ⟨h'.ids.trans h.ids, h'.endings.trans h.endings, fun n'' hn'' => ?_⟩
  obtain ⟨n', hn', hkept'⟩ := h'.nodes n'' hn''
  obtain ⟨n, hn, hkept⟩ := h.nodes n' hn'
  exact ⟨n, hn, (hkept.mono fun _ => h'.lacks).trans hkept'⟩

/-- Thinning keeps link ids apart. -/
theorem nodup_linkIds (h : Thins w w') (hw : (w.links.map (·.id)).Nodup) :
    (w'.links.map (·.id)).Nodup := by
  have hids : ∀ links : List Link, links.map (·.id) = (links.map ending).map Prod.fst := by
    intro links
    rw [List.map_map]
    rfl
  rw [hids] at hw ⊢
  exact hw.sublist (h.endings.map _)

theorem full (h : Thins w w') : Thins w.full w'.full := ⟨h.ids, h.endings, h.nodes⟩

/-- A pass that is not wanted thins nothing. -/
theorem onlyIf {wanted : Bool} {pass : Wiring → Wiring × Stats}
    (h : Thins w (pass w).1) : Thins w (onlyIf wanted pass w).1 := by
  unfold Simplify.onlyIf
  split
  · exact h
  · exact refl w

end Thins

variable (r : Registry) (w : Wiring)

/-- Each pass thins. -/
theorem thins_resolveVirtualWires : Thins w (resolveVirtualWires r w).1 := by
  refine ⟨ids_resolveVirtualWires r w, endings_resolveVirtualWires r w, fun n hn => ?_⟩
  exact ⟨n, ((mem_resolveVirtualWires r w).1 hn).1, .refl n⟩

theorem thins_collapsePassThrough (o : PassThrough) :
    Thins w (collapsePassThrough r o w).1 := by
  refine ⟨ids_collapsePassThrough r o w, endings_collapsePassThrough r o w,
    fun n' hn' => ?_⟩
  obtain ⟨n, hn, hkept, -⟩ := mem_collapsePassThrough r o w hn'
  exact ⟨n, hn, hkept⟩

/-- A link that carried a value has no namesake that stays. -/
theorem thins_inlinePrimitives (hids : (w.links.map (·.id)).Nodup) :
    Thins w (inlinePrimitives r w).1 := by
  refine ⟨ids_inlinePrimitives r w, endings_inlinePrimitives r w, fun n' hn' => ?_⟩
  obtain ⟨n, hn, hkept, -⟩ := mem_inlinePrimitives r w hn'
  refine ⟨n, hn, hkept.mono fun l hl k' hk' hid => ?_⟩
  obtain ⟨k, hk, rfl, hvalue⟩ := hl
  rw [(inlinePrimitives_eq r w).2.1] at hk'
  obtain ⟨hk', hnone⟩ := List.mem_filter.1 hk'
  rw [List.inj_on_of_nodup_map hids hk' hk hid] at hnone
  rw [Option.isNone_iff_eq_none] at hnone
  rw [hnone] at hvalue
  cases hvalue

theorem thins_clone : Thins w ⟨w.nodes.map Node.clone, copyLinks w.linkList⟩ := by
  have hids : (w.nodes.map Node.clone).map (·.id) = w.nodes.map (·.id) := by
    rw [List.map_map]
    rfl
  have hlinks : Wiring.links ⟨w.nodes.map Node.clone, copyLinks w.linkList⟩ = w.links :=
    getD_copyLinks w.linkList
  refine ⟨?_, ?_, List.forall_mem_map.2 fun n hn => ?_⟩
  · rw [hids]
  · rw [hlinks]
  · exact ⟨n, hn, rfl, rfl, .inl rfl, fun _ i hi => ⟨i, hi, .refl i⟩⟩

theorem thins_prune : Thins w (prune w) := by
  refine ⟨?_, .refl _, fun n' hn' => mem_prune hn'⟩
  rw [ids_prune]

/-- All passes together thin. -/
theorem thins_simplifyLevel (p : Passes) (hids : (w.links.map (·.id)).Nodup) :
    Thins w (simplifyLevel r p w).1 := by
  have hvirtual : Thins w (withoutVirtualWires r p w) :=
    .onlyIf (thins_resolveVirtualWires r w)
  have hpass : Thins w (withoutPassThrough r p w) :=
    hvirtual.trans (.onlyIf (thins_collapsePassThrough r _ _))
  have hprimitives : Thins w (withoutPrimitives r p w) :=
    hpass.trans (.onlyIf (thins_inlinePrimitives r _ (hpass.nodup_linkIds hids)))
  rw [simplifyLevel_fst]
  exact hprimitives.trans (thins_prune _)

/-- A level of a copy is simplified. -/
theorem thins_simplifyLevel_clone (p : Passes) (hids : (w.links.map (·.id)).Nodup) :
    Thins w (simplifyLevel r p ⟨w.nodes.map Node.clone, copyLinks w.linkList⟩).1 :=
  (thins_clone w).trans (thins_simplifyLevel r _ p ((thins_clone w).nodup_linkIds hids))

-- ==== consistency

/-- A thinned level is consistent again once no slot names a link that
is gone. -/
theorem Thins.consistent {l l' : Level} (h : l.Consistent)
    (hthin : Thins ⟨l.nodes, some l.links⟩ ⟨l'.nodes, some l'.links⟩)
    (hwired : ∀ n ∈ l'.nodes, Node.Wired l'.links n) : l'.Consistent := by
  refine ⟨h.nodeIds.sublist hthin.ids, hthin.nodup_linkIds h.linkIds, ?_, ?_⟩
  · intro n' hn' slot hslot id hid
    obtain ⟨n, hn, hkept⟩ := hthin.nodes n' hn'
    obtain ⟨i, hi, hsame | ⟨hnone, -⟩⟩ :=
      hkept.slots slot.2 slot.1 (List.mem_zipIdx_iff_getElem?.1 hslot)
    · -- the link that the slot names is there, and ends where it ended before
      obtain ⟨k', hk', hid'⟩ :=
        (hwired n' hn').1 slot.1 (List.fst_mem_of_mem_zipIdx hslot) id hid
      obtain ⟨k, hk, hends⟩ := hthin.exists_link hk'
      obtain ⟨m, hm, hmid, hmends⟩ := h.named n hn (i, slot.2)
        (List.mem_zipIdx_iff_getElem?.2 hi) id (hsame ▸ hid)
      have hmk : m = k := List.inj_on_of_nodup_map h.linkIds hm hk
        (hmid.trans (hid'.symm.trans (congrArg Prod.fst hends).symm))
      subst hmk
      obtain ⟨-, htarget, hslot'⟩ : _ ∧ m.target = k'.target
          ∧ m.targetSlot = k'.targetSlot := by
        simpa [ending] using hends
      exact ⟨k', hk', hid', by rw [← htarget, hkept.id, hmends.1],
        by rw [← hslot', hmends.2]⟩
    · rw [hnone] at hid
      cases hid
  · intro k' hk' n' hn' hid slot hslot hj
    obtain ⟨n, hn, hkept⟩ := hthin.nodes n' hn'
    obtain ⟨i, hi, hslotKept⟩ :=
      hkept.slots slot.2 slot.1 (List.mem_zipIdx_iff_getElem?.1 hslot)
    obtain ⟨k, hk, hends⟩ := hthin.exists_link hk'
    obtain ⟨hkid, htarget, hslot'⟩ : k.id = k'.id ∧ k.target = k'.target
        ∧ k.targetSlot = k'.targetSlot := by
      simpa [ending] using hends
    have hwire : i.wire? = some k'.id := by
      rw [← hkid]
      refine h.reached k hk n hn ?_ (i, slot.2) (List.mem_zipIdx_iff_getElem?.2 hi) ?_
      · rw [← hkept.id, hid, htarget]
      · rw [hslot', hj]
    rcases hslotKept with hsame | ⟨-, l, hl, hgone⟩
    · rw [hsame, hwire]
    · -- the slot cannot have forgotten a link that is still there
      rw [hwire] at hl
      cases hl
      exact absurd rfl (hgone k' hk')

/-- Whatever passes are run, a workflow whose levels are consistent has
consistent levels again. So in every level, for every node and slot, the
link found through the slot's link id and the link found through its end
are one and the same. -/
theorem simplify_consistent (p : Passes) {wf : Workflow} (h : wf.Consistent) :
    (simplify r p wf).1.Consistent
      ∧ ∀ l, (l = (simplify r p wf).1.root ∨ ∃ d ∈ (simplify r p wf).1.definitions, l = d.level) →
        ∀ n ∈ l.nodes, (∀ s, l.sentinels = some s → n.id ≠ s.output) →
          ∀ slot ∈ n.inputs.zipIdx, ∀ scope : Flatten.Scope, scope.level = l →
            scope.incoming? n.id slot.2 = slot.1.wire?.bind l.link? := by
  have hsettled := settled_simplify r p wf
  have hconsistent : (simplify r p wf).1.Consistent := by
    refine ⟨?_, fun d' hd' => ?_⟩
    · exact Thins.consistent h.root
        (thins_simplifyLevel_clone r ⟨wf.nodes, wf.linkList⟩ p h.root.linkIds).full
        hsettled.root.wires
    · have hwired := (hsettled.definitions d' hd').wires
      obtain ⟨x, hx, rfl⟩ := List.mem_map.1 hd'
      obtain ⟨y, hy, rfl⟩ := List.mem_map.1 hx
      obtain ⟨d, hd, rfl⟩ := List.mem_map.1 hy
      have hthin := (thins_simplifyLevel_clone r ⟨d.nodes, d.linkList⟩ p
        (h.definitions d hd).linkIds).full
      rw [← d.nodes_clone] at hthin
      refine Thins.consistent (h.definitions d hd) ?_ hwired
      unfold Definition.level
      dsimp only
      rw [nodes_simplifyDefinition]
      exact hthin
  refine ⟨hconsistent, fun l hl n hn hport slot hslot scope hscope => ?_⟩
  rcases hl with rfl | ⟨d, hd, rfl⟩
  · exact hconsistent.root.incoming?_eq hn hport hslot hscope
  · exact (hconsistent.definitions d hd).incoming?_eq hn hport hslot hscope

/-- A source that reaches a sink through a set node, a get node and a
reroute, with a primitive beside it that writes a widget of the sink. -/
def plumbing : Workflow where
  nodes := [
    { id := ⟨"1"⟩, type := "Source", outputs := [{ type := "X", linkList := some [⟨"1"⟩] }] },
    { id := ⟨"2"⟩, type := "SetNode", inputs := [{ type := "X", link := some ⟨"1"⟩ }],
      widgets := .positional [.string "a"] },
    { id := ⟨"3"⟩, type := "GetNode", widgets := .positional [.string "a"] },
    { id := ⟨"4"⟩, type := "Reroute", inputs := [{ type := "*", link := some ⟨"2"⟩ }] },
    { id := ⟨"5"⟩, type := "PrimitiveStringMultiline", widgets := .positional [.string "hi"] },
    { id := ⟨"6"⟩, type := "Sink", widgets := .positional [.string ""], inputs := [
      { name := "x", type := "X", link := some ⟨"3"⟩ },
      { name := "text", type := "STRING", link := some ⟨"4"⟩, widget := some "text" }] }]
  linkList := some [
    { id := ⟨"1"⟩, origin := ⟨"1"⟩, target := ⟨"2"⟩ },
    { id := ⟨"2"⟩, origin := ⟨"3"⟩, target := ⟨"4"⟩ },
    { id := ⟨"3"⟩, origin := ⟨"4"⟩, target := ⟨"6"⟩ },
    { id := ⟨"4"⟩, origin := ⟨"5"⟩, target := ⟨"6"⟩, targetSlot := 1 }]

/-- Of its four links one is left, from the source to the sink, and the
slots tell the same. -/
theorem simplify_consistent_plumbing :
    plumbing.Consistent
      ∧ (simplify .builtin {} plumbing).1.Consistent
      ∧ (simplify .builtin {} plumbing).1.links
          = [{ id := ⟨"3"⟩, origin := ⟨"1"⟩, target := ⟨"6"⟩ }]
      ∧ ((simplify .builtin {} plumbing).1.nodes.map fun n => n.inputs.map (·.wire?))
          = [[], [some ⟨"3"⟩, none]] := by
  have hconsistent : plumbing.Consistent := by decide
  exact ⟨hconsistent, (simplify_consistent .builtin {} hconsistent).1, by decide, by decide⟩

end PromptGraph.Simplify

/-
What one pass may do to a level. Every pass takes nodes and links out,
and what stays is nearly the same: a link may get another origin, a node
other widget values and another mode, and a slot may lose its wire. The
relation `NodeKept` says so for nodes and `ending` for links; each pass
has one lemma of either kind, and one that names the nodes it leaves
none of:

- virtual wires: `mem_resolveVirtualWires`, `endings_resolveVirtualWires`;
- nodes that pass their input on: `mem_collapsePassThrough`,
  `endings_collapsePassThrough`;
- primitives: `mem_inlinePrimitives`, `endings_inlinePrimitives`;
- stale link ids: `mem_prune`.

The first two give links new origins; `RewiredBy` is the form in which
that is said exactly, in a module for each.

Primitives are the only pass with a loop. A step of it changes one node
(`written_writeLast`), and `Written` carries what the steps so far have
done to each node.
-/
import Mathlib.Data.List.Forall2
import PromptGraph.Proofs.Walk
import PromptGraph.Simplify.Apply

namespace PromptGraph.Simplify

open Editor

-- ==== what stays

/-- A link as its target sees it: its id, the target and the slot there. -/
def ending (k : Link) : Id × Id × Int := (k.id, k.target, k.targetSlot)

/-- A slot has the wire it had, or has lost one whose link is gone. -/
def SlotKept (gone : Id → Prop) (i i' : NodeInput) : Prop :=
  i'.wire? = i.wire? ∨ i'.wire? = none ∧ ∃ l, i.wire? = some l ∧ gone l

/-- A node that stays: its id and type, its mode unless it is switched on
again, and its slots up to wires whose links are gone. -/
structure NodeKept (gone : Id → Prop) (n n' : Node) : Prop where
  id : n'.id = n.id
  type : n'.type = n.type
  mode : n'.mode = n.mode ∨ n'.mode = Mode.always
  slots : ∀ (j : Nat) (i' : NodeInput), n'.inputs[j]? = some i' →
    ∃ i, n.inputs[j]? = some i ∧ SlotKept gone i i'

/-- The wiring with a list of links, if only an empty one. -/
def Wiring.full (w : Wiring) : Wiring := ⟨w.nodes, some w.links⟩

variable {gone : Id → Prop}

/-- A slot is kept if nothing is done to it. -/
theorem SlotKept.refl (i : NodeInput) : SlotKept gone i i := .inl rfl

/-- A slot that is kept twice is kept. -/
theorem SlotKept.trans {i i' i'' : NodeInput} (h : SlotKept gone i i')
    (h' : SlotKept gone i' i'') : SlotKept gone i i'' := by
  rcases h' with h' | ⟨hnone, l, hl, hgone⟩
  · rcases h with h | ⟨hnone, hlost⟩
    · exact .inl (h'.trans h)
    · exact .inr ⟨h'.trans hnone, hlost⟩
  · rcases h with h | ⟨hnone', -⟩
    · exact .inr ⟨hnone, l, h.symm.trans hl, hgone⟩
    · rw [hnone'] at hl
      cases hl

/-- It is kept when more links are gone. -/
theorem SlotKept.mono {gone' : Id → Prop} (hsub : ∀ l, gone l → gone' l)
    {i i' : NodeInput} (h : SlotKept gone i i') : SlotKept gone' i i' := by
  rcases h with h | ⟨hnone, l, hl, hgone⟩
  · exact .inl h
  · exact .inr ⟨hnone, l, hl, hsub l hgone⟩

namespace NodeKept

/-- A node is kept if nothing is done to it. -/
theorem refl (n : Node) : NodeKept gone n n :=
  ⟨rfl, rfl, .inl rfl, fun _ i hi => ⟨i, hi, .refl i⟩⟩

/-- A node that is kept twice is kept. -/
theorem trans {n n' n'' : Node} (h : NodeKept gone n n')
    (h' : NodeKept gone n' n'') : NodeKept gone n n'' := by
  refine ⟨h'.id.trans h.id, h'.type.trans h.type, ?_, fun j i'' hi'' => ?_⟩
  · rcases h'.mode with hmode | hmode
    · rw [hmode]
      exact h.mode
    · exact .inr hmode
  · obtain ⟨i', hi', hkept'⟩ := h'.slots j i'' hi''
    obtain ⟨i, hi, hkept⟩ := h.slots j i' hi'
    exact ⟨i, hi, hkept.trans hkept'⟩

/-- It is kept when more links are gone. -/
theorem mono {gone' : Id → Prop} (hsub : ∀ l, gone l → gone' l) {n n' : Node}
    (h : NodeKept gone n n') : NodeKept gone' n n' := by
  refine ⟨h.id, h.type, h.mode, fun j i' hi' => ?_⟩
  obtain ⟨i, hi, hkept⟩ := h.slots j i' hi'
  exact ⟨i, hi, hkept.mono hsub⟩

end NodeKept

/-- Taking out links and giving others a new origin leaves a part of the
endings. -/
theorem endings_filterMap {f : Link → Option Link}
    (hf : ∀ k k', f k = some k' → ending k' = ending k) (links : List Link) :
    ((links.filterMap f).map ending).Sublist (links.map ending) := by
  induction links with
  | nil => exact .refl _
  | cons k links ih =>
      cases hk : f k with
      | none =>
          rw [List.filterMap_cons_none hk]
          exact ih.cons _
      | some k' =>
          rw [List.filterMap_cons_some hk, List.map_cons, List.map_cons, hf k k' hk]
          exact ih.cons_cons _

/-- Another source leaves the ending of a link. -/
theorem ending_rewire (k : Link) (s : Source) : ending (rewire k s) = ending k := rfl

-- ==== new origins

/-- The links are, in order, what the relation makes of each; those that
it makes nothing of are dropped. -/
def RewiredBy (becomes : Link → Link → Prop) (links links' : List Link) :
    Prop :=
  ∃ f : Link → Option Link, (∀ k ∈ links, ∀ k', f k = some k' ↔ becomes k k')
    ∧ links' = links.filterMap f

namespace RewiredBy

variable {becomes : Link → Link → Prop} {links links' : List Link}

/-- The links after a pass are what those before it become. -/
theorem mem_iff (h : RewiredBy becomes links links') {k' : Link} :
    k' ∈ links' ↔ ∃ k ∈ links, becomes k k' := by
  obtain ⟨f, hf, rfl⟩ := h
  rw [List.mem_filterMap]
  exact exists_congr fun k => and_congr_right fun hk => hf k hk k'

theorem congr (h : RewiredBy becomes links links')
    {becomes' : Link → Link → Prop}
    (hsame : ∀ k ∈ links, ∀ k', becomes k k' ↔ becomes' k k') :
    RewiredBy becomes' links links' := by
  obtain ⟨f, hf, rfl⟩ := h
  exact ⟨f, fun k hk k' => (hf k hk k').trans (hsame k hk k'), rfl⟩

end RewiredBy

/-- The slots of nodes that are taken out pass on what feeds them. -/
def relay (gone : Id → Prop) (feed? : Source → Option Source) :
    Relay Source where
  passes s := gone s.node
  feed? := feed?

/-- A link between nodes that stay, in place of one that comes from there
through nodes that are taken out. -/
def Retraced (gone : Id → Prop) (feed? : Source → Option Source)
    (k k' : Link) : Prop :=
  ¬ gone k.target ∧ ∃ e, (relay gone feed?).ComesFrom (sourceOf k) e
    ∧ k' = { k with origin := e.node, originSlot := e.slot }

-- ==== virtual wires

section VirtualWires

variable (r : Registry) (w : Wiring)

variable {id : Id}

/-- The setters are the nodes of that kind. -/
theorem isSet_iff :
    (virtualWires r w).isSet id = true ↔ ∃ n ∈ w.nodes, isSetter r n = true ∧ n.id = id := by
  unfold VirtualWires.isSet virtualWires
  simp only [List.any_map, List.any_eq_true, List.mem_filter, Function.comp_apply,
    List.contains_iff_mem, List.mem_map, decide_eq_true_eq]
  constructor
  · rintro ⟨n, ⟨-, m, hm, hid⟩, rfl⟩
    exact ⟨m, hm.1, hm.2, hid⟩
  · rintro ⟨n, hn, hset, rfl⟩
    exact ⟨n, ⟨hn, n, ⟨hn, hset⟩, rfl⟩, rfl⟩

/-- The getters are the nodes of that kind. -/
theorem reads?_isSome_iff :
    ((virtualWires r w).reads? id).isSome = true
      ↔ ∃ n ∈ w.nodes, isGetter r n = true ∧ n.id = id := by
  unfold VirtualWires.reads? virtualWires
  simp only [Option.isSome_map, List.find?_isSome, List.mem_reverse, List.mem_map,
    List.mem_filter, decide_eq_true_eq]
  constructor
  · rintro ⟨_, ⟨n, hn, rfl⟩, hid⟩
    exact ⟨n, hn.1, hn.2, hid⟩
  · rintro ⟨n, hn, hget, hid⟩
    exact ⟨_, ⟨n, ⟨hn, hget⟩, rfl⟩, hid⟩

/-- The virtual ids are those of the set and get nodes. -/
theorem isVirtual_iff :
    (virtualWires r w).isVirtual id = true
      ↔ ∃ n ∈ w.nodes, (isSetter r n = true ∨ isGetter r n = true) ∧ n.id = id := by
  unfold VirtualWires.isVirtual
  rw [Bool.or_eq_true, isSet_iff, reads?_isSome_iff]
  constructor
  · rintro (⟨n, hn, h, hid⟩ | ⟨n, hn, h, hid⟩)
    · exact ⟨n, hn, .inl h, hid⟩
    · exact ⟨n, hn, .inr h, hid⟩
  · rintro ⟨n, hn, h | h, hid⟩
    · exact .inl ⟨n, hn, h, hid⟩
    · exact .inr ⟨n, hn, h, hid⟩

/-- A virtual wire gives a link another source only. -/
theorem ending_direct? {v : VirtualWires} {k k' : Link} {b : Bool}
    (h : v.direct? k = some (k', b)) : ending k' = ending k := by
  unfold VirtualWires.direct? at h
  split at h
  · cases h
  · split at h
    · obtain ⟨s, -, heq⟩ := Option.map_eq_some_iff.1 h
      cases heq
      exact ending_rewire k s
    · split at h
      · obtain ⟨s, -, heq⟩ := Option.map_eq_some_iff.1 h
        cases heq
        exact ending_rewire k s
      · cases h
        rfl

/-- Where no node is virtual, all links are left alone. -/
theorem filterMap_direct? {v : VirtualWires} (hv : ∀ id, v.isVirtual id = false)
    (links : List Link) : links.filterMap v.direct? = links.map (·, false) := by
  have hdirect : v.direct? = fun k => some (k, false) := by
    funext k
    have horigin := hv k.origin
    unfold VirtualWires.isVirtual at horigin
    rw [Bool.or_eq_false_iff, Option.isSome_eq_false_iff, Option.isNone_iff_eq_none]
      at horigin
    unfold VirtualWires.direct?
    simp [hv k.target, horigin.1, horigin.2]
  rw [hdirect]
  exact congrFun (List.filterMap_eq_map (f := fun k : Link => (k, false))) links

/-- Looking first whether there is anything virtual changes neither the
nodes nor the links that are left, -/
theorem resolveVirtualWires_eq :
    (resolveVirtualWires r w).1.nodes
        = w.nodes.filter (fun n => !(virtualWires r w).isVirtual n.id)
      ∧ (resolveVirtualWires r w).1.links
        = (w.links.filterMap (virtualWires r w).direct?).map Prod.fst
      ∧ (resolveVirtualWires r w).2
        = { virtualWires :=
            ((w.links.filterMap (virtualWires r w).direct?).filter (·.2)).length } := by
  unfold resolveVirtualWires
  dsimp only
  split
  · next hnone =>
    rw [Bool.and_eq_true, List.isEmpty_iff, List.isEmpty_iff] at hnone
    have hv : ∀ id, (virtualWires r w).isVirtual id = false := by
      intro id
      unfold VirtualWires.isVirtual VirtualWires.isSet VirtualWires.reads?
      rw [hnone.1, hnone.2]
      rfl
    simp [hv, filterMap_direct? hv, Function.comp_def, List.filter_map]
  · exact ⟨rfl, rfl, rfl⟩

/-- The pass drops the setters and getters, and nothing else. -/
theorem mem_resolveVirtualWires {n : Node} :
    n ∈ (resolveVirtualWires r w).1.nodes
      ↔ n ∈ w.nodes ∧ ∀ m ∈ w.nodes, m.id = n.id → isSetter r m = false ∧ isGetter r m = false := by
  rw [(resolveVirtualWires_eq r w).1, List.mem_filter, Bool.not_eq_true',
    ← Bool.not_eq_true, isVirtual_iff]
  refine and_congr_right fun _ => ?_
  constructor
  · intro h m hm hid
    constructor
    · by_contra hset
      exact h ⟨m, hm, .inl (by simpa using hset), hid⟩
    · by_contra hget
      exact h ⟨m, hm, .inr (by simpa using hget), hid⟩
  · rintro h ⟨m, hm, hkind, hid⟩
    have := h m hm hid
    simp [this.1, this.2] at hkind

/-- It adds no node. -/
theorem ids_resolveVirtualWires :
    ((resolveVirtualWires r w).1.nodes.map (·.id)).Sublist (w.nodes.map (·.id)) := by
  rw [(resolveVirtualWires_eq r w).1]
  exact List.filter_sublist.map _

/-- It adds no link and leaves their endings. -/
theorem endings_resolveVirtualWires :
    ((resolveVirtualWires r w).1.links.map ending).Sublist (w.links.map ending) := by
  rw [(resolveVirtualWires_eq r w).2.1, List.map_filterMap]
  refine endings_filterMap (fun k k' h => ?_) w.links
  obtain ⟨x, hx, rfl⟩ := Option.map_eq_some_iff.1 h
  exact ending_direct? hx

end VirtualWires

-- ==== pass-through

section PassThrough

variable (r : Registry) (o : PassThrough) (w : Wiring)

/-- The ids of the nodes that are taken out. -/
def collapsedIds : List Id := (w.nodes.filter fun n => (verdict r o n).collapses).map (·.id)

/-- A collapsed node gives a link another source only. -/
theorem ending_collapseLink? {through : List Id} {feeds : List (Source × Source)}
    {k k' : Link} (h : collapseLink? through feeds k = some k') : ending k' = ending k := by
  unfold collapseLink? at h
  split at h
  · cases h
  · obtain ⟨s, -, rfl⟩ := Option.map_eq_some_iff.1 h
    exact ending_rewire k s

/-- Enabling a node keeps it. -/
theorem reenable_kept (n : Node) : NodeKept gone n (reenable r o n) := by
  unfold reenable
  split
  · exact ⟨rfl, rfl, .inr rfl, fun _ i hi => ⟨i, hi, .refl i⟩⟩
  · exact .refl n

/-- A node that is not taken out stays as it is from then on. -/
theorem verdict_reenable {n : Node} (h : (verdict r o n).collapses = false) :
    verdict r o (reenable r o n) = .stays := by
  unfold reenable
  by_cases hv : verdict r o n = .reenabled
  · rw [if_pos hv]
    unfold verdict at hv ⊢
    by_cases hprimitive : r.inCategory n.type Category.primitiveValue = true
    · simp [hprimitive, Mode.always, Mode.bypass]
    · rw [if_neg hprimitive] at hv
      split at hv
      · cases hv
      · split at hv
        · cases hv
        · cases hv
  · rw [if_neg hv]
    cases hn : verdict r o n with
    | stays => rfl
    | reenabled => exact absurd hn hv
    | reroute =>
        rw [hn] at h
        cases h
    | bypassed =>
        rw [hn] at h
        cases h

/-- A node that stays does so in the mode it has and switched on. -/
theorem verdict_of_kept {n n' : Node} (h : NodeKept gone n n')
    (hn : verdict r o n = .stays) : verdict r o n' = .stays := by
  rcases h.mode with hmode | hmode
  · have hsame : verdict r o n' = verdict r o n := by
      unfold verdict
      rw [h.type, hmode]
    rw [hsame, hn]
  · unfold verdict at hn ⊢
    rw [h.type, hmode]
    by_cases hprimitive : r.inCategory n.type Category.primitiveValue = true
    · simp [hprimitive, Mode.always, Mode.bypass]
    · rw [if_neg hprimitive] at hn ⊢
      split at hn
      · cases hn
      · next hreroute =>
        simp [hreroute, Mode.always, Mode.bypass]

/-- The sources of the fed slots of the nodes that are taken out. -/
def collapsedFeeds : List (Source × Source) :=
  (w.nodes.filter fun n => (collapsedIds r o w).contains n.id).flatMap (feedsOf w.links)

/-- Where nothing collapses, links are left alone. -/
theorem collapseLink?_nil (feeds : List (Source × Source)) :
    collapseLink? [] feeds = some := by
  funext k
  unfold collapseLink? trace traceFrom
  simp [rewire, sourceOf]

/-- Looking first whether there is a node to take out changes neither the
nodes nor the links that are left. -/
theorem collapsePassThrough_eq :
    (collapsePassThrough r o w).1.nodes
        = dropNodes (collapsedIds r o w) (w.nodes.map (reenable r o))
      ∧ (collapsePassThrough r o w).1.links
        = w.links.filterMap (collapseLink? (collapsedIds r o w) (collapsedFeeds r o w))
      ∧ (collapsePassThrough r o w).2
        = passThroughStats (w.nodes.map (verdict r o)) := by
  unfold collapsePassThrough
  dsimp only
  split
  · next hnone =>
    have hids : collapsedIds r o w = [] := List.isEmpty_iff.1 hnone
    rw [hids, collapseLink?_nil]
    simp [dropNodes, Wiring.links]
  · exact ⟨rfl, rfl, rfl⟩

/-- What is left after the pass was there and stays. -/
theorem mem_collapsePassThrough {n' : Node}
    (h : n' ∈ (collapsePassThrough r o w).1.nodes) :
    ∃ n ∈ w.nodes, NodeKept gone n n' ∧ verdict r o n' = .stays := by
  rw [(collapsePassThrough_eq r o w).1] at h
  obtain ⟨hmem, hid⟩ := List.mem_filter.1 h
  obtain ⟨n, hn, rfl⟩ := List.mem_map.1 hmem
  have hkept : NodeKept gone n (reenable r o n) := reenable_kept r o n
  refine ⟨n, hn, hkept, verdict_reenable r o ?_⟩
  by_contra hcollapses
  rw [Bool.not_eq_false] at hcollapses
  have hthrough : n.id ∈ collapsedIds r o w :=
    List.mem_map.2 ⟨n, List.mem_filter.2 ⟨hn, hcollapses⟩, rfl⟩
  rw [← hkept.id] at hthrough
  rw [List.contains_iff_mem.2 hthrough] at hid
  cases hid

/-- It adds no node. -/
theorem ids_collapsePassThrough :
    ((collapsePassThrough r o w).1.nodes.map (·.id)).Sublist (w.nodes.map (·.id)) := by
  have hsame : (w.nodes.map (reenable r o)).map (·.id) = w.nodes.map (·.id) := by
    rw [List.map_map]
    refine List.map_congr_left fun n _ => ?_
    have hkept : NodeKept (fun _ => False) n (reenable r o n) := reenable_kept r o n
    exact hkept.id
  rw [← hsame, (collapsePassThrough_eq r o w).1]
  exact List.filter_sublist.map _

/-- It adds no link and leaves their endings. -/
theorem endings_collapsePassThrough :
    ((collapsePassThrough r o w).1.links.map ending).Sublist (w.links.map ending) := by
  rw [(collapsePassThrough_eq r o w).2.1]
  exact endings_filterMap (fun _ _ h => ending_collapseLink? h) w.links

end PassThrough

-- ==== primitives

section Primitive

/-- Unplugging changes no slot but one with this link. -/
theorem unplug_kept (link : Id) (inputs : List NodeInput) {j : Nat} {i' : NodeInput}
    (h : (unplug link inputs).1[j]? = some i') :
    ∃ i, inputs[j]? = some i ∧ SlotKept (· = link) i i' := by
  induction inputs generalizing j with
  | nil => cases h
  | cons i inputs ih =>
      unfold unplug at h
      split at h
      · next hi =>
        cases j with
        | zero =>
            rw [← Option.some.inj h]
            exact ⟨i, rfl, .inr ⟨rfl, link, hi, rfl⟩⟩
        | succ j => exact ⟨i', h, .refl i'⟩
      · cases j with
        | zero =>
            rw [← Option.some.inj h]
            exact ⟨i, rfl, .refl i⟩
        | succ j => exact ih h

/-- A write keeps the node but for the link it replaces. -/
theorem writeWidget_kept (n : Node) (link : Id) (v : Json) :
    NodeKept (· = link) n (writeWidget n link v).1 := by
  have hunplug : ∀ widgets, NodeKept (· = link) n
      { n with inputs := (unplug link n.inputs).1, widgets } :=
    fun _ => ⟨rfl, rfl, .inl rfl, fun _ _ h => unplug_kept link n.inputs h⟩
  unfold writeWidget
  split
  · exact .refl n
  · next inputs name heq =>
    have hinputs : inputs = (unplug link n.inputs).1 := by rw [heq]
    subst hinputs
    dsimp only
    split
    · exact hunplug _
    · split
      · split
        · exact hunplug _
        · exact hunplug _
      · exact hunplug _

/-- What the loop has made of each node so far. -/
def Written (gone : Id → Prop) (nodes nodes' : List Node) : Prop :=
  List.Forall₂ (NodeKept gone) nodes nodes'

/-- A write to one node keeps all. -/
theorem written_writeLast (id : Id) {f : Node → Node × Bool}
    (hf : ∀ n, NodeKept gone n (f n).1) (nodes : List Node) :
    Written gone nodes (writeLast id f nodes).1 := by
  have hsame : ∀ l : List Node, Written gone l l :=
    fun l => List.forall₂_same.2 fun n _ => .refl n
  induction nodes with
  | nil => exact .nil
  | cons n nodes ih =>
      unfold writeLast
      split
      · exact .cons (hf n) (hsame nodes)
      · exact .cons (.refl n) ih

/-- Writes one after the other are writes. -/
theorem Written.trans {a b c : List Node} (h : Written gone a b)
    (h' : Written gone b c) : Written gone a c := by
  induction h generalizing c with
  | nil => exact h'
  | cons hn _ ih =>
      cases h' with
      | cons hn' hrest => exact .cons (hn.trans hn') (ih hrest)

/-- Writes leave the ids. -/
theorem Written.map_id {a b : List Node} (h : Written gone a b) :
    b.map (·.id) = a.map (·.id) := by
  induction h with
  | nil => rfl
  | cons hn _ ih => rw [List.map_cons, List.map_cons, hn.id, ih]

/-- A node after writes is one from before, kept. -/
theorem Written.exists_of_mem {a b : List Node} (h : Written gone a b)
    {n' : Node} (hn' : n' ∈ b) : ∃ n ∈ a, NodeKept gone n n' := by
  induction h with
  | nil => cases hn'
  | cons hn _ ih =>
      rcases List.mem_cons.1 hn' with rfl | hn'
      · exact ⟨_, List.mem_cons_self, hn⟩
      · obtain ⟨n, hmem, hkept⟩ := ih hn'
        exact ⟨n, List.mem_cons_of_mem _ hmem, hkept⟩

/-- The links that a primitive sends its value over. -/
def SentOver (values : List (Id × Json)) (links : List Link) (l : Id) : Prop :=
  ∃ k ∈ links, k.id = l ∧ (valueOf? values k.origin).isSome = true

/-- One link of the loop. -/
def writeStep (values : List (Id × Json)) (acc : List Node × Nat) (k : Link) :
    List Node × Nat :=
  match valueOf? values k.origin with
  | none => acc
  | some v =>
    let (nodes, done) := writeLast k.target (fun n => writeWidget n k.id v) acc.1
    (nodes, if done then acc.2 + 1 else acc.2)

/-- Values are written link by link. -/
theorem writeValues_eq (values : List (Id × Json)) (nodes : List Node)
    (links : List Link) :
    writeValues values nodes links = links.foldl (writeStep values) (nodes, 0) := rfl

/-- One link keeps the nodes but for itself. -/
theorem written_writeStep (values : List (Id × Json)) {links : List Link} {k : Link}
    (hk : k ∈ links) (acc : List Node × Nat) :
    Written (SentOver values links) acc.1 (writeStep values acc k).1 := by
  unfold writeStep
  split
  · exact List.forall₂_same.2 fun n _ => .refl n
  · next v hvalue =>
    refine written_writeLast k.target (fun n => ?_) acc.1
    refine (writeWidget_kept n k.id v).mono fun l hl => ?_
    exact ⟨k, hk, hl.symm, by rw [hvalue]; rfl⟩

/-- The loop unplugs only links that carry a value. -/
theorem written_writeValues (values : List (Id × Json)) (nodes : List Node)
    (links : List Link) :
    Written (SentOver values links) nodes (writeValues values nodes links).1 := by
  rw [writeValues_eq]
  suffices hloop : ∀ rest : List Link, (∀ k ∈ rest, k ∈ links) →
      ∀ acc : List Node × Nat, Written (SentOver values links) acc.1
        (rest.foldl (writeStep values) acc).1 from
    hloop links (fun _ hk => hk) (nodes, 0)
  intro rest hrest
  induction rest with
  | nil => exact fun acc => List.forall₂_same.2 fun n _ => .refl n
  | cons k rest ih =>
      intro acc
      have hstep := written_writeStep values (hrest k List.mem_cons_self) acc
      exact hstep.trans (ih (fun j hj => hrest j (List.mem_cons_of_mem _ hj)) _)

/-- Without values nothing is written. -/
theorem writeValues_nil (nodes : List Node) (links : List Link) :
    writeValues [] nodes links = (nodes, 0) := by
  unfold writeValues
  induction links with
  | nil => rfl
  | cons k links ih => exact ih

variable (r : Registry) (w : Wiring)

/-- Looking first whether there are primitives changes neither the nodes
nor the links that are left. -/
theorem inlinePrimitives_eq :
    (inlinePrimitives r w).1.nodes
        = dropNodes ((primitiveValues r w.nodes).map Prod.fst)
            (writeValues (primitiveValues r w.nodes) w.nodes w.links).1
      ∧ (inlinePrimitives r w).1.links
        = w.links.filter (fun k =>
            (valueOf? (primitiveValues r w.nodes) k.origin).isNone)
      ∧ (inlinePrimitives r w).2
        = { inlined := (writeValues (primitiveValues r w.nodes) w.nodes w.links).2 } := by
  unfold inlinePrimitives
  dsimp only
  split
  · next hnone =>
    rw [List.isEmpty_iff] at hnone
    simp [hnone, writeValues_nil, dropNodes, valueOf?]
  · exact ⟨rfl, rfl, rfl⟩

/-- What is left after the pass was there and is no primitive. -/
theorem mem_inlinePrimitives {n' : Node} (h : n' ∈ (inlinePrimitives r w).1.nodes) :
    ∃ n ∈ w.nodes, NodeKept (SentOver (primitiveValues r w.nodes) w.links) n n'
      ∧ r.inCategory n'.type Category.inlinePrimitive = false := by
  rw [(inlinePrimitives_eq r w).1] at h
  obtain ⟨hmem, hid⟩ := List.mem_filter.1 h
  obtain ⟨n, hn, hkept⟩ := (written_writeValues _ _ _).exists_of_mem hmem
  refine ⟨n, hn, hkept, ?_⟩
  by_contra hprimitive
  rw [Bool.not_eq_false, hkept.type] at hprimitive
  have hvalue : n'.id ∈ (primitiveValues r w.nodes).map Prod.fst := by
    unfold primitiveValues
    rw [List.map_map, hkept.id]
    exact List.mem_map.2 ⟨n, List.mem_filter.2 ⟨hn, hprimitive⟩, rfl⟩
  exact absurd (List.contains_iff_mem.2 hvalue) (by simpa using hid)

/-- It adds no node. -/
theorem ids_inlinePrimitives :
    ((inlinePrimitives r w).1.nodes.map (·.id)).Sublist (w.nodes.map (·.id)) := by
  rw [(inlinePrimitives_eq r w).1,
    ← (written_writeValues (primitiveValues r w.nodes) w.nodes w.links).map_id]
  exact List.filter_sublist.map _

/-- It adds no link and leaves their endings. -/
theorem endings_inlinePrimitives :
    ((inlinePrimitives r w).1.links.map ending).Sublist (w.links.map ending) := by
  rw [(inlinePrimitives_eq r w).2.1]
  exact List.filter_sublist.map _

end Primitive

-- ==== stale link ids

section Prune

/-- The link ids that the wiring does not have. -/
def Wiring.lacks (w : Wiring) (l : Id) : Prop := ∀ k ∈ w.links, k.id ≠ l

theorem any_id_iff {links : List Link} {l : Id} :
    links.any (·.id = l) = true ↔ ∃ k ∈ links, k.id = l := by
  rw [List.any_eq_true]
  exact exists_congr fun k => and_congr_right fun _ => decide_eq_true_iff

theorem wire?_unlinked (i : NodeInput) : ({ i with link := none } : NodeInput).wire? = none :=
  rfl

/-- A pruned slot names a link that is there, and it is the one it had. -/
theorem wire?_pruneInput (valid : Id → Bool) (i : NodeInput) :
    (pruneInput valid i).wire? = i.wire?.filter valid := by
  unfold pruneInput
  cases hi : i.wire? with
  | none => simp [hi]
  | some l =>
      rw [Option.filter_some]
      by_cases hl : valid l = true
      · simp [hl, hi]
      · simp [hl, wire?_unlinked]

/-- Pruning keeps a slot but for links that are not there. -/
theorem pruneInput_kept (w : Wiring) (i : NodeInput) :
    SlotKept w.lacks i (pruneInput (fun id => w.links.any (·.id = id)) i) := by
  unfold SlotKept
  rw [wire?_pruneInput]
  cases hi : i.wire? with
  | none => exact .inl rfl
  | some l =>
      rw [Option.filter_some]
      by_cases hl : w.links.any (·.id = l) = true
      · exact .inl (if_pos hl)
      · refine .inr ⟨if_neg hl, l, rfl, fun k hk hid => hl ?_⟩
        exact any_id_iff.2 ⟨k, hk, hid⟩

variable {w : Wiring}

/-- A pruned node was there and is kept. -/
theorem mem_prune {n' : Node} (h : n' ∈ (prune w).nodes) :
    ∃ n ∈ w.nodes, NodeKept w.lacks n n' := by
  obtain ⟨n, hn, rfl⟩ := List.mem_map.1 h
  refine ⟨n, hn, rfl, rfl, .inl rfl, fun j i' hi' => ?_⟩
  have hslot : (n.inputs.map (pruneInput fun id => w.links.any (·.id = id)))[j]?
      = some i' := hi'
  rw [List.getElem?_map] at hslot
  obtain ⟨i, hi, rfl⟩ := Option.map_eq_some_iff.1 hslot
  exact ⟨i, hi, pruneInput_kept w i⟩

/-- Pruning leaves the ids. -/
theorem ids_prune (w : Wiring) : (prune w).nodes.map (·.id) = w.nodes.map (·.id) := by
  unfold prune
  rw [List.map_map]
  rfl

/-- Every link id that a node names is there. -/
def Node.Wired (links : List Link) (n : Node) : Prop :=
  (∀ i ∈ n.inputs, ∀ l, i.wire? = some l → ∃ k ∈ links, k.id = l)
    ∧ ∀ o ∈ n.outputs, ∀ l ∈ o.links, ∃ k ∈ links, k.id = l

/-- Outputs keep the links that are there. -/
theorem links_pruneOutput (valid : Id → Bool) (o : NodeOutput) :
    (pruneOutput valid o).links = o.links.filter valid := by
  unfold pruneOutput
  split
  · next hnone => rw [List.isEmpty_iff.1 hnone, List.filter_nil]
  · rfl

/-- A pruned node names links that are there only. -/
theorem wired_prune {n : Node} (h : n ∈ (prune w).nodes) :
    Node.Wired w.links n := by
  obtain ⟨n, -, rfl⟩ := List.mem_map.1 h
  constructor
  · intro i' hi' l hl
    obtain ⟨i, -, rfl⟩ := List.mem_map.1 hi'
    rw [wire?_pruneInput] at hl
    exact any_id_iff.1 (Option.filter_eq_some_iff.1 hl).2
  · intro o' ho' l hl
    obtain ⟨o, -, rfl⟩ := List.mem_map.1 ho'
    rw [links_pruneOutput] at hl
    exact any_id_iff.1 (List.mem_filter.1 hl).2

end Prune

end PromptGraph.Simplify

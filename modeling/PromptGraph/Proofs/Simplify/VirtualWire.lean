/-
How far virtual wires are followed.

What a get node reads, or a set node hands on, is what feeds a set node
(`handedOn?`). That may again be a get node or a set node, so there is a
way back from every virtual node, and only its end is a real source. The
pass takes a single step of it. A link is right afterwards if that step
leads out of the virtual nodes; otherwise its origin is one of the nodes
that are taken out.

Main statement: `virtual_wires_one_step`.
-/
import PromptGraph.Proofs.Simplify.Passes

namespace PromptGraph.Simplify

open Editor

variable (r : Registry) (w : Wiring)

-- ==== virtual nodes

/-- The id is that of a set node. -/
def SetId (id : Id) : Prop := ∃ n ∈ w.nodes, isSetter r n = true ∧ n.id = id

instance (id : Id) : Decidable (SetId r w id) :=
  inferInstanceAs (Decidable (∃ n ∈ w.nodes, _ ∧ _))

/-- The id is that of a set node or of a get node. -/
def Virtual (id : Id) : Prop :=
  ∃ n ∈ w.nodes, (isSetter r n = true ∨ isGetter r n = true) ∧ n.id = id

instance (id : Id) : Decidable (Virtual r w id) :=
  inferInstanceAs (Decidable (∃ n ∈ w.nodes, (_ ∨ _) ∧ _))

/-- What a virtual node hands on. A get node hands on what feeds the
first fed set node with its name; of several nodes with one id the last
counts. A set node hands on what feeds it. -/
def handedOn? (id : Id) : Option Source :=
  let setNodes := w.nodes.filter fun n => SetId r w n.id
  match w.nodes.reverse.find? fun n => isGetter r n && n.id = id with
  | some n =>
    if wireName n.widgets = "" then none
    else setNodes.findSome? fun m =>
      if wireName m.widgets = wireName n.widgets then setterFeed? w.links m
      else none
  | none => setNodes.reverse.findSome? fun m =>
      if m.id = id then setterFeed? w.links m else none

-- ==== the tables

theorem filter_setterIds :
    (w.nodes.filter fun n =>
        ((w.nodes.filter (isSetter r)).map (·.id)).contains n.id)
      = w.nodes.filter fun n => SetId r w n.id := by
  refine List.filter_congr fun n _ => ?_
  rw [Bool.eq_iff_iff, List.contains_iff_mem, decide_eq_true_eq, List.mem_map]
  refine exists_congr fun m => ?_
  rw [List.mem_filter, and_assoc]

/-- The last getter with an id counts. -/
theorem reads?_eq (id : Id) :
    (virtualWires r w).reads? id
      = (w.nodes.reverse.find? fun n => isGetter r n && n.id = id).map fun n =>
          wireName n.widgets := by
  unfold VirtualWires.reads? virtualWires
  dsimp only
  rw [← List.map_reverse, ← List.filter_reverse, List.find?_map,
    List.find?_filter, Option.map_map]
  simp only [Function.comp_def, Bool.decide_and, Bool.decide_eq_true]

/-- The first entry under a name comes from the first node that has both
the name and something that feeds it. -/
theorem find?_published (nodes : List Node) (name : String) :
    ((nodes.filterMap fun n =>
        if wireName n.widgets = "" then none
        else (setterFeed? w.links n).map (wireName n.widgets, ·)).find?
          (·.1 = name)).map Prod.snd
      = if name = "" then none
        else nodes.findSome? fun m =>
          if wireName m.widgets = name then setterFeed? w.links m
          else none := by
  induction nodes with
  | nil => simp
  | cons n nodes ih =>
      rw [List.filterMap_cons, List.findSome?_cons]
      by_cases hempty : wireName n.widgets = ""
      · by_cases hname : name = ""
        · simpa [hempty, hname] using ih
        · simpa [hempty, hname, Ne.symm hname] using ih
      · cases hfeed : setterFeed? w.links n with
        | none => simpa [hempty] using ih
        | some s =>
            by_cases hname : wireName n.widgets = name
            · subst hname
              simp [hempty]
            · simpa [hempty, hname] using ih

/-- The first setter of a name counts. -/
theorem publisher?_eq (name : String) :
    (virtualWires r w).publisher? name
      = if name = "" then none
        else (w.nodes.filter fun n => SetId r w n.id).findSome? fun m =>
          if wireName m.widgets = name then setterFeed? w.links m
          else none := by
  unfold VirtualWires.publisher? virtualWires
  dsimp only
  rw [filter_setterIds, find?_published]

/-- What feeds a setter. -/
theorem feeds?_eq (id : Id) :
    (virtualWires r w).feeds? id
      = (w.nodes.filter fun n => SetId r w n.id).reverse.findSome? fun m =>
          if m.id = id then setterFeed? w.links m else none := by
  unfold VirtualWires.feeds? virtualWires
  dsimp only
  rw [filter_setterIds, ← List.map_reverse, List.findSome?_map]
  rfl

/-- What a virtual node hands on. -/
theorem handedOn?_eq (id : Id) :
    handedOn? r w id
      = match (virtualWires r w).reads? id with
        | some name => (virtualWires r w).publisher? name
        | none => (virtualWires r w).feeds? id := by
  unfold handedOn?
  rw [reads?_eq, feeds?_eq]
  cases w.nodes.reverse.find? fun n => isGetter r n && n.id = id with
  | none => rfl
  | some n => exact (publisher?_eq r w (wireName n.widgets)).symm

-- ==== one step

/-- What becomes of a link. -/
theorem map_fst_direct? (k : Link) :
    ((virtualWires r w).direct? k).map Prod.fst
      = if Virtual r w k.target then none
        else if Virtual r w k.origin then
          (handedOn? r w k.origin).map (rewire k)
        else some k := by
  have hvirtual : ∀ id, (virtualWires r w).isVirtual id = true
      ↔ Virtual r w id := fun id => isVirtual_iff r w
  unfold VirtualWires.direct?
  by_cases htarget : Virtual r w k.target
  · rw [if_pos htarget, if_pos ((hvirtual _).2 htarget)]
    rfl
  · rw [if_neg htarget, if_neg (mt (hvirtual _).1 htarget), handedOn?_eq]
    have horigin := hvirtual k.origin
    unfold VirtualWires.isVirtual at horigin
    rw [Bool.or_eq_true] at horigin
    cases hreads : (virtualWires r w).reads? k.origin with
    | some name =>
        rw [if_pos (horigin.1 (Or.inr (by rw [hreads]; rfl)))]
        exact Option.map_map _ _ _
    | none =>
        rw [hreads] at horigin
        by_cases hset : (virtualWires r w).isSet k.origin = true
        · rw [if_pos (horigin.1 (Or.inl hset))]
          dsimp only
          rw [if_pos hset]
          exact Option.map_map _ _ _
        · have hout : ¬ Virtual r w k.origin := by
            intro hin
            rcases horigin.2 hin with h | h
            · exact hset h
            · cases h
          rw [if_neg hout]
          dsimp only
          rw [if_neg hset]
          rfl

/-- What becomes of a link: if it does not end at a virtual node and
begins at one, its new origin is what that node hands on. -/
def OneStep (k k' : Link) : Prop :=
  ¬ Virtual r w k.target
    ∧ (¬ Virtual r w k.origin ∧ k' = k
      ∨ Virtual r w k.origin ∧ ∃ s, handedOn? r w k.origin = some s
        ∧ k' = { k with origin := s.node, originSlot := s.slot })

/-- The links after the pass. -/
theorem resolveVirtualWires_links :
    RewiredBy (OneStep r w) w.links (resolveVirtualWires r w).1.links := by
  refine ⟨fun k => ((virtualWires r w).direct? k).map Prod.fst,
    fun k _ k' => ?_, ?_⟩
  · dsimp only
    rw [map_fst_direct?]
    unfold OneStep
    by_cases htarget : Virtual r w k.target
    · simp [htarget]
    · by_cases horigin : Virtual r w k.origin
      · simp [htarget, horigin, rewire, eq_comm]
      · simp [htarget, horigin, eq_comm]
  · rw [(resolveVirtualWires_eq r w).2.1]
    exact List.map_filterMap

/-- The nodes after the pass. -/
theorem resolveVirtualWires_nodes :
    (resolveVirtualWires r w).1.nodes
      = w.nodes.filter fun n => !decide (Virtual r w n.id) := by
  rw [(resolveVirtualWires_eq r w).1]
  refine List.filter_congr fun n _ => ?_
  rw [Bool.not_inj_iff, Bool.eq_iff_iff, isVirtual_iff, decide_eq_true_eq]
  rfl

-- ==== the whole way back

/-- From a virtual node the way back goes on to what it hands on. -/
abbrev virtualRelay : Relay Source :=
  relay (Virtual r w) fun s => handedOn? r w s.node

/-- What the whole way back makes of a link. -/
abbrev Resolved : Link → Link → Prop :=
  Retraced (Virtual r w) fun s => handedOn? r w s.node

/-- One step leads out of the virtual nodes, wherever a link that stays
needs it. -/
def ShortChains : Prop :=
  ∀ k ∈ w.links, ¬ Virtual r w k.target → Virtual r w k.origin →
    ∀ s, handedOn? r w k.origin = some s → ¬ Virtual r w s.node

variable {r w}

/-- A resolved link starts at a real node. -/
theorem not_virtual_of_resolved {k k' : Link} (h : Resolved r w k k') :
    ¬ Virtual r w k'.origin := by
  obtain ⟨-, e, hcomes, rfl⟩ := h
  exact hcomes.2

/-- If the first step leads out, it is the whole way. -/
theorem comesFrom_of_short {k : Link} (hvirtual : Virtual r w k.origin)
    (hshort : ∀ s, handedOn? r w k.origin = some s → ¬ Virtual r w s.node)
    {e : Source} :
    (virtualRelay r w).ComesFrom (sourceOf k) e
      ↔ handedOn? r w k.origin = some e := by
  cases hnext : handedOn? r w k.origin with
  | none =>
      have hnone : ¬ (virtualRelay r w).ComesFrom (sourceOf k) e :=
        Relay.not_comesFrom_of_feed?_none hvirtual hnext
      simp [hnone]
  | some s =>
      have hback : (virtualRelay r w).Back (sourceOf k) s := ⟨hvirtual, hnext⟩
      have hreal : ¬ (virtualRelay r w).passes s := hshort s hnext
      rw [Relay.comesFrom_of_back hback, Relay.comesFrom_of_not_passes hreal,
        Option.some_inj]

/-- With short chains one step resolves a link. -/
theorem oneStep_iff_resolved (h : ShortChains r w) {k : Link}
    (hk : k ∈ w.links) (k' : Link) :
    OneStep r w k k' ↔ Resolved r w k k' := by
  unfold Resolved Retraced OneStep
  refine and_congr_right fun htarget => ?_
  by_cases horigin : Virtual r w k.origin
  · have hend : ∀ e, (virtualRelay r w).ComesFrom (sourceOf k) e
        ↔ handedOn? r w k.origin = some e := fun e =>
      comesFrom_of_short horigin (h k hk htarget horigin)
    simp only [hend, horigin, not_true_eq_false, true_and, false_and, false_or]
  · have hend : ∀ e, (virtualRelay r w).ComesFrom (sourceOf k) e
        ↔ sourceOf k = e := fun e => Relay.comesFrom_of_not_passes horigin
    simp only [hend, horigin, not_false_eq_true, true_and, false_and, or_false,
      exists_eq_left']
    rfl

/-- All links start at real nodes if chains are short. -/
theorem origins_real_iff :
    (∀ k' ∈ (resolveVirtualWires r w).1.links, ¬ Virtual r w k'.origin)
      ↔ ShortChains r w := by
  have hmem : ∀ k', k' ∈ (resolveVirtualWires r w).1.links
      ↔ ∃ k ∈ w.links, OneStep r w k k' := fun _ =>
    (resolveVirtualWires_links r w).mem_iff
  constructor
  · intro hreal k hk htarget horigin s hs
    exact hreal { k with origin := s.node, originSlot := s.slot }
      ((hmem _).2 ⟨k, hk, htarget, Or.inr ⟨horigin, s, hs, rfl⟩⟩)
  · intro hshort k' hk'
    obtain ⟨k, hk, htarget, hcase⟩ := (hmem k').1 hk'
    rcases hcase with ⟨hreal, rfl⟩ | ⟨horigin, s, hs, rfl⟩
    · exact hreal
    · exact hshort k hk htarget horigin s hs

/-- Links are resolved if chains are short. -/
theorem resolved_iff :
    RewiredBy (Resolved r w) w.links (resolveVirtualWires r w).1.links
      ↔ ShortChains r w := by
  constructor
  · intro hresolved
    refine origins_real_iff.1 fun k' hk' => ?_
    obtain ⟨k, -, hk⟩ := hresolved.mem_iff.1 hk'
    exact not_virtual_of_resolved hk
  · intro hshort
    exact (resolveVirtualWires_links r w).congr fun k hk k' =>
      oneStep_iff_resolved hshort hk k'

/-- Resolving virtual wires: the nodes that stay are those whose id is
not that of a set or get node. A link that stays and began at such a node
begins afterwards at what the node hands on, and is dropped if that is
nothing. This is one step back, and it is as good as the whole way
exactly if for every link that stays it leads to a real node; exactly
then no link is left that begins at a node taken out. -/
theorem virtual_wires_one_step (r : Registry) (w : Wiring) :
    let w' := (resolveVirtualWires r w).1
    w'.nodes = (w.nodes.filter fun n => !decide (Virtual r w n.id))
      ∧ RewiredBy (OneStep r w) w.links w'.links
      ∧ (RewiredBy (Resolved r w) w.links w'.links ↔ ShortChains r w)
      ∧ ((∀ k' ∈ w'.links, ¬ Virtual r w k'.origin) ↔ ShortChains r w) :=
  ⟨resolveVirtualWires_nodes r w, resolveVirtualWires_links r w, resolved_iff,
    origins_real_iff⟩

/-- A source that is published as "a", and "a" as "b", which a sink
reads. -/
def chained : Wiring :=
  { nodes := [
      { id := ⟨"1"⟩, type := "Source",
        outputs := [{ type := "X", linkList := some [⟨"1"⟩] }] },
      { id := ⟨"2"⟩, type := "SetNode",
        inputs := [{ type := "X", link := some ⟨"1"⟩ }],
        widgets := .positional [.string "a"] },
      { id := ⟨"3"⟩, type := "GetNode",
        outputs := [{ type := "X", linkList := some [⟨"2"⟩] }],
        widgets := .positional [.string "a"] },
      { id := ⟨"4"⟩, type := "SetNode",
        inputs := [{ type := "X", link := some ⟨"2"⟩ }],
        widgets := .positional [.string "b"] },
      { id := ⟨"5"⟩, type := "GetNode",
        outputs := [{ type := "X", linkList := some [⟨"3"⟩] }],
        widgets := .positional [.string "b"] },
      { id := ⟨"6"⟩, type := "Sink",
        inputs := [{ name := "x", type := "X", link := some ⟨"3"⟩ }] }]
    linkList := some [
      { id := ⟨"1"⟩, origin := ⟨"1"⟩, target := ⟨"2"⟩, type := "X" },
      { id := ⟨"2"⟩, origin := ⟨"3"⟩, target := ⟨"4"⟩, type := "X" },
      { id := ⟨"3"⟩, origin := ⟨"5"⟩, target := ⟨"6"⟩, type := "X" }] }

/-- The sink is left wired to the first get node, which is gone, although
what it reads comes from the source. -/
theorem virtual_wire_left_dangling_chained :
    (resolveVirtualWires .builtin chained).1.links
        = [{ id := ⟨"3"⟩, origin := ⟨"3"⟩, target := ⟨"6"⟩, type := "X" }]
      ∧ (resolveVirtualWires .builtin chained).1.nodes.map (·.id)
        = [⟨"1"⟩, ⟨"6"⟩]
      ∧ (virtualRelay .builtin chained).ComesFrom ⟨⟨"5"⟩, 0⟩ ⟨⟨"1"⟩, 0⟩
      ∧ ¬ RewiredBy (Resolved .builtin chained) chained.links
          (resolveVirtualWires .builtin chained).1.links := by
  have hlong : ¬ ShortChains .builtin chained := by
    intro hshort
    exact hshort { id := ⟨"3"⟩, origin := ⟨"5"⟩, target := ⟨"6"⟩, type := "X" }
      (by decide) (by decide) (by decide) ⟨⟨"3"⟩, 0⟩ (by decide) (by decide)
  have hvirtual : Virtual .builtin chained ⟨"5"⟩
      ∧ Virtual .builtin chained ⟨"3"⟩ ∧ ¬ Virtual .builtin chained ⟨"1"⟩ := by
    decide
  have hfirst : (virtualRelay .builtin chained).Back ⟨⟨"5"⟩, 0⟩ ⟨⟨"3"⟩, 0⟩ :=
    ⟨hvirtual.1, by decide⟩
  have hsecond : (virtualRelay .builtin chained).Back ⟨⟨"3"⟩, 0⟩ ⟨⟨"1"⟩, 0⟩ :=
    ⟨hvirtual.2.1, by decide⟩
  exact ⟨by decide, by decide, .back hfirst (.back hsecond (.self hvirtual.2.2)),
    mt resolved_iff.1 hlong⟩

end PromptGraph.Simplify

/-
Where links come from once the nodes that only pass on are taken out.

A collapsed node passes on through each of its outputs what feeds one of
its inputs (`passedOn?`), so from one of its output slots there is a way
back (`relay`). The links that stay are those with a way back that ends
at a slot of another node, and that slot is their new origin.

The pass looks at tables that it has built before (`typedFeeds`,
`feedsOf`); these are read back into the nodes first, up to `tables`.
Then the search in the tables is followed along the way back
(`Tables.trace_eq_some_iff`). It has one unit of fuel for every slot that
is fed, and no way back that ends is longer than that.

Main statement: `collapse_traces_links`.
-/
import PromptGraph.Proofs.Simplify.Passes

namespace PromptGraph.Simplify

open Editor

-- ==== what is taken out

/-- The node is a reroute or bypassed, as the options ask for, and no
primitive value. -/
def Collapses (r : Registry) (o : PassThrough) (n : Node) : Prop :=
  r.inCategory n.type Category.primitiveValue = false
    ∧ (o.reroutes = true ∧ r.inCategory n.type Category.reroute = true
      ∨ o.bypassed = true ∧ n.mode = Mode.bypass)

instance (r : Registry) (o : PassThrough) (n : Node) :
    Decidable (Collapses r o n) :=
  inferInstanceAs (Decidable (_ ∧ (_ ∧ _ ∨ _ ∧ _)))

/-- The id is that of such a node. -/
def Collapsed (r : Registry) (o : PassThrough) (w : Wiring) (id : Id) : Prop :=
  ∃ n ∈ w.nodes, Collapses r o n ∧ n.id = id

instance (r : Registry) (o : PassThrough) (w : Wiring) (id : Id) :
    Decidable (Collapsed r o w id) :=
  inferInstanceAs (Decidable (∃ n ∈ w.nodes, _ ∧ _))

variable (r : Registry) (o : PassThrough) (w : Wiring)

/-- Which nodes collapse. -/
theorem verdict_collapses_iff {n : Node} :
    (verdict r o n).collapses = true ↔ Collapses r o n := by
  unfold verdict Collapses
  by_cases hprimitive : r.inCategory n.type Category.primitiveValue = true
  · rw [if_pos hprimitive]
    split
    · simp [hprimitive, Verdict.collapses]
    · simp [hprimitive, Verdict.collapses]
  · rw [if_neg hprimitive]
    split
    · next hreroute =>
      rw [Bool.and_eq_true] at hreroute
      simp [hprimitive, hreroute, Verdict.collapses]
    · next hreroute =>
      rw [Bool.and_eq_true] at hreroute
      split
      · next hbypassed =>
        rw [Bool.and_eq_true, decide_eq_true_eq] at hbypassed
        simp [hprimitive, hbypassed, Verdict.collapses]
      · next hbypassed =>
        rw [Bool.and_eq_true, decide_eq_true_eq] at hbypassed
        simp [hprimitive, hreroute, hbypassed, Verdict.collapses]

/-- They are listed by id. -/
theorem mem_collapsedIds {id : Id} :
    id ∈ collapsedIds r o w ↔ Collapsed r o w id := by
  unfold collapsedIds Collapsed
  rw [List.mem_map]
  refine exists_congr fun n => ?_
  rw [List.mem_filter, verdict_collapses_iff, and_assoc]

/-- A bypassed value is enabled. -/
theorem reenable_eq (n : Node) :
    reenable r o n
      = if r.inCategory n.type Category.primitiveValue = true
          ∧ o.bypassed = true ∧ n.mode = Mode.bypass
        then { n with mode := Mode.always } else n := by
  have hverdict : verdict r o n = .reenabled
      ↔ r.inCategory n.type Category.primitiveValue = true
        ∧ o.bypassed = true ∧ n.mode = Mode.bypass := by
    unfold verdict
    by_cases hprimitive : r.inCategory n.type Category.primitiveValue = true
    · by_cases hmode : n.mode = Mode.bypass
      · simp [hprimitive, hmode]
      · simp [hprimitive, hmode]
    · rw [if_neg hprimitive]
      split
      · simp [hprimitive]
      · split
        · simp [hprimitive]
        · simp [hprimitive]
  unfold reenable
  simp only [hverdict]

-- ==== what feeds an output

/-- What feeds the first wired input with one of these types; an input
without a type has none. -/
def firstFeed? (links : List Link) (n : Node) (types : String → Bool) :
    Option Source :=
  n.inputs.findSome? fun i =>
    if i.type ≠ "" ∧ types i.type = true then feedOf? links i else none

/-- What an output of this type passes on: what feeds the first wired
input of the same type, or else, if it takes anything, of any type, and
otherwise of the type that takes anything. -/
def passedOn? (links : List Link) (n : Node) (type : String) :
    Option Source :=
  (firstFeed? links n (· = type)).or
    (if type = "*" ∨ type = "" then firstFeed? links n fun _ => true
      else firstFeed? links n (· = "*"))

/-- What feeds an output slot of a node. -/
def slotFeed? (links : List Link) (n : Node) (slot : Int) : Option Source :=
  (if slot < 0 then none else (outputTypes n)[slot.toNat]?).bind
    (passedOn? links n)

/-- What feeds an output slot. Of several nodes with its id the last one
counts in which that slot is fed. -/
def fedBy? (w : Wiring) (s : Source) : Option Source :=
  w.nodes.reverse.findSome? fun n =>
    if n.id = s.node then slotFeed? w.links n s.slot else none

-- ==== the tables

section
variable {links : List Link}

/-- The feed of a type is that of the first such slot. -/
theorem find?_typedFeeds (inputs : List NodeInput) (type : String) :
    ((typedFeeds links inputs).find? (·.1 = type)).map Prod.snd
      = inputs.findSome? fun i =>
          if i.type ≠ "" ∧ i.type = type then feedOf? links i else none := by
  induction inputs with
  | nil => rfl
  | cons i inputs ih =>
      rw [List.findSome?_cons, ← ih, typedFeeds]
      by_cases hempty : i.type = ""
      · simp [hempty]
      · cases hfeed : feedOf? links i with
        | none => simp [hempty]
        | some s =>
            by_cases htype : i.type = type
            · subst htype
              simp [hempty]
            · have hother : ∀ x : String × Source,
                  (!decide (x.1 = i.type) && decide (x.1 = type))
                    = decide (x.1 = type) := by
                intro x
                by_cases hx : x.1 = type
                · simp [hx, Ne.symm htype]
                · simp [hx]
              simp [hempty, htype, List.find?_filter, hother]

/-- The first feed is that of the first typed slot. -/
theorem head?_typedFeeds (inputs : List NodeInput) :
    (typedFeeds links inputs).head?.map Prod.snd
      = inputs.findSome? fun i =>
          if i.type ≠ "" then feedOf? links i else none := by
  induction inputs with
  | nil => rfl
  | cons i inputs ih =>
      rw [List.findSome?_cons, ← ih, typedFeeds]
      by_cases hempty : i.type = ""
      · simp [hempty]
      · cases hfeed : feedOf? links i with
        | none => simp [hempty]
        | some s => simp [hempty]

/-- What a node passes on for a type. -/
theorem feedFor?_typedFeeds (n : Node) (type : String) :
    feedFor? (typedFeeds links n.inputs) type = passedOn? links n type := by
  have hof : ∀ t, firstFeed? links n (· = t)
      = ((typedFeeds links n.inputs).find? (·.1 = t)).map Prod.snd := by
    intro t
    rw [find?_typedFeeds]
    unfold firstFeed?
    simp only [decide_eq_true_eq]
  have hany : firstFeed? links n (fun _ => true)
      = (typedFeeds links n.inputs).head?.map Prod.snd := by
    rw [head?_typedFeeds]
    unfold firstFeed?
    simp only [and_true]
  unfold feedFor? passedOn?
  rw [hof, hof, hany]
  cases hfind : (typedFeeds links n.inputs).find? (·.1 = type) with
  | some x => rfl
  | none => simp

/-- The table of a node lists each of its slots that is fed. -/
theorem mem_feedsOf {n : Node} {s t : Source} :
    (s, t) ∈ feedsOf links n
      ↔ n.id = s.node ∧ slotFeed? links n s.slot = some t := by
  unfold feedsOf
  rw [List.mem_filterMap]
  constructor
  · intro ⟨⟨type, slot⟩, hmem, hmap⟩
    obtain ⟨u, hu, heq⟩ := Option.map_eq_some_iff.1 hmap
    cases heq
    rw [List.mem_zipIdx_iff_getElem?] at hmem
    rw [feedFor?_typedFeeds] at hu
    have hslot : ¬ (slot : Int) < 0 := by omega
    refine ⟨rfl, ?_⟩
    unfold slotFeed?
    rw [if_neg hslot, Int.toNat_natCast, hmem]
    exact hu
  · intro ⟨hid, hfeed⟩
    unfold slotFeed? at hfeed
    obtain ⟨type, htype, hpassed⟩ := Option.bind_eq_some_iff.1 hfeed
    by_cases hslot : s.slot < 0
    · rw [if_pos hslot] at htype
      cases htype
    · rw [if_neg hslot] at htype
      refine ⟨(type, s.slot.toNat), List.mem_zipIdx_iff_getElem?.2 htype, ?_⟩
      have hs : (⟨n.id, (s.slot.toNat : Int)⟩ : Source) = s := by
        rw [Int.toNat_of_nonneg (by omega), hid]
      show (feedFor? (typedFeeds links n.inputs) type).map _ = some (s, t)
      rw [feedFor?_typedFeeds, hpassed, hs]
      rfl

/-- What a node passes on at a slot. -/
theorem find?_feedsOf (n : Node) (s : Source) :
    ((feedsOf links n).reverse.find? (·.1 = s)).map Prod.snd
      = if n.id = s.node then slotFeed? links n s.slot else none := by
  cases hfind : (feedsOf links n).reverse.find? (·.1 = s) with
  | some x =>
      obtain ⟨s', t⟩ := x
      have hs : s' = s := by simpa using List.find?_some hfind
      have hmem := List.mem_reverse.1 (List.mem_of_find?_eq_some hfind)
      obtain ⟨hid, hfeed⟩ := mem_feedsOf.1 hmem
      rw [hs] at hid hfeed
      rw [if_pos hid, hfeed]
      rfl
  | none =>
      rw [List.find?_eq_none] at hfind
      by_cases hid : n.id = s.node
      · rw [if_pos hid]
        cases hfeed : slotFeed? links n s.slot with
        | none => rfl
        | some t =>
            have hmem := List.mem_reverse.2 (mem_feedsOf.2 ⟨hid, hfeed⟩)
            exact absurd (by simp) (hfind _ hmem)
      · rw [if_neg hid]
        rfl

/-- The table of all collapsed nodes is searched from the last node on. -/
theorem find?_feeds {through : List Id} {s : Source}
    (hs : through.contains s.node = true) (nodes : List Node) :
    (((nodes.filter fun n => through.contains n.id).flatMap
        (feedsOf links)).reverse.find? (·.1 = s)).map Prod.snd
      = nodes.reverse.findSome? fun n =>
          if n.id = s.node then slotFeed? links n s.slot else none := by
  induction nodes with
  | nil => rfl
  | cons n nodes ih =>
      rw [List.reverse_cons, List.findSome?_append, ← ih, List.findSome?_singleton]
      by_cases hn : through.contains n.id = true
      · rw [List.filter_cons, if_pos hn, List.flatMap_cons, List.reverse_append,
          List.find?_append, Option.map_or, find?_feedsOf]
      · have hid : ¬ n.id = s.node := by
          intro hid
          rw [hid] at hn
          exact hn hs
        rw [List.filter_cons, if_neg hn, if_neg hid, Option.or_none]

end

-- ==== the search

/-- The tables say which slots pass on, and what. -/
structure Tables (back : Relay Source) (through : List Id)
    (feeds : List (Source × Source)) : Prop where
  through : ∀ s : Source, through.contains s.node = true ↔ back.passes s
  feeds : ∀ s, back.passes s →
    (feeds.reverse.find? (·.1 = s)).map Prod.snd = back.feed? s

namespace Tables

variable {back : Relay Source} {through : List Id}
  {feeds : List (Source × Source)} {fuel : Nat} {s t e : Source}

/-- A trace ends where nothing collapses. -/
theorem traceFrom_own (h : Tables back through feeds)
    (hs : ¬ back.passes s) : traceFrom through feeds fuel s = some s := by
  unfold traceFrom
  rw [if_neg (mt (h.through s).1 hs)]

/-- It is lost where nothing is passed on. -/
theorem traceFrom_unfed (h : Tables back through feeds)
    (hs : back.passes s) (hnone : back.feed? s = none) :
    traceFrom through feeds fuel s = none := by
  have hfind := h.feeds s hs
  rw [hnone, Option.map_eq_none_iff] at hfind
  unfold traceFrom
  rw [if_pos ((h.through s).2 hs), hfind]

/-- Otherwise it goes one step back. -/
theorem traceFrom_back (h : Tables back through feeds) (hst : back.Back s t) :
    traceFrom through feeds (fuel + 1) s = traceFrom through feeds fuel t := by
  have hfind := h.feeds s hst.1
  rw [hst.2] at hfind
  obtain ⟨⟨_, u⟩, hu, rfl⟩ := Option.map_eq_some_iff.1 hfind
  conv_lhs => unfold traceFrom
  rw [if_pos ((h.through s).2 hst.1), hu]

theorem traceFrom_zero (h : Tables back through feeds) (hs : back.passes s) :
    traceFrom through feeds 0 s = none := by
  unfold traceFrom
  rw [if_pos ((h.through s).2 hs)]
  split
  · contradiction
  · rfl

/-- What is found is where the way back ends. -/
theorem comesFrom_of_traceFrom (h : Tables back through feeds)
    (hfound : traceFrom through feeds fuel s = some e) :
    back.ComesFrom s e := by
  induction fuel generalizing s with
  | zero =>
      by_cases hs : back.passes s
      · rw [h.traceFrom_zero hs] at hfound
        cases hfound
      · rw [h.traceFrom_own hs] at hfound
        exact (Relay.comesFrom_of_not_passes hs).2 (Option.some.inj hfound)
  | succ fuel ih =>
      by_cases hs : back.passes s
      · cases hfeed : back.feed? s with
        | none =>
            rw [h.traceFrom_unfed hs hfeed] at hfound
            cases hfound
        | some t =>
            rw [h.traceFrom_back ⟨hs, hfeed⟩] at hfound
            exact .back ⟨hs, hfeed⟩ (ih hfound)
      · rw [h.traceFrom_own hs] at hfound
        exact (Relay.comesFrom_of_not_passes hs).2 (Option.some.inj hfound)

/-- With a unit of fuel for every place on the way, its end is found. -/
theorem traceFrom_of_trail (h : Tables back through feeds) {l : List Source}
    (htrail : Relay.Trail back s l e) (hfuel : l.length ≤ fuel) :
    traceFrom through feeds fuel s = some e := by
  induction htrail generalizing fuel with
  | here own => exact h.traceFrom_own own
  | back step _ ih =>
      cases fuel with
      | zero => cases hfuel
      | succ fuel =>
          rw [h.traceFrom_back step]
          exact ih (Nat.le_of_succ_le_succ hfuel)

theorem fed_mem (h : Tables back through feeds) (s t : Source)
    (hst : back.Back s t) : s ∈ feeds.map Prod.fst := by
  have hfind := h.feeds s hst.1
  rw [hst.2] at hfind
  obtain ⟨x, hx, -⟩ := Option.map_eq_some_iff.1 hfind
  have hs : x.1 = s := by simpa using List.find?_some hx
  rw [← hs]
  exact List.mem_map_of_mem (List.mem_reverse.1 (List.mem_of_find?_eq_some hx))

/-- The search finds the end of the way back if it has one, and nothing
otherwise. -/
theorem trace_eq_some_iff (h : Tables back through feeds) :
    trace through feeds s = some e ↔ back.ComesFrom s e := by
  constructor
  · exact h.comesFrom_of_traceFrom
  · intro hcomes
    obtain ⟨l, hl⟩ := hcomes.exists_trail
    have hle := hl.length_le h.fed_mem
    rw [List.length_map] at hle
    exact h.traceFrom_of_trail hl hle

end Tables

/-- The tables of the pass say what collapses and feeds. -/
theorem tables :
    Tables (relay (Collapsed r o w) (fedBy? w)) (collapsedIds r o w)
      (collapsedFeeds r o w) := by
  have hthrough : ∀ s : Source,
      (collapsedIds r o w).contains s.node = true ↔ Collapsed r o w s.node :=
    fun s => List.contains_iff_mem.trans (mem_collapsedIds r o w)
  exact ⟨hthrough, fun s hs => find?_feeds ((hthrough s).2 hs) w.nodes⟩

-- ==== the pass

/-- The nodes after the pass. -/
theorem collapsePassThrough_nodes :
    (collapsePassThrough r o w).1.nodes
      = (w.nodes.filter fun n => !decide (Collapsed r o w n.id)).map
          (reenable r o) := by
  have hout : ∀ n : Node,
      (!(collapsedIds r o w).contains (reenable r o n).id)
        = !decide (Collapsed r o w n.id) := by
    intro n
    have hkept : NodeKept (fun _ => False) n (reenable r o n) :=
      reenable_kept r o n
    rw [hkept.id, Bool.not_inj_iff, Bool.eq_iff_iff, List.contains_iff_mem,
      mem_collapsedIds, decide_eq_true_eq]
  rw [(collapsePassThrough_eq r o w).1, dropNodes, List.filter_map]
  simp only [Function.comp_def, hout]

/-- The links after the pass. -/
theorem collapsePassThrough_links :
    RewiredBy (Retraced (Collapsed r o w) (fedBy? w)) w.links
      (collapsePassThrough r o w).1.links := by
  have htables := tables r o w
  refine ⟨_, fun k _ k' => ?_, (collapsePassThrough_eq r o w).2.1⟩
  have htarget : (collapsedIds r o w).contains k.target = true
      ↔ Collapsed r o w k.target :=
    List.contains_iff_mem.trans (mem_collapsedIds r o w)
  unfold collapseLink? Retraced
  by_cases hin : Collapsed r o w k.target
  · rw [if_pos (htarget.2 hin)]
    simp [hin]
  · rw [if_neg (mt htarget.1 hin), Option.map_eq_some_iff, and_iff_right hin]
    exact exists_congr fun e => and_congr htables.trace_eq_some_iff eq_comm

/-- Taking out the nodes that only pass on: the nodes that stay are those
with another id, a bypassed primitive value being switched on again. The
links that stay are, in order, those that do not end at a node taken out
and whose way back ends at a slot of another node; this slot is their new
origin, and nothing else about them changes. A way back does not end so
if it reaches a slot that is not fed or runs into a loop, and only then. -/
theorem collapse_traces_links (r : Registry) (o : PassThrough) (w : Wiring) :
    let w' := (collapsePassThrough r o w).1
    let back := relay (Collapsed r o w) (fedBy? w)
    w'.nodes = (w.nodes.filter fun n => !decide (Collapsed r o w n.id)).map
        (fun n =>
          if r.inCategory n.type Category.primitiveValue = true
            ∧ o.bypassed = true ∧ n.mode = Mode.bypass
          then { n with mode := Mode.always } else n)
      ∧ RewiredBy (Retraced (Collapsed r o w) (fedBy? w)) w.links w'.links
      ∧ ∀ s, (¬ ∃ e, back.ComesFrom s e) ↔ back.Unfed s ∨ back.Circles s := by
  refine ⟨?_, collapsePassThrough_links r o w, fun s =>
    Relay.not_comesFrom_iff (tables r o w).fed_mem⟩
  rw [collapsePassThrough_nodes]
  exact congrArg (List.map · _) (funext (reenable_eq r o))

-- through a bypassed node and a reroute to the source, and out of a circle
-- of two reroutes
example :
    (collapsePassThrough .builtin ⟨true, true⟩
      { nodes := [
          { id := ⟨"1"⟩, type := "Source", outputs := [{ type := "X" }] },
          { id := ⟨"2"⟩, type := "Reroute",
            inputs := [{ type := "*", link := some ⟨"1"⟩ }] },
          { id := ⟨"3"⟩, type := "Blur", mode := Mode.bypass,
            inputs := [{ type := "X", link := some ⟨"2"⟩ }],
            outputs := [{ type := "X" }] },
          { id := ⟨"4"⟩, type := "Reroute",
            inputs := [{ type := "*", link := some ⟨"5"⟩ }] },
          { id := ⟨"5"⟩, type := "Reroute",
            inputs := [{ type := "*", link := some ⟨"4"⟩ }] },
          { id := ⟨"6"⟩, type := "Sink" }]
        linkList := some [
          { id := ⟨"1"⟩, origin := ⟨"1"⟩, target := ⟨"2"⟩ },
          { id := ⟨"2"⟩, origin := ⟨"2"⟩, target := ⟨"3"⟩ },
          { id := ⟨"3"⟩, origin := ⟨"3"⟩, target := ⟨"6"⟩ },
          { id := ⟨"4"⟩, origin := ⟨"4"⟩, target := ⟨"5"⟩ },
          { id := ⟨"5"⟩, origin := ⟨"5"⟩, target := ⟨"4"⟩ },
          { id := ⟨"6"⟩, origin := ⟨"5"⟩, target := ⟨"6"⟩ }] }).1.links
      = [{ id := ⟨"3"⟩, origin := ⟨"1"⟩, target := ⟨"6"⟩ }] := by decide

end PromptGraph.Simplify

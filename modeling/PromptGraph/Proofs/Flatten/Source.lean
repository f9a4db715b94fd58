/-
Where the value of a link comes from, read off the nested graph.

`Source` walks from link to link: down into an instance when the link
starts at one of its outputs, up out of it when the link starts at one
of its input ports, until it comes to an ordinary node or to a literal.
The walk knows nothing of a conversion. Links that start at a dropped or
missing node, at an unbound port, or in a circle have no source.

A conversion does not walk: it resolves a link when it meets it, and an
instance that is not yet expanded is only named. `Carries` says what may
be resolved for a link in this way: the walk is followed for a while,
and where it stops at a node, that node is named by its flat id, whether
it is an instance, an ordinary node or nothing at all. `DataFlow.lean`
shows that conversions resolve links so, and that the names lead to the
source in the end.
-/
import Mathlib.Data.List.Induction
import PromptGraph.Proofs.Flatten.Level

namespace PromptGraph.Flatten

open Editor
open Execution (Input Ref Entry Graph)

-- ==== links to follow

/-- The last link into a slot of a node. -/
def lastLinkInto (l : Level) (id : Id) (slot : Int) : Option Link :=
  l.links.reverse.find? fun k => l.target k = .node id slot

/-- Of the links into an output port, the first of exactly the port's
type, or else the first. -/
def chosenAmong (d : Definition) (slot : Int) (links : List Link) :
    Option Link :=
  let candidates := links.filter fun k => d.level.target k = .outputPort slot
  (candidates.find? fun k => matchesPort k.type (portType d.outputs slot)).or
    candidates.head?

/-- The link that an output port of a definition takes its value from. -/
def chosenLink? (d : Definition) (slot : Int) : Option Link :=
  chosenAmong d slot d.level.links

variable {k : Link} {slot : Int} {id : Id}

theorem lastLinkInto_mem {l : Level} (h : lastLinkInto l id slot = some k) :
    k ∈ l.links :=
  List.mem_reverse.1 (List.mem_of_find?_eq_some h)

theorem chosenLink?_mem {d : Definition} (h : chosenLink? d slot = some k) :
    k ∈ d.level.links := by
  rcases Option.or_eq_some_iff.1 h with h | ⟨-, h⟩
  · exact List.mem_of_mem_filter (List.mem_of_find?_eq_some h)
  · exact List.mem_of_mem_filter (List.mem_of_mem_head? h)

-- ==== the choice of output links

theorem find?_putChosen (slot other : Int) (k : Link)
    (l : List (Int × Link)) :
    (putChosen slot k l).find? (·.1 = other)
      = if slot = other then some (slot, k)
        else l.find? (·.1 = other) := by
  induction l with
  | nil =>
      unfold putChosen
      rw [List.find?_cons]
      by_cases h : slot = other
      · rw [if_pos h, decide_eq_true h]
      · rw [if_neg h, decide_eq_false h]
  | cons c rest ih =>
      obtain ⟨t, j⟩ := c
      unfold putChosen
      by_cases ht : t = slot
      · rw [if_pos ht, ht, List.find?_cons, List.find?_cons]
        by_cases h : slot = other
        · rw [if_pos h, decide_eq_true h]
        · rw [if_neg h, decide_eq_false h]
      · rw [if_neg ht, List.find?_cons, List.find?_cons]
        by_cases h : t = other
        · rw [decide_eq_true h, if_neg fun hs => ht (h.trans hs.symm)]
        · rw [decide_eq_false h]
          exact ih

theorem slots_putChosen {l : List (Int × Link)} (h : slot ∈ l.map Prod.fst)
    (k : Link) :
    (putChosen slot k l).map Prod.fst = l.map Prod.fst := by
  induction l with
  | nil => cases h
  | cons c rest ih =>
      obtain ⟨t, j⟩ := c
      unfold putChosen
      split
      · rfl
      · next ht =>
        rw [List.map_cons, List.map_cons, ih]
        exact (List.mem_cons.1 h).resolve_left fun hs => ht hs.symm

/-- One link is considered for its output port, if it has one. -/
def chooseStep (d : Definition) (path : String)
    (x : List (Int × Link) × List Diagnostic) (k : Link) :
    List (Int × Link) × List Diagnostic :=
  match d.level.target k with
  | .outputPort slot =>
    match x.1.find? (·.1 = slot) with
    | none => (x.1 ++ [(slot, k)], x.2)
    | some (_, prev) =>
      let want := portType d.outputs slot
      let kept :=
        if !matchesPort prev.type want && matchesPort k.type want then k
        else prev
      (putChosen slot kept x.1, x.2 ++ [severalLinks path slot d kept])
  | _ => x

theorem chooseOutputs_eq (d : Definition) (path : String) :
    chooseOutputs d.level path d
      = d.level.links.foldl (chooseStep d path) ([], []) := rfl

/-- A link that ends elsewhere does not change the choice. -/
theorem chosenAmong_append_of_ne {d : Definition}
    (h : d.level.target k ≠ .outputPort slot) (links : List Link) :
    chosenAmong d slot (links ++ [k]) = chosenAmong d slot links := by
  unfold chosenAmong
  rw [List.filter_append, List.filter_singleton, decide_eq_false h]
  dsimp only
  rw [cond_false, List.append_nil]

/-- One more link into the port is chosen if it is the first, or the
first of the port's type. -/
theorem chosenAmong_append {d : Definition}
    (h : d.level.target k = .outputPort slot) (links : List Link) :
    chosenAmong d slot (links ++ [k])
      = match chosenAmong d slot links with
        | none => some k
        | some prev =>
          if !matchesPort prev.type (portType d.outputs slot)
              && matchesPort k.type (portType d.outputs slot) then some k
          else some prev := by
  unfold chosenAmong
  rw [List.filter_append, List.filter_singleton, decide_eq_true h]
  dsimp only
  rw [cond_true, List.find?_append, List.head?_append]
  cases hfind : (links.filter fun k =>
      d.level.target k = .outputPort slot).find? fun k =>
        matchesPort k.type (portType d.outputs slot) with
  | some m =>
      have hm := List.find?_some hfind
      simp [hm]
  | none =>
      cases hlist : links.filter fun k =>
          d.level.target k = .outputPort slot with
      | nil =>
          by_cases hk : matchesPort k.type (portType d.outputs slot) = true
          · simp [hk]
          · simp [hk]
      | cons j rest =>
          rw [hlist] at hfind
          have hj : matchesPort j.type (portType d.outputs slot) = false := by
            have := List.find?_eq_none.1 hfind j List.mem_cons_self
            simpa using this
          by_cases hk : matchesPort k.type (portType d.outputs slot) = true
          · simp [hj, hk]
          · simp [hj, hk]

/-- The list holds, for each output port once, the link chosen for it
among these links. -/
structure HoldsChoices (d : Definition) (links : List Link)
    (chosen : List (Int × Link)) : Prop where
  nodup : (chosen.map Prod.fst).Nodup
  find? : ∀ slot, chosen.find? (·.1 = slot)
    = (chosenAmong d slot links).map fun k => (slot, k)

variable {d : Definition} {links : List Link} {chosen : List (Int × Link)}

/-- The choice for a port that the next link does not end at. -/
theorem HoldsChoices.other (h : HoldsChoices d links chosen)
    (hne : d.level.target k ≠ .outputPort slot) :
    chosen.find? (·.1 = slot)
      = (chosenAmong d slot (links ++ [k])).map fun k => (slot, k) := by
  rw [chosenAmong_append_of_ne hne, h.find?]

/-- The first link into a port is added. -/
theorem HoldsChoices.first (h : HoldsChoices d links chosen) {port : Int}
    (hport : d.level.target k = .outputPort port)
    (hnone : chosen.find? (·.1 = port) = none) :
    HoldsChoices d (links ++ [k]) (chosen ++ [(port, k)]) := by
  have hnew : port ∉ chosen.map Prod.fst := by
    intro hmem
    obtain ⟨c, hc, hcp⟩ := List.mem_map.1 hmem
    exact List.find?_eq_none.1 hnone c hc (decide_eq_true hcp)
  refine ⟨?_, fun slot => ?_⟩
  · rw [List.map_append]
    refine List.Nodup.append h.nodup (List.nodup_singleton _) ?_
    simpa using hnew
  · rw [List.find?_append]
    by_cases hps : port = slot
    · subst hps
      have hchoice : chosenAmong d port links = none := by
        have hfind := h.find? port
        rw [hnone] at hfind
        simpa using hfind.symm
      rw [hnone, chosenAmong_append hport, hchoice]
      simp
    · have hother : d.level.target k ≠ .outputPort slot := by
        simp [hport, hps]
      rw [← h.other hother]
      simp [hps]

/-- A further link into a port replaces the link kept so far, or does
not. -/
theorem HoldsChoices.again (h : HoldsChoices d links chosen) {k prev : Link}
    {port t : Int} (hport : d.level.target k = .outputPort port)
    (hprev : chosen.find? (·.1 = port) = some (t, prev)) :
    HoldsChoices d (links ++ [k]) (putChosen port
      (if !matchesPort prev.type (portType d.outputs port)
          && matchesPort k.type (portType d.outputs port) then k else prev)
      chosen) := by
  refine ⟨?_, fun slot => ?_⟩
  · rw [slots_putChosen]
    · exact h.nodup
    · refine List.mem_map.2 ⟨_, List.mem_of_find?_eq_some hprev, ?_⟩
      simpa using List.find?_some hprev
  · rw [find?_putChosen]
    by_cases hps : port = slot
    · subst hps
      have hchoice : chosenAmong d port links = some prev := by
        have hfind := h.find? port
        rw [hprev] at hfind
        obtain ⟨j, hj, heq⟩ := Option.map_eq_some_iff.1 hfind.symm
        cases heq
        exact hj
      rw [if_pos rfl, chosenAmong_append hport, hchoice]
      dsimp only
      split
      · rfl
      · rfl
    · rw [if_neg hps]
      exact h.other (by simp [hport, hps])

theorem HoldsChoices.step {path : String}
    {x : List (Int × Link) × List Diagnostic}
    (h : HoldsChoices d links x.1) (k : Link) :
    HoldsChoices d (links ++ [k]) (chooseStep d path x k).1 := by
  unfold chooseStep
  split
  · next port hport =>
    cases hprev : x.1.find? (·.1 = port) with
    | none => exact h.first hport hprev
    | some c => exact h.again hport hprev
  · next hno => exact ⟨h.nodup, fun slot => h.other (hno slot)⟩

/-- The links of a definition that are chosen, port by port. -/
theorem holdsChoices_chooseOutputs (d : Definition) (path : String) :
    HoldsChoices d d.level.links (chooseOutputs d.level path d).1 := by
  rw [chooseOutputs_eq]
  induction d.level.links using List.reverseRecOn with
  | nil => exact ⟨List.nodup_nil, fun slot => rfl⟩
  | append_singleton links k ih =>
      rw [List.foldl_append, List.foldl_cons, List.foldl_nil]
      exact ih.step k

-- ==== sources

/-- What a link at the end of a chain carries, by walking the nested
graph. An ordinary node is the source of its outputs. An output of an
instance has the source of the link chosen for it inside. An input port
has the source of the last link into it outside, or else the literal
that the instance holds for it. -/
inductive Source (ctx : Context) (root : Level) :
    List Frame → Link → Input → Prop where
  | ordinary {p : List Frame} {k : Link} {n : Node} {slot : Int}
      (start : (levelAt root p).origin k = .node n.id slot)
      (mem : n ∈ (levelAt root p).nodes) (isOrdinary : Ordinary ctx n) :
      Source ctx root p k (.ref ⟨flatId p n.id, slot⟩)
  | output {p : List Frame} {f : Frame} {k inner : Link} {slot : Int}
      {u : Input}
      (start : (levelAt root p).origin k = .node f.node.id slot)
      (expanded : Chain ctx root (f :: p))
      (chosen : chosenLink? f.definition slot = some inner)
      (rest : Source ctx root (f :: p) inner u) : Source ctx root p k u
  | wired {p : List Frame} {f : Frame} {k outer : Link} {slot : Nat}
      {u : Input}
      (start : f.definition.level.origin k = .inputPort slot)
      (declared : slot < f.definition.inputs.length)
      (link : lastLinkInto (levelAt root p) f.node.id slot = some outer)
      (rest : Source ctx root p outer u) : Source ctx root (f :: p) k u
  | promoted {p : List Frame} {f : Frame} {k : Link} {slot : Nat} {v : Json}
      (start : f.definition.level.origin k = .inputPort slot)
      (declared : slot < f.definition.inputs.length)
      (unwired : lastLinkInto (levelAt root p) f.node.id slot = none)
      (widget : promotedWidget f.node slot = some v) :
      Source ctx root (f :: p) k (.literal v)

/-- What may be resolved for a link at the end of a chain. The walk to
its source may have been followed a part of the way, and a node that it
comes to may be named; nothing is resolved only where the walk cannot go
on. -/
inductive Carries (ctx : Context) (root : Level) :
    List Frame → Link → Option Input → Prop where
  | named {p : List Frame} {k : Link} {id : Id} {slot : Int}
      (start : (levelAt root p).origin k = .node id slot)
      (mem : k ∈ (levelAt root p).links) :
      Carries ctx root p k (some (.ref ⟨flatId p id, slot⟩))
  | output {p : List Frame} {f : Frame} {k inner : Link} {slot : Int}
      {o : Option Input}
      (start : (levelAt root p).origin k = .node f.node.id slot)
      (expanded : Chain ctx root (f :: p))
      (chosen : chosenLink? f.definition slot = some inner)
      (rest : Carries ctx root (f :: p) inner o) : Carries ctx root p k o
  | unbound {p : List Frame} {f : Frame} {k : Link} {slot : Int}
      (start : (levelAt root p).origin k = .node f.node.id slot)
      (expanded : Chain ctx root (f :: p))
      (chosen : chosenLink? f.definition slot = none) :
      Carries ctx root p k none
  | wired {p : List Frame} {f : Frame} {k outer : Link} {slot : Nat}
      {o : Option Input}
      (start : f.definition.level.origin k = .inputPort slot)
      (declared : slot < f.definition.inputs.length)
      (link : lastLinkInto (levelAt root p) f.node.id slot = some outer)
      (rest : Carries ctx root p outer o) : Carries ctx root (f :: p) k o
  | promoted {p : List Frame} {f : Frame} {k : Link} {slot : Nat}
      {o : Option Input}
      (start : f.definition.level.origin k = .inputPort slot)
      (declared : slot < f.definition.inputs.length)
      (unwired : lastLinkInto (levelAt root p) f.node.id slot = none)
      (widget : o = (promotedWidget f.node slot).map .literal) :
      Carries ctx root (f :: p) k o
  | undeclared {p : List Frame} {k : Link} {slot : Int}
      (start : (levelAt root p).origin k = .inputPort slot)
      (undeclared : ∀ f q, p = f :: q → ∀ m : Nat, slot = m →
        f.definition.inputs.length ≤ m) :
      Carries ctx root p k none

variable {ctx : Context} {root : Level} {p : List Frame}

/-- A literal that is resolved for a link is its source. -/
theorem Carries.literal {v : Json}
    (h : Carries ctx root p k (some (.literal v))) :
    Source ctx root p k (.literal v) := by
  generalize ho : some (Input.literal v) = o at h
  induction h with
  | named start mem => cases ho
  | output start expanded chosen _ ih =>
      exact .output start expanded chosen (ih ho)
  | unbound start expanded chosen => cases ho
  | wired start declared link _ ih =>
      exact .wired start declared link (ih ho)
  | promoted start declared unwired widget =>
      obtain ⟨j, hj, heq⟩ :=
        Option.map_eq_some_iff.1 (ho.trans widget).symm
      cases heq
      exact .promoted start declared unwired hj
  | undeclared start undeclared => cases ho

/-- A reference that is resolved for a link names the node that some
link on its walk starts at. -/
theorem Carries.ref (hp : Chain ctx root p) {r : Ref}
    (h : Carries ctx root p k (some (.ref r))) :
    ∃ q j id, Chain ctx root q ∧ j ∈ (levelAt root q).links
      ∧ (levelAt root q).origin j = .node id r.slot
      ∧ r.node = flatId q id
      ∧ ∀ u, Source ctx root q j u → Source ctx root p k u := by
  generalize ho : some (Input.ref r) = o at h
  induction h with
  | named start mem =>
      cases ho
      exact ⟨_, _, _, hp, mem, start, rfl, fun u hu => hu⟩
  | output start expanded chosen _ ih =>
      obtain ⟨q, j, id, hq, hj, horigin, hnode, hsource⟩ := ih expanded ho
      exact ⟨q, j, id, hq, hj, horigin, hnode,
        fun u hu => .output start expanded chosen (hsource u hu)⟩
  | unbound start expanded chosen => cases ho
  | wired start declared link _ ih =>
      obtain ⟨q, j, id, hq, hj, horigin, hnode, hsource⟩ := ih hp.tail ho
      exact ⟨q, j, id, hq, hj, horigin, hnode,
        fun u hu => .wired start declared link (hsource u hu)⟩
  | promoted start declared unwired widget =>
      obtain ⟨j, hj, heq⟩ :=
        Option.map_eq_some_iff.1 (ho.trans widget).symm
      cases heq
  | undeclared start undeclared => cases ho

-- ==== by where links start

/-- A link that starts at a node starts at the node it names. -/
theorem origin_eq_of_node {l : Level} (h : l.origin k = .node id slot) :
    k.origin = id := by
  unfold Level.origin at h
  split at h
  · split at h
    · cases h
    · cases h
      rfl
  · cases h
    rfl

/-- What may be resolved for a link that starts at a node. -/
theorem Carries.of_node {o : Option Input} (h : Carries ctx root p k o)
    (hstart : (levelAt root p).origin k = .node id slot) :
    o = some (.ref ⟨flatId p id, slot⟩)
      ∨ ∃ f, Chain ctx root (f :: p) ∧ f.node.id = id
          ∧ ((∃ inner, chosenLink? f.definition slot = some inner
                ∧ Carries ctx root (f :: p) inner o)
            ∨ chosenLink? f.definition slot = none ∧ o = none) := by
  cases h with
  | named start mem =>
      cases hstart.symm.trans start
      exact Or.inl rfl
  | output start expanded chosen rest =>
      cases hstart.symm.trans start
      exact Or.inr ⟨_, expanded, rfl, Or.inl ⟨_, chosen, rest⟩⟩
  | unbound start expanded chosen =>
      cases hstart.symm.trans start
      exact Or.inr ⟨_, expanded, rfl, Or.inr ⟨chosen, rfl⟩⟩
  | wired start declared link rest => cases hstart.symm.trans start
  | promoted start declared unwired widget =>
      cases hstart.symm.trans start
  | undeclared start undeclared => cases hstart.symm.trans start

/-- What may be resolved for a link that starts at a declared port. -/
theorem Carries.of_port {f : Frame} {o : Option Input}
    (h : Carries ctx root (f :: p) k o) {slot : Nat}
    (hstart : f.definition.level.origin k = .inputPort slot)
    (hdeclared : slot < f.definition.inputs.length) :
    (∃ outer, lastLinkInto (levelAt root p) f.node.id slot = some outer
        ∧ Carries ctx root p outer o)
      ∨ lastLinkInto (levelAt root p) f.node.id slot = none
          ∧ o = (promotedWidget f.node slot).map .literal := by
  cases h with
  | named start mem => cases hstart.symm.trans start
  | output start expanded chosen rest => cases hstart.symm.trans start
  | unbound start expanded chosen => cases hstart.symm.trans start
  | wired start declared link rest =>
      cases hstart.symm.trans start
      exact Or.inl ⟨_, link, rest⟩
  | promoted start declared unwired widget =>
      cases hstart.symm.trans start
      exact Or.inr ⟨unwired, widget⟩
  | undeclared start undeclared =>
      have hslot := hstart.symm.trans start
      injection hslot with hslot
      have hle := undeclared f p rfl slot hslot.symm
      omega

end PromptGraph.Flatten

/-
The value of a primitive on its way into the graph.

Where a level is simplified, the value of a primitive is written among
the widget values of the node that it is wired to: under the name of the
input or, if values have no names, at the position that the input's slot
has among the slots with widgets. Where the level is converted, values
are read along the inputs that the node's type declares, and a value
without a name is whatever comes next: control values, and values of
inputs that are selected by others, have positions of their own and no
slots. So the value arrives if the place where it was written is the
place that is read for the input, and else the input gets what stands at
that place (`inlined_value_arrives`). Values with names always arrive,
and those without do if no input that is declared before brings further
values with it (`InOrder`).

The other inputs are as they are without the link, if reading is not
thrown off the track by the new value.
-/
import PromptGraph.Proofs.Flatten.FlatId
import PromptGraph.Proofs.Flatten.Retouch
import PromptGraph.Proofs.Simplify.Removal

namespace PromptGraph.Simplify

open Editor Flatten
open Execution (Input Entry)

-- ==== unwired inputs

variable {name : String}

/-- Nothing comes in under a name whose slots are not wired. -/
theorem wire?_of_unwired {n : Node}
    (h : ∀ i ∈ n.inputs, i.name = name → i.wire? = none) (s : Scope) :
    wire? (wiresOf s n) name = none := by
  unfold wire?
  rw [wiresOf_eq]
  suffices hfold : ∀ (l : List NodeInput) (wires : List (String × Input)),
      (∀ i ∈ l, i.name = name → i.wire? = none) →
      ((l.foldl (addWire s n) wires).find? (·.1 = name)).map Prod.snd
        = (wires.find? (·.1 = name)).map Prod.snd from hfold _ _ h
  intro l
  induction l with
  | nil => exact fun _ _ => rfl
  | cons i l ih =>
      intro wires hl
      rw [List.forall_mem_cons] at hl
      rw [List.foldl_cons, ih _ hl.2, find?_addWire]
      split
      · next hi =>
        have hnone : slotValue s n i = none := by
          unfold slotValue
          rw [hl.1 hi]
          rfl
        rw [hnone, Option.none_or]
      · rfl

/-- A literal among the inputs of a node is a literal of its entry, and
what is no input of the node is none of its entry. -/
theorem input?_settled {registry : Registry} {table : NodeTable}
    {source : String} {w : Workflow} {ctx : Context} {s : Scope} {n : Node}
    {key : String} {entry : Entry}
    (hentry : Assoc.get? (convertWorkflow registry table source w).graph key
      = some entry)
    (hmade : Assoc.get? (inlined registry table source w).entries key
      = some (entryOf ctx s n)) {v : Option Json}
    (hv : (entryOf ctx s n).input? name = v.map .literal) :
    entry.input? name = v.map .literal := by
  obtain ⟨-, e, he, hinputs⟩ := settled_entry hentry
  cases hmade.symm.trans he
  refine Option.ext fun u => ?_
  rw [hinputs, ← hv]
  constructor
  · rintro ⟨x, hx, hsettles⟩
    have hx := (ascending_entryOf s n).mem_iff.1 hx
    obtain ⟨j, rfl, rfl⟩ := Option.map_eq_some_iff.1 (hv.symm.trans hx)
    rw [hsettles]
    exact hx
  · intro hu
    obtain ⟨j, rfl, rfl⟩ := Option.map_eq_some_iff.1 (hv.symm.trans hu)
    exact ⟨_, (ascending_entryOf s n).mem_iff.2 hu, rfl⟩

-- ==== arrival

/-- What is counted as inlined is what is inlined. -/
theorem inlined_eq_length (r : Registry) (p : Passes) (w : Wiring) :
    (simplifyLevel r p w).2.inlined = (inlinedIn r p w).length := by
  have hadd : (simplifyLevel r p w).2.inlined
      = (onlyIf p.virtualWires (resolveVirtualWires r) w).2.inlined
        + ((onlyIf (p.bypassed || p.reroutes)
            (collapsePassThrough r ⟨p.bypassed, p.reroutes⟩)
            (withoutVirtualWires r p w)).2.inlined
          + (onlyIf p.primitives (inlinePrimitives r)
            (withoutPassThrough r p w)).2.inlined) := rfl
  have hvirtual : (onlyIf p.virtualWires (resolveVirtualWires r) w).2.inlined
      = 0 := by
    unfold onlyIf
    split
    · rw [(resolveVirtualWires_eq r w).2.2]
    · rfl
  have hpass : (onlyIf (p.bypassed || p.reroutes)
      (collapsePassThrough r ⟨p.bypassed, p.reroutes⟩)
      (withoutVirtualWires r p w)).2.inlined = 0 := by
    unfold onlyIf
    split
    · rw [(collapsePassThrough_eq r _ _).2.2]
      rfl
    · rfl
  rw [hadd, hvirtual, hpass, Nat.zero_add, Nat.zero_add]
  unfold inlinedIn onlyIf
  split
  · rw [(inlinePrimitives_eq r _).2.2, writeValues_spec]
  · rfl

/-- A value that is counted as inlined in a node, for an input that one
slot of the node stands for and that the node's type declares once, as
one that may hold a literal; no other input's value selects it. -/
structure Inlines (r : Registry) (p : Passes) (ctx : Context) (W : Wiring)
    (e : Inlining) (n : Node) (i : InputType) : Prop where
  counted : e ∈ inlinedIn r p W
  notNull : e.value ≠ .null
  node : lastNode? (simplifyLevel r p W).1.nodes e.link.target = some n
  slot : SingleSlot e.input n
  declared : (declaredInputs ctx n).filter (·.name = e.input) = [i]
  literal : i.kind.wireOnly = false
  unselected : ∀ r ∈ readings (declaredInputs ctx n) n.widgets,
    r.reader.follows = true → r.reader.input ≠ e.input

/-- No input that is declared before brings further values with it, and
as many slots with widgets stand before the input's slot as inputs that
may hold literals are declared before it. -/
def InOrder (ctx : Context) (n : Node) (i : InputType) : Prop :=
  ∃ before rest, declaredInputs ctx n = before ++ i :: rest
    ∧ (∀ j ∈ before, j.kind.wireOnly = false → Alone n.widgets j)
    ∧ n.widgetIndex? i.name = some (literalCount before)

section
variable {r : Registry} {p : Passes} {ctx : Context} {W : Wiring}
  {e : Inlining} {n : Node} {i : InputType}

/-- The input has the name of the slot. -/
theorem Inlines.name_eq (h : Inlines r p ctx W e n i) : i.name = e.input := by
  have hi : i ∈ (declaredInputs ctx n).filter (·.name = e.input) := by
    rw [h.declared]
    exact List.mem_singleton_self i
  exact of_decide_eq_true (List.mem_filter.1 hi).2

/-- The value is stored at a place. -/
theorem Inlines.exists_place (h : Inlines r p ctx W e n i) :
    ∃ place, Stored i.name place e.value n := by
  rw [h.name_eq]
  exact stored_simplifyLevel h.counted h.node h.slot

/-- It is read once. -/
theorem Inlines.exists_readOnceAt (h : Inlines r p ctx W e n i) :
    ∃ q, ReadOnceAt (declaredInputs ctx n) n.widgets i q := by
  refine Flatten.exists_readOnceAt ?_ h.literal ?_
  · rw [h.name_eq, h.declared]
  · rw [h.name_eq]
    exact h.unselected

/-- The place that is written and the place that is read are the same if
values have names, -/
theorem place_eq_of_keyed {place q : Place}
    (hplace : writtenPlace? n i.name = some place)
    (hq : ReadOnceAt (declaredInputs ctx n) n.widgets i q)
    (hkeyed : n.widgets.isKeyed = true) : q = place := by
  rw [hq.eq_name hkeyed]
  unfold writtenPlace? at hplace
  split at hplace
  · exact Option.some.inj hplace
  · next vs hvalues =>
    rw [hvalues] at hkeyed
    cases hkeyed

/-- and if values are counted alike. -/
theorem place_eq_of_inOrder {place q : Place}
    (hplace : writtenPlace? n i.name = some place)
    (hq : ReadOnceAt (declaredInputs ctx n) n.widgets i q)
    (hliteral : i.kind.wireOnly = false) (horder : InOrder ctx n i) :
    q = place := by
  obtain ⟨before, rest, hdeclared, hbefore, hindex⟩ := horder
  cases hvalues : n.widgets with
  | keyed t => exact place_eq_of_keyed hplace hq (by rw [hvalues]; rfl)
  | positional vs =>
      rw [hvalues] at hq hbefore
      unfold writtenPlace? at hplace
      rw [hvalues, hindex] at hplace
      obtain ⟨k, hk, rfl⟩ := Option.map_eq_some_iff.1 hplace
      obtain ⟨hk, hlt⟩ := Option.filter_eq_some_iff.1 hk
      cases hk
      exact hq.eq_position hdeclared hliteral hbefore
        (Nat.le_of_lt (of_decide_eq_true hlt))

end

-- ==== without the link

/-- The root of a copy of the workflow, which is what is simplified. -/
def rootCopy (w : Workflow) : Wiring := ⟨w.clone.nodes, w.clone.linkList⟩

/-- The inside of a copy of the definition. -/
def insideCopy (d : Definition) : Wiring := ⟨d.clone.nodes, d.clone.linkList⟩

/-- A workflow, and the same workflow with another level in the place of
one: of its root, or of the inside of one of its definitions. The wirings
are copies of the two levels. -/
inductive Replaces : Wiring → Wiring → Workflow → Workflow → Prop where
  | root {w w₀ : Workflow}
      (h : w₀ = { w with nodes := w₀.nodes, linkList := w₀.linkList }) :
      Replaces (rootCopy w) (rootCopy w₀) w w₀
  | inside {w : Workflow} {before after : List Definition} {d d₀ : Definition}
      (hds : w.definitions = before ++ d :: after)
      (h : d₀ = { d with nodeList := d₀.nodeList, linkList := d₀.linkList }) :
      Replaces (insideCopy d) (insideCopy d₀) w
        { w with definitions := before ++ d₀ :: after }

section
variable {T : Node → Node → Prop} {ctx : Context} {r : Registry} {p : Passes}

/-- Definitions that differ inside are simplified to definitions that
differ in what their insides are simplified to. -/
theorem retouched_simplifyDefinition {d d₀ : Definition}
    (h : d₀ = { d with nodeList := d₀.nodeList, linkList := d₀.linkList })
    (hlevel : ∀ sentinels, RetouchedLevel T ctx
      ⟨(simplifyLevel r p (insideCopy d)).1.nodes,
        (simplifyLevel r p (insideCopy d)).1.links, sentinels⟩
      ⟨(simplifyLevel r p (insideCopy d₀)).1.nodes,
        (simplifyLevel r p (insideCopy d₀)).1.links, sentinels⟩) :
    RetouchedDefinition T ctx (simplifyDefinition r p d.clone).1
      (simplifyDefinition r p d₀.clone).1 := by
  constructor
  · have hsentinels : (simplifyDefinition r p d₀.clone).1.sentinels
        = (simplifyDefinition r p d.clone).1.sentinels := by
      rw [h]
      rfl
    unfold Definition.level
    rw [nodes_simplifyDefinition, nodes_simplifyDefinition, hsentinels]
    exact hlevel _
  · rw [h]
    rfl

/-- Workflows that differ in a level are simplified to workflows that
differ in what it is simplified to. -/
theorem simplify_replaces {W W₀ : Wiring} {w w₀ : Workflow}
    (hw : Replaces W W₀ w w₀)
    (hlevel : ∀ sentinels, RetouchedLevel T ctx
      ⟨(simplifyLevel r p W).1.nodes, (simplifyLevel r p W).1.links, sentinels⟩
      ⟨(simplifyLevel r p W₀).1.nodes, (simplifyLevel r p W₀).1.links,
        sentinels⟩) :
    RetouchedLevel T ctx (simplify r p w).1.root (simplify r p w₀).1.root
      ∧ List.Forall₂ (RetouchedDefinition T ctx)
          (simplify r p w).1.definitions (simplify r p w₀).1.definitions := by
  have hsame : ∀ ds : List Definition,
      List.Forall₂ (RetouchedDefinition T ctx) ds ds :=
    fun ds => List.forall₂_same.2 fun d _ => .refl d
  cases hw with
  | root h =>
      have hdefinitions : (simplify r p w₀).1.definitions
          = (simplify r p w).1.definitions := by
        rw [h]
        rfl
      rw [hdefinitions]
      exact ⟨hlevel none, hsame _⟩
  | @inside _ before after d d₀ hds h =>
      refine ⟨.refl _, ?_⟩
      show List.Forall₂ _
        (((w.definitions.map Definition.clone).map (simplifyDefinition r p)).map Prod.fst)
        ((((before ++ d₀ :: after).map Definition.clone).map
          (simplifyDefinition r p)).map Prod.fst)
      rw [hds]
      simp only [List.map_append, List.map_cons]
      exact List.rel_append (hsame _)
        (.cons (retouched_simplifyDefinition h hlevel) (hsame _))

end

section
variable {T : Node → Node → Prop} {ctx : Context}

theorem SameOrReset.id_eq {id : Id} {place : Place} {m m₀ : Node}
    (h : SameOrReset id place m m₀) : m₀.id = m.id := by
  rcases h with rfl | ⟨-, h⟩
  · rfl
  · rw [h.rest]

/-- A node alone with its id is the node. -/
theorem eq_of_filter_id {nodes : List Node} {id : Id} {n m : Node}
    (h : nodes.filter (·.id = id) = [n]) (hm : m ∈ nodes) (hid : m.id = id) :
    m = n := by
  have hmem : m ∈ nodes.filter (·.id = id) :=
    List.mem_filter.2 ⟨hm, decide_eq_true hid⟩
  rw [h] at hmem
  exact List.mem_singleton.1 hmem

section
variable {id : Id} {place : Place} {l l₀ : Level}
  (hall : List.Forall₂ (SameOrReset id place) l.nodes l₀.nodes)
include hall

/-- What replaces the only node with an id is the only one with it. -/
theorem eq_of_reset {n n₀ : Node} (honce : l.nodes.filter (·.id = id) = [n])
    (hn₀ : lastNode? l₀.nodes id = some n₀) :
    ∀ m₀ ∈ l₀.nodes, m₀.id = id → m₀ = n₀ := by
  have hfilter : List.Forall₂ (SameOrReset id place)
      (l.nodes.filter (·.id = id)) (l₀.nodes.filter (·.id = id)) := by
    refine List.rel_filter (fun m m₀ h => ?_) hall
    dsimp only
    rw [h.id_eq]
  rw [honce] at hfilter
  obtain ⟨x, hx⟩ := List.length_eq_one_iff.1 hfilter.length_eq.symm
  intro m₀ hm₀ hid
  rw [eq_of_filter_id hx hm₀ hid,
    eq_of_filter_id hx (lastNode?_mem hn₀) (lastNode?_id hn₀)]

/-- Under other ids the same nodes are found. -/
theorem node?_of_reset {other : Id} (hother : other ≠ id) :
    l₀.node? other = l.node? other := by
  have hfind := find?_rel (p := fun m => m.id = other)
    (q := fun m => m.id = other) (List.rel_reverse hall)
    fun m m₀ h => by rw [h.id_eq]
  unfold Level.node?
  generalize hl : l.nodes.reverse.find? _ = o,
    l₀.nodes.reverse.find? _ = o₀ at hfind ⊢
  cases hfind with
  | none => rfl
  | @some m m₀ hm =>
      rcases hm with rfl | ⟨hid, hreset⟩
      · rfl
      · have hmid := List.find?_some hl
        rw [decide_eq_true_iff, hreset.rest] at hmid
        exact absurd (hmid.symm.trans hid) hother

/-- A level of which one node has been reset, which is the only one with
its id and no instance. -/
theorem retouchedLevel_of_reset (hrest : l₀ = { l with nodes := l₀.nodes })
    {n n₀ : Node} (honce : l.nodes.filter (·.id = id) = [n])
    (hn₀ : lastNode? l₀.nodes id = some n₀)
    (hordinary : ∀ d ∈ ctx.definitions, d.id ≠ n.type) :
    RetouchedLevel (fun m m₀ => m = n ∧ m₀ = n₀) ctx l l₀ := by
  refine ⟨?_, hrest, ?_⟩
  · refine List.forall₂_iff_zip.2 ⟨hall.length_eq, fun {m m₀} hmem => ?_⟩
    rcases List.forall₂_zip hall hmem with rfl | ⟨hid, hreset⟩
    · exact .inl rfl
    · obtain ⟨hm, hm₀⟩ := List.of_mem_zip hmem
      refine .inr ⟨hreset.rest, eq_of_filter_id honce hm ?_,
        eq_of_reset hall honce hn₀ m₀ hm₀ hid⟩
      rw [hreset.rest]
      exact hid
  · rintro other ⟨m, hm, hid, hdefined⟩
    refine node?_of_reset hall ?_
    rintro rfl
    obtain ⟨d, hd, htype⟩ := List.any_eq_true.1 hdefined
    rw [eq_of_filter_id honce hm hid] at htype
    exact hordinary d hd (of_decide_eq_true htype)

end

end

/-- The level less the link, where the link is known by its id and ends
where it is named, and the node is known by its id and is no instance. -/
structure Detached (r : Registry) (p : Passes) (ctx : Context)
    (W W₀ : Wiring) (e : Inlining) (n n₀ : Node) : Prop where
  less : Less r p e.link W W₀
  linkIds : (W.links.map (·.id)).Nodup
  ends : ∀ m ∈ W.nodes, ∀ slot ∈ m.inputs, slot.wire? = some e.link.id →
    m.id = e.link.target
  once : (simplifyLevel r p W).1.nodes.filter (·.id = e.link.target) = [n]
  ordinary : ∀ d ∈ ctx.definitions, d.id ≠ n.type
  node : lastNode? (simplifyLevel r p W₀).1.nodes e.link.target = some n₀

/-- The value that stood at the place before was read for the same input
and selects the same inputs, and the place is read for no other. -/
structure Undisturbed (declared : List InputType) (i : InputType)
    (place : Place) (n n₀ : Node) : Prop where
  read : ReadOnceAt declared n.widgets i place
  readBefore : ReadOnceAt declared n₀.widgets i place
  selects : selectedBy i (valueAt? n₀.widgets place)
    = selectedBy i (valueAt? n.widgets place)
  unshared : ∀ r ∈ readings declared n.widgets, r.place = some place →
    r.reader.input = i.name

section
variable {r : Registry} {p : Passes} {ctx : Context} {W W₀ : Wiring}
  {e : Inlining} {n n₀ : Node} {i : InputType} {place : Place}

/-- The two nodes differ in the value at the place, and the two levels in
nothing but the two nodes. -/
theorem Detached.retouched (h : Detached r p ctx W W₀ e n n₀)
    (he : e ∈ inlinedIn r p W)
    (hn : lastNode? (simplifyLevel r p W).1.nodes e.link.target = some n)
    (hplace : writtenPlace? n e.input = some place) :
    Reset place n n₀ ∧ ∀ sentinels,
      RetouchedLevel (fun m m₀ => m = n ∧ m₀ = n₀) ctx
        ⟨(simplifyLevel r p W).1.nodes, (simplifyLevel r p W).1.links,
          sentinels⟩
        ⟨(simplifyLevel r p W₀).1.nodes, (simplifyLevel r p W₀).1.links,
          sentinels⟩ := by
  obtain ⟨place', m₀, hlinks, hall, hm₀, hreset, hplace'⟩ :=
    simplifyLevel_less he h.less h.linkIds h.ends hn
  cases hm₀.symm.trans h.node
  have hslots : n.inputs.map slotKey = n₀.inputs.map slotKey := by
    rw [hreset.rest]
  rw [writtenPlace?_congr _ hslots hreset.widgets.shape, hplace'] at hplace
  cases hplace
  refine ⟨hreset, fun sentinels => ?_⟩
  rw [hlinks]
  exact retouchedLevel_of_reset hall rfl h.once hm₀ h.ordinary

/-- The other inputs are filled in alike. -/
theorem Undisturbed.input?_eq {s : Scope} {v : Json}
    (h : Undisturbed (declaredInputs ctx n) i place n n₀)
    (hreset : Reset place n n₀) (hstored : Stored i.name place v n)
    (hname : name ≠ i.name) :
    (entryOf ctx s n₀).input? name = (entryOf ctx s n).input? name := by
  have hi : ∀ x, place = .name x → x = i.name := by
    rintro x rfl
    have hplace := hstored.place
    unfold writtenPlace? at hplace
    split at hplace
    · cases hplace
      rfl
    · obtain ⟨k, -, hk⟩ := Option.map_eq_some_iff.1 hplace
      cases hk
  have hreadings := readings_eq hreset.widgets
    (by rw [hstored.value]; rfl) hi h.selects h.read h.readBefore h.unshared
  have hfilled := get?_fillInputs_of_readings_eq hreset.widgets hreadings
    h.unshared (s.path ++ n.id.text) (wiresOf s n) hname
  have hentry : entryOf ctx s n₀
      = { entryOf ctx s n with
          inputs := some (fillInputs (s.path ++ n.id.text)
            (declaredInputs ctx n) n₀.widgets (wiresOf s n)).1 } := by
    rw [hreset.rest]
    rfl
  rw [hentry]
  exact hfilled

end

-- ==== together

section
variable (r : Registry) (p : Passes) (table : NodeTable) (source : String)
  (w : Workflow)

/-- What a conversion looks at if the workflow is simplified first, -/
abbrev contextAfter : Context := contextOf r table (simplify r p w).1

/-- and the graph that it ends with. -/
abbrev graphAfter : Execution.Graph :=
  (convertWorkflow r table source (simplify r p w).1).graph

/-- The entry under a key is what a node became, before references were
settled. -/
def MadeOf (n : Node) (key : String) : Prop :=
  ∃ s, Assoc.get? (inlined r table source (simplify r p w).1).entries key
    = some (entryOf (contextAfter r p table w) s n)

end

section
variable {r : Registry} {p : Passes} {table : NodeTable} {source : String}
  {w : Workflow} {n : Node}

/-- The node has an entry. -/
theorem MadeOf.exists_entry {key : String}
    (h : MadeOf r p table source w n key) :
    ∃ entry, Assoc.get? (graphAfter r p table source w) key = some entry := by
  obtain ⟨s, hmade⟩ := h
  unfold graphAfter
  rw [← Assoc.contains_iff, convertWorkflow_graph, contains_settledEntries,
    Assoc.contains_iff]
  exact ⟨_, hmade⟩

/-- The entry under the flat id of an ordinary node is made of it, if ids
tell nodes apart. -/
theorem madeOf_flatId (hw : UniqueNodeIds (simplify r p w).1)
    (hplain : PlainNodes (contextAfter r p table w) (simplify r p w).1.root)
    {path : List Frame}
    (hpath : Chain (contextAfter r p table w) (simplify r p w).1.root path)
    (hn : n ∈ (levelAt (simplify r p w).1.root path).nodes)
    (ho : Ordinary (contextAfter r p table w) n) :
    MadeOf r p table source w n (flatId path n.id) := by
  have hnamed := UniqueNodeIds.wellNamed r table hw
  have hcovers := @inlined_covers r table source _ hw
  obtain ⟨entry, hentry⟩ := Assoc.contains_iff.1
    (hcovers.entries path n hpath List.nil_suffix hn ho)
  obtain ⟨path', n', s, hpath', hn', -, hkey, rfl⟩ := inlined_entry hw hentry
  obtain ⟨rfl, hid⟩ := flatId_inj hnamed hplain hpath hpath'
    (hplain _ hpath _ hn) (hplain _ hpath' _ hn') hkey
  obtain rfl := (hpath.uniqueIds hnamed).eq_of_id hn' hn hid.symm
  exact ⟨s, hentry⟩

end

section
variable {r : Registry} {p : Passes} {table : NodeTable} {w : Workflow}
  {W : Wiring} {e : Inlining} {n : Node} {i : InputType}

/-- The value of a primitive that is inlined for an input stands at one
place among the node's widget values, and one place is read for the
input. An entry that is made of the node holds under the input's name
what stands at the second, which is the value if the places are the same
(unless the name is one of those that are no inputs). They are if values
have names, and if slots and declared inputs are in the same order and
nothing else is counted. And if the value that stood there before was
read alike, then all other inputs of all entries are the same as without
the link, and without the primitive too if it has no other link. -/
theorem inlined_value_arrives (source : String)
    (h : Inlines r p (contextAfter r p table w) W e n i) :
    (simplifyLevel r p W).2.inlined = (inlinedIn r p W).length
      ∧ ∃ place q, Stored e.input place e.value n
        ∧ ReadOnceAt (declaredInputs (contextAfter r p table w) n) n.widgets
            i q
        ∧ (n.widgets.isKeyed = true ∨ InOrder (contextAfter r p table w) n i →
            q = place)
        ∧ (∀ key, MadeOf r p table source w n key → ∃ entry,
            Assoc.get? (graphAfter r p table source w) key = some entry
            ∧ entry.input? e.input
              = if pseudoInputs.contains e.input then none
                else if q = place then some (.literal e.value)
                else (nonNull? (valueAt? n.widgets q)).map .literal)
        ∧ ∀ W₀ w₀ n₀, Replaces W W₀ w w₀ →
            Detached r p (contextAfter r p table w) W W₀ e n n₀ →
            Undisturbed (declaredInputs (contextAfter r p table w) n) i place
              n n₀ →
            Assoc.keys (graphAfter r p table source w₀)
                = Assoc.keys (graphAfter r p table source w)
              ∧ ∀ key entry entry₀,
                Assoc.get? (graphAfter r p table source w) key = some entry →
                Assoc.get? (graphAfter r p table source w₀) key
                  = some entry₀ →
                ∀ name, name ≠ e.input →
                  entry₀.input? name = entry.input? name := by
  obtain ⟨place, hstored⟩ := h.exists_place
  obtain ⟨q, hq⟩ := h.exists_readOnceAt
  rw [← h.name_eq]
  refine ⟨inlined_eq_length r p W, place, q, hstored, hq, ?_, ?_, ?_⟩
  · rintro (hkeyed | horder)
    · exact place_eq_of_keyed hstored.place hq hkeyed
    · exact place_eq_of_inOrder hstored.place hq h.literal horder
  · intro key hkey
    obtain ⟨entry, hentry⟩ := hkey.exists_entry
    obtain ⟨s, hmade⟩ := hkey
    refine ⟨entry, hentry, ?_⟩
    have hfilled := get?_fillInputs_readOnce (s.path ++ n.id.text) hq h.literal
      (wire?_of_unwired hstored.unwired s)
    split
    · next hpseudo =>
      rw [if_pos hpseudo] at hfilled
      exact input?_settled (v := none) hentry hmade hfilled
    · next hpseudo =>
      rw [if_neg hpseudo] at hfilled
      rw [input?_settled hentry hmade hfilled]
      split
      · next hplace =>
        rw [hplace, hstored.value, nonNull?_of_ne h.notNull]
        rfl
      · rfl
  · intro W₀ w₀ n₀ hw hdetached hundisturbed
    obtain ⟨hreset, hlevel⟩ := hdetached.retouched h.counted h.node
      (h.name_eq ▸ hstored.place)
    obtain ⟨hroot, hds⟩ := simplify_replaces hw hlevel
    obtain ⟨hkeys, hentries⟩ := graph_retouched
      (@inlined_retouched _ r table source _ _ hroot hds)
    refine ⟨hkeys, fun key entry entry₀ hentry hentry₀ name hname => ?_⟩
    obtain ⟨s, m, m₀, hnodes, hsame⟩ := hentries key entry entry₀ hentry
      hentry₀
    refine hsame name ?_
    rcases hnodes with rfl | ⟨-, rfl, rfl⟩
    · rfl
    · exact hundisturbed.input?_eq hreset hstored hname

end

-- ==== a fox to be painted

/-- A primitive that holds a text. -/
def foxNode : Node :=
  { id := ⟨"1"⟩, type := "PrimitiveStringMultiline",
    widgets := .positional [.string "a fox"] }

/-- A node with two slots that have widgets. -/
def paintNode (first : String) (link : Option Id) (values : List Json) :
    Node :=
  { id := ⟨"2"⟩, type := "Sampler",
    inputs := [{ name := first, widget := some first },
      { name := "text", link, widget := some "text" }],
    widgets := .positional values }

def foxLink : Link :=
  { id := ⟨"1"⟩, origin := ⟨"1"⟩, originSlot := 0, target := ⟨"2"⟩,
    targetSlot := 1, type := "STRING" }

/-- The text is wired to the second slot. -/
def paintedFox (first : String) (values : List Json) : Workflow :=
  { nodes := [foxNode, paintNode first (some ⟨"1"⟩) values],
    linkList := some [foxLink] }

def foxInlining : Inlining := ⟨foxLink, "text", .string "a fox"⟩

def scaleInput : InputType :=
  .mk "scale" "FLOAT" .float .required false none [] none

/-- A number that a control value comes after. -/
def seedInput : InputType :=
  .mk "seed" "INT" .int .required true none [] none

def paintTable (first : InputType) : NodeTable :=
  [("Sampler", ⟨"Sampler", "", "", false, [first, textInput], []⟩)]

def scaledFox : Workflow := paintedFox "scale" [.number "2", .string "old"]

/-- Neither primitive nor link. -/
def foxless : Workflow :=
  { scaledFox with
    nodes := [paintNode "scale" (some ⟨"1"⟩) [.number "2", .string "old"]]
    linkList := some [] }

/-- The text is inlined. -/
theorem inlines_scaledFox :
    Inlines .builtin {}
      (contextAfter .builtin {} (paintTable scaleInput) scaledFox)
      (rootCopy scaledFox) foxInlining
      (paintNode "scale" none [.number "2", .string "a fox"]) textInput where
  counted := List.mem_singleton.2 rfl
  notNull := nofun
  node := rfl
  slot := by unfold SingleSlot; decide
  declared := rfl
  literal := rfl
  unselected := by decide +kernel

theorem inOrder_scaledFox :
    InOrder (contextAfter .builtin {} (paintTable scaleInput) scaledFox)
      (paintNode "scale" none [.number "2", .string "a fox"]) textInput := by
  refine ⟨[scaleInput], [], rfl, fun j hj _ => ?_, rfl⟩
  rw [List.mem_singleton.1 hj]
  exact ⟨rfl, nofun, rfl, nofun⟩

/-- The node has the entry `2`. -/
theorem madeOf_scaledFox :
    MadeOf .builtin {} (paintTable scaleInput) "" scaledFox
      (paintNode "scale" none [.number "2", .string "a fox"]) "2" := by
  have hnodes : (simplify .builtin {} scaledFox).1.root.nodes
      = [paintNode "scale" none [.number "2", .string "a fox"]] := rfl
  have hchain : ∀ path, Chain
      (contextAfter .builtin {} (paintTable scaleInput) scaledFox)
      (simplify .builtin {} scaledFox).1.root path → path = [] := by
    rintro _ (_ | ⟨-, -, ⟨-, hd, -⟩, -⟩)
    · rfl
    · cases hd
  refine @madeOf_flatId .builtin {} (paintTable scaleInput) "" scaledFox _
    (by decide +kernel) ?_ [] .nil ?_ (by decide +kernel)
  · intro path hpath n hn
    rw [hchain path hpath, levelAt, hnodes, List.mem_singleton] at hn
    rw [hn]
    decide
  · rw [levelAt, hnodes]
    exact List.mem_singleton_self _

/-- Without the link all else is the same. -/
theorem detached_scaledFox :
    Detached .builtin {}
      (contextAfter .builtin {} (paintTable scaleInput) scaledFox)
      (rootCopy scaledFox) (rootCopy foxless)
      foxInlining (paintNode "scale" none [.number "2", .string "a fox"])
      (paintNode "scale" none [.number "2", .string "old"]) where
  less := ⟨rfl, .inr ⟨rfl, by decide +kernel⟩⟩
  linkIds := by decide +kernel
  ends := by decide +kernel
  once := rfl
  ordinary := nofun
  node := rfl

theorem undisturbed_scaledFox :
    Undisturbed (declaredInputs
        (contextAfter .builtin {} (paintTable scaleInput) scaledFox)
        (paintNode "scale" none [.number "2", .string "a fox"])) textInput
      (.position 1) (paintNode "scale" none [.number "2", .string "a fox"])
      (paintNode "scale" none [.number "2", .string "old"]) where
  read := rfl
  readBefore := rfl
  selects := rfl
  unshared := by decide +kernel

/-- The text arrives, and the scale is as it is without it. -/
theorem inlined_value_arrives_scaledFox :
    Inlines .builtin {}
        (contextAfter .builtin {} (paintTable scaleInput) scaledFox)
        (rootCopy scaledFox) foxInlining
        (paintNode "scale" none [.number "2", .string "a fox"]) textInput
      ∧ (∃ entry, Assoc.get?
            (graphAfter .builtin {} (paintTable scaleInput) "" scaledFox) "2"
              = some entry
          ∧ entry.input? "text" = some (.literal (.string "a fox")))
      ∧ ∀ entry entry₀,
          Assoc.get? (graphAfter .builtin {} (paintTable scaleInput) ""
            scaledFox) "2" = some entry →
          Assoc.get? (graphAfter .builtin {} (paintTable scaleInput) ""
            foxless) "2" = some entry₀ →
          entry₀.input? "scale" = entry.input? "scale" := by
  obtain ⟨-, place, q, hstored, -, hplaces, hinput, hothers⟩ :=
    inlined_value_arrives "" inlines_scaledFox
  have hplace : writtenPlace?
      (paintNode "scale" none [.number "2", .string "a fox"]) "text"
        = some (.position 1) := rfl
  cases hplace.symm.trans hstored.place
  obtain ⟨entry, hentry, htext⟩ := hinput "2" madeOf_scaledFox
  rw [if_neg (by decide), if_pos (hplaces (.inr inOrder_scaledFox))] at htext
  have hreplaces : Replaces (rootCopy scaledFox)
      (rootCopy foxless) scaledFox foxless := .root rfl
  obtain ⟨-, hsame⟩ := hothers _ _ _ hreplaces detached_scaledFox
    undisturbed_scaledFox
  exact ⟨inlines_scaledFox, ⟨entry, hentry, htext⟩,
    fun entry entry₀ he he₀ =>
      hsame "2" entry entry₀ he he₀ "scale" (by decide)⟩

def seededFox : Workflow :=
  paintedFox "seed" [.number "5", .string "fixed", .string "old"]

def literalText? : Input → Option String
  | .literal (.string s) => some s
  | _ => none

theorem eq_of_literalText? {o : Option Input} {s : String}
    (h : o.bind literalText? = some s) : o = some (.literal (.string s)) := by
  obtain ⟨x, rfl, hx⟩ := Option.bind_eq_some_iff.1 h
  unfold literalText? at hx
  split at hx
  · cases hx
    rfl
  · cases hx

/-- The text takes the place of the seed's control value, and the input
that it was wired to keeps the text that it had. -/
theorem inlined_value_lost_to_control :
    Inlines .builtin {}
        (contextAfter .builtin {} (paintTable seedInput) seededFox)
        (rootCopy seededFox) foxInlining
        (paintNode "seed" none
          [.number "5", .string "a fox", .string "old"]) textInput
      ∧ ∃ entry, Assoc.get?
            (graphAfter .builtin {} (paintTable seedInput) "" seededFox) "2"
              = some entry
          ∧ entry.input? "text" = some (.literal (.string "old")) := by
  refine ⟨?_, ?_⟩
  · exact
      { counted := List.mem_singleton.2 rfl
        notNull := nofun
        node := rfl
        slot := by unfold SingleSlot; decide
        declared := rfl
        literal := rfl
        unselected := by decide +kernel }
  · have hold : ((Assoc.get? (graphAfter .builtin {} (paintTable seedInput) ""
        seededFox) "2").bind (·.input? "text")).bind literalText?
          = some "old" := by decide +kernel
    exact Option.bind_eq_some_iff.1 (eq_of_literalText? hold)

end PromptGraph.Simplify

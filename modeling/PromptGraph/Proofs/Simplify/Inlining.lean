/-
Where the values of primitives go, and what is different without one of
them.

The loop over the links of a level writes one value after the other. A
write finds the slot that names the link, takes the link off it and puts
the value at the place that belongs to the slot's name. What becomes of
the last node with an id is followed through the loop:

- the value stays where it was written, if no other slot of the node has
  the slot's name (`Stored`, `exists_stored`);
- the loop without the link goes side by side with the loop from there
  on, and in the end the two nodes differ in this slot's link and in the
  value at this place, and all other nodes are the same (`Twin`,
  `exists_twins`).
-/
import Mathlib.Data.List.Forall2
import PromptGraph.Proofs.Flatten.Rereading
import PromptGraph.Proofs.Simplify.Idempotence

namespace PromptGraph.Simplify

open Editor
open Flatten (Place valueAt? shape SameBut)

-- ==== places

/-- There is a value at this position, or values are named. -/
def HasPlace (values : Widgets) : Place → Prop
  | .position k => ∃ vs, values = .positional vs ∧ k < vs.length
  | .name _ => values.isKeyed = true

def writeAt (values : Widgets) (v : Json) : Place → Widgets
  | .position k => values.setAt k v
  | .name s => values.set s v

/-- Within the list a value is set in place. -/
theorem setAt_eq {vs : List Json} {k : Nat} (h : k < vs.length) (v : Json) :
    (Widgets.positional vs).setAt k v = .positional (vs.set k v) := by
  have hgap : k + 1 - vs.length = 0 := by omega
  have hpos : ¬ (k : Int) < 0 := by omega
  simp [Widgets.setAt, hgap, hpos]

/-- A write changes one place. -/
theorem valueAt?_writeAt {values : Widgets} {p : Place}
    (h : HasPlace values p) (v : Json) (q : Place) :
    valueAt? (writeAt values v p) q
      = if p = q then some v else valueAt? values q := by
  cases p with
  | position k =>
      obtain ⟨vs, rfl, hk⟩ := h
      rw [writeAt, setAt_eq hk]
      cases q with
      | position m =>
          have hpos : ¬ (m : Int) < 0 := by omega
          by_cases hkm : k = m
          · subst hkm
            simp [valueAt?, Widgets.at?, hpos, hk]
          · simp [valueAt?, Widgets.at?, hpos, hkm]
      | name s => simp [valueAt?, Widgets.get?]
  | name s =>
      cases values with
      | positional vs => cases h
      | keyed t =>
          cases q with
          | position m => simp [valueAt?, writeAt, Widgets.set, Widgets.at?]
          | name s' =>
              simp [valueAt?, writeAt, Widgets.set, Widgets.get?,
                Assoc.get?_insert]

/-- A write leaves the places. -/
theorem shape_writeAt {values : Widgets} {p : Place} (h : HasPlace values p)
    (v : Json) : shape (writeAt values v p) = shape values := by
  cases p with
  | position k =>
      obtain ⟨vs, rfl, hk⟩ := h
      rw [writeAt, setAt_eq hk]
      simp [shape]
  | name s =>
      cases values with
      | positional vs => cases h
      | keyed t => rfl

-- ==== slots

/-- What of a slot the place of its value depends on. -/
def slotKey (i : NodeInput) : String × Bool := (i.name, i.widget.isNone)

theorem widgetIndex?_congr (name : String) {l l' : List NodeInput}
    (h : l'.map slotKey = l.map slotKey) :
    widgetIndex? name l' = widgetIndex? name l := by
  induction l generalizing l' with
  | nil => rw [List.map_eq_nil_iff.1 h]
  | cons i l ih =>
      cases l' with
      | nil => cases h
      | cons i' l' =>
          rw [List.map_cons, List.map_cons, List.cons.injEq, slotKey, slotKey,
            Prod.mk.injEq] at h
          obtain ⟨⟨hname, hwidget⟩, hrest⟩ := h
          unfold widgetIndex?
          rw [hname, hwidget, ih hrest]

/-- Different names have different positions. -/
theorem widgetIndex?_inj {x y : String} {k : Nat} {l : List NodeInput}
    (hx : widgetIndex? x l = some k) (hy : widgetIndex? y l = some k) :
    x = y := by
  induction l generalizing k with
  | nil => cases hx
  | cons i l ih =>
      unfold widgetIndex? at hx hy
      split at hx
      · next hnone =>
        rw [if_pos hnone] at hy
        exact ih hx hy
      · next hsome =>
        rw [if_neg hsome] at hy
        split at hx
        · next hix =>
          split at hy
          · next hiy => exact hix.symm.trans hiy
          · obtain ⟨m, -, hm⟩ := Option.map_eq_some_iff.1 hy
            cases hx
            cases hm
        · obtain ⟨m, hm, rfl⟩ := Option.map_eq_some_iff.1 hx
          split at hy
          · cases hy
          · obtain ⟨m', hm', heq⟩ := Option.map_eq_some_iff.1 hy
            cases heq
            exact ih hm hm'

/-- The place where a value for the slots of this name is written. -/
def writtenPlace? (n : Node) (name : String) : Option Place :=
  match n.widgets with
  | .keyed _ => some (.name name)
  | .positional vs =>
    ((n.widgetIndex? name).filter (· < vs.length)).map .position

/-- A slot is written where there is a place. -/
theorem hasPlace_of_written {n : Node} {name : String} {p : Place}
    (h : writtenPlace? n name = some p) : HasPlace n.widgets p := by
  unfold writtenPlace? at h
  split at h
  · next t hwidgets =>
    cases h
    rw [hwidgets]
    rfl
  · next vs hwidgets =>
    obtain ⟨k, hk, rfl⟩ := Option.map_eq_some_iff.1 h
    rw [hwidgets]
    exact ⟨vs, rfl, of_decide_eq_true (Option.filter_eq_some_iff.1 hk).2⟩

/-- Two names are not written to one place. -/
theorem writtenPlace?_inj {n : Node} {x y : String} {p : Place}
    (hx : writtenPlace? n x = some p) (hy : writtenPlace? n y = some p) :
    x = y := by
  unfold writtenPlace? at hx hy
  split at hx
  · next t hwidgets =>
    rw [hwidgets] at hy
    cases hx
    cases hy
    rfl
  · next vs hwidgets =>
    rw [hwidgets] at hy
    obtain ⟨k, hk, rfl⟩ := Option.map_eq_some_iff.1 hx
    obtain ⟨k', hk', heq⟩ := Option.map_eq_some_iff.1 hy
    cases heq
    exact widgetIndex?_inj (Option.filter_eq_some_iff.1 hk).1
      (Option.filter_eq_some_iff.1 hk').1

/-- Places depend on names, on which slots have widgets and on the shape
of the values, and on nothing else. -/
theorem writtenPlace?_congr (name : String) {n n' : Node}
    (hslots : n'.inputs.map slotKey = n.inputs.map slotKey)
    (hshape : shape n'.widgets = shape n.widgets) :
    writtenPlace? n' name = writtenPlace? n name := by
  have hindex : n'.widgetIndex? name = n.widgetIndex? name :=
    widgetIndex?_congr name hslots
  unfold writtenPlace?
  cases hw : n.widgets with
  | keyed t =>
      cases hw' : n'.widgets with
      | keyed t' => rfl
      | positional vs' =>
          rw [hw, hw'] at hshape
          cases hshape
  | positional vs =>
      cases hw' : n'.widgets with
      | keyed t' =>
          rw [hw, hw'] at hshape
          cases hshape
      | positional vs' =>
          rw [hw, hw'] at hshape
          have hlength : vs'.length = vs.length := Option.some.inj hshape
          dsimp only
          rw [hindex, hlength]

-- ==== unplugging

/-- Unplugging takes the link off the first slot that names it. -/
theorem unplug_some {link : Id} {inputs : List NodeInput} {name : String}
    (h : (unplug link inputs).2 = some name) :
    ∃ before i after, inputs = before ++ i :: after
      ∧ i.wire? = some link ∧ i.name = name
      ∧ (∀ x ∈ before, x.wire? ≠ some link)
      ∧ (unplug link inputs).1 = before ++ { i with link := none } :: after := by
  induction inputs with
  | nil => cases h
  | cons i inputs ih =>
      unfold unplug at h ⊢
      split at h
      · next hi =>
        rw [if_pos hi]
        exact ⟨[], i, inputs, rfl, hi, Option.some.inj h,
          List.forall_mem_nil _, rfl⟩
      · next hi =>
        rw [if_neg hi]
        obtain ⟨before, j, after, rfl, hj, hname, hbefore, heq⟩ := ih h
        refine ⟨i :: before, j, after, rfl, hj, hname,
          List.forall_mem_cons.2 ⟨hi, hbefore⟩, ?_⟩
        dsimp only
        rw [heq, List.cons_append]

/-- Unplugging leaves the slots. -/
theorem unplug_slotKey (link : Id) (inputs : List NodeInput) :
    (unplug link inputs).1.map slotKey = inputs.map slotKey := by
  induction inputs with
  | nil => rfl
  | cons i inputs ih =>
      unfold unplug
      split
      · rfl
      · rw [List.map_cons, List.map_cons, ih]

/-- If no slot names the link, nothing is unplugged. -/
theorem unplug_none {link : Id} {inputs : List NodeInput}
    (h : (unplug link inputs).2 = none) :
    (unplug link inputs).1 = inputs := by
  induction inputs with
  | nil => rfl
  | cons i inputs ih =>
      unfold unplug at h ⊢
      split at h
      · cases h
      · next hi =>
        rw [if_neg hi]
        exact congrArg (i :: ·) (ih h)

/-- A node with the link taken off its slot. -/
def unplugged (n : Node) (link : Id) : Node :=
  { n with inputs := (unplug link n.inputs).1 }

/-- A write takes the link off the slot that names it, and puts the value
at the place of this slot if there is one. -/
theorem writeWidget_eq (n : Node) (link : Id) (v : Json) :
    writeWidget n link v
      = match (unplug link n.inputs).2.bind (writtenPlace? n) with
        | some p =>
          ({ unplugged n link with widgets := writeAt n.widgets v p }, true)
        | none => (unplugged n link, false) := by
  unfold writeWidget
  cases hunplug : unplug link n.inputs with
  | mk inputs name =>
      have hnode : unplugged n link = { n with inputs } := by
        unfold unplugged
        rw [hunplug]
      cases name with
      | none =>
          have hinputs := @unplug_none link n.inputs (by rw [hunplug])
          rw [hunplug] at hinputs
          dsimp only at hinputs
          subst hinputs
          rw [hnode]
          rfl
      | some name =>
          have hindex : ∀ widgets,
              ({ n with inputs, widgets } : Node).widgetIndex? name
                = n.widgetIndex? name := by
            intro widgets
            refine widgetIndex?_congr name ?_
            have hkeys := unplug_slotKey link n.inputs
            rwa [hunplug] at hkeys
          rw [hnode, Option.bind_some]
          dsimp only
          unfold writtenPlace?
          cases hwidgets : n.widgets with
          | keyed t => rfl
          | positional vs =>
              dsimp only
              rw [hindex]
              cases n.widgetIndex? name with
              | none => rfl
              | some k =>
                  dsimp only
                  by_cases hk : k < vs.length
                  · rw [if_pos hk, Option.filter_some, if_pos (by simpa using hk)]
                    rfl
                  · rw [if_neg hk, Option.filter_some, if_neg (by simpa using hk)]
                    rfl

/-- What a write leaves of a node but its slots' links and its values. -/
theorem writeWidget_fst (n : Node) (link : Id) (v : Json) :
    ∃ widgets, (writeWidget n link v).1 = { unplugged n link with widgets }
      ∧ shape widgets = shape n.widgets := by
  rw [writeWidget_eq]
  cases hp : (unplug link n.inputs).2.bind (writtenPlace? n) with
  | none => exact ⟨n.widgets, rfl, rfl⟩
  | some p =>
      obtain ⟨name, -, hplace⟩ := Option.bind_eq_some_iff.1 hp
      exact ⟨_, rfl, shape_writeAt (hasPlace_of_written hplace) v⟩

/-- A write leaves the slots. -/
theorem writeWidget_slotKey (n : Node) (link : Id) (v : Json) :
    (writeWidget n link v).1.inputs.map slotKey = n.inputs.map slotKey := by
  obtain ⟨widgets, heq, -⟩ := writeWidget_fst n link v
  rw [heq]
  exact unplug_slotKey link n.inputs

/-- A write leaves where slots are written. -/
theorem writtenPlace?_writeWidget (n : Node) (link : Id) (v : Json)
    (name : String) :
    writtenPlace? (writeWidget n link v).1 name = writtenPlace? n name := by
  refine writtenPlace?_congr name (writeWidget_slotKey n link v) ?_
  obtain ⟨widgets, heq, hshape⟩ := writeWidget_fst n link v
  rw [heq]
  exact hshape

-- ==== a value stays

/-- The slots of this name are not wired, and the value stands at their
place. -/
structure Stored (name : String) (p : Place) (v : Json) (n : Node) :
    Prop where
  unwired : ∀ i ∈ n.inputs, i.name = name → i.wire? = none
  place : writtenPlace? n name = some p
  value : valueAt? n.widgets p = some v

/-- No two slots have this name. -/
def SingleSlot (name : String) (n : Node) : Prop :=
  (n.inputs.filter (·.name = name)).length ≤ 1

/-- There is no other slot of this name. -/
theorem SingleSlot.eq {name : String} {n : Node} (h : SingleSlot name n)
    {before after : List NodeInput} {i : NodeInput}
    (hi : n.inputs = before ++ i :: after) (hname : i.name = name) :
    ∀ j ∈ before ++ after, j.name ≠ name := by
  intro j hj heq
  unfold SingleSlot at h
  rw [hi, List.filter_append, List.filter_cons_of_pos (by simpa using hname),
    List.length_append, List.length_cons] at h
  have hmem : j ∈ before.filter (·.name = name)
      ++ after.filter (·.name = name) := by
    rw [← List.filter_append]
    exact List.mem_filter.2 ⟨hj, by simpa using heq⟩
  have hpos := List.length_pos_of_mem hmem
  rw [List.length_append] at hpos
  omega

/-- That a slot is single is seen from the slots. -/
theorem SingleSlot.congr {name : String} {n n' : Node}
    (h : n'.inputs.map slotKey = n.inputs.map slotKey) :
    SingleSlot name n' ↔ SingleSlot name n := by
  have hlength : ∀ l : List NodeInput, (l.filter (·.name = name)).length
      = ((l.map slotKey).filter (·.1 = name)).length := by
    intro l
    rw [List.filter_map, List.length_map]
    rfl
  unfold SingleSlot
  rw [hlength, hlength, h]

variable {v : Json}

/-- A write that finds its place leaves the value stored there. -/
theorem stored_writeWidget {n : Node} {link : Id} {name : String}
    (hname : (unplug link n.inputs).2 = some name)
    (hdone : (writeWidget n link v).2 = true) (hsingle : SingleSlot name n) :
    ∃ p, Stored name p v (writeWidget n link v).1 := by
  rw [writeWidget_eq, hname, Option.bind_some] at hdone
  cases hplace : writtenPlace? n name with
  | none =>
      rw [hplace] at hdone
      cases hdone
  | some p =>
      refine ⟨p, ?_, ?_, ?_⟩
      · obtain ⟨before, i, after, hinputs, -, hi, -, hunplug⟩ := unplug_some hname
        obtain ⟨widgets, heq, -⟩ := writeWidget_fst n link v
        intro j hj hjname
        rw [heq] at hj
        have hj : j ∈ (unplug link n.inputs).1 := hj
        rw [hunplug] at hj
        rcases List.mem_append.1 hj with hj | hj
        · exact absurd hjname (hsingle.eq hinputs hi j
            (List.mem_append_left _ hj))
        · rcases List.mem_cons.1 hj with rfl | hj
          · rfl
          · exact absurd hjname (hsingle.eq hinputs hi j
              (List.mem_append_right _ hj))
      · rw [writtenPlace?_writeWidget, hplace]
      · rw [writeWidget_eq, hname, Option.bind_some, hplace]
        show valueAt? (writeAt n.widgets v p) p = some v
        rw [valueAt?_writeAt (hasPlace_of_written hplace), if_pos rfl]

/-- A write over any link leaves it there: the link is not that of an
unwired slot, and another slot has another place. -/
theorem Stored.writeWidget {name : String} {p : Place} {n : Node}
    (h : Stored name p v n) (link : Id) (u : Json) :
    Stored name p v (writeWidget n link u).1 := by
  refine ⟨?_, ?_, ?_⟩
  · intro i' hi' hname
    obtain ⟨widgets, heq, -⟩ := writeWidget_fst n link u
    rw [heq] at hi'
    have hi' : i' ∈ (unplug link n.inputs).1 := hi'
    cases hfound : (unplug link n.inputs).2 with
    | none =>
        rw [unplug_none hfound] at hi'
        exact h.unwired i' hi' hname
    | some other =>
        obtain ⟨before, i, after, hinputs, -, -, -, hunplug⟩ := unplug_some hfound
        rw [hunplug] at hi'
        rcases List.mem_append.1 hi' with hmem | hmem
        · refine h.unwired i' ?_ hname
          rw [hinputs]
          exact List.mem_append_left _ hmem
        · rcases List.mem_cons.1 hmem with rfl | hmem
          · rfl
          · refine h.unwired i' ?_ hname
            rw [hinputs]
            exact List.mem_append_right _ (List.mem_cons_of_mem i hmem)
  · rw [writtenPlace?_writeWidget, h.place]
  · rw [writeWidget_eq]
    cases hp : (unplug link n.inputs).2.bind (writtenPlace? n) with
    | none => exact h.value
    | some q =>
        obtain ⟨other, hfound, hplace⟩ := Option.bind_eq_some_iff.1 hp
        show valueAt? (writeAt n.widgets u q) p = some v
        rw [valueAt?_writeAt (hasPlace_of_written hplace), if_neg, h.value]
        rintro rfl
        -- the same place would make it the same name, and that is not wired
        obtain rfl := writtenPlace?_inj hplace h.place
        obtain ⟨before, i, after, hinputs, hwire, hname, -⟩ :=
          unplug_some hfound
        have hnone := h.unwired i (by rw [hinputs]; simp) hname
        rw [hwire] at hnone
        cases hnone

-- ==== the loop

/-- The last node with an id. -/
def lastNode? (nodes : List Node) (id : Id) : Option Node :=
  nodes.reverse.find? (·.id = id)

/-- The last node with an id is looked for from the end. -/
theorem lastNode?_cons (n : Node) (nodes : List Node) (id : Id) :
    lastNode? (n :: nodes) id
      = (lastNode? nodes id).or (if n.id = id then some n else none) := by
  unfold lastNode?
  rw [List.reverse_cons, List.find?_append, List.find?_singleton]
  simp

/-- An id is in use if there is a last node with it. -/
theorem any_id_eq (nodes : List Node) (id : Id) :
    nodes.any (·.id = id) = (lastNode? nodes id).isSome := by
  rw [Bool.eq_iff_iff, lastNode?, List.find?_isSome, List.any_eq_true]
  simp

variable {nodes : List Node}

/-- The last node with an id has it. -/
theorem lastNode?_id {id : Id} {n : Node} (h : lastNode? nodes id = some n) :
    n.id = id := by
  simpa using List.find?_some h

/-- It is one of the nodes. -/
theorem lastNode?_mem {id : Id} {n : Node} (h : lastNode? nodes id = some n) :
    n ∈ nodes :=
  List.mem_reverse.1 (List.mem_of_find?_eq_some h)

/-- What becomes of the last node with an id, and of the last with
another. -/
theorem lastNode?_writeLast {f : Node → Node × Bool}
    (hf : ∀ n, (f n).1.id = n.id) (id other : Id) (nodes : List Node) :
    lastNode? (writeLast id f nodes).1 other
      = if id = other then (lastNode? nodes other).map fun n => (f n).1
        else lastNode? nodes other := by
  induction nodes with
  | nil => exact (ite_self _).symm
  | cons n nodes ih =>
      unfold writeLast
      rw [any_id_eq]
      split
      · next hlast =>
        rw [Bool.and_eq_true, decide_eq_true_iff, Bool.not_eq_true',
          Option.isSome_eq_false_iff, Option.isNone_iff_eq_none] at hlast
        obtain ⟨rfl, hnone⟩ := hlast
        rw [lastNode?_cons, lastNode?_cons, hf]
        split
        · next hother =>
          rw [← hother, hnone]
          rfl
        · rfl
      · next hmore =>
        dsimp only
        rw [lastNode?_cons, lastNode?_cons, ih]
        split
        · next hid =>
          subst hid
          cases hlast : lastNode? nodes id with
          | some m => rfl
          | none =>
              rw [hlast] at hmore
              have hn : n.id ≠ id := by simpa using hmore
              rw [if_neg hn]
              rfl
        · rfl

/-- A write reports what it did to the last node. -/
theorem writeLast_snd (id : Id) (f : Node → Node × Bool) (nodes : List Node) :
    (writeLast id f nodes).2 = ((lastNode? nodes id).map fun n => (f n).2).getD
      false := by
  induction nodes with
  | nil => rfl
  | cons n nodes ih =>
      unfold writeLast
      rw [any_id_eq, lastNode?_cons]
      split
      · next hlast =>
        rw [Bool.and_eq_true, decide_eq_true_iff, Bool.not_eq_true',
          Option.isSome_eq_false_iff, Option.isNone_iff_eq_none] at hlast
        rw [hlast.2, if_pos hlast.1]
        rfl
      · next hmore =>
        dsimp only
        rw [ih]
        cases hlast : lastNode? nodes id with
        | some m => rfl
        | none =>
            rw [hlast] at hmore
            have hn : n.id ≠ id := by simpa using hmore
            rw [if_neg hn]
            rfl

/-- A write leaves the id. -/
theorem writeWidget_id (n : Node) (link : Id) (v : Json) :
    (writeWidget n link v).1.id = n.id := (writeWidget_kept n link v).id

section
variable (values : List (Id × Json))

/-- The nodes after one link. -/
def sendStep (nodes : List Node) (k : Link) : List Node :=
  match valueOf? values k.origin with
  | none => nodes
  | some v => (writeLast k.target (fun n => writeWidget n k.id v) nodes).1

/-- The nodes after all links. -/
def sendAll (nodes : List Node) (links : List Link) : List Node :=
  links.foldl (sendStep values) nodes

/-- A value that found its place: the link that it came over, and the
input that it was written for. -/
structure Inlining where
  link : Link
  input : String
  value : Json

/-- What the loop counts at a link. -/
def inlining? (nodes : List Node) (k : Link) : Option Inlining :=
  (valueOf? values k.origin).bind fun v =>
    (lastNode? nodes k.target).bind fun n =>
      if (writeWidget n k.id v).2 then
        (unplug k.id n.inputs).2.map (⟨k, ·, v⟩)
      else none

/-- All that the loop counts. -/
def inlinings : List Node → List Link → List Inlining
  | _, [] => []
  | nodes, k :: rest =>
    (inlining? values nodes k).toList
      ++ inlinings (sendStep values nodes k) rest

/-- One step sends one value, and counts it. -/
theorem writeStep_eq (nodes : List Node) (count : Nat) (k : Link) :
    writeStep values (nodes, count) k
      = (sendStep values nodes k,
        count + (inlining? values nodes k).toList.length) := by
  unfold writeStep sendStep inlining?
  cases valueOf? values k.origin with
  | none => rfl
  | some v =>
      refine Prod.ext rfl ?_
      dsimp only
      rw [writeLast_snd, Option.bind_some]
      cases lastNode? nodes k.target with
      | none => rfl
      | some n =>
          rw [Option.map_some, Option.getD_some, Option.bind_some]
          cases hdone : (writeWidget n k.id v).2 with
          | false => rfl
          | true =>
              rw [if_pos rfl, if_pos rfl]
              cases hname : (unplug k.id n.inputs).2 with
              | some name => rfl
              | none =>
                  rw [writeWidget_eq, hname] at hdone
                  cases hdone

/-- The loop ends with these nodes, and its count is what it counts. -/
theorem writeValues_spec (nodes : List Node) (links : List Link) :
    writeValues values nodes links
      = (sendAll values nodes links, (inlinings values nodes links).length) := by
  suffices hloop : ∀ (links : List Link) (nodes : List Node) (count : Nat),
      links.foldl (writeStep values) (nodes, count)
        = (sendAll values nodes links,
          count + (inlinings values nodes links).length) by
    rw [writeValues_eq, hloop, Nat.zero_add]
  intro links
  induction links with
  | nil => exact fun _ _ => rfl
  | cons k links ih =>
      intro nodes count
      rw [List.foldl_cons, writeStep_eq, ih, inlinings, List.length_append,
        Nat.add_assoc]
      rfl

variable {values}

/-- When the loop counts a value, it has just written it. -/
theorem of_mem_inlinings {links : List Link} {e : Inlining}
    (h : e ∈ inlinings values nodes links) :
    ∃ before after n, links = before ++ e.link :: after
      ∧ valueOf? values e.link.origin = some e.value
      ∧ lastNode? (sendAll values nodes before) e.link.target = some n
      ∧ (writeWidget n e.link.id e.value).2 = true
      ∧ (unplug e.link.id n.inputs).2 = some e.input := by
  induction links generalizing nodes with
  | nil => cases h
  | cons k links ih =>
      rcases List.mem_append.1 h with h | h
      · obtain ⟨v, hv, h⟩ := Option.bind_eq_some_iff.1 (Option.mem_toList.1 h)
        obtain ⟨n, hn, h⟩ := Option.bind_eq_some_iff.1 h
        split at h
        · next hdone =>
          obtain ⟨name, hname, rfl⟩ := Option.map_eq_some_iff.1 h
          exact ⟨[], links, n, rfl, hv, hn, hdone, hname⟩
        · cases h
      · obtain ⟨before, after, n, rfl, hrest⟩ := ih h
        exact ⟨k :: before, after, n, rfl, hrest⟩

/-- The last node with an id after a link. -/
theorem lastNode?_sendStep {id : Id} {n : Node}
    (h : lastNode? nodes id = some n) (k : Link) :
    lastNode? (sendStep values nodes k) id = some n
      ∨ ∃ v, valueOf? values k.origin = some v ∧ k.target = id
          ∧ lastNode? (sendStep values nodes k) id
            = some (writeWidget n k.id v).1 := by
  unfold sendStep
  cases hv : valueOf? values k.origin with
  | none => exact .inl h
  | some v =>
      dsimp only
      rw [lastNode?_writeLast fun m => writeWidget_id m k.id v, h]
      by_cases hid : k.target = id
      · exact .inr ⟨v, rfl, hid, if_pos hid⟩
      · exact .inl (if_neg hid)

/-- What is stored in it stays there through the loop. -/
theorem lastNode?_sendAll {id : Id} {n : Node}
    (h : lastNode? nodes id = some n) (links : List Link) :
    ∃ n', lastNode? (sendAll values nodes links) id = some n'
      ∧ n'.inputs.map slotKey = n.inputs.map slotKey
      ∧ ∀ name p v, Stored name p v n → Stored name p v n' := by
  induction links generalizing nodes n with
  | nil => exact ⟨n, h, rfl, fun _ _ _ hstored => hstored⟩
  | cons k links ih =>
      rcases lastNode?_sendStep h k with hsame | ⟨v, -, -, hwritten⟩
      · exact ih hsame
      · obtain ⟨n', hn', hslots, hstored⟩ := ih hwritten
        refine ⟨n', hn', hslots.trans (writeWidget_slotKey n k.id v), ?_⟩
        exact fun name p u h => hstored name p u (h.writeWidget k.id v)

/-- A value that was counted is stored in the end, if no other slot of
the node has the slot's name. -/
theorem exists_stored {links : List Link} {e : Inlining}
    (h : e ∈ inlinings values nodes links) {n' : Node}
    (hn' : lastNode? (sendAll values nodes links) e.link.target = some n')
    (hsingle : SingleSlot e.input n') :
    ∃ p, Stored e.input p e.value n' := by
  obtain ⟨before, after, n, rfl, hv, hn, hdone, hname⟩ := of_mem_inlinings h
  have hwritten : lastNode? (sendStep values (sendAll values nodes before)
      e.link) e.link.target = some (writeWidget n e.link.id e.value).1 := by
    unfold sendStep
    rw [hv]
    dsimp only
    rw [lastNode?_writeLast fun m => writeWidget_id m e.link.id e.value,
      if_pos rfl, hn]
    rfl
  obtain ⟨m, hm, hslots, hstored⟩ :=
    @lastNode?_sendAll _ values _ _ hwritten after
  have hsplit : sendAll values nodes (before ++ e.link :: after)
      = sendAll values (sendStep values (sendAll values nodes before) e.link)
          after := by
    unfold sendAll
    rw [List.foldl_append]
    rfl
  rw [hsplit, hm] at hn'
  cases hn'
  have hkeys := hslots.trans (writeWidget_slotKey n e.link.id e.value)
  obtain ⟨p, hp⟩ :=
    stored_writeWidget hname hdone ((SingleSlot.congr hkeys).1 hsingle)
  exact ⟨p, hstored _ _ _ hp⟩

end

-- ==== without the link

/-- A slot, and the same slot with the link still on it. -/
def TwinSlot (link : Id) (name : String) (i i₀ : NodeInput) : Prop :=
  i = i₀ ∨ i₀.name = name ∧ i₀.wire? = some link
    ∧ i = { i₀ with link := none }

/-- Two nodes that differ in the link of one slot and in the value at its
place. -/
structure Twin (link : Id) (name : String) (p : Place) (n n₀ : Node) :
    Prop where
  rest : n = { n₀ with inputs := n.inputs, widgets := n.widgets }
  slots : List.Forall₂ (TwinSlot link name) n.inputs n₀.inputs
  place : writtenPlace? n₀ name = some p
  widgets : SameBut p n.widgets n₀.widgets

section
variable {link : Id} {name : String} {p : Place} {n n₀ : Node}

/-- Twins have the same slots. -/
theorem slotKey_twinSlots {l l₀ : List NodeInput}
    (h : List.Forall₂ (TwinSlot link name) l l₀) :
    l.map slotKey = l₀.map slotKey := by
  induction h with
  | nil => rfl
  | cons hi _ ih =>
      rw [List.map_cons, List.map_cons, ih]
      rcases hi with rfl | ⟨-, -, rfl⟩
      · rfl
      · rfl

/-- Twins have one id. -/
theorem Twin.id (h : Twin link name p n n₀) : n.id = n₀.id := by
  rw [h.rest]

/-- Twins write a slot at one place. -/
theorem Twin.place_eq (h : Twin link name p n n₀) (other : String) :
    writtenPlace? n other = writtenPlace? n₀ other :=
  writtenPlace?_congr other (slotKey_twinSlots h.slots) h.widgets.shape

/-- Another link is found on the same slot, or on none, on both sides. -/
theorem unplug_twinSlots {l l₀ : List NodeInput} {other : Id}
    (hother : other ≠ link) (h : List.Forall₂ (TwinSlot link name) l l₀) :
    (unplug other l).2 = (unplug other l₀).2
      ∧ List.Forall₂ (TwinSlot link name) (unplug other l).1
          (unplug other l₀).1 := by
  induction h with
  | nil => exact ⟨rfl, .nil⟩
  | @cons i i₀ l l₀ hi hrest ih =>
      rcases hi with rfl | ⟨hname, hwire, rfl⟩
      · unfold unplug
        split
        · exact ⟨rfl, .cons (.inl rfl) hrest⟩
        · exact ⟨ih.1, .cons (.inl rfl) ih.2⟩
      · have hi₀ : ¬ i₀.wire? = some other := by
          rw [hwire]
          exact fun heq => hother (Option.some.inj heq).symm
        have hi : ({ i₀ with link := none } : NodeInput).wire? ≠ some other :=
          (Option.some_ne_none other).symm
        rw [unplug, unplug, if_neg hi₀, if_neg hi]
        exact ⟨ih.1, .cons (.inr ⟨hname, hwire, rfl⟩) ih.2⟩

/-- A write over another link does the same on both sides. -/
theorem Twin.writeWidget (h : Twin link name p n n₀) {other : Id}
    (hother : other ≠ link) (u : Json) :
    Twin link name p (writeWidget n other u).1
      (writeWidget n₀ other u).1 := by
  obtain ⟨hfound, hslots⟩ := unplug_twinSlots hother h.slots
  obtain ⟨widgets, heq, hshape⟩ := writeWidget_fst n other u
  obtain ⟨widgets₀, heq₀, hshape₀⟩ := writeWidget_fst n₀ other u
  refine ⟨?_, ?_, ?_, ?_, ?_⟩
  · rw [heq, heq₀, unplugged, unplugged, h.rest]
  · rw [heq, heq₀]
    exact hslots
  · rw [writtenPlace?_writeWidget, h.place]
  · rw [heq, heq₀]
    exact hshape.trans (h.widgets.shape.trans hshape₀.symm)
  · intro q hq
    have hplaces : (unplug other n₀.inputs).2.bind (writtenPlace? n)
        = (unplug other n₀.inputs).2.bind (writtenPlace? n₀) :=
      congrArg _ (funext h.place_eq)
    rw [writeWidget_eq, writeWidget_eq, hfound, hplaces]
    cases hplace : (unplug other n₀.inputs).2.bind (writtenPlace? n₀) with
    | none => exact h.widgets.values q hq
    | some q' =>
        obtain ⟨found, -, hwritten⟩ :=
          Option.bind_eq_some_iff.1 (hplaces.trans hplace)
        obtain ⟨found₀, -, hwritten₀⟩ := Option.bind_eq_some_iff.1 hplace
        show valueAt? (writeAt n.widgets u q') q
          = valueAt? (writeAt n₀.widgets u q') q
        rw [valueAt?_writeAt (hasPlace_of_written hwritten),
          valueAt?_writeAt (hasPlace_of_written hwritten₀), h.widgets.values q hq]

/-- The write over the link itself is the difference. -/
theorem twin_writeWidget (hname : (unplug link n.inputs).2 = some name)
    (hdone : (writeWidget n link v).2 = true) :
    ∃ p, Twin link name p (writeWidget n link v).1 n := by
  have heq := writeWidget_eq n link v
  rw [hname, Option.bind_some] at heq
  cases hplace : writtenPlace? n name with
  | none =>
      rw [heq, hplace] at hdone
      cases hdone
  | some p =>
      rw [hplace] at heq
      rw [heq]
      have hhas := hasPlace_of_written hplace
      refine ⟨p, rfl, ?_, hplace, ⟨shape_writeAt hhas v, fun q hq => ?_⟩⟩
      · obtain ⟨before, i, after, hinputs, hwire, hi, -, hunplug⟩ :=
          unplug_some hname
        have hsame : ∀ l : List NodeInput,
            List.Forall₂ (TwinSlot link name) l l :=
          fun l => List.forall₂_same.2 fun i _ => .inl rfl
        show List.Forall₂ _ (unplug link n.inputs).1 n.inputs
        rw [hunplug, hinputs]
        exact List.rel_append (hsame before)
          (.cons (.inr ⟨hi, hwire, rfl⟩) (hsame after))
      · show valueAt? (writeAt n.widgets v p) q = _
        rw [valueAt?_writeAt hhas, if_neg (Ne.symm hq)]

end

/-- The same node, or a twin of a node with this id. -/
def SameOrTwin (id link : Id) (name : String) (p : Place) (n n₀ : Node) :
    Prop :=
  n = n₀ ∨ n₀.id = id ∧ Twin link name p n n₀

section
variable {id link : Id} {name : String} {p : Place} {n n₀ : Node}

theorem SameOrTwin.id_eq (h : SameOrTwin id link name p n n₀) :
    n.id = n₀.id := by
  rcases h with rfl | ⟨-, h⟩
  · rfl
  · exact h.id

/-- A write over another link leaves them twins. -/
theorem SameOrTwin.writeWidget (h : SameOrTwin id link name p n n₀)
    {other : Id} (hother : other ≠ link) (u : Json) :
    SameOrTwin id link name p (writeWidget n other u).1
      (writeWidget n₀ other u).1 := by
  rcases h with rfl | ⟨hid, h⟩
  · exact .inl rfl
  · refine .inr ⟨?_, h.writeWidget hother u⟩
    rw [writeWidget_id, hid]

end

section
variable {R : Node → Node → Prop} {id : Id} {f : Node → Node × Bool}
  {l l₀ : List Node}

/-- Related nodes that share ids list the same ids. -/
theorem map_id_of_rel (hid : ∀ a b, R a b → a.id = b.id)
    (h : List.Forall₂ R l l₀) : l.map (·.id) = l₀.map (·.id) := by
  induction h with
  | nil => rfl
  | cons hab _ ih => rw [List.map_cons, List.map_cons, ih, hid _ _ hab]

/-- Writing into the last node with an id on both sides. -/
theorem writeLast_rel (hid : ∀ a b, R a b → a.id = b.id)
    (hf : ∀ a b, R a b → R (f a).1 (f b).1) (h : List.Forall₂ R l l₀) :
    List.Forall₂ R (writeLast id f l).1 (writeLast id f l₀).1 := by
  induction h with
  | nil => exact .nil
  | @cons a b l l₀ hab hrest ih =>
      have hany : l.any (·.id = id) = l₀.any (·.id = id) := by
        have hmap : ∀ m : List Node,
            m.any (·.id = id) = (m.map (·.id)).any (· = id) := by
          intro m
          rw [List.any_map]
          rfl
        rw [hmap, hmap, map_id_of_rel hid hrest]
      unfold writeLast
      rw [hid a b hab, hany]
      split
      · exact .cons (hf a b hab) hrest
      · exact .cons hab ih

/-- Writing into it on one side only. -/
theorem writeLast_rel_self (hrefl : ∀ a, R a a)
    (hf : ∀ n, lastNode? l id = some n → R (f n).1 n) :
    List.Forall₂ R (writeLast id f l).1 l := by
  induction l with
  | nil => exact .nil
  | cons a l ih =>
      unfold writeLast
      split
      · next hlast =>
        rw [any_id_eq, Bool.and_eq_true, decide_eq_true_iff,
          Bool.not_eq_true', Option.isSome_eq_false_iff,
          Option.isNone_iff_eq_none] at hlast
        refine .cons (hf a ?_) (List.forall₂_same.2 fun b _ => hrefl b)
        rw [lastNode?_cons, hlast.2, if_pos hlast.1]
        rfl
      · refine .cons (hrefl a) (ih fun n hn => hf n ?_)
        rw [lastNode?_cons, hn]
        rfl

end

section
variable {values : List (Id × Json)} {id link : Id} {name : String}
  {p : Place}

/-- Other links keep all nodes the same or twins. -/
theorem sendAll_rel {links : List Link} (hlinks : ∀ j ∈ links, j.id ≠ link)
    {nodes nodes₀ : List Node}
    (h : List.Forall₂ (SameOrTwin id link name p) nodes nodes₀) :
    List.Forall₂ (SameOrTwin id link name p) (sendAll values nodes links)
      (sendAll values nodes₀ links) := by
  induction links generalizing nodes nodes₀ with
  | nil => exact h
  | cons j links ih =>
      refine ih (fun i hi => hlinks i (List.mem_cons_of_mem j hi)) ?_
      unfold sendStep
      cases valueOf? values j.origin with
      | none => exact h
      | some u =>
          refine writeLast_rel (fun _ _ hab => hab.id_eq) (fun a b hab => ?_) h
          exact hab.writeWidget (hlinks j List.mem_cons_self) u

/-- They keep the last node with an id a twin. -/
theorem sendAll_twin {links : List Link} (hlinks : ∀ j ∈ links, j.id ≠ link)
    {nodes nodes₀ : List Node} {n n₀ : Node}
    (hn : lastNode? nodes id = some n) (hn₀ : lastNode? nodes₀ id = some n₀)
    (h : Twin link name p n n₀) :
    ∃ n' n₀', lastNode? (sendAll values nodes links) id = some n'
      ∧ lastNode? (sendAll values nodes₀ links) id = some n₀'
      ∧ Twin link name p n' n₀' := by
  induction links generalizing nodes nodes₀ n n₀ with
  | nil => exact ⟨n, n₀, hn, hn₀, h⟩
  | cons j links ih =>
      have hrest : ∀ i ∈ links, i.id ≠ link :=
        fun i hi => hlinks i (List.mem_cons_of_mem j hi)
      have hstep : ∀ {m : Node} {l : List Node}, lastNode? l id = some m →
          lastNode? (sendStep values l j) id
            = match valueOf? values j.origin with
              | none => some m
              | some u =>
                if j.target = id then some (writeWidget m j.id u).1
                else some m := by
        intro m l hm
        unfold sendStep
        cases valueOf? values j.origin with
        | none => exact hm
        | some u =>
            dsimp only
            rw [lastNode?_writeLast fun a => writeWidget_id a j.id u, hm]
            rfl
      have hnext := hstep hn
      have hnext₀ := hstep hn₀
      cases hu : valueOf? values j.origin with
      | none =>
          rw [hu] at hnext hnext₀
          exact ih hrest hnext hnext₀ h
      | some u =>
          rw [hu] at hnext hnext₀
          dsimp only at hnext hnext₀
          split at hnext
          · next htarget =>
            rw [if_pos htarget] at hnext₀
            exact ih hrest hnext hnext₀
              (h.writeWidget (hlinks j List.mem_cons_self) u)
          · next htarget =>
            rw [if_neg htarget] at hnext₀
            exact ih hrest hnext hnext₀ h

end

/-- Without a link whose value is counted: in the end the node that it
ends at is a twin, and all nodes are the same or twins. -/
theorem exists_twins {values : List (Id × Json)} {links : List Link}
    {e : Inlining} (h : e ∈ inlinings values nodes links)
    (hids : (links.map (·.id)).Nodup) :
    ∃ p n' n₀, List.Forall₂ (SameOrTwin e.link.target e.link.id e.input p)
        (sendAll values nodes links)
        (sendAll values nodes (links.filter (·.id ≠ e.link.id)))
      ∧ lastNode? (sendAll values nodes links) e.link.target = some n'
      ∧ lastNode? (sendAll values nodes (links.filter (·.id ≠ e.link.id)))
          e.link.target = some n₀
      ∧ Twin e.link.id e.input p n' n₀ := by
  obtain ⟨before, after, n, rfl, hv, hn, hdone, hname⟩ := of_mem_inlinings h
  rw [List.map_append, List.map_cons] at hids
  have hfresh := (List.nodup_cons.1 (List.nodup_middle.1 hids)).1
  rw [← List.map_append] at hfresh
  have hother : ∀ j ∈ before ++ after, j.id ≠ e.link.id :=
    fun j hj heq => hfresh (List.mem_map.2 ⟨j, hj, heq⟩)
  have hkept : ∀ l : List Link, (∀ j ∈ l, j.id ≠ e.link.id) →
      l.filter (·.id ≠ e.link.id) = l :=
    fun l hl => List.filter_eq_self.2 fun j hj => by simpa using hl j hj
  have hfilter : (before ++ e.link :: after).filter (·.id ≠ e.link.id)
      = before ++ after := by
    rw [List.filter_append, List.filter_cons_of_neg (by simp),
      hkept before fun j hj => hother j (List.mem_append_left _ hj),
      hkept after fun j hj => hother j (List.mem_append_right _ hj)]
  have hafter : ∀ j ∈ after, j.id ≠ e.link.id :=
    fun j hj => hother j (List.mem_append_right _ hj)
  obtain ⟨p, htwin⟩ := twin_writeWidget hname hdone
  have hstep : sendStep values (sendAll values nodes before) e.link
      = (writeLast e.link.target (fun n => writeWidget n e.link.id e.value)
          (sendAll values nodes before)).1 := by
    unfold sendStep
    rw [hv]
  have hwritten : lastNode? (sendStep values (sendAll values nodes before)
      e.link) e.link.target = some (writeWidget n e.link.id e.value).1 := by
    rw [hstep, lastNode?_writeLast fun m => writeWidget_id m e.link.id e.value,
      if_pos rfl, hn]
    rfl
  have hstart : List.Forall₂ (SameOrTwin e.link.target e.link.id e.input p)
      (sendStep values (sendAll values nodes before) e.link)
      (sendAll values nodes before) := by
    rw [hstep]
    refine writeLast_rel_self (fun _ => .inl rfl) fun m hm => ?_
    cases hn.symm.trans hm
    exact .inr ⟨lastNode?_id hn, htwin⟩
  have hrun : sendAll values nodes (before ++ e.link :: after)
      = sendAll values (sendStep values (sendAll values nodes before) e.link)
          after := List.foldl_append
  have hrun₀ : sendAll values nodes (before ++ after)
      = sendAll values (sendAll values nodes before) after :=
    List.foldl_append
  rw [hfilter, hrun, hrun₀]
  obtain ⟨n', n₀, hn', hn₀, htwins⟩ :=
    @sendAll_twin values _ _ _ _ after hafter _ _ _ _ hwritten hn htwin
  exact ⟨p, n', n₀, sendAll_rel hafter hstart, hn', hn₀, htwins⟩

end PromptGraph.Simplify

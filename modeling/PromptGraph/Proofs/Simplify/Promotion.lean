/-
What an instance tells about a widget after a value was written into it.

A value that comes over a link is written under the name of the slot, or
at the position of this name among the slots with widgets. An instance
reads a slot's value under the name of the widget first, if it has one of
its own and something stands there, and otherwise where it is written.
So after a write each slot is either read at the place of the writing
(`Meets`) or reads what it did before (`promotedWidget_writeWidget`).

In a list, and where no widget has a name of its own, the slots that meet
the writing are the written one alone. A name of its own can hide the
written value behind an older one, and it can be the name of the written
slot, which then answers for two (`promoted_widget_out_of_step`).
-/
import PromptGraph.Proofs.Simplify.Inlining

namespace PromptGraph.Simplify

open Editor
open Flatten (Place valueAt? nonNull? promotedWidget)

-- ==== reading

/-- The name of a slot's widget, where it is another than the slot's. -/
def alias? (i : NodeInput) : Option String :=
  i.widget.filter fun w => w ≠ "" && w ≠ i.name

/-- The name under which the value of a slot is looked for. -/
def promotedName (t : Assoc Json) (i : NodeInput) : String :=
  ((alias? i).filter (Assoc.contains t)).getD i.name

/-- Where an instance looks for the value of a slot with a widget. -/
def promotedPlace? (n : Node) (i : NodeInput) : Option Place :=
  match n.widgets with
  | .keyed t => some (.name (promotedName t i))
  | .positional _ => (n.widgetIndex? i.name).map .position

variable {i : NodeInput}

/-- Under the widget's name, or else the slot's. -/
theorem get?_promoted (t : Assoc Json) {w : String}
    (hwidget : i.widget = some w) :
    Assoc.get? t (promotedName t i)
      = (Assoc.get? t (if w = "" then i.name else w)).or
          (Assoc.get? t i.name) := by
  unfold promotedName alias?
  rw [hwidget, Option.filter_some]
  by_cases hempty : w = ""
  · rw [if_pos hempty, if_neg (by simp [hempty]), Option.filter_none,
      Option.or_self]
    rfl
  · rw [if_neg hempty]
    by_cases hname : w = i.name
    · rw [if_neg (by simp [hname]), hname, Option.filter_none, Option.or_self]
      rfl
    · rw [if_pos (by simp [hempty, hname]), Option.filter_some]
      unfold Assoc.contains
      cases hget : Assoc.get? t w with
      | none => rfl
      | some v => exact hget

variable {slot : Nat} {n : Node}

theorem promotedWidget_eq (hi : n.inputs[slot]? = some i)
    (hwidget : i.widget.isSome = true) :
    promotedWidget n slot
      = nonNull? ((promotedPlace? n i).bind (valueAt? n.widgets)) := by
  obtain ⟨w, hw⟩ := Option.isSome_iff_exists.1 hwidget
  unfold promotedWidget promotedPlace?
  rw [hi]
  dsimp only
  rw [hw]
  cases n.widgets with
  | keyed t =>
      show _ = nonNull? (Assoc.get? t _)
      rw [get?_promoted t hw]
      dsimp only
      cases Assoc.get? t (if w = "" then i.name else w) with
      | none => rfl
      | some v => rfl
  | positional vs =>
      dsimp only
      rw [Option.bind_map]
      congr 2

-- ==== writing

/-- The slot `x` is read where a value for the slot `i` is written: in a
list they are of one name; under names, the widget of `x` has the name of
`i`, or they are of one name and nothing stands under the widget's own. -/
def Meets (values : Widgets) (i x : NodeInput) : Prop :=
  match values with
  | .positional _ => x.name = i.name
  | .keyed t => alias? x = some i.name
      ∨ x.name = i.name ∧ ∀ a, alias? x = some a → Assoc.get? t a = none

/-- A new entry under the name of `i` is what `x` is looked for under, or
does not change what that is. -/
theorem promotedName_insert (t : Assoc Json) (i x : NodeInput) (v : Json) :
    (Meets (.keyed t) i x →
      promotedName (Assoc.insert t i.name v) x = i.name)
    ∧ (¬ Meets (.keyed t) i x → promotedName t x ≠ i.name
      ∧ promotedName (Assoc.insert t i.name v) x = promotedName t x) := by
  unfold Meets promotedName
  dsimp only
  cases halias : alias? x with
  | none => simp
  | some a =>
      rw [Option.filter_some, Option.filter_some]
      have hinsert := Assoc.contains_insert t i.name a v
      by_cases ha : a = i.name
      · rw [if_pos (hinsert.2 (.inl ha.symm))]
        simp [ha]
      · have hsame : Assoc.contains (Assoc.insert t i.name v) a
            = Assoc.contains t a := by
          rw [Bool.eq_iff_iff, hinsert]
          exact or_iff_right fun heq => ha heq.symm
        rw [hsame]
        unfold Assoc.contains
        cases hget : Assoc.get? t a with
        | none => simp [ha, hget]
        | some u => simp [ha, hget]

/-- A write keeps of a slot all but its link. -/
theorem unplug_getElem? (link : Id) (inputs : List NodeInput) {x : NodeInput}
    (hx : inputs[slot]? = some x) :
    ∃ l, (unplug link inputs).1[slot]? = some { x with link := l } := by
  induction inputs generalizing slot with
  | nil => cases hx
  | cons i inputs ih =>
      unfold unplug
      split
      · cases slot with
        | zero =>
            cases hx
            exact ⟨none, rfl⟩
        | succ slot => exact ⟨x.link, hx⟩
      · cases slot with
        | zero =>
            cases hx
            exact ⟨x.link, rfl⟩
        | succ slot => exact ih hx

/-- After a write the slots that meet it are read where it was made, and
all others where they were. -/
theorem promotedPlace?_write {i x : NodeInput} {p : Place} {l : Option Id}
    (hp : writtenPlace? n i.name = some p) (v : Json) {inputs : List NodeInput}
    (hkeys : inputs.map slotKey = n.inputs.map slotKey) :
    (Meets n.widgets i x →
      promotedPlace? { n with inputs, widgets := writeAt n.widgets v p }
        { x with link := l } = some p)
    ∧ (¬ Meets n.widgets i x →
      promotedPlace? n x ≠ some p
      ∧ promotedPlace? { n with inputs, widgets := writeAt n.widgets v p }
        { x with link := l } = promotedPlace? n x) := by
  have hindex : ∀ widgets, ({ n with inputs, widgets } : Node).widgetIndex? x.name
      = n.widgetIndex? x.name := fun _ => widgetIndex?_congr x.name hkeys
  unfold writtenPlace? at hp
  unfold promotedPlace? Meets
  cases hwidgets : n.widgets with
  | positional vs =>
      rw [hwidgets] at hp
      obtain ⟨k, hk, rfl⟩ := Option.map_eq_some_iff.1 hp
      obtain ⟨hk, hlt⟩ := Option.filter_eq_some_iff.1 hk
      rw [writeAt, setAt_eq (of_decide_eq_true hlt)]
      dsimp only
      rw [hindex]
      refine ⟨fun hname => ?_, fun hname => ⟨fun heq => hname ?_, rfl⟩⟩
      · rw [hname, hk]
        rfl
      · obtain ⟨m, hm, heq⟩ := Option.map_eq_some_iff.1 heq
        cases heq
        exact widgetIndex?_inj hm hk
  | keyed t =>
      rw [hwidgets] at hp
      cases hp
      show (_ → some (Place.name (promotedName (Assoc.insert t i.name v) x))
          = some (.name i.name))
        ∧ (_ → some (Place.name (promotedName t x)) ≠ some (.name i.name)
          ∧ some (Place.name (promotedName (Assoc.insert t i.name v) x))
            = some (.name (promotedName t x)))
      rw [Option.some_inj, Option.some_inj, ne_eq, Option.some_inj,
        Place.name.injEq, Place.name.injEq, Place.name.injEq]
      exact promotedName_insert t i x v

/-- A write that finds its place is read by the slots that meet it, and
changes nothing for all others. -/
theorem promotedWidget_writeWidget {link : Id} {v : Json} (hv : v ≠ .null)
    (hi : (unplug link n.inputs).2 = some i.name)
    (hdone : (writeWidget n link v).2 = true) {x : NodeInput}
    (hx : n.inputs[slot]? = some x) (hwidget : x.widget.isSome = true) :
    (Meets n.widgets i x →
      promotedWidget (writeWidget n link v).1 slot = some v)
    ∧ (¬ Meets n.widgets i x →
      promotedWidget (writeWidget n link v).1 slot
        = promotedWidget n slot) := by
  rw [writeWidget_eq, hi, Option.bind_some] at hdone ⊢
  cases hp : writtenPlace? n i.name with
  | none =>
      rw [hp] at hdone
      cases hdone
  | some p =>
      obtain ⟨l, hx'⟩ := unplug_getElem? link n.inputs hx
      have hplace := hasPlace_of_written hp
      have hread := promotedWidget_eq
        (n := { unplugged n link with widgets := writeAt n.widgets v p })
        hx' hwidget
      obtain ⟨hmeets, hothers⟩ := promotedPlace?_write (x := x) (l := l) hp v
        (unplug_slotKey link n.inputs)
      dsimp only
      rw [hread, promotedWidget_eq hx hwidget]
      refine ⟨fun h => ?_, fun h => ?_⟩
      · have hwritten : promotedPlace?
            { unplugged n link with widgets := writeAt n.widgets v p }
            { x with link := l } = some p := hmeets h
        rw [hwritten, Option.bind_some]
        show nonNull? (valueAt? (writeAt n.widgets v p) p) = some v
        rw [valueAt?_writeAt hplace, if_pos rfl]
        cases v with
        | null => exact absurd rfl hv
        | _ => rfl
      · obtain ⟨hne, hsame⟩ := hothers h
        have hkept : promotedPlace?
            { unplugged n link with widgets := writeAt n.widgets v p }
            { x with link := l } = promotedPlace? n x := hsame
        rw [hkept]
        cases hq : promotedPlace? n x with
        | none => rfl
        | some q =>
            rw [hq] at hne
            show nonNull? (valueAt? (writeAt n.widgets v p) q)
              = nonNull? (valueAt? n.widgets q)
            rw [valueAt?_writeAt hplace, if_neg fun heq => hne (by rw [heq])]

-- ==== names used once

theorem exists_of_widgetIndex? {name : String} {k : Nat} {l : List NodeInput}
    (h : widgetIndex? name l = some k) :
    ∃ x ∈ l, x.widget.isSome = true ∧ x.name = name := by
  induction l generalizing k with
  | nil => cases h
  | cons i l ih =>
      unfold widgetIndex? at h
      split at h
      · obtain ⟨x, hx, hwidget, hname⟩ := ih h
        exact ⟨x, List.mem_cons_of_mem i hx, hwidget, hname⟩
      · next hsome =>
        split at h
        · next hname =>
          refine ⟨i, List.mem_cons_self, ?_, hname⟩
          rwa [Bool.not_eq_true, Option.isNone_eq_false_iff] at hsome
        · obtain ⟨m, hm, -⟩ := Option.map_eq_some_iff.1 h
          obtain ⟨x, hx, hwidget, hname⟩ := ih hm
          exact ⟨x, List.mem_cons_of_mem i hx, hwidget, hname⟩

/-- Where each name is used once, a name tells the slot. -/
theorem slot_eq_of_name {l : List NodeInput} (h : (l.map (·.name)).Nodup)
    {slot slot' : Nat} {x x' : NodeInput} (hx : l[slot]? = some x)
    (hx' : l[slot']? = some x') (hname : x.name = x'.name) : slot = slot' := by
  obtain ⟨hlt, -⟩ := List.getElem?_eq_some_iff.1 hx
  refine (List.getElem?_inj (by rwa [List.length_map]) h).1 ?_
  rw [List.getElem?_map, List.getElem?_map, hx, hx']
  exact congrArg some hname

/-- Without names of their own for widgets, slots meet a write that have
the name of the slot it is for. -/
theorem meets_iff {values : Widgets} {i x : NodeInput}
    (h : values.isKeyed = false ∨ alias? x = none) :
    Meets values i x ↔ x.name = i.name := by
  unfold Meets
  cases values with
  | positional vs => rfl
  | keyed t =>
      have halias := h.resolve_left nofun
      simp [halias]

/-- What an instance tells after a value was written into it over a link.
The write is for the first slot that names the link. Of the slots with
widgets, those that meet it tell the new value and the others what they
told before; and if values are listed or no widget has a name of its own,
that is the written slot alone. -/
theorem promoted_widget_after_write {n : Node} {link : Id} {v : Json}
    (hnames : (n.inputs.map (·.name)).Nodup) (hv : v ≠ .null)
    (hdone : (writeWidget n link v).2 = true) :
    ∃ before i after, n.inputs = before ++ i :: after
      ∧ i.wire? = some link ∧ (∀ x ∈ before, x.wire? ≠ some link)
      ∧ (n.widgets.isKeyed = false → i.widget.isSome = true)
      ∧ ∀ slot x, n.inputs[slot]? = some x → x.widget.isSome = true →
          (Meets n.widgets i x →
            promotedWidget (writeWidget n link v).1 slot = some v)
          ∧ (¬ Meets n.widgets i x →
            promotedWidget (writeWidget n link v).1 slot
              = promotedWidget n slot)
          ∧ (n.widgets.isKeyed = false ∨ alias? x = none →
            promotedWidget (writeWidget n link v).1 slot
              = if slot = before.length then some v
                else promotedWidget n slot) := by
  cases hname : (unplug link n.inputs).2 with
  | none =>
      rw [writeWidget_eq, hname] at hdone
      cases hdone
  | some name =>
      obtain ⟨before, i, after, hinputs, hwire, rfl, hfirst, -⟩ :=
        unplug_some hname
      have hi : n.inputs[before.length]? = some i := by
        rw [hinputs, List.getElem?_append_right (Nat.le_refl _), Nat.sub_self]
        rfl
      refine ⟨before, i, after, hinputs, hwire, hfirst, fun hlist => ?_,
        fun slot x hx hwidget => ?_⟩
      · obtain ⟨vs, hvs⟩ : ∃ vs, n.widgets = .positional vs := by
          cases hwidgets : n.widgets with
          | positional vs => exact ⟨vs, rfl⟩
          | keyed t =>
              rw [hwidgets] at hlist
              cases hlist
        rw [writeWidget_eq, hname, Option.bind_some, writtenPlace?, hvs] at hdone
        dsimp only at hdone
        cases hindex : n.widgetIndex? i.name with
        | none =>
            rw [hindex] at hdone
            cases hdone
        | some k =>
            obtain ⟨x, hx, hwidget, hxi⟩ := exists_of_widgetIndex? hindex
            obtain ⟨slot, hslot⟩ := List.getElem?_of_mem hx
            have heq := slot_eq_of_name hnames hslot hi hxi
            rw [heq, hi] at hslot
            rwa [Option.some.inj hslot]
      · obtain ⟨hmeets, hothers⟩ :=
          promotedWidget_writeWidget hv hname hdone hx hwidget
        refine ⟨hmeets, hothers, fun hplain => ?_⟩
        by_cases hslot : slot = before.length
        · rw [if_pos hslot]
          refine hmeets ((meets_iff hplain).2 ?_)
          rw [hslot, hi] at hx
          rw [Option.some.inj hx]
        · rw [if_neg hslot]
          exact hothers fun h => hslot
            (slot_eq_of_name hnames hx hi ((meets_iff hplain).1 h))

/-- Two captions. The first comes over a link and has a widget named
`prompt`. -/
def captions (second : String) (values : Assoc Json) : Node :=
  { id := ⟨"2"⟩
    type := "caption"
    inputs := [{ name := "text", link := some ⟨"1"⟩, widget := some "prompt" },
      { name := "negative", widget := some second }]
    widgets := .keyed values }

/-- Nothing stands under `prompt`. -/
def plainCaptions : Node := captions "" [("negative", .string "blurry")]

/-- The text is read where it was written, and the other slot as before. -/
theorem promoted_widget_after_write_plainCaptions :
    (plainCaptions.inputs.map (·.name)).Nodup
      ∧ (writeWidget plainCaptions ⟨"1"⟩ (.string "a fox")).2 = true
      ∧ promotedWidget (writeWidget plainCaptions ⟨"1"⟩ (.string "a fox")).1 0
        = some (.string "a fox")
      ∧ promotedWidget (writeWidget plainCaptions ⟨"1"⟩ (.string "a fox")).1 1
        = some (.string "blurry") := by
  have hnames : (plainCaptions.inputs.map (·.name)).Nodup := by decide
  have hdone : (writeWidget plainCaptions ⟨"1"⟩ (.string "a fox")).2 = true := rfl
  obtain ⟨before, i, after, hinputs, hwire, -, -, hread⟩ :=
    promoted_widget_after_write hnames (fun h => by cases h) hdone
  have hi : i.name = "text" := by
    have hmem : i ∈ plainCaptions.inputs := by
      rw [hinputs]
      exact List.mem_append_right _ List.mem_cons_self
    have hwired : ∀ x ∈ plainCaptions.inputs,
        x.wire? = some ⟨"1"⟩ → x.name = "text" := by decide
    exact hwired i hmem hwire
  refine ⟨hnames, hdone, ?_, ?_⟩
  · obtain ⟨hmeets, -⟩ := hread 0 _ rfl rfl
    refine hmeets (.inr ⟨hi.symm, fun a ha => ?_⟩)
    cases ha
    rfl
  · obtain ⟨-, hothers, -⟩ := hread 1 _ rfl rfl
    have hno : ¬ Meets plainCaptions.widgets i
        { name := "negative", widget := some "" } := by
      rintro (h | h)
      · cases h
      · rw [hi] at h
        exact absurd h.1 (by decide)
    rw [hothers hno]
    rfl

/-- Each widget has the name of another thing: the first an older value's,
the second the other slot's. -/
def crossedCaptions : Node :=
  captions "text" [("negative", .string "blurry"), ("prompt", .string "old")]

/-- The text is written under the name of its slot. The slot still tells
what stands under `prompt`, and the other slot tells the text. -/
theorem promoted_widget_out_of_step :
    (crossedCaptions.inputs.map (·.name)).Nodup
      ∧ (writeWidget crossedCaptions ⟨"1"⟩ (.string "a fox")).2 = true
      ∧ promotedWidget (writeWidget crossedCaptions ⟨"1"⟩ (.string "a fox")).1 0
        = some (.string "old")
      ∧ promotedWidget crossedCaptions 1 = some (.string "blurry")
      ∧ promotedWidget (writeWidget crossedCaptions ⟨"1"⟩ (.string "a fox")).1 1
        = some (.string "a fox") := by
  refine ⟨by decide, rfl, ?_, ?_, ?_⟩
  · rfl
  · rfl
  · rfl

end PromptGraph.Simplify

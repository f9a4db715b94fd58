/-
What a node's inputs are filled with. Values come from two sides, wires
and widget values, and the widget values are used up in an order that
does not depend on the wires.

So two fillings of one node with different wires go side by side: after
every declared input they have used up the same widget values
(`Beside`). A relation between their inputs that each single step keeps
holds in the end (`Beside.steps`). It is used twice:

- with the same wires on both sides, for what each input that is put
  must satisfy (`fillInputs_keeps`): inputs are wires or widget values,
  and stand in ascending order;
- with no wires on the other side, for an input that takes no widget
  value: it is exactly its wire (`get?_fillInputs`).
-/
import PromptGraph.Proofs.Flatten.Level

namespace PromptGraph.Flatten

open Editor
open Execution (Input Ref Entry Graph)

-- ==== widget values

/-- The value is one of the widget values. -/
def WidgetValue (values : Widgets) (v : Json) : Prop :=
  match values with
  | .positional vs => v ∈ vs
  | .keyed t => ∃ name, Assoc.get? t name = some v

variable {v : Json}

theorem nonNull?_eq_some {o : Option Json} (h : nonNull? o = some v) :
    o = some v := by
  unfold nonNull? at h
  split at h
  · cases h
  · exact h

theorem nonNull?_of_ne (h : v ≠ .null) :
    nonNull? (some v) = some v := by
  unfold nonNull?
  split
  · next hnull => exact absurd (Option.some.inj hnull) h
  · rfl

/-- Taking a value leaves the values. -/
theorem Cursor.take_values (c : Cursor) (name : String) :
    (c.take name).2.values = c.values := by
  unfold Cursor.take
  split
  · rfl
  · split
    · rfl
    · rfl

variable {name : String}

/-- A cursor yields widget values only. -/
theorem Cursor.widgetValue_take {c : Cursor} (h : (c.take name).1 = some v) :
    WidgetValue c.values v := by
  unfold Cursor.take at h
  unfold WidgetValue
  split at h
  · next t hvalues =>
    rw [hvalues]
    exact ⟨name, nonNull?_eq_some h⟩
  · next vs hvalues =>
    rw [hvalues]
    split at h
    · next w hw =>
      cases nonNull?_eq_some h
      exact List.mem_of_getElem? hw
    · cases h

theorem Cursor.takeSub_values (c : Cursor) (full own : String) :
    (c.takeSub full own).2.values = c.values := by
  unfold Cursor.takeSub
  split
  · split
    · next v c' hfull =>
      have hc := c.take_values full
      rwa [hfull] at hc
    · exact c.take_values own
  · exact c.take_values own

/-- What is taken for a sub-input is a widget value. -/
theorem Cursor.widgetValue_takeSub {c : Cursor} {full own : String}
    (h : (c.takeSub full own).1 = some v) :
    WidgetValue c.values v := by
  unfold Cursor.takeSub at h
  split at h
  · split at h
    · next w c' hfull =>
      cases h
      exact Cursor.widgetValue_take (by rw [hfull])
    · exact Cursor.widgetValue_take h
  · exact Cursor.widgetValue_take h

theorem Cursor.skip_values (c : Cursor) : c.skip.values = c.values := by
  unfold Cursor.skip
  split
  · rfl
  · split
    · rfl
    · rfl

variable {n : Node}

/-- What an instance holds for a port is one of its widget values. -/
theorem widgetValue_promoted {slot : Nat} (h : promotedWidget n slot = some v) :
    WidgetValue n.widgets v := by
  unfold promotedWidget at h
  unfold WidgetValue
  split at h
  · cases h
  · split at h
    · cases h
    · split at h
      · next t hwidgets =>
        rw [hwidgets]
        have hsome := nonNull?_eq_some h
        split at hsome
        · next hget =>
          cases hsome
          exact ⟨_, hget⟩
        · exact ⟨_, hsome⟩
      · next vs hwidgets =>
        rw [hwidgets]
        obtain ⟨m, -, hm⟩ :=
          Option.bind_eq_some_iff.1 (nonNull?_eq_some h)
        exact List.mem_of_getElem? hm

-- ==== two fillings side by side

/-- Two fillings have used up the same of these widget values, and their
inputs are related. What they have complained about does not matter. -/
structure Beside (values : Widgets) (R : Assoc Input → Assoc Input → Prop)
    (f g : Filling) : Prop where
  values : f.cursor.values = values
  cursor : f.cursor = g.cursor
  inputs : R f.inputs g.inputs

/-- A widget value may be put under any name on both sides. -/
def TakesWidgets (values : Widgets) (R : Assoc Input → Assoc Input → Prop) :
    Prop :=
  ∀ (t u : Assoc Input) (name : String) (v : Json), WidgetValue values v →
    R t u → R (Assoc.insert t name (.literal v))
      (Assoc.insert u name (.literal v))

variable {values : Widgets} {R : Assoc Input → Assoc Input → Prop}
  {f g : Filling}

/-- An extra input is taken on both sides. -/
theorem Beside.takeExtra (hlit : TakesWidgets values R)
    (h : Beside values R f g) (name : String) :
    Beside values R (f.takeExtra name) (g.takeExtra name) := by
  obtain ⟨hv, hc, hi⟩ := h
  have htake := f.cursor.take_values name
  have hval := fun v => @Cursor.widgetValue_take v name f.cursor
  unfold Filling.takeExtra
  rw [← hc]
  cases hres : f.cursor.take name with
  | mk v c =>
      rw [hres] at htake hval
      cases v with
      | none => exact ⟨htake.trans hv, rfl, hi⟩
      | some v =>
          refine ⟨htake.trans hv, rfl, hlit _ _ name v ?_ hi⟩
          exact hv ▸ hval v rfl

/-- So is a sub-input. -/
theorem Beside.takeSub (hlit : TakesWidgets values R)
    (h : Beside values R f g) (owner own : String) :
    Beside values R (f.takeSub owner own) (g.takeSub owner own) := by
  obtain ⟨hv, hc, hi⟩ := h
  have htake := f.cursor.takeSub_values (owner ++ "." ++ own) own
  have hval := fun v =>
    @Cursor.widgetValue_takeSub v f.cursor (owner ++ "." ++ own) own
  unfold Filling.takeSub
  rw [← hc]
  dsimp only
  cases hres : f.cursor.takeSub (owner ++ "." ++ own) own with
  | mk v c =>
      rw [hres] at htake hval
      cases v with
      | none => exact ⟨htake.trans hv, rfl, hi⟩
      | some v =>
          refine ⟨htake.trans hv, rfl, hlit _ _ _ v ?_ hi⟩
          exact hv ▸ hval v rfl

/-- A companion is passed on both sides. -/
theorem Beside.passControl (h : Beside values R f g)
    (node node' : String) (i : InputType) :
    Beside values R (f.passControl node i) (g.passControl node' i) := by
  obtain ⟨hv, hc, hi⟩ := h
  have hskip : f.cursor.skip.values = values :=
    f.cursor.skip_values.trans hv
  unfold Filling.passControl
  rw [← hc]
  split
  · exact ⟨hv, hc, hi⟩
  · split
    · exact ⟨hskip, rfl, hi⟩
    · split
      · exact ⟨hskip, rfl, hi⟩
      · exact ⟨hv, hc, hi⟩

/-- Steps that keep two fillings side by side do so one after another. -/
theorem Beside.foldl {α : Type} {stepF stepG : Filling → α → Filling}
    {l : List α}
    (step : ∀ a ∈ l, ∀ f g, Beside values R f g →
      Beside values R (stepF f a) (stepG g a))
    (h : Beside values R f g) :
    Beside values R (l.foldl stepF f) (l.foldl stepG g) := by
  induction l generalizing f g with
  | nil => exact h
  | cons a l ih =>
      rw [List.foldl_cons, List.foldl_cons]
      refine ih (fun b hb => step b (List.mem_cons_of_mem _ hb)) ?_
      exact step a List.mem_cons_self f g h

/-- What a value selects is taken on both sides. -/
theorem Beside.takeSelected (hlit : TakesWidgets values R)
    (h : Beside values R f g) (i : InputType) (v : Json) :
    Beside values R (f.takeSelected i v) (g.takeSelected i v) := by
  have hextra := h.foldl (l := (Assoc.get? i.formats v.key).getD [])
    fun name _ f g hfg => hfg.takeExtra hlit name
  unfold Filling.takeSelected
  dsimp only
  split
  · exact hextra.foldl fun s _ f g hfg => hfg.takeSub hlit i.name s.name
  · exact hextra

-- ==== declared inputs

/-- What a declared input itself puts: its wire, or else the widget
value taken for it, if it has a name of an input. -/
def ownInput (wires : List (String × Input)) (i : InputType)
    (v : Option Json) (t : Assoc Input) : Assoc Input :=
  if i.kind.wireOnly = false ∧ pseudoInputs.contains i.name then t
  else
    match wires.find? (·.1 = i.name), v with
    | some (_, w), _ => Assoc.insert t i.name w
    | none, some v => Assoc.insert t i.name (.literal v)
    | none, none => t

/-- The declared input may put what it puts, with its own wires on each
side. An input that is only wired takes no widget value. -/
def TakesInput (values : Widgets) (R : Assoc Input → Assoc Input → Prop)
    (wires wires' : List (String × Input)) (i : InputType) : Prop :=
  ∀ (t u : Assoc Input) (v : Option Json),
    (∀ j, v = some j → i.kind.wireOnly = false ∧ WidgetValue values j) →
    R t u → R (ownInput wires i v t) (ownInput wires' i v u)

variable {i : InputType}

/-- An input that takes a wire only puts its wire. -/
theorem step_wireOnly (hi : i.kind.wireOnly = true) (node : String)
    (wires : List (String × Input)) (f : Filling) :
    f.step node wires i
      = { f with inputs := ownInput wires i none f.inputs } := by
  unfold Filling.step ownInput
  rw [if_pos hi, if_neg (by simp [hi])]
  cases wires.find? (·.1 = i.name) with
  | none => rfl
  | some w => rfl

/-- Any other puts its wire or its value. -/
theorem putValue_eq (hi : i.kind.wireOnly = false)
    (wires : List (String × Input)) (v : Option Json) (f : Filling) :
    f.putValue wires i v
      = { f with inputs := ownInput wires i v f.inputs } := by
  unfold Filling.putValue ownInput
  by_cases hpseudo : pseudoInputs.contains i.name
  · rw [if_pos hpseudo, if_pos ⟨hi, hpseudo⟩]
  · rw [if_neg hpseudo, if_neg fun h => hpseudo h.2]
    cases wires.find? (·.1 = i.name) with
    | none =>
        cases v with
        | none => rfl
        | some v => rfl
    | some w => rfl

/-- One declared input keeps two fillings side by side. -/
theorem Beside.step (hlit : TakesWidgets values R)
    {wires wires' : List (String × Input)}
    (hown : TakesInput values R wires wires' i) (node node' : String)
    (h : Beside values R f g) :
    Beside values R (f.step node wires i) (g.step node' wires' i) := by
  by_cases hi : i.kind.wireOnly = true
  · rw [step_wireOnly hi, step_wireOnly hi]
    refine ⟨h.values, h.cursor, hown _ _ none (fun j hj => ?_) h.inputs⟩
    cases hj
  · obtain ⟨hv, hc, hinputs⟩ := h
    have htake := f.cursor.take_values i.name
    have hval := fun v => @Cursor.widgetValue_take v i.name f.cursor
    have hi' : i.kind.wireOnly = false := by simpa using hi
    unfold Filling.step
    rw [if_neg hi, if_neg hi, ← hc]
    cases hres : f.cursor.take i.name with
    | mk v c =>
        rw [hres] at htake hval
        dsimp only
        have hnext : Beside values R { f with cursor := c }
            { g with cursor := c } := ⟨htake.trans hv, rfl, hinputs⟩
        have hpass := hnext.passControl node node' i
        rw [putValue_eq hi', putValue_eq hi']
        have hput : Beside values R
            { Filling.passControl { f with cursor := c } node i with
              inputs := ownInput wires i v
                (Filling.passControl { f with cursor := c } node i).inputs }
            { Filling.passControl { g with cursor := c } node' i with
              inputs := ownInput wires' i v
                (Filling.passControl { g with cursor := c }
                  node' i).inputs } := by
          refine ⟨hpass.values, hpass.cursor,
            hown _ _ v (fun j hj => ⟨hi', ?_⟩) hpass.inputs⟩
          exact hv ▸ hval j hj
        cases v with
        | none => exact hput
        | some v => exact hput.takeSelected hlit i v

/-- The inputs after all declared ones, before undeclared wires. -/
def declaredFilling (node : String) (declared : List InputType)
    (values : Widgets) (wires : List (String × Input)) : Filling :=
  declared.foldl (Filling.step node wires) { cursor := { values } }

variable {declared : List InputType}

/-- All declared inputs keep two fillings side by side. -/
theorem Beside.steps (hlit : TakesWidgets values R)
    {wires wires' : List (String × Input)}
    (hown : ∀ i ∈ declared, TakesInput values R wires wires' i)
    (node node' : String) (start : R [] []) :
    Beside values R (declaredFilling node declared values wires)
      (declaredFilling node' declared values wires') := by
  refine Beside.foldl (fun i hi f g hfg => ?_) ⟨rfl, rfl, start⟩
  exact hfg.step hlit (hown i hi) node node'

-- ==== undeclared wires

/-- Declared inputs first, then the wires that are left. -/
theorem fillInputs_eq (node : String) (declared : List InputType)
    (values : Widgets) (wires : List (String × Input)) :
    (fillInputs node declared values wires).1
      = (wires.foldl Filling.keepWire
          (declaredFilling node declared values wires)).inputs := rfl

/-- A name that is not yet filled gets the first wire to it. -/
theorem get?_keepWires (wires : List (String × Input)) (f : Filling)
    (name : String) :
    Assoc.get? (wires.foldl Filling.keepWire f).inputs name
      = (Assoc.get? f.inputs name).or
          ((wires.find? (·.1 = name)).map Prod.snd) := by
  induction wires generalizing f with
  | nil => exact (Option.or_none).symm
  | cons w wires ih =>
      rw [List.foldl_cons, ih, List.find?_cons]
      by_cases hname : w.1 = name
      · rw [decide_eq_true hname]
        unfold Filling.keepWire Assoc.contains
        subst hname
        cases hget : Assoc.get? f.inputs w.1 with
        | none =>
            show (Assoc.get? (Assoc.insert f.inputs w.1 w.2) w.1).or _ = _
            rw [Assoc.get?_insert_self]
            rfl
        | some v =>
            show (Assoc.get? f.inputs w.1).or _ = _
            rw [hget]
            rfl
      · rw [decide_eq_false hname]
        congr 1
        unfold Filling.keepWire
        split
        · rfl
        · exact Assoc.get?_insert_of_ne _ _ hname

-- ==== what inputs consist of

variable {wires : List (String × Input)}

/-- What putting a wire keeps, and putting a widget value keeps, holds
of a node's inputs. -/
theorem fillInputs_keeps {P : Assoc Input → Prop} {values : Widgets}
    (start : P []) (wire : ∀ w ∈ wires, ∀ t, P t → P (Assoc.insert t w.1 w.2))
    (widget : ∀ v, WidgetValue values v → ∀ t name, P t →
      P (Assoc.insert t name (.literal v))) (node : String)
    (declared : List InputType) :
    P (fillInputs node declared values wires).1 := by
  have hlit : TakesWidgets values fun t _ => P t :=
    fun t _ name v hv ht => widget v hv t name ht
  have hown : ∀ i ∈ declared,
      TakesInput values (fun t _ => P t) wires wires i := by
    intro i _ t u v hv ht
    unfold ownInput
    split
    · exact ht
    · split
      · next k w hfind =>
        have hk : k = i.name := by simpa using List.find?_some hfind
        subst hk
        exact wire _ (List.mem_of_find?_eq_some hfind) t ht
      · next j _ => exact widget j (hv j rfl).2 t _ ht
      · exact ht
  rw [fillInputs_eq]
  refine List.foldlRecOn (motive := fun f : Filling => P f.inputs) _ _
    (Beside.steps hlit hown node node start).inputs ?_
  intro f hf w hw
  unfold Filling.keepWire
  split
  · exact hf
  · exact wire w hw _ hf

/-- The inputs of a node are in order. -/
theorem ascending_fillInputs (node : String) (declared : List InputType)
    (values : Widgets) (wires : List (String × Input)) :
    (fillInputs node declared values wires).1.Ascending := by
  refine fillInputs_keeps Assoc.ascending_nil (fun w _ t ht => ?_)
    (fun v _ t name ht => ?_) node declared
  · exact ht.insert _ _
  · exact ht.insert _ _

/-- So are those of its entry. -/
theorem ascending_entryOf {ctx : Context} (s : Scope) (n : Node) :
    (entryOf ctx s n).inputTable.Ascending :=
  ascending_fillInputs _ _ _ _

/-- Every input is a wire or a widget value. -/
theorem mem_fillInputs {node : String} {values : Widgets} {e : String × Input}
    (h : e ∈ (fillInputs node declared values wires).1) :
    (∃ w ∈ wires, e.2 = w.2) ∨ ∃ v, e.2 = .literal v
      ∧ WidgetValue values v := by
  refine fillInputs_keeps (P := fun t => ∀ e ∈ t,
    (∃ w ∈ wires, e.2 = w.2) ∨ ∃ v, e.2 = .literal v
      ∧ WidgetValue values v) ?_ ?_ ?_ node declared e h
  · intro e he
    cases he
  · intro w hw t ht e he
    rcases Assoc.mem_insert he with rfl | he
    · exact Or.inl ⟨w, hw, rfl⟩
    · exact ht e he
  · intro v hv t name ht e he
    rcases Assoc.mem_insert he with rfl | he
    · exact Or.inr ⟨v, rfl, hv⟩
    · exact ht e he

-- ==== inputs that are only wired

/-- An input puts nothing under another name. -/
theorem get?_ownInput_of_ne (h : i.name ≠ name) (wires : List (String × Input))
    (v : Option Json) (t : Assoc Input) :
    Assoc.get? (ownInput wires i v t) name = Assoc.get? t name := by
  unfold ownInput
  split
  · rfl
  · split
    · exact Assoc.get?_insert_of_ne _ _ h
    · exact Assoc.get?_insert_of_ne _ _ h
    · rfl

/-- Where the other side has nothing under the name, this side has
nothing or the wire. -/
def WireOrNothing (wires : List (String × Input)) (name : String)
    (t u : Assoc Input) : Prop :=
  Assoc.get? u name = none → Assoc.get? t name = none
    ∨ Assoc.get? t name = (wires.find? (·.1 = name)).map Prod.snd

/-- A widget value is put on both sides. -/
theorem WireOrNothing.takesWidgets (values : Widgets)
    (wires : List (String × Input)) (name : String) :
    TakesWidgets values (WireOrNothing wires name) := by
  intro t u other v _ h hnone
  by_cases hname : other = name
  · rw [hname, Assoc.get?_insert_self] at hnone
    cases hnone
  · rw [Assoc.get?_insert_of_ne _ _ hname] at hnone ⊢
    exact h hnone

theorem WireOrNothing.takesInput (values : Widgets)
    (wires : List (String × Input))
    (hi : i.name = name → i.kind.wireOnly = true) :
    TakesInput values (WireOrNothing wires name) wires [] i := by
  intro t u v hv h hnone
  by_cases hname : i.name = name
  · have hwire := hi hname
    subst hname
    cases v with
    | some j =>
        have hfalse := (hv j rfl).1
        rw [hwire] at hfalse
        cases hfalse
    | none =>
        unfold ownInput at hnone ⊢
        rw [if_neg (by simp [hwire])] at hnone ⊢
        cases hfind : wires.find? (·.1 = i.name) with
        | none =>
            have hor := h hnone
            rwa [hfind] at hor
        | some w => exact Or.inr (Assoc.get?_insert_self _ _ _)
  · rw [get?_ownInput_of_ne hname] at hnone ⊢
    exact h hnone

/-- A name that is declared as wire-only, if at all, and that no widget
value is put under, holds exactly its wire. -/
theorem get?_fillInputs {node node' : String} {values : Widgets}
    (hdeclared : ∀ i ∈ declared, i.name = name → i.kind.wireOnly = true)
    (hwidget : Assoc.get? (fillInputs node' declared values []).1 name = none)
    (wires : List (String × Input)) :
    Assoc.get? (fillInputs node declared values wires).1 name
      = (wires.find? (·.1 = name)).map Prod.snd := by
  have hbeside : Beside values (WireOrNothing wires name)
      (declaredFilling node declared values wires)
      (declaredFilling node' declared values []) := by
    refine Beside.steps (WireOrNothing.takesWidgets values wires name)
      (fun i hi => ?_) node node' fun _ => Or.inl rfl
    exact WireOrNothing.takesInput values wires (hdeclared i hi)
  rw [fillInputs_eq, get?_keepWires]
  rcases hbeside.inputs hwidget with h | h
  · rw [h, Option.none_or]
  · rw [h, Option.or_self]

-- ==== wires by name

/-- A wire is put under its name. -/
theorem find?_putWire (name other : String) (v : Input)
    (wires : List (String × Input)) :
    ((putWire name v wires).find? (·.1 = other)).map Prod.snd
      = if name = other then some v
        else (wires.find? (·.1 = other)).map Prod.snd := by
  induction wires with
  | nil =>
      unfold putWire
      rw [List.find?_cons]
      by_cases h : name = other
      · rw [if_pos h, decide_eq_true h]
        rfl
      · rw [if_neg h, decide_eq_false h]
  | cons w rest ih =>
      obtain ⟨k, x⟩ := w
      unfold putWire
      by_cases hk : k = name
      · rw [if_pos hk, hk, List.find?_cons, List.find?_cons]
        by_cases h : name = other
        · rw [if_pos h, decide_eq_true h]
          rfl
        · rw [if_neg h, decide_eq_false h]
      · rw [if_neg hk, List.find?_cons, List.find?_cons]
        by_cases h : k = other
        · rw [decide_eq_true h, if_neg fun hname => hk (h.trans hname.symm)]
        · rw [decide_eq_false h]
          exact ih

/-- The wires are this one and those before. -/
theorem mem_putWire {v : Input} {w : String × Input}
    (h : w ∈ putWire name v wires) : w.2 = v ∨ w ∈ wires := by
  induction wires with
  | nil => exact Or.inl (by rw [List.mem_singleton.1 h])
  | cons x rest ih =>
      obtain ⟨k, u⟩ := x
      unfold putWire at h
      split at h
      · rcases List.mem_cons.1 h with rfl | h
        · exact Or.inl rfl
        · exact Or.inr (List.mem_cons_of_mem _ h)
      · rcases List.mem_cons.1 h with rfl | h
        · exact Or.inr List.mem_cons_self
        · exact (ih h).imp_right (List.mem_cons_of_mem _)

/-- What comes in at an input slot. -/
def slotValue (s : Scope) (n : Node) (i : NodeInput) : Option Input :=
  (i.wire?.bind s.level.link?).bind fun k =>
    (s.resolve k (s.path ++ n.id.text)).1

/-- One slot's wire is put beside the others. -/
def addWire (s : Scope) (n : Node) (wires : List (String × Input))
    (i : NodeInput) : List (String × Input) :=
  match slotValue s n i with
  | some v => putWire i.name v wires
  | none => wires

/-- The wires of a node are added slot by slot. -/
theorem wiresOf_eq (s : Scope) (n : Node) :
    wiresOf s n = n.inputs.foldl (addWire s n) [] := by
  unfold wiresOf
  congr 1
  funext wires i
  unfold addWire slotValue
  cases i.wire?.bind s.level.link? with
  | none => rfl
  | some k => rfl

/-- A slot adds its own wire. -/
theorem find?_addWire (s : Scope) (n : Node) (wires : List (String × Input))
    (i : NodeInput) (name : String) :
    ((addWire s n wires i).find? (·.1 = name)).map Prod.snd
      = if i.name = name then
          (slotValue s n i).or ((wires.find? (·.1 = name)).map Prod.snd)
        else (wires.find? (·.1 = name)).map Prod.snd := by
  unfold addWire
  cases slotValue s n i with
  | none =>
      rw [Option.none_or]
      exact (ite_self _).symm
  | some v => exact find?_putWire _ _ _ _

/-- Slots add nothing under a name that only an earlier slot has, and
that one's value at most once more. -/
theorem find?_foldl_addWire (s : Scope) (n : Node) {i : NodeInput}
    {l : List NodeInput} (hname : ∀ j ∈ l, j.name = i.name → j = i)
    (wires : List (String × Input)) :
    ((l.foldl (addWire s n) wires).find? (·.1 = i.name)).map Prod.snd
      = if i ∈ l then
          (slotValue s n i).or
            ((wires.find? (·.1 = i.name)).map Prod.snd)
        else (wires.find? (·.1 = i.name)).map Prod.snd := by
  induction l generalizing wires with
  | nil => rfl
  | cons j l ih =>
      rw [List.foldl_cons, ih fun k hk => hname k (List.mem_cons_of_mem _ hk),
        find?_addWire]
      by_cases hji : j.name = i.name
      · obtain rfl := hname j List.mem_cons_self hji
        rw [if_pos rfl, if_pos List.mem_cons_self, ← Option.or_assoc,
          Option.or_self]
        exact ite_self _
      · have hne : j ≠ i := fun h => hji (by rw [h])
        rw [if_neg hji]
        refine if_congr ?_ rfl rfl
        rw [List.mem_cons]
        exact ⟨Or.inr, fun h => h.resolve_left hne.symm⟩

/-- Under the name of a slot that shares it with no other, the wires of
a node hold what comes in at the slot. -/
theorem find?_wiresOf (s : Scope) {i : NodeInput} (hi : i ∈ n.inputs)
    (hname : ∀ j ∈ n.inputs, j.name = i.name → j = i) :
    ((wiresOf s n).find? (·.1 = i.name)).map Prod.snd
      = slotValue s n i := by
  rw [wiresOf_eq, find?_foldl_addWire s n hname, if_pos hi]
  exact Option.or_none

/-- A wire of a node is what comes in at one of its slots. -/
theorem mem_wiresOf {s : Scope} {w : String × Input} (h : w ∈ wiresOf s n) :
    ∃ i ∈ n.inputs, slotValue s n i = some w.2 := by
  rw [wiresOf_eq] at h
  revert w
  refine List.foldlRecOn (motive := fun wires : List (String × Input) =>
    ∀ {w}, w ∈ wires → ∃ i ∈ n.inputs, slotValue s n i = some w.2) _ _ ?_ ?_
  · intro w hw
    cases hw
  · intro wires hwires i hi w hw
    unfold addWire at hw
    split at hw
    · next v hv =>
      rcases mem_putWire hw with hv' | hw
      · exact ⟨i, hi, by rw [hv, hv']⟩
      · exact hwires hw
    · exact hwires hw

end PromptGraph.Flatten

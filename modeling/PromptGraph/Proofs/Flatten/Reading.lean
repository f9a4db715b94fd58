/-
What each widget value of a node is read for, and where it is read.

Filling a node's inputs walks along the declared inputs, and on the way
it reads widget values: one for every declared input that may hold a
literal, and then one for each further input that this value selects, be
it an extra of its format or a sub-input of the chosen option. Which
values are read, for whom and at which place does not depend on wires.
`readings` lists this walk; a reading is a reader together with the
place that it reads.

The inputs of a node are what the readings put, one after the other
(`inputs_declaredFilling`). So what stands under a name in the end is
what the last reading has put there that puts anything under it, or else
the wire (`get?_fillInputs_eq`).
-/
import PromptGraph.Proofs.Flatten.Inputs

namespace PromptGraph.Flatten

open Editor
open Execution (Input)

-- ==== places

/-- Where a widget value stands. -/
inductive Place where
  | position (k : Nat)
  | name (s : String)
  deriving DecidableEq

def valueAt? (values : Widgets) : Place → Option Json
  | .position k => values.at? k
  | .name s => values.get? s

/-- The next place, or the one of this name. -/
def Cursor.placeOf (c : Cursor) (name : String) : Place :=
  if c.values.isKeyed then .name name else .position c.pos

/-- Taking a value is looking at a place and passing over it. -/
theorem Cursor.take_eq (c : Cursor) (name : String) :
    c.take name
      = (nonNull? (valueAt? c.values (c.placeOf name)), c.skip) := by
  obtain ⟨values, pos⟩ := c
  cases values with
  | keyed t => rfl
  | positional vs =>
      have hat : valueAt? (.positional vs) (.position pos) = vs[pos]? := by
        simp [valueAt?, Widgets.at?]
      unfold Cursor.take Cursor.skip Cursor.placeOf
      simp only [Widgets.isKeyed, Bool.false_eq_true, if_false, hat]
      by_cases hpos : pos < vs.length
      · rw [if_pos hpos, List.getElem?_eq_getElem hpos]
      · rw [if_neg hpos, List.getElem?_eq_none (Nat.le_of_not_lt hpos)]
        rfl

-- ==== readers

/-- Whom a widget value is read for: a declared input, an extra input
that the value of one brings with it, or a sub-input of the option that
the value of one selects. -/
inductive Reader where
  | declared (i : InputType)
  | extra (i : InputType) (name : String)
  | sub (i s : InputType)

namespace Reader

/-- The input that the value is put under. -/
def input : Reader → String
  | declared i => i.name
  | extra _ name => name
  | sub i s => i.name ++ "." ++ s.name

/-- The kind that is declared for it; extra inputs have names only. -/
def kind? : Reader → Option Kind
  | declared i => some i.kind
  | extra _ _ => none
  | sub _ s => some s.kind

/-- It reads because another input's value has selected it. -/
def follows : Reader → Bool
  | declared _ => false
  | _ => true

/-- The place where it reads. A sub-input that is not found under its
full name is looked up under its own. -/
def place (r : Reader) (c : Cursor) : Place :=
  match r with
  | sub _ s =>
    if (nonNull? (c.values.get? r.input)).isSome then .name r.input
    else c.placeOf s.name
  | _ => c.placeOf r.input

end Reader

/-- Taking for a sub-input is looking at its place. -/
theorem Cursor.takeSub_eq (c : Cursor) (i s : InputType) :
    c.takeSub (i.name ++ "." ++ s.name) s.name
      = (nonNull? (valueAt? c.values ((Reader.sub i s).place c)), c.skip) := by
  obtain ⟨values, pos⟩ := c
  cases values with
  | positional vs =>
      unfold Cursor.takeSub
      simp only [Cursor.take_eq]
      rfl
  | keyed t =>
      unfold Cursor.takeSub Reader.place
      simp only [Cursor.take_eq, Cursor.placeOf, Widgets.isKeyed, if_true,
        valueAt?, Reader.input]
      cases hfull : nonNull? ((Widgets.keyed t).get? (i.name ++ "." ++ s.name))
        with
      | none => simp
      | some v => simp [hfull]

/-- The readers that an input's value selects. -/
def followers (i : InputType) (v : Json) : List Reader :=
  ((Assoc.get? i.formats v.key).getD []).map (.extra i)
    ++ if i.kind = .dynamicCombo then
        ((i.subInputs? v.key).getD []).map (.sub i)
      else []

-- ==== readings

/-- A reader and the place that it reads, if it reads any. -/
structure Reading where
  reader : Reader
  place : Option Place

/-- The value that is read; null counts as none. -/
def Reading.value? (values : Widgets) (r : Reading) : Option Json :=
  nonNull? (r.place.bind (valueAt? values))

namespace Cursor

/-- Reads a value for each. -/
def readFor (c : Cursor) : List Reader → List Reading
  | [] => []
  | r :: rest => ⟨r, some (r.place c)⟩ :: c.skip.readFor rest

/-- After that. -/
def skipFor (c : Cursor) (rs : List Reader) : Cursor :=
  rs.foldl (fun c _ => c.skip) c

/-- Passes over the companion of an input's value. -/
def passCompanion (c : Cursor) (i : InputType) : Cursor :=
  if c.values.isKeyed then c
  else if i.control then c.skip
  else if i.kind = .int && c.atControlWord then c.skip
  else c

/-- The readers that the value of a declared input selects here. -/
def selected (c : Cursor) (i : InputType) : List Reader :=
  match nonNull? (valueAt? c.values (c.placeOf i.name)) with
  | some v => followers i v
  | none => []

/-- What is read for a declared input and for those it selects. -/
def readings (c : Cursor) (i : InputType) : List Reading :=
  if i.kind.wireOnly then [⟨.declared i, none⟩]
  else ⟨.declared i, some (c.placeOf i.name)⟩
    :: (c.skip.passCompanion i).readFor (c.selected i)

/-- After that. -/
def after (c : Cursor) (i : InputType) : Cursor :=
  if i.kind.wireOnly then c
  else (c.skip.passCompanion i).skipFor (c.selected i)

/-- What is read for declared inputs, one after the other. -/
def walk (c : Cursor) : List InputType → List Reading
  | [] => []
  | i :: rest => c.readings i ++ (c.after i).walk rest

end Cursor

/-- All that is read for a node of a type that declares these inputs. -/
def readings (declared : List InputType) (values : Widgets) :
    List Reading :=
  Cursor.walk { values } declared

theorem Cursor.passCompanion_values (c : Cursor) (i : InputType) :
    (c.passCompanion i).values = c.values := by
  unfold Cursor.passCompanion
  split
  · rfl
  · split
    · exact c.skip_values
    · split
      · exact c.skip_values
      · rfl

theorem Cursor.skipFor_values (c : Cursor) (rs : List Reader) :
    (c.skipFor rs).values = c.values := by
  unfold Cursor.skipFor
  induction rs generalizing c with
  | nil => rfl
  | cons r rs ih => exact (ih c.skip).trans c.skip_values

theorem Cursor.after_values (c : Cursor) (i : InputType) :
    (c.after i).values = c.values := by
  unfold Cursor.after
  split
  · rfl
  · rw [skipFor_values, passCompanion_values, skip_values]

-- ==== what is put where

section
variable (wires : List (String × Input))

/-- The wire of a name. -/
def wire? (name : String) : Option Input :=
  (wires.find? (·.1 = name)).map Prod.snd

/-- What a reader puts under its name if it reads this: a declared input
its wire or else the value, unless its name is no input; a follower the
value. -/
def Reader.give? : Reader → Option Json → Option Input
  | .declared i, v =>
    if i.kind.wireOnly = false ∧ pseudoInputs.contains i.name then none
    else (wire? wires i.name).or (v.map .literal)
  | _, v => v.map .literal

variable {r : Reader}

/-- A follower gives what it reads. -/
theorem Reader.give?_of_follows (h : r.follows = true) (v : Option Json) :
    r.give? wires v = v.map .literal := by
  cases r with
  | declared i => cases h
  | extra i name => rfl
  | sub i s => rfl

/-- Puts a value under a name if there is one. -/
def putUnder (t : Assoc Input) (name : String) : Option Input → Assoc Input
  | some u => Assoc.insert t name u
  | none => t

/-- What is put is found under its name. -/
theorem get?_putUnder (t : Assoc Input) (name other : String)
    (u : Option Input) :
    Assoc.get? (putUnder t name u) other
      = if name = other then u.or (Assoc.get? t other)
        else Assoc.get? t other := by
  cases u with
  | none => exact (ite_self _).symm
  | some u => exact Assoc.get?_insert _ _ _ _

/-- A declared input puts its wire or value. -/
theorem ownInput_eq (i : InputType) (v : Option Json) (t : Assoc Input) :
    ownInput wires i v t
      = putUnder t i.name ((Reader.declared i).give? wires v) := by
  rw [Reader.give?]
  unfold ownInput wire?
  by_cases hpseudo : i.kind.wireOnly = false ∧ pseudoInputs.contains i.name
  · rw [if_pos hpseudo, if_pos hpseudo]
    rfl
  · rw [if_neg hpseudo, if_neg hpseudo]
    cases wires.find? (·.1 = i.name) with
    | some w => rfl
    | none =>
        cases v with
        | some v => rfl
        | none => rfl

/-- What is put when a value is read. -/
def Reading.put (values : Widgets) (t : Assoc Input) (r : Reading) :
    Assoc Input :=
  putUnder t r.reader.input (r.reader.give? wires (r.value? values))

/-- One follower. -/
def Filling.takeFor (f : Filling) : Reader → Filling
  | .declared _ => f
  | .extra _ name => f.takeExtra name
  | .sub i s => f.takeSub i.name s.name

/-- What a value selects is read in turn. -/
theorem takeSelected_eq (f : Filling) (i : InputType) (v : Json) :
    f.takeSelected i v = (followers i v).foldl Filling.takeFor f := by
  unfold Filling.takeSelected followers
  rw [List.foldl_append, List.foldl_map]
  dsimp only
  split
  · rw [List.foldl_map]
    rfl
  · rfl

/-- A follower puts what it reads. -/
theorem takeFor_eq (f : Filling) (hr : r.follows = true) :
    (f.takeFor r).inputs
        = Reading.put wires f.cursor.values f.inputs
            ⟨r, some (r.place f.cursor)⟩
      ∧ (f.takeFor r).cursor = f.cursor.skip := by
  cases r with
  | declared i => cases hr
  | extra i name =>
      have hput : Reading.put wires f.cursor.values f.inputs
          ⟨.extra i name, some ((Reader.extra i name).place f.cursor)⟩
          = putUnder f.inputs name ((nonNull? (valueAt? f.cursor.values
              (f.cursor.placeOf name))).map .literal) := rfl
      show (f.takeExtra name).inputs = _ ∧ (f.takeExtra name).cursor = _
      unfold Filling.takeExtra
      rw [f.cursor.take_eq name, hput]
      cases nonNull? (valueAt? f.cursor.values (f.cursor.placeOf name)) with
      | none => exact ⟨rfl, rfl⟩
      | some v => exact ⟨rfl, rfl⟩
  | sub i s =>
      have hput : Reading.put wires f.cursor.values f.inputs
          ⟨.sub i s, some ((Reader.sub i s).place f.cursor)⟩
          = putUnder f.inputs (i.name ++ "." ++ s.name)
              ((nonNull? (valueAt? f.cursor.values
                ((Reader.sub i s).place f.cursor))).map .literal) := rfl
      show (f.takeSub i.name s.name).inputs = _
        ∧ (f.takeSub i.name s.name).cursor = _
      unfold Filling.takeSub
      dsimp only
      rw [f.cursor.takeSub_eq i s, hput]
      cases nonNull? (valueAt? f.cursor.values
          ((Reader.sub i s).place f.cursor)) with
      | none => exact ⟨rfl, rfl⟩
      | some v => exact ⟨rfl, rfl⟩

/-- Followers read and put one after the other. -/
theorem foldl_takeFor (f : Filling) {rs : List Reader}
    (hrs : ∀ r ∈ rs, r.follows = true) :
    (rs.foldl Filling.takeFor f).inputs
        = (f.cursor.readFor rs).foldl (Reading.put wires f.cursor.values)
            f.inputs
      ∧ (rs.foldl Filling.takeFor f).cursor = f.cursor.skipFor rs := by
  induction rs generalizing f with
  | nil => exact ⟨rfl, rfl⟩
  | cons r rs ih =>
      obtain ⟨hinputs, hcursor⟩ :=
        takeFor_eq wires f (hrs r List.mem_cons_self)
      obtain ⟨ihinputs, ihcursor⟩ :=
        ih (f.takeFor r) fun q hq => hrs q (List.mem_cons_of_mem r hq)
      rw [hcursor] at ihinputs ihcursor
      rw [hinputs, Cursor.skip_values] at ihinputs
      exact ⟨ihinputs, ihcursor⟩

theorem follows_of_mem_followers {i : InputType} {v : Json}
    (h : r ∈ followers i v) : r.follows = true := by
  rcases List.mem_append.1 h with h | h
  · obtain ⟨name, -, rfl⟩ := List.mem_map.1 h
    rfl
  · split at h
    · obtain ⟨s, -, rfl⟩ := List.mem_map.1 h
      rfl
    · cases h

/-- Passing a companion moves the cursor only. -/
theorem passControl_spec (f : Filling) (node : String) (i : InputType) :
    (f.passControl node i).inputs = f.inputs
      ∧ (f.passControl node i).cursor = f.cursor.passCompanion i := by
  unfold Filling.passControl Cursor.passCompanion
  split
  · exact ⟨rfl, rfl⟩
  · split
    · exact ⟨rfl, rfl⟩
    · split
      · exact ⟨rfl, rfl⟩
      · exact ⟨rfl, rfl⟩

/-- A declared input puts what is read for it and for those that it
selects. -/
theorem step_eq (f : Filling) (node : String) (i : InputType) :
    (f.step node wires i).inputs
        = (f.cursor.readings i).foldl (Reading.put wires f.cursor.values)
            f.inputs
      ∧ (f.step node wires i).cursor = f.cursor.after i := by
  by_cases hi : i.kind.wireOnly = true
  · rw [step_wireOnly hi, ownInput_eq]
    unfold Cursor.readings Cursor.after
    rw [if_pos hi, if_pos hi]
    exact ⟨rfl, rfl⟩
  · have hi' : i.kind.wireOnly = false := by simpa using hi
    have hput : Reading.put wires f.cursor.values f.inputs
        ⟨.declared i, some (f.cursor.placeOf i.name)⟩
        = ownInput wires i (nonNull? (valueAt? f.cursor.values
            (f.cursor.placeOf i.name))) f.inputs :=
      (ownInput_eq wires i _ f.inputs).symm
    obtain ⟨hinputs, hcursor⟩ :=
      passControl_spec { f with cursor := f.cursor.skip } node i
    unfold Filling.step Cursor.readings Cursor.after Cursor.selected
    rw [if_neg hi, if_neg hi, if_neg hi, f.cursor.take_eq i.name,
      List.foldl_cons, hput]
    dsimp only
    rw [putValue_eq hi', hinputs]
    cases nonNull? (valueAt? f.cursor.values (f.cursor.placeOf i.name)) with
    | none => exact ⟨rfl, hcursor⟩
    | some v =>
        dsimp only
        obtain ⟨hfill, hend⟩ := foldl_takeFor wires
          { Filling.passControl { f with cursor := f.cursor.skip } node i with
            inputs := ownInput wires i (some v) f.inputs }
          fun r (hr : r ∈ followers i v) => follows_of_mem_followers hr
        rw [takeSelected_eq, hfill, hend]
        dsimp only
        rw [hcursor, Cursor.passCompanion_values, Cursor.skip_values]
        exact ⟨rfl, rfl⟩

/-- Inputs are put along the walk. -/
theorem foldl_step_inputs (node : String) (declared : List InputType)
    (f : Filling) :
    (declared.foldl (Filling.step node wires) f).inputs
      = (f.cursor.walk declared).foldl (Reading.put wires f.cursor.values)
          f.inputs := by
  induction declared generalizing f with
  | nil => rfl
  | cons i declared ih =>
      obtain ⟨hinputs, hcursor⟩ := step_eq wires f node i
      rw [List.foldl_cons, ih, hinputs, hcursor, Cursor.after_values,
        Cursor.walk, List.foldl_append]

/-- The inputs after all declared ones are what the readings put. -/
theorem inputs_declaredFilling (node : String) (declared : List InputType)
    (values : Widgets) :
    (declaredFilling node declared values wires).inputs
      = (readings declared values).foldl (Reading.put wires values) [] :=
  foldl_step_inputs wires node declared { cursor := { values } }

-- ==== the last word

/-- What is put under a name when a value is read, if anything. -/
def Reading.put? (values : Widgets) (name : String) (r : Reading) :
    Option Input :=
  if r.reader.input = name then r.reader.give? wires (r.value? values)
  else none

/-- The last reading under a name counts. -/
theorem get?_foldl_put (values : Widgets) (rs : List Reading)
    (t : Assoc Input) (name : String) :
    Assoc.get? (rs.foldl (Reading.put wires values) t) name
      = (rs.reverse.findSome? (Reading.put? wires values name)).or
          (Assoc.get? t name) := by
  induction rs generalizing t with
  | nil => rfl
  | cons r rs ih =>
      rw [List.foldl_cons, ih, List.reverse_cons, List.findSome?_append,
        Option.or_assoc, Reading.put, get?_putUnder, List.findSome?_cons,
        Reading.put?]
      congr 1
      by_cases hname : r.reader.input = name
      · rw [if_pos hname, if_pos hname]
        cases r.reader.give? wires (r.value? values) with
        | none => rfl
        | some u => rfl
      · rw [if_neg hname, if_neg hname]
        rfl

/-- The input of a name is what the last reading has put there that puts
anything there, or else the wire of the name. -/
theorem get?_fillInputs_eq (node : String) (declared : List InputType)
    (values : Widgets) (name : String) :
    Assoc.get? (fillInputs node declared values wires).1 name
      = ((readings declared values).reverse.findSome?
          (Reading.put? wires values name)).or (wire? wires name) := by
  rw [fillInputs_eq, get?_keepWires, inputs_declaredFilling, get?_foldl_put,
    Assoc.get?_nil, Option.or_none]
  rfl

end

end PromptGraph.Flatten

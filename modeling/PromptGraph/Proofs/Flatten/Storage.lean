/-
One assignment of widget values, stored in two ways.

Older exports list the widget values of a node, newer ones name them. An
assignment (`Assignment`) gives a value to every input that may hold a
literal and to the inputs that these values select. Listed, the values
stand in the order of the declared inputs, each with its companion behind
it if it has one and then with those that it selects (`Assignment.list`);
named, each stands under its own name (`Assignment.table`).

Both ways every reader reads the value of its own name
(`Assignment.walk_list`, `Assignment.walk_named`). For the list
the walk is followed along what is left of it: when all readers up to an
input have read, the cursor stands at the values of that input
(`Cursor.onto`). What could go wrong is that the value after an integer
looks like a companion and is passed over, hence the condition `Plain`.

Main statement: `storage_forms_agree`.
-/
import PromptGraph.Proofs.Flatten.Reading

namespace PromptGraph.Flatten

open Editor
open Execution (Input)

-- ==== without warnings

/-- At this input the walk passes over nothing that is not declared. -/
def Cursor.Undoubting (c : Cursor) (i : InputType) : Prop :=
  i.kind.wireOnly = true ∨ c.values.isKeyed = true ∨ i.control = true
    ∨ (i.kind = .int && c.skip.atControlWord) = false

/-- Nor does it at any of these inputs. -/
def Cursor.UndoubtingAlong (c : Cursor) : List InputType → Prop
  | [] => True
  | i :: rest => c.Undoubting i ∧ (c.after i).UndoubtingAlong rest

/-- Reading for a follower gives no warning. -/
theorem takeFor_warnings (f : Filling) (r : Reader) :
    (f.takeFor r).warnings = f.warnings := by
  cases r with
  | declared i => rfl
  | extra i name =>
      show (f.takeExtra name).warnings = f.warnings
      unfold Filling.takeExtra
      split
      · rfl
      · rfl
  | sub i s =>
      show (f.takeSub i.name s.name).warnings = f.warnings
      unfold Filling.takeSub
      dsimp only
      split
      · rfl
      · rfl

theorem takeSelected_warnings (f : Filling) (i : InputType) (v : Json) :
    (f.takeSelected i v).warnings = f.warnings := by
  rw [takeSelected_eq]
  refine List.foldlRecOn
    (motive := fun g : Filling => g.warnings = f.warnings) _ _ rfl ?_
  intro g hg r _
  rw [takeFor_warnings, hg]

variable {i : InputType} {f : Filling}

/-- Passing a declared companion gives no warning. -/
theorem passControl_warnings
    (h : f.cursor.values.isKeyed = true ∨ i.control = true
      ∨ (i.kind = .int && f.cursor.atControlWord) = false) (node : String) :
    (f.passControl node i).warnings = f.warnings := by
  unfold Filling.passControl
  split
  · rfl
  · next hkeyed =>
    split
    · rfl
    · next hcontrol =>
      rcases h with h | h | h
      · exact absurd h hkeyed
      · exact absurd h hcontrol
      · rw [if_neg (by simp [h])]

/-- An input at which nothing undeclared is passed over gives no warning. -/
theorem step_warnings (h : f.cursor.Undoubting i) (node : String)
    (wires : List (String × Input)) :
    (f.step node wires i).warnings = f.warnings := by
  by_cases hi : i.kind.wireOnly = true
  · rw [step_wireOnly hi]
  · have hi' : i.kind.wireOnly = false := by simpa using hi
    have hpass := passControl_warnings
      (f := { f with cursor := f.cursor.skip }) (i := i) (by
        rw [Cursor.skip_values]
        exact h.resolve_left hi) node
    unfold Filling.step
    rw [if_neg hi, f.cursor.take_eq i.name]
    dsimp only
    rw [putValue_eq hi']
    split
    · rw [takeSelected_warnings]
      exact hpass
    · exact hpass

variable {declared : List InputType}

/-- Nor do inputs one after the other. -/
theorem foldl_step_warnings (h : f.cursor.UndoubtingAlong declared)
    (node : String) (wires : List (String × Input)) :
    (declared.foldl (Filling.step node wires) f).warnings = f.warnings := by
  induction declared generalizing f with
  | nil => rfl
  | cons i declared ih =>
      have hnext : (f.step node wires i).cursor.UndoubtingAlong declared := by
        rw [(step_eq wires f node i).2]
        exact h.2
      rw [List.foldl_cons, ih hnext, step_warnings h.1]

/-- Nor does filling them all. -/
theorem fillInputs_warnings {values : Widgets}
    (h : Cursor.UndoubtingAlong { values } declared) (node : String)
    (wires : List (String × Input)) :
    (fillInputs node declared values wires).2 = [] := by
  have hkeep : ∀ f : Filling,
      (wires.foldl Filling.keepWire f).warnings = f.warnings := by
    intro f
    refine List.foldlRecOn
      (motive := fun g : Filling => g.warnings = f.warnings) _ _ rfl ?_
    intro g hg w _
    unfold Filling.keepWire
    split
    · exact hg
    · exact hg
  unfold fillInputs
  dsimp only
  rw [hkeep, foldl_step_warnings h]

-- ==== readings by content

/-- Whom the value is read for, and the value. -/
def Reading.tell (values : Widgets) (r : Reading) : Reader × Option Json :=
  (r.reader, r.value? values)

/-- The wires that are left are kept alike. -/
theorem foldl_keepWire_inputs {f g : Filling} (h : f.inputs = g.inputs)
    (wires : List (String × Input)) :
    (wires.foldl Filling.keepWire f).inputs
      = (wires.foldl Filling.keepWire g).inputs := by
  induction wires generalizing f g with
  | nil => exact h
  | cons w wires ih =>
      rw [List.foldl_cons, List.foldl_cons]
      refine ih ?_
      unfold Filling.keepWire Filling.put
      rw [h]
      split
      · exact h
      · rfl

/-- The inputs of a node depend on its widget values only in what is read
for whom. -/
theorem fillInputs_eq_of_tell {u v : Widgets}
    (h : (readings declared u).map (Reading.tell u)
      = (readings declared v).map (Reading.tell v)) (node : String)
    (wires : List (String × Input)) :
    (fillInputs node declared u wires).1
      = (fillInputs node declared v wires).1 := by
  have hput : ∀ values, (declaredFilling node declared values wires).inputs
      = ((readings declared values).map (Reading.tell values)).foldl
          (fun t x => putUnder t x.1.input (x.1.give? wires x.2)) [] := by
    intro values
    rw [inputs_declaredFilling, List.foldl_map]
    rfl
  have hsame : (declaredFilling node declared u wires).inputs
      = (declaredFilling node declared v wires).inputs := by
    rw [hput, hput, h]
  rw [fillInputs_eq, fillInputs_eq]
  exact foldl_keepWire_inputs hsame wires

-- ==== assignments

/-- The declared inputs that may hold a literal. -/
def literalInputs (declared : List InputType) : List InputType :=
  declared.filter fun i => !i.kind.wireOnly

theorem literalInputs_cons (i : InputType) (declared : List InputType) :
    literalInputs (i :: declared)
      = if i.kind.wireOnly then literalInputs declared
        else i :: literalInputs declared := by
  unfold literalInputs
  rw [List.filter_cons]
  by_cases hi : i.kind.wireOnly = true
  · simp [hi]
  · simp [hi]

/-- Values for inputs by name, and for each input the companion that
stands behind its value in a list, if it has one there. -/
structure Assignment where
  value : String → Json
  companion : String → Json

namespace Assignment

variable (a : Assignment)

/-- The extra inputs and sub-inputs that the value of an input selects. -/
def followers (i : InputType) : List Reader :=
  Flatten.followers i (a.value i.name)

/-- The names of inputs with values: these inputs and what they select. -/
def names (inputs : List InputType) : List String :=
  inputs.flatMap fun i => i.name :: (a.followers i).map Reader.input

theorem names_cons (i : InputType) (inputs : List InputType) :
    a.names (i :: inputs) = a.names [i] ++ a.names inputs := by
  unfold names
  rw [List.flatMap_cons, List.flatMap_singleton]

/-- An input has its own name. -/
theorem mem_names_self {inputs : List InputType} (hi : i ∈ inputs) :
    i.name ∈ a.names inputs :=
  List.mem_flatMap.2 ⟨i, hi, List.mem_cons_self⟩

/-- Its followers have theirs. -/
theorem mem_names_follower {inputs : List InputType} (hi : i ∈ inputs)
    {r : Reader} (hr : r ∈ a.followers i) :
    r.input ∈ a.names inputs :=
  List.mem_flatMap.2 ⟨i, hi, List.mem_cons_of_mem _ (List.mem_map_of_mem hr)⟩

/-- What stands in a list for one input: its value, its companion, and
the values of those that it selects. -/
def cells (i : InputType) : List Json :=
  a.value i.name :: ((if i.control then [a.companion i.name] else [])
    ++ (a.followers i).map fun r => a.value r.input)

/-- The values in the order of the inputs. -/
def list (inputs : List InputType) : List Json := inputs.flatMap a.cells

/-- The values under their names. -/
def table (inputs : List InputType) : Assoc Json :=
  Assoc.ofList ((a.names inputs).map fun name => (name, a.value name))

/-- In the list no integer without a declared companion is directly
followed by a word that looks like one. -/
def Plain (inputs : List InputType) : Prop :=
  ∀ before i after, inputs = before ++ i :: after →
    i.kind = .int → i.control = false →
    ∀ s, (a.list inputs)[(a.list before).length + 1]? = some (.string s) →
      Text.lower s ∉ Cursor.controlWords

/-- What is read for an input and for those that it selects. -/
def told (i : InputType) : List (Reader × Option Json) :=
  if i.kind.wireOnly then [(.declared i, none)]
  else (.declared i, some (a.value i.name))
    :: (a.followers i).map fun r => (r, some (a.value r.input))

/-- From here on every reader reads the value of its name, and nothing
undeclared is passed over. -/
def Walks (c : Cursor) (declared : List InputType) : Prop :=
  (c.walk declared).map (Reading.tell c.values) = declared.flatMap a.told
    ∧ c.UndoubtingAlong declared

variable {a}

/-- A walk is taken input by input. -/
theorem Walks.cons {c : Cursor}
    (hread : (c.readings i).map (Reading.tell c.values) = a.told i)
    (hquiet : c.Undoubting i) (hrest : a.Walks (c.after i) declared) :
    a.Walks c (i :: declared) := by
  obtain ⟨htold, hquietRest⟩ := hrest
  rw [Cursor.after_values] at htold
  refine ⟨?_, hquiet, hquietRest⟩
  rw [Cursor.walk, List.map_append, List.flatMap_cons, hread, htold]

/-- Nothing is read for an input that takes a wire only. -/
theorem Walks.wireOnly {c : Cursor} (hi : i.kind.wireOnly = true)
    (hrest : a.Walks c declared) : a.Walks c (i :: declared) := by
  have hafter : c.after i = c := if_pos hi
  refine .cons ?_ (Or.inl hi) (by rwa [hafter])
  unfold Cursor.readings told
  rw [if_pos hi, if_pos hi]
  rfl

end Assignment

-- ==== along the list

namespace Cursor

/-- The cursor that has passed over `before` and stands at `rest`. -/
def onto (before rest : List Json) : Cursor :=
  { values := .positional (before ++ rest), pos := before.length }

/-- Passing over a value. -/
theorem skip_onto (before rest : List Json) (v : Json) :
    (onto before (v :: rest)).skip = onto (before ++ [v]) rest := by
  unfold onto skip
  simp

/-- The cursor reads the next value. -/
theorem at?_onto (before rest : List Json) :
    (onto before rest).values.at? (onto before rest).pos = rest.head? := by
  have hpos : ¬ (before.length : Int) < 0 := by omega
  unfold onto Widgets.at?
  simp [hpos, List.head?_eq_getElem?, List.getElem?_append_right]

theorem value_onto (before rest : List Json) (name : String) :
    valueAt? (onto before rest).values ((onto before rest).placeOf name)
      = rest.head? :=
  at?_onto before rest

/-- In a list every reader reads at the cursor. -/
theorem place_onto (r : Reader) (before rest : List Json) :
    r.place (onto before rest) = .position before.length := by
  cases r with
  | declared i => rfl
  | extra i name => rfl
  | sub i s => rfl

end Cursor

namespace Assignment

variable (a : Assignment)

/-- Readers that stand in the list one after the other read their values
and leave the cursor behind them. -/
theorem readFor_onto {rs : List Reader}
    (hrs : ∀ r ∈ rs, a.value r.input ≠ .null)
    (before rest : List Json) :
    let c := Cursor.onto before (rs.map (fun r => a.value r.input) ++ rest)
    (c.readFor rs).map (Reading.tell c.values)
        = rs.map (fun r => (r, some (a.value r.input)))
      ∧ c.skipFor rs
        = .onto (before ++ rs.map fun r => a.value r.input) rest := by
  induction rs generalizing before with
  | nil =>
      intro c
      refine ⟨rfl, ?_⟩
      rw [List.map_nil, List.append_nil]
      rfl
  | cons r rs ih =>
      intro c
      have hskip : c.skip = .onto (before ++ [a.value r.input])
          (rs.map (fun r => a.value r.input) ++ rest) :=
        Cursor.skip_onto _ _ _
      have hvalue : valueAt? c.values (r.place c) = some (a.value r.input) := by
        rw [Cursor.place_onto]
        exact Cursor.value_onto before _ r.input
      obtain ⟨hread, hend⟩ :=
        ih (fun q hq => hrs q (List.mem_cons_of_mem r hq))
          (before ++ [a.value r.input])
      rw [← hskip] at hread hend
      rw [Cursor.skip_values] at hread
      constructor
      · rw [Cursor.readFor, List.map_cons, hread, List.map_cons]
        congr 1
        show (r, nonNull? (valueAt? c.values (r.place c))) = _
        rw [hvalue, nonNull?_of_ne (hrs r List.mem_cons_self)]
      · show c.skip.skipFor rs = _
        rw [hend, List.map_cons, List.append_assoc]
        rfl

/-- The companion of an input is passed over exactly where it is declared,
if the next value does not look like one. -/
theorem passCompanion_onto (before : List Json) {rest : List Json}
    (hplain : i.kind = .int → i.control = false →
      ∀ s, rest.head? = some (.string s) → Text.lower s ∉ Cursor.controlWords) :
    let c := Cursor.onto before
      ((if i.control then [a.companion i.name] else []) ++ rest)
    c.passCompanion i
        = .onto (before ++ if i.control then [a.companion i.name] else []) rest
      ∧ (i.control = true ∨ (i.kind = .int && c.atControlWord) = false) := by
  intro c
  have hkeyed : ¬ c.values.isKeyed = true := by
    intro h
    cases h
  unfold Cursor.passCompanion
  rw [if_neg hkeyed]
  by_cases hcontrol : i.control = true
  · refine ⟨?_, Or.inl hcontrol⟩
    rw [if_pos hcontrol, if_pos hcontrol]
    show (Cursor.onto before
      ((if i.control then [a.companion i.name] else []) ++ rest)).skip = _
    rw [if_pos hcontrol]
    exact Cursor.skip_onto _ _ _
  · have hc : c = .onto before rest := by
      show Cursor.onto before
        ((if i.control then [a.companion i.name] else []) ++ rest) = _
      rw [if_neg hcontrol, List.nil_append]
    have hword : (i.kind = .int && c.atControlWord) = false := by
      by_cases hint : i.kind = .int
      · rw [decide_eq_true hint, Bool.true_and, hc]
        unfold Cursor.atControlWord
        rw [Cursor.at?_onto]
        split
        · next s hs =>
          have hno := hplain hint (by simpa using hcontrol) s hs
          simpa using hno
        · rfl
      · rw [decide_eq_false hint, Bool.false_and]
    refine ⟨?_, Or.inr hword⟩
    rw [if_neg hcontrol, if_neg (by simp [hword]), if_neg hcontrol,
      List.append_nil, hc]

/-- What is read for one input when the cursor stands at its values. -/
theorem readings_onto (hi : i.kind.wireOnly = false)
    (hown : a.value i.name ≠ .null)
    (hfollowers : ∀ r ∈ a.followers i, a.value r.input ≠ .null)
    (before : List Json) {rest : List Json}
    (hplain : i.kind = .int → i.control = false →
      ∀ s, (((a.followers i).map fun r => a.value r.input) ++ rest).head?
          = some (.string s) → Text.lower s ∉ Cursor.controlWords) :
    let c := Cursor.onto before (a.cells i ++ rest)
    (c.readings i).map (Reading.tell c.values) = a.told i
      ∧ c.after i = .onto (before ++ a.cells i) rest
      ∧ c.Undoubting i := by
  intro c
  have hwire : ¬ i.kind.wireOnly = true := by simp [hi]
  have hskip : c.skip = .onto (before ++ [a.value i.name])
      ((if i.control then [a.companion i.name] else [])
        ++ (((a.followers i).map fun r => a.value r.input) ++ rest)) := by
    rw [← List.append_assoc]
    exact Cursor.skip_onto _ _ _
  obtain ⟨hpass, hquiet⟩ :=
    a.passCompanion_onto (before ++ [a.value i.name]) hplain
  rw [← hskip] at hpass hquiet
  have hvalue : nonNull? (valueAt? c.values (c.placeOf i.name))
      = some (a.value i.name) := by
    rw [Cursor.value_onto]
    exact nonNull?_of_ne hown
  have hselected : c.selected i = a.followers i := by
    unfold Cursor.selected
    rw [hvalue]
    rfl
  obtain ⟨hread, hend⟩ := a.readFor_onto hfollowers
    (before ++ [a.value i.name]
      ++ if i.control then [a.companion i.name] else []) rest
  rw [← hpass] at hread hend
  rw [Cursor.passCompanion_values, Cursor.skip_values] at hread
  refine ⟨?_, ?_, Or.inr (Or.inr hquiet)⟩
  · unfold Cursor.readings told
    rw [if_neg hwire, if_neg hwire, hselected, List.map_cons, hread]
    congr 1
    show (Reader.declared i, nonNull? (valueAt? c.values (c.placeOf i.name))) = _
    rw [hvalue]
  · unfold Cursor.after
    rw [if_neg hwire, hselected, hend]
    congr 1
    unfold cells
    simp

/-- The values of one more input. -/
theorem list_concat (before : List InputType) (i : InputType) :
    a.list (before ++ [i]) = a.list before ++ a.cells i := by
  unfold list
  rw [List.flatMap_append, List.flatMap_singleton]

variable {a}

/-- What stands behind an integer without a companion: the values that it
selects, or else those of the next input. -/
theorem Plain.head {inputs before after : List InputType} (h : a.Plain inputs)
    (hsplit : inputs = before ++ i :: after) (hint : i.kind = .int)
    (hcontrol : i.control = false) {s : String}
    (hs : (((a.followers i).map fun r => a.value r.input) ++ a.list after).head?
      = some (.string s)) :
    Text.lower s ∉ Cursor.controlWords := by
  refine h before i after hsplit hint hcontrol s ?_
  have hcells : a.cells i = a.value i.name
      :: (a.followers i).map fun r => a.value r.input := by
    unfold cells
    rw [if_neg (by simp [hcontrol]), List.nil_append]
  have hwhole : a.list inputs
      = a.list before ++ (a.cells i ++ a.list after) := by
    rw [hsplit]
    exact List.flatMap_append
  rw [hwhole, hcells, List.getElem?_append_right (by omega),
    Nat.add_sub_cancel_left, List.cons_append, List.getElem?_cons_succ,
    ← List.head?_eq_getElem?]
  exact hs

/-- The walk along the list, from any input on. -/
theorem walk_list {inputs : List InputType}
    (hvalues : ∀ name ∈ a.names inputs, a.value name ≠ .null)
    (hplain : a.Plain inputs) (before : List InputType)
    (hsplit : inputs = before ++ literalInputs declared) :
    a.Walks (.onto (a.list before) (a.list (literalInputs declared)))
      declared := by
  induction declared generalizing before with
  | nil => exact ⟨rfl, trivial⟩
  | cons i declared ih =>
      rw [literalInputs_cons] at hsplit ⊢
      by_cases hi : i.kind.wireOnly = true
      · rw [if_pos hi] at hsplit ⊢
        exact .wireOnly hi (ih before hsplit)
      · rw [if_neg hi] at hsplit ⊢
        have hmem : i ∈ inputs := by
          rw [hsplit]
          exact List.mem_append_right _ List.mem_cons_self
        obtain ⟨hread, hafter, hquiet⟩ := a.readings_onto
          (by simpa using hi) (hvalues _ (a.mem_names_self hmem))
          (fun r hr => hvalues _ (a.mem_names_follower hmem hr))
          (a.list before) fun hint hcontrol s =>
            hplain.head hsplit hint hcontrol
        have hrest := ih (before ++ [i]) (by rw [hsplit, List.append_assoc]; rfl)
        rw [list_concat, ← hafter] at hrest
        exact .cons hread hquiet hrest

end Assignment

-- ==== by name

namespace Cursor

/-- The cursor over named values; it never moves. -/
def named (t : Assoc Json) : Cursor := { values := .keyed t }

theorem skipFor_named (t : Assoc Json) (rs : List Reader) :
    (named t).skipFor rs = named t := by
  induction rs with
  | nil => rfl
  | cons r rs ih => exact ih

/-- Over named values the cursor stays where it is. -/
theorem after_named (t : Assoc Json) (i : InputType) :
    (named t).after i = named t := by
  unfold after
  split
  · rfl
  · exact skipFor_named t _

/-- A reader whose input has a value reads under the name of its input. -/
theorem place_named {t : Assoc Json} {r : Reader} {v : Json}
    (hget : Assoc.get? t r.input = some v) (hv : v ≠ .null) :
    r.place (named t) = .name r.input := by
  cases r with
  | declared i => rfl
  | extra i name => rfl
  | sub i s =>
      have hfound : nonNull? ((named t).values.get? (Reader.sub i s).input)
          = some v := by
        show nonNull? (Assoc.get? t (Reader.sub i s).input) = some v
        rw [hget, nonNull?_of_ne hv]
      exact if_pos (by rw [hfound]; rfl)

end Cursor

namespace Assignment

variable (a : Assignment)

variable {t : Assoc Json}

/-- Each follower reads under its name. -/
theorem readFor_named {rs : List Reader}
    (hrs : ∀ r ∈ rs, Assoc.get? t r.input = some (a.value r.input)
      ∧ a.value r.input ≠ .null) :
    ((Cursor.named t).readFor rs).map (Reading.tell (.keyed t))
      = rs.map (fun r => (r, some (a.value r.input))) := by
  induction rs with
  | nil => rfl
  | cons r rs ih =>
      obtain ⟨hget, hv⟩ := hrs r List.mem_cons_self
      have hrest := ih fun q hq => hrs q (List.mem_cons_of_mem r hq)
      rw [Cursor.readFor, List.map_cons, List.map_cons]
      refine congrArg₂ List.cons ?_ hrest
      show (r, nonNull? (valueAt? (.keyed t) (r.place (.named t)))) = _
      rw [Cursor.place_named hget hv]
      show (r, nonNull? (Assoc.get? t r.input)) = _
      rw [hget, nonNull?_of_ne hv]

/-- What is read for one input and its followers. -/
theorem readings_named (hi : i.kind.wireOnly = false)
    (hnames : ∀ name ∈ a.names [i], Assoc.get? t name = some (a.value name)
      ∧ a.value name ≠ .null) :
    ((Cursor.named t).readings i).map (Reading.tell (.keyed t)) = a.told i := by
  have hwire : ¬ i.kind.wireOnly = true := by simp [hi]
  obtain ⟨hget, hv⟩ := hnames _ (a.mem_names_self List.mem_cons_self)
  have hvalue : nonNull? (valueAt? (Cursor.named t).values
      ((Cursor.named t).placeOf i.name)) = some (a.value i.name) := by
    show nonNull? (Assoc.get? t i.name) = _
    rw [hget, nonNull?_of_ne hv]
  have hselected : (Cursor.named t).selected i = a.followers i := by
    unfold Cursor.selected
    rw [hvalue]
    rfl
  have hread : ((Cursor.named t).readFor (a.followers i)).map
      (Reading.tell (.keyed t))
      = (a.followers i).map fun r => (r, some (a.value r.input)) := by
    exact a.readFor_named fun r hr =>
      hnames _ (a.mem_names_follower List.mem_cons_self hr)
  unfold Cursor.readings told
  rw [if_neg hwire, if_neg hwire, hselected, List.map_cons]
  refine congrArg₂ List.cons ?_ hread
  show (Reader.declared i, nonNull? (valueAt? (Cursor.named t).values
    ((Cursor.named t).placeOf i.name))) = _
  rw [hvalue]

/-- The walk over named values. -/
theorem walk_named
    (hnames : ∀ name ∈ a.names (literalInputs declared),
      Assoc.get? t name = some (a.value name) ∧ a.value name ≠ .null) :
    a.Walks (.named t) declared := by
  induction declared with
  | nil => exact ⟨rfl, trivial⟩
  | cons i declared ih =>
      rw [literalInputs_cons] at hnames
      by_cases hi : i.kind.wireOnly = true
      · rw [if_pos hi] at hnames
        exact .wireOnly hi (ih hnames)
      · rw [if_neg hi, names_cons] at hnames
        have hread := a.readings_named (by simpa using hi) fun name h =>
          hnames name (List.mem_append_left _ h)
        refine .cons hread (Or.inr (Or.inl rfl)) ?_
        rw [Cursor.after_named]
        exact ih fun name h => hnames name (List.mem_append_right _ h)

end Assignment

-- ==== the two forms

/-- Where nothing is wired a reader puts what it reads. -/
theorem Reader.give?_unwired {wires : List (String × Input)} {r : Reader}
    (hwire : wire? wires r.input = none) (hown : r.input ∉ pseudoInputs)
    (v : Option Json) : r.give? wires v = v.map .literal := by
  cases r with
  | declared i =>
      have hplain : ¬ (i.kind.wireOnly = false
          ∧ pseudoInputs.contains i.name = true) := fun h =>
        hown (List.contains_iff_mem.1 h.2)
      have hnone : wire? wires i.name = none := hwire
      rw [give?, if_neg hplain, hnone, Option.none_or]
  | extra i name => rfl
  | sub i s => rfl

namespace Assignment

variable {a : Assignment}

/-- What is read under a name is the value of the name or nothing. -/
theorem eq_value_of_told {x : Reader × Option Json}
    (hx : x ∈ declared.flatMap a.told) {v : Json} (hv : x.2 = some v) :
    v = a.value x.1.input := by
  obtain ⟨i, -, hx⟩ := List.mem_flatMap.1 hx
  unfold told at hx
  split at hx
  · cases List.mem_singleton.1 hx
    cases hv
  · rcases List.mem_cons.1 hx with rfl | hx
    · exact (Option.some.inj hv).symm
    · obtain ⟨r, -, rfl⟩ := List.mem_map.1 hx
      exact (Option.some.inj hv).symm

/-- Under each name of the assignment its value is read. -/
theorem exists_told {name : String}
    (hname : name ∈ a.names (literalInputs declared)) :
    ∃ x ∈ declared.flatMap a.told,
      x.1.input = name ∧ x.2 = some (a.value name) := by
  obtain ⟨i, hi, hname⟩ := List.mem_flatMap.1 hname
  obtain ⟨hi, hliteral⟩ := List.mem_filter.1 hi
  have htold : a.told i = (.declared i, some (a.value i.name))
      :: (a.followers i).map fun r => (r, some (a.value r.input)) :=
    if_neg (by simpa using hliteral)
  rcases List.mem_cons.1 hname with rfl | hname
  · refine ⟨(.declared i, some (a.value i.name)),
      List.mem_flatMap.2 ⟨i, hi, ?_⟩, rfl, rfl⟩
    rw [htold]
    exact List.mem_cons_self
  · obtain ⟨r, hr, rfl⟩ := List.mem_map.1 hname
    refine ⟨(r, some (a.value r.input)), List.mem_flatMap.2 ⟨i, hi, ?_⟩,
      rfl, rfl⟩
    rw [htold]
    exact List.mem_cons_of_mem _ (List.mem_map_of_mem hr)

/-- A walk leaves each value of the assignment under its name, unless it
is wired or the name is no input. -/
theorem Walks.get?_fillInputs {values : Widgets}
    (h : a.Walks { values } declared) (node : String)
    {wires : List (String × Input)} {name : String}
    (hname : name ∈ a.names (literalInputs declared))
    (hwire : wire? wires name = none) (hown : name ∉ pseudoInputs) :
    Assoc.get? (fillInputs node declared values wires).1 name
      = some (.literal (a.value name)) := by
  -- where nothing is wired, what is read under the name is put there
  have hput : ∀ r : Reading, r.put? wires values name
      = if r.reader.input = name then (r.value? values).map .literal
        else none := by
    intro r
    unfold Reading.put?
    split
    · next heq => rw [Reader.give?_unwired (heq ▸ hwire) (heq ▸ hown)]
    · rfl
  have hread : (readings declared values).map (Reading.tell values)
      = declared.flatMap a.told := h.1
  have hfound : (readings declared values).reverse.findSome?
      (Reading.put? wires values name) = some (.literal (a.value name)) := by
    cases hput' : (readings declared values).reverse.findSome?
        (Reading.put? wires values name) with
    | none =>
        obtain ⟨x, hx, hinput, hvalue⟩ := exists_told hname
        rw [← hread] at hx
        obtain ⟨r, hr, rfl⟩ := List.mem_map.1 hx
        have hnone := List.findSome?_eq_none_iff.1 hput' r (List.mem_reverse.2 hr)
        have hsame : r.reader.input = name := hinput
        have hgot : r.value? values = some (a.value name) := hvalue
        rw [hput, if_pos hsame, hgot] at hnone
        cases hnone
    | some u =>
        obtain ⟨r, hr, hu⟩ := List.exists_of_findSome?_eq_some hput'
        have hx : r.tell values ∈ declared.flatMap a.told := by
          rw [← hread]
          exact List.mem_map_of_mem (List.mem_reverse.1 hr)
        rw [hput, Option.ite_none_right_eq_some] at hu
        obtain ⟨hinput, hu⟩ := hu
        obtain ⟨v, hv, rfl⟩ := Option.map_eq_some_iff.1 hu
        rw [← hinput, eq_value_of_told hx hv]
        rfl
  rw [get?_fillInputs_eq, hfound, Option.some_or]

end Assignment

/-- The same assignment, stored as a list in the order of the declared
inputs and stored by name, gives a node the same inputs, whatever is
connected to it, and neither form is warned about. Each of its values is
then found under its name, unless something is connected there or the
name is no input. -/
theorem storage_forms_agree (t : NodeType) (wires : List (String × Input))
    (a : Assignment) (node : String)
    (hvalues : ∀ name ∈ a.names (literalInputs t.inputs), a.value name ≠ .null)
    (hplain : a.Plain (literalInputs t.inputs)) :
    let inputs := literalInputs t.inputs
    let listed := fillInputs node t.inputs (.positional (a.list inputs)) wires
    let named := fillInputs node t.inputs (.keyed (a.table inputs)) wires
    listed.1 = named.1 ∧ listed.2 = [] ∧ named.2 = []
      ∧ ∀ name ∈ a.names inputs, wire? wires name = none →
          name ∉ pseudoInputs →
          Assoc.get? listed.1 name = some (.literal (a.value name)) := by
  intro inputs listed named
  have hlist : a.Walks { values := .positional (a.list inputs) } t.inputs :=
    Assignment.walk_list hvalues hplain [] rfl
  have htable : a.Walks { values := .keyed (a.table inputs) } t.inputs :=
    a.walk_named fun name h =>
      ⟨Assoc.get?_ofList_map h a.value, hvalues name h⟩
  exact ⟨fillInputs_eq_of_tell (hlist.1.trans htable.1.symm) node wires,
    fillInputs_warnings hlist.2 node wires,
    fillInputs_warnings htable.2 node wires,
    fun name hname => hlist.get?_fillInputs node hname⟩

/-- A saver with a seed that has a companion, a number of steps that has
none, a format with an extra input and a mode with a sub-input. -/
def saverType : NodeType :=
  { name := "Saver", displayName := "Saver", category := "", isOutput := true,
    inputs := [
      .mk "images" "IMAGE" .wire .required false none [] none,
      .mk "seed" "INT" .int .required true none [] none,
      .mk "steps" "INT" .int .required false none [] none,
      .mk "format" "COMBO" .combo .required false none [("gif", ["loops"])] none,
      .mk "mode" "COMFY_DYNAMICCOMBO_V3" .dynamicCombo .required false none []
        (some [("fast", [.mk "rate" "INT" .int .required false none [] none])])],
    outputs := [] }

/-- Values for it. -/
def savedFast : Assignment :=
  { value := fun name => (Assoc.get? [("seed", .number "7"),
      ("steps", .number "20"), ("format", .string "gif"), ("loops", .number "0"),
      ("mode", .string "fast"), ("mode.rate", .number "8")] name).getD .null
    companion := fun _ => .string "fixed" }

/-- A saver with every kind of input, stored both ways. -/
theorem storage_forms_agree_savedFast :
    let wires := [("images", .ref ⟨"1", 0⟩), ("steps", .ref ⟨"2", 0⟩)]
    (fillInputs "3" saverType.inputs (.positional [.number "7", .string "fixed",
        .number "20", .string "gif", .number "0", .string "fast", .number "8"])
        wires).1
      = (fillInputs "3" saverType.inputs (.keyed [("format", .string "gif"),
        ("loops", .number "0"), ("mode", .string "fast"),
        ("mode.rate", .number "8"), ("seed", .number "7"),
        ("steps", .number "20")]) wires).1 := by
  intro wires
  refine (storage_forms_agree saverType wires savedFast "3" ?_ ?_).1
  · have hnames : savedFast.names (literalInputs saverType.inputs)
        = ["seed", "steps", "format", "loops", "mode", "mode.rate"] := rfl
    rw [hnames]
    simp [savedFast, Assoc.get?_cons]
  · have hword : Text.lower "gif" ∉ Cursor.controlWords := by decide +kernel
    intro before i after hsplit hint hcontrol s hs
    -- the four inputs in turn; only the steps have no companion
    rcases before with _ | ⟨_, _ | ⟨_, _ | ⟨_, _ | ⟨_, before⟩⟩⟩⟩
    · cases hsplit
      cases hcontrol
    · cases hsplit
      cases hs
      exact hword
    · cases hsplit
      cases hint
    · cases hsplit
      cases hint
    · cases before with
      | nil => cases hsplit
      | cons _ _ => cases hsplit

end PromptGraph.Flatten

/-
Reading widget values of which one has been replaced.

How far a walk along the declared inputs gets at a value, and whom it
reads the value for, can depend on the values before: a value may select
further inputs, and a word after a number may be passed over. So a value
that is replaced can shift what is read after it. It shifts nothing if
the walk reads it for the same input as before and it selects the same
inputs as before: then everything is read for the same inputs at the
same places (`readings_eq`).

The two walks go side by side. Up to the input that the value is read
for, no position beyond the place has been looked at; after it, no
position up to the place is looked at again (`pos_le_of_mem_walk`).
-/
import PromptGraph.Proofs.Flatten.Precedence

namespace PromptGraph.Flatten

open Editor
open Execution (Input)

-- ==== values

/-- What widget values look like from outside: named or not, and if not
how many there are. -/
def shape : Widgets → Option Nat
  | .positional vs => some vs.length
  | .keyed _ => none

/-- The same widget values, but for the one at this place. -/
structure SameBut (p : Place) (u v : Widgets) : Prop where
  shape : shape u = shape v
  values : ∀ q, q ≠ p → valueAt? u q = valueAt? v q

theorem isKeyed_of_shape {u v : Widgets} (h : shape u = shape v) :
    u.isKeyed = v.isKeyed := by
  cases u with
  | positional us =>
      cases v with
      | positional vs => rfl
      | keyed t => cases h
  | keyed t =>
      cases v with
      | positional vs => cases h
      | keyed t' => rfl

namespace Cursor

/-- The cursor among other values. -/
def among (c : Cursor) (v : Widgets) : Cursor := { c with values := v }

section
variable {c : Cursor} {v : Widgets} (h : shape c.values = shape v)

include h

/-- A place does not depend on the values. -/
theorem placeOf_among (name : String) :
    (c.among v).placeOf name = c.placeOf name := by
  unfold placeOf
  rw [isKeyed_of_shape h]
  rfl

/-- Nor does passing over one. -/
theorem skip_among : (c.among v).skip = c.skip.among v := by
  obtain ⟨u, k⟩ := c
  cases u with
  | positional us =>
      cases v with
      | positional vs =>
          have hlength : us.length = vs.length := Option.some.inj h
          unfold skip among
          dsimp only
          rw [hlength]
          split
          · rfl
          · rfl
      | keyed t => cases h
  | keyed t =>
      cases v with
      | positional vs => cases h
      | keyed t' => rfl

theorem skipFor_among (rs : List Reader) :
    (c.among v).skipFor rs = (c.skipFor rs).among v := by
  induction rs generalizing c with
  | nil => rfl
  | cons r rs ih =>
      show (c.among v).skip.skipFor rs = (c.skip.skipFor rs).among v
      rw [skip_among h, ih (by rw [skip_values]; exact h)]

end

-- ==== how far it goes

/-- The cursor does not go back. -/
theorem pos_le_skip (c : Cursor) : c.pos ≤ c.skip.pos := by
  unfold skip
  split
  · exact Nat.le_refl _
  · split
    · exact Nat.le_succ _
    · exact Nat.le_refl _

/-- A companion is passed over or not. -/
theorem passCompanion_cases (c : Cursor) (i : InputType) :
    c.passCompanion i = c ∨ c.passCompanion i = c.skip := by
  unfold passCompanion
  split
  · exact .inl rfl
  · split
    · exact .inr rfl
    · split
      · exact .inr rfl
      · exact .inl rfl

theorem pos_le_passCompanion (c : Cursor) (i : InputType) :
    c.pos ≤ (c.passCompanion i).pos := by
  rcases c.passCompanion_cases i with h | h
  · rw [h]
  · rw [h]
    exact c.pos_le_skip

variable {i : InputType}

/-- A cursor that does not get further has nothing to pass over. -/
theorem passCompanion_eq_self {c : Cursor}
    (h : (c.passCompanion i).pos ≤ c.pos) : c.passCompanion i = c := by
  rcases c.passCompanion_cases i with hsame | hskip
  · exact hsame
  · rw [hskip] at h ⊢
    unfold skip at h ⊢
    split at h
    · rfl
    · next vs hvs =>
      split at h
      · exact absurd h (Nat.not_succ_le_self _)
      · next hend =>
        rw [hvs, if_neg hend]

theorem pos_le_skipFor (c : Cursor) (rs : List Reader) :
    c.pos ≤ (c.skipFor rs).pos := by
  induction rs generalizing c with
  | nil => exact Nat.le_refl _
  | cons r rs ih => exact Nat.le_trans c.pos_le_skip (ih c.skip)

/-- The cursor does not go back over an input. -/
theorem pos_le_after (c : Cursor) (i : InputType) :
    c.pos ≤ (c.after i).pos := by
  unfold after
  split
  · exact Nat.le_refl _
  · exact Nat.le_trans c.pos_le_skip (Nat.le_trans
      (c.skip.pos_le_passCompanion i) (pos_le_skipFor _ _))

theorem pos_passCompanion_le_after {c : Cursor} (hi : i.kind.wireOnly = false) :
    (c.skip.passCompanion i).pos ≤ (c.after i).pos := by
  unfold after
  rw [if_neg (by simp [hi])]
  exact pos_le_skipFor _ _

variable {k : Nat}

theorem eq_pos_of_placeOf {c : Cursor} {name : String}
    (h : c.placeOf name = .position k) : k = c.pos := by
  unfold placeOf at h
  split at h
  · cases h
  · cases h
    rfl

/-- A value that is there is passed over. -/
theorem lt_pos_skip {c : Cursor} {name : String}
    (h : c.placeOf name = .position k)
    (hvalue : (valueAt? c.values (.position k)).isSome = true) :
    k < c.skip.pos := by
  have hk := eq_pos_of_placeOf h
  subst hk
  unfold skip
  cases hvalues : c.values with
  | keyed t =>
      rw [hvalues] at hvalue
      cases hvalue
  | positional vs =>
      have hlt : c.pos < vs.length := by
        have hpos : ¬ (c.pos : Int) < 0 := by omega
        rw [hvalues] at hvalue
        simpa [valueAt?, Widgets.at?, hpos] using hvalue
      dsimp only
      rw [if_pos hlt]
      exact Nat.lt_succ_self _

/-- Followers read at the cursor or behind it. -/
theorem pos_le_of_mem_readFor {c : Cursor} {rs : List Reader} {r : Reading}
    (hr : r ∈ c.readFor rs) (hk : r.place = some (.position k)) :
    c.pos ≤ k := by
  induction rs generalizing c with
  | nil => cases hr
  | cons q rs ih =>
      rcases List.mem_cons.1 hr with rfl | hr
      · have hk : q.place c = .position k := Option.some.inj hk
        unfold Reader.place at hk
        split at hk
        · split at hk
          · cases hk
          · exact Nat.le_of_eq (eq_pos_of_placeOf hk).symm
        · exact Nat.le_of_eq (eq_pos_of_placeOf hk).symm
      · exact Nat.le_trans c.pos_le_skip (ih hr)

/-- A walk never goes back. -/
theorem pos_le_of_mem_walk {c : Cursor} {declared : List InputType}
    {r : Reading} (hr : r ∈ c.walk declared)
    (hk : r.place = some (.position k)) : c.pos ≤ k := by
  induction declared generalizing c with
  | nil => cases hr
  | cons i declared ih =>
      have hpass : c.pos ≤ (c.skip.passCompanion i).pos :=
        Nat.le_trans c.pos_le_skip (c.skip.pos_le_passCompanion i)
      rcases List.mem_append.1 hr with hr | hr
      · unfold readings at hr
        split at hr
        · rw [List.mem_singleton.1 hr] at hk
          cases hk
        · rcases List.mem_cons.1 hr with rfl | hr
          · exact Nat.le_of_eq (eq_pos_of_placeOf (Option.some.inj hk)).symm
          · exact Nat.le_trans hpass (pos_le_of_mem_readFor hr hk)
      · exact Nat.le_trans (c.pos_le_after i) (ih hr)

-- ==== steps side by side

section
variable {c : Cursor} {v : Widgets} {p : Place}

/-- Followers read at the same places, as long as none has the name
under which the value has been replaced. -/
theorem readFor_among (h : SameBut p c.values v) {rs : List Reader}
    (hrs : ∀ r ∈ rs, p ≠ .name r.input) :
    (c.among v).readFor rs = c.readFor rs := by
  induction rs generalizing c with
  | nil => rfl
  | cons r rs ih =>
      have hplace : r.place (c.among v) = r.place c := by
        have hget : v.get? r.input = c.values.get? r.input :=
          (h.values (.name r.input) (hrs r List.mem_cons_self).symm).symm
        unfold Reader.place
        split
        · rw [placeOf_among h.shape]
          show (if (nonNull? (v.get? _)).isSome then _ else _) = _
          rw [hget]
        · exact placeOf_among h.shape _
      have hskip : SameBut p c.skip.values v := by
        rw [skip_values]
        exact h
      rw [readFor, readFor, hplace, skip_among h.shape,
        ih hskip fun q hq => hrs q (List.mem_cons_of_mem r hq)]

/-- The word after a number is looked at alike, unless it is the value
that has been replaced; and also then if neither walk passes over it. -/
theorem passCompanion_among (h : SameBut p c.values v)
    (hstay : p = .position c.pos → (c.passCompanion i).pos ≤ c.pos
      ∧ ((c.among v).passCompanion i).pos ≤ c.pos) :
    (c.among v).passCompanion i = (c.passCompanion i).among v := by
  by_cases hp : p = .position c.pos
  · obtain ⟨hc, hv⟩ := hstay hp
    rw [passCompanion_eq_self hc]
    exact passCompanion_eq_self hv
  · have hat : (c.among v).values.at? (c.among v).pos = c.values.at? c.pos :=
      (h.values (.position c.pos) (Ne.symm hp)).symm
    have hword : (c.among v).atControlWord = c.atControlWord := by
      unfold atControlWord
      rw [hat]
    have hkeyed : (c.among v).values.isKeyed = c.values.isKeyed :=
      (isKeyed_of_shape h.shape).symm
    unfold passCompanion
    rw [hword, skip_among h.shape, hkeyed]
    split
    · rfl
    · split
      · rfl
      · split
        · rfl
        · rfl

end

end Cursor

-- ==== selection

/-- The readers that an input's value selects, if it has one. -/
def selectedBy (i : InputType) (v : Option Json) : List Reader :=
  match nonNull? v with
  | some v => followers i v
  | none => []

namespace Cursor

section
variable {c : Cursor} {v : Widgets} {p : Place} {i : InputType}

/-- The same value selects the same followers. -/
theorem selected_among (h : shape c.values = shape v)
    (hi : selectedBy i (valueAt? v (c.placeOf i.name))
      = selectedBy i (valueAt? c.values (c.placeOf i.name))) :
    (c.among v).selected i = c.selected i := by
  show selectedBy i (valueAt? v ((c.among v).placeOf i.name)) = _
  rw [placeOf_among h, hi]
  rfl

/-- One declared input, among both values. -/
theorem readings_among (h : SameBut p c.values v)
    (hsel : selectedBy i (valueAt? v (c.placeOf i.name))
      = selectedBy i (valueAt? c.values (c.placeOf i.name)))
    (hfree : ∀ r ∈ c.selected i, p ≠ .name r.input)
    (hpass : (c.skip.among v).passCompanion i
      = (c.skip.passCompanion i).among v) :
    (c.among v).readings i = c.readings i
      ∧ (c.among v).after i = (c.after i).among v := by
  have hafter : (c.among v).skip.passCompanion i
      = (c.skip.passCompanion i).among v := by
    rw [skip_among h.shape, hpass]
  have hnext : SameBut p (c.skip.passCompanion i).values v := by
    rw [passCompanion_values, skip_values]
    exact h
  unfold readings after
  rw [hafter, selected_among h.shape hsel, placeOf_among h.shape,
    readFor_among hnext hfree, skipFor_among hnext.shape]
  refine ⟨rfl, ?_⟩
  split
  · rfl
  · rfl

/-- A declared input reads. -/
theorem declared_mem_readings (hi : i.kind.wireOnly = false) :
    (⟨.declared i, some (c.placeOf i.name)⟩ : Reading) ∈ c.readings i := by
  unfold readings
  rw [if_neg (by simp [hi])]
  exact List.mem_cons_self

/-- So does what it selects. -/
theorem selected_mem_readings (hi : i.kind.wireOnly = false) {r : Reader}
    (hr : r ∈ c.selected i) :
    ∃ q, (⟨r, some q⟩ : Reading) ∈ c.readings i := by
  have hread : ∀ (d : Cursor) (rs : List Reader), r ∈ rs →
      ∃ q, (⟨r, some q⟩ : Reading) ∈ d.readFor rs := by
    intro d rs hr
    induction rs generalizing d with
    | nil => cases hr
    | cons s rs ih =>
        rcases List.mem_cons.1 hr with rfl | hr
        · exact ⟨_, List.mem_cons_self⟩
        · obtain ⟨q, hq⟩ := ih d.skip hr
          exact ⟨q, List.mem_cons_of_mem _ hq⟩
  obtain ⟨q, hq⟩ := hread (c.skip.passCompanion i) _ hr
  unfold readings
  rw [if_neg (by simp [hi])]
  exact ⟨q, List.mem_cons_of_mem _ hq⟩

/-- Where nothing is read at the place, and neither walk stops to look at
it in passing, the values make no difference. -/
theorem readings_among_of_free (h : SameBut p c.values v)
    (hplace : ∀ r ∈ c.readings i, r.place ≠ some p)
    (hname : ∀ r ∈ c.readings i, p ≠ .name r.reader.input)
    (hstay : i.kind.wireOnly = false → p = .position c.skip.pos →
      (c.skip.passCompanion i).pos ≤ c.skip.pos
        ∧ ((c.skip.among v).passCompanion i).pos ≤ c.skip.pos) :
    (c.among v).readings i = c.readings i
      ∧ (c.among v).after i = (c.after i).among v := by
  by_cases hi : i.kind.wireOnly = true
  · unfold readings after
    rw [if_pos hi, if_pos hi, if_pos hi, if_pos hi]
    exact ⟨rfl, rfl⟩
  · have hi' : i.kind.wireOnly = false := by simpa using hi
    have hother : c.placeOf i.name ≠ p := fun heq =>
      hplace _ (declared_mem_readings hi') (congrArg some heq)
    refine readings_among h (by rw [h.values _ hother]) (fun r hr => ?_)
      (passCompanion_among (by rw [skip_values]; exact h) (hstay hi'))
    obtain ⟨q, hq⟩ := selected_mem_readings hi' hr
    exact hname _ hq

/-- Once the place is passed and nothing more is read there, the values
make no difference. -/
theorem walk_among (h : SameBut p c.values v) {declared : List InputType}
    (hpast : ∀ k, p = .position k → k < c.pos)
    (hplace : ∀ r ∈ c.walk declared, r.place ≠ some p)
    (hname : ∀ r ∈ c.walk declared, p ≠ .name r.reader.input) :
    (c.among v).walk declared = c.walk declared := by
  induction declared generalizing c with
  | nil => rfl
  | cons i declared ih =>
      obtain ⟨hplace, hplaces⟩ := List.forall_mem_append.1 hplace
      obtain ⟨hname, hnames⟩ := List.forall_mem_append.1 hname
      have hrest : SameBut p (c.after i).values v := by
        rw [after_values]
        exact h
      have hwalk := ih hrest (fun k hk =>
        Nat.lt_of_lt_of_le (hpast k hk) (c.pos_le_after i)) hplaces hnames
      obtain ⟨hstep, hafter⟩ := readings_among_of_free h hplace hname
        fun _ hp => absurd (hpast _ hp) (Nat.not_lt.2 c.pos_le_skip)
      rw [walk, walk, hstep, hafter, hwalk]

/-- A reading for a declared input is that input's own. -/
theorem of_declared_mem_readings {i j : InputType} {q : Place}
    (h : (⟨.declared i, some q⟩ : Reading) ∈ c.readings j) :
    i = j ∧ j.kind.wireOnly = false ∧ q = c.placeOf j.name := by
  unfold readings at h
  split at h
  · cases List.mem_singleton.1 h
  · next hj =>
    rcases List.mem_cons.1 h with heq | hmem
    · cases heq
      exact ⟨rfl, by simpa using hj, rfl⟩
    · cases (follows_of_mem_readFor (fun r hr => follows_of_mem_selected hr)
        hmem).1

variable {x : String}

/-- An input before the one that the value is read for. Neither walk has
passed the place yet, and so neither has passed over it as a word. -/
theorem readings_among_of_later (h : SameBut p c.values v)
    (hx : ∀ s, p = .name s → s = x) {i j : InputType}
    (hother : ∀ r ∈ c.readings j, r.reader.input ≠ x)
    (honly : ∀ r ∈ c.readings j, r.place = some p → r.reader.input = x)
    {rest : List InputType}
    (hc : (⟨.declared i, some p⟩ : Reading) ∈ (c.after j).walk rest)
    (hv : (⟨.declared i, some p⟩ : Reading) ∈ ((c.among v).after j).walk rest) :
    (c.among v).readings j = c.readings j
      ∧ (c.among v).after j = (c.after j).among v := by
  refine readings_among_of_free h (fun r hr hp => hother r hr (honly r hr hp))
    (fun r hr hp => hother r hr (hx _ hp)) fun hj hp => ?_
  have hplace : (⟨.declared i, some p⟩ : Reading).place
      = some (.position c.skip.pos) := congrArg some hp
  constructor
  · exact Nat.le_trans (pos_passCompanion_le_after hj)
      (pos_le_of_mem_walk hc hplace)
  · rw [← skip_among h.shape]
    exact Nat.le_trans (pos_passCompanion_le_after hj)
      (pos_le_of_mem_walk hv hplace)

/-- The walk from the input on that the value is read for. -/
theorem walk_among_of_here (h : SameBut p c.values v)
    (hvalue : (valueAt? c.values p).isSome = true)
    (hx : ∀ s, p = .name s → s = x)
    (hsel : selectedBy i (valueAt? v p) = selectedBy i (valueAt? c.values p))
    (hhere : (c.readings i).filter (·.reader.input = x)
      = [⟨.declared i, some p⟩]) {rest : List InputType}
    (hother : ∀ r ∈ (c.after i).walk rest, r.reader.input ≠ x)
    (honly : ∀ r ∈ (c.after i).walk rest, r.place = some p →
      r.reader.input = x) :
    (c.among v).walk (i :: rest) = c.walk (i :: rest) := by
  have hin : (⟨.declared i, some p⟩ : Reading)
      ∈ (c.readings i).filter (·.reader.input = x) := by
    rw [hhere]
    exact List.mem_singleton_self _
  obtain ⟨-, hi, hp⟩ := of_declared_mem_readings (List.mem_of_mem_filter hin)
  have hselected : ∀ r ∈ c.selected i, p ≠ .name r.input := by
    intro r hr hp
    obtain ⟨q, hq⟩ := selected_mem_readings hi hr
    have hfiltered : (⟨r, some q⟩ : Reading)
        ∈ (c.readings i).filter (·.reader.input = x) :=
      List.mem_filter.2 ⟨hq, decide_eq_true (hx _ hp)⟩
    rw [hhere] at hfiltered
    cases List.mem_singleton.1 hfiltered
    cases follows_of_mem_selected hr
  have hpast : ∀ k, p = .position k → k < c.skip.pos :=
    fun k hk => lt_pos_skip (hp.symm.trans hk) (hk ▸ hvalue)
  obtain ⟨hstep, hafter⟩ := readings_among h (hp ▸ hsel) hselected
    (passCompanion_among (by rw [skip_values]; exact h)
      fun hk => absurd (hpast _ hk) (Nat.lt_irrefl _))
  have hvalues : (c.after i).values = c.values := c.after_values i
  have hrest := walk_among (c := c.after i) (hvalues ▸ h)
    (fun k hk => Nat.lt_of_lt_of_le (hpast k hk) (Nat.le_trans
      (c.skip.pos_le_passCompanion i) (pos_passCompanion_le_after hi)))
    (fun r hr hq => hother r hr (honly r hr hq))
    (fun r hr hq => hother r hr (hx _ hq))
  rw [walk, walk, hstep, hafter, hrest]

/-- The same readings from both values: up to the input that the value is
read for, at this input, and after it. -/
theorem walk_eq (h : SameBut p c.values v)
    (hvalue : (valueAt? c.values p).isSome = true)
    (hx : ∀ s, p = .name s → s = x)
    (hsel : selectedBy i (valueAt? v p) = selectedBy i (valueAt? c.values p))
    {declared : List InputType}
    (hc : (c.walk declared).filter (·.reader.input = x)
      = [⟨.declared i, some p⟩])
    (hv : ((c.among v).walk declared).filter (·.reader.input = x)
      = [⟨.declared i, some p⟩])
    (honly : ∀ r ∈ c.walk declared, r.place = some p → r.reader.input = x) :
    (c.among v).walk declared = c.walk declared := by
  have hmem : ∀ {l : List Reading},
      l.filter (·.reader.input = x) = [⟨.declared i, some p⟩] →
      (⟨.declared i, some p⟩ : Reading) ∈ l ∧ i.name = x := by
    intro l hl
    have hin : (⟨.declared i, some p⟩ : Reading)
        ∈ l.filter (·.reader.input = x) := by
      rw [hl]
      exact List.mem_singleton_self _
    exact ⟨List.mem_of_mem_filter hin,
      of_decide_eq_true (List.mem_filter.1 hin).2⟩
  have hnone : ∀ {l : List Reading}, l.filter (·.reader.input = x) = [] →
      ∀ r ∈ l, r.reader.input ≠ x :=
    fun hl r hr => by simpa using List.filter_eq_nil_iff.1 hl r hr
  induction declared generalizing c with
  | nil => rfl
  | cons j declared ih =>
      obtain ⟨honlyj, honly⟩ := List.forall_mem_append.1 honly
      rw [walk, List.filter_append] at hc hv
      rcases List.append_eq_singleton_iff.1 hc with ⟨hno, hc⟩ | ⟨hhere, hno⟩
      · rcases List.append_eq_singleton_iff.1 hv with ⟨-, hv⟩ | ⟨hhere, -⟩
        · -- the input comes later in both
          obtain ⟨hstep, hafter⟩ := readings_among_of_later h hx (hnone hno)
            honlyj (hmem hc).1 (hmem hv).1
          rw [hafter] at hv
          have hvalues : (c.after j).values = c.values := c.after_values j
          rw [walk, walk, hstep, hafter,
            ih (hvalues ▸ h) (hvalues ▸ hvalue) (hvalues ▸ hsel) hc hv honly]
        · obtain ⟨hin, hname⟩ := hmem hhere
          obtain ⟨rfl, hi, -⟩ := of_declared_mem_readings hin
          have hno := hnone hno _ (declared_mem_readings hi)
          exact absurd hname hno
      · obtain ⟨rfl, -, -⟩ := of_declared_mem_readings (hmem hhere).1
        exact walk_among_of_here h hvalue hx hsel hhere (hnone hno) honly

end

end Cursor

-- ==== inputs that are read for once

/-- One value is read for the input's name, and it is read for the
declared input. -/
def ReadOnceAt (declared : List InputType) (values : Widgets)
    (i : InputType) (q : Place) : Prop :=
  (readings declared values).filter (·.reader.input = i.name)
    = [⟨.declared i, some q⟩]

/-- The readings that are not for followers are for the declared inputs,
one after the other. -/
theorem walk_declared (c : Cursor) (declared : List InputType) :
    ((c.walk declared).filter fun r => !r.reader.follows).map (·.reader)
      = declared.map .declared := by
  induction declared generalizing c with
  | nil => rfl
  | cons i declared ih =>
      rw [Cursor.walk, List.filter_append, List.map_append, ih, List.map_cons]
      unfold Cursor.readings
      split
      · rfl
      · rw [List.filter_cons_of_pos rfl, List.filter_eq_nil_iff.2]
        · rfl
        · intro r hr
          simp [(follows_of_mem_readFor
            (fun q hq => follows_of_mem_selected hq) hr).1]

variable {declared : List InputType} {values : Widgets}

/-- An input that is declared once and selected by no value is read for
once, if it may hold a literal. -/
theorem exists_readOnceAt {i : InputType}
    (hi : declared.filter (·.name = i.name) = [i])
    (hliteral : i.kind.wireOnly = false)
    (hfollow : ∀ r ∈ readings declared values, r.reader.follows = true →
      r.reader.input ≠ i.name) :
    ∃ q, ReadOnceAt declared values i q := by
  have hown : (readings declared values).filter (·.reader.input = i.name)
      = ((readings declared values).filter fun r => !r.reader.follows).filter
          (·.reader.input = i.name) := by
    rw [List.filter_filter]
    refine List.filter_congr fun r hr => ?_
    cases hr' : r.reader.follows with
    | false => simp
    | true => simp [hfollow r hr hr']
  have hreaders : ((readings declared values).filter
      (·.reader.input = i.name)).map (·.reader) = [.declared i] := by
    have hmap : ∀ l : List Reading,
        (l.filter (·.reader.input = i.name)).map (·.reader)
          = (l.map (·.reader)).filter (·.input = i.name) := by
      intro l
      rw [List.filter_map]
      rfl
    rw [hown, hmap, readings, walk_declared, List.filter_map]
    show (declared.filter (·.name = i.name)).map _ = _
    rw [hi]
    rfl
  unfold ReadOnceAt
  cases hlist : (readings declared values).filter
      (·.reader.input = i.name) with
  | nil =>
      rw [hlist] at hreaders
      cases hreaders
  | cons r rest =>
      rw [hlist, List.map_cons, List.cons.injEq, List.map_eq_nil_iff]
        at hreaders
      obtain ⟨hreader, rfl⟩ := hreaders
      have hr : r ∈ readings declared values := by
        refine List.mem_of_mem_filter (p := (·.reader.input = i.name)) ?_
        rw [hlist]
        exact List.mem_singleton_self r
      obtain ⟨reader, place⟩ := r
      cases hreader
      rcases mem_walk hr with ⟨j, -, hj, heq⟩ | ⟨j, -, -, -, hplace⟩ | ⟨hno, -⟩
      · cases heq
        rw [hj] at hliteral
        cases hliteral
      · obtain ⟨q, rfl⟩ := Option.isSome_iff_exists.1 hplace
        exact ⟨q, rfl⟩
      · cases hno

variable {q : Place}

theorem ReadOnceAt.mem {i : InputType} (h : ReadOnceAt declared values i q) :
    (⟨.declared i, some q⟩ : Reading) ∈ readings declared values := by
  have hin : (⟨.declared i, some q⟩ : Reading)
      ∈ (readings declared values).filter (·.reader.input = i.name) := by
    rw [h]
    exact List.mem_singleton_self _
  exact List.mem_of_mem_filter hin

/-- Values with names are read under the input's name. -/
theorem ReadOnceAt.eq_name {i : InputType} (h : ReadOnceAt declared values i q)
    (hkeyed : values.isKeyed = true) : q = .name i.name := by
  suffices hwalk : ∀ (l : List InputType) (c : Cursor),
      c.values.isKeyed = true →
      (⟨.declared i, some q⟩ : Reading) ∈ c.walk l → q = .name i.name from
    hwalk declared { values } hkeyed h.mem
  intro l
  induction l with
  | nil =>
      intro c _ hmem
      cases hmem
  | cons j l ih =>
      intro c hc hmem
      rcases List.mem_append.1 hmem with hmem | hmem
      · obtain ⟨rfl, -, rfl⟩ := Cursor.of_declared_mem_readings hmem
        exact if_pos hc
      · exact ih (c.after j) (by rw [Cursor.after_values]; exact hc) hmem

/-- Only readings for a name put anything under it. -/
theorem findSome?_put?_filter (wires : List (String × Input))
    (values : Widgets) (name : String) (l : List Reading) :
    (l.filter (·.reader.input = name)).findSome?
        (Reading.put? wires values name)
      = l.findSome? (Reading.put? wires values name) := by
  induction l with
  | nil => rfl
  | cons r l ih =>
      by_cases hr : r.reader.input = name
      · rw [List.filter_cons_of_pos (by simpa using hr), List.findSome?_cons,
          List.findSome?_cons, ih]
      · have hnone : r.put? wires values name = none := if_neg hr
        rw [List.filter_cons_of_neg (by simpa using hr), List.findSome?_cons,
          hnone, ih]

/-- What is put under the name of an input that is read for once and not
wired. -/
theorem get?_fillInputs_readOnce {wires : List (String × Input)}
    (node : String) {i : InputType} (h : ReadOnceAt declared values i q)
    (hliteral : i.kind.wireOnly = false) (hwire : wire? wires i.name = none) :
    Assoc.get? (fillInputs node declared values wires).1 i.name
      = if pseudoInputs.contains i.name then none
        else (nonNull? (valueAt? values q)).map .literal := by
  have hput : Reading.put? wires values i.name ⟨.declared i, some q⟩
      = (Reader.declared i).give? wires (nonNull? (valueAt? values q)) :=
    if_pos rfl
  rw [get?_fillInputs_eq, hwire, Option.or_none, ← findSome?_put?_filter,
    List.filter_reverse, h, List.reverse_singleton, List.findSome?_singleton,
    hput, Reader.give?, hwire, Option.none_or]
  by_cases hpseudo : pseudoInputs.contains i.name = true
  · rw [if_pos ⟨hliteral, hpseudo⟩, if_pos hpseudo]
  · rw [if_neg fun h => hpseudo h.2, if_neg hpseudo]

-- ==== a value replaced

/-- A replaced value that is read for the same input and selects the same
inputs leaves everything else to be read as it was. -/
theorem readings_eq {p : Place} {u v : Widgets} (h : SameBut p u v)
    (hvalue : (valueAt? u p).isSome = true) {i : InputType}
    (hi : ∀ s, p = .name s → s = i.name)
    (hsel : selectedBy i (valueAt? v p) = selectedBy i (valueAt? u p))
    (hu : ReadOnceAt declared u i p) (hv : ReadOnceAt declared v i p)
    (honly : ∀ r ∈ readings declared u, r.place = some p →
      r.reader.input = i.name) :
    readings declared v = readings declared u :=
  Cursor.walk_eq (c := { values := u }) h hvalue hi hsel hu hv honly

theorem findSome?_congr {α β : Type} {f g : α → Option β} {l : List α}
    (h : ∀ a ∈ l, f a = g a) : l.findSome? f = l.findSome? g := by
  induction l with
  | nil => rfl
  | cons a l ih =>
      rw [List.forall_mem_cons] at h
      rw [List.findSome?_cons, List.findSome?_cons, h.1, ih h.2]

/-- And so every other input is as it was. -/
theorem get?_fillInputs_of_readings_eq {p : Place} {u v : Widgets}
    (h : SameBut p u v) (hsame : readings declared v = readings declared u)
    {x : String}
    (honly : ∀ r ∈ readings declared u, r.place = some p → r.reader.input = x)
    (node : String) (wires : List (String × Input)) {y : String} (hy : y ≠ x) :
    Assoc.get? (fillInputs node declared v wires).1 y
      = Assoc.get? (fillInputs node declared u wires).1 y := by
  have hput : ∀ r ∈ readings declared u,
      r.put? wires v y = r.put? wires u y := by
    intro r hr
    unfold Reading.put?
    by_cases hname : r.reader.input = y
    · have hvalue : r.value? v = r.value? u := by
        unfold Reading.value?
        cases hplace : r.place with
        | none => rfl
        | some q =>
            have hq : q ≠ p := by
              rintro rfl
              exact hy (hname.symm.trans (honly r hr hplace))
            rw [Option.bind_some, Option.bind_some, h.values q hq]
      rw [hvalue]
    · rw [if_neg hname, if_neg hname]
  rw [get?_fillInputs_eq, get?_fillInputs_eq, hsame]
  congr 1
  exact findSome?_congr fun r hr => hput r (List.mem_reverse.1 hr)

-- ==== counted places

/-- The value of an input is all there is to it: no control value stands
after it, and it selects no other inputs. -/
structure Alone (values : Widgets) (i : InputType) : Prop where
  control : i.control = false
  word : i.kind = .int → ∀ pos, Cursor.atControlWord ⟨values, pos⟩ = false
  formats : i.formats = []
  kind : i.kind ≠ .dynamicCombo

/-- An input that is alone takes one value. -/
theorem Alone.after_eq {c : Cursor} {i : InputType} (h : Alone c.values i)
    (hi : i.kind.wireOnly = false) : c.after i = c.skip := by
  have hselected : c.selected i = [] := by
    unfold Cursor.selected followers
    split
    · rw [h.formats, if_neg h.kind]
      rfl
    · rfl
  have hpass : c.skip.passCompanion i = c.skip := by
    unfold Cursor.passCompanion
    rw [h.control]
    split
    · rfl
    · rw [if_neg (by simp), if_neg]
      rw [Bool.and_eq_true, decide_eq_true_iff]
      rintro ⟨hint, hword⟩
      have hno := h.word hint c.skip.pos
      rw [← c.skip_values] at hno
      rw [hno] at hword
      cases hword
  unfold Cursor.after
  rw [if_neg (by simp [hi]), hselected, hpass]
  rfl

/-- The number of values that are read for inputs that stand alone. -/
def literalCount (declared : List InputType) : Nat :=
  (declared.filter fun i => !i.kind.wireOnly).length

/-- After such inputs the cursor stands at their number. -/
theorem walk_alone {vs : List Json} {before : List InputType}
    (hbefore : ∀ i ∈ before, i.kind.wireOnly = false →
      Alone (.positional vs) i)
    {pos : Nat} (hlength : pos + literalCount before ≤ vs.length)
    (rest : List InputType) :
    ∃ rs, Cursor.walk ⟨.positional vs, pos⟩ (before ++ rest)
      = rs ++ Cursor.walk ⟨.positional vs, pos + literalCount before⟩ rest := by
  induction before generalizing pos with
  | nil => exact ⟨[], rfl⟩
  | cons i before ih =>
      rw [List.forall_mem_cons] at hbefore
      -- an input that is only wired reads nothing, any other one value
      obtain ⟨next, hafter, hnext⟩ : ∃ next,
          Cursor.after ⟨.positional vs, pos⟩ i = ⟨.positional vs, next⟩
            ∧ next + literalCount before = pos + literalCount (i :: before) := by
        unfold literalCount at hlength ⊢
        by_cases hi : i.kind.wireOnly = true
        · refine ⟨pos, if_pos hi, ?_⟩
          rw [List.filter_cons_of_neg (by simp [hi])]
        · have hi' : i.kind.wireOnly = false := by simpa using hi
          rw [List.filter_cons_of_pos (by simp [hi']), List.length_cons]
            at hlength ⊢
          refine ⟨pos + 1, ?_, by omega⟩
          rw [Alone.after_eq (hbefore.1 hi') hi']
          exact if_pos (show pos < vs.length by omega)
      obtain ⟨rs, hrs⟩ := @ih hbefore.2 next (by omega)
      refine ⟨Cursor.readings ⟨.positional vs, pos⟩ i ++ rs, ?_⟩
      rw [List.cons_append, Cursor.walk, hafter, hrs, List.append_assoc, hnext]

/-- An input that comes after such inputs only reads the value at their
number. -/
theorem ReadOnceAt.eq_position {declared before rest : List InputType}
    {vs : List Json} {i : InputType}
    (h : ReadOnceAt declared (.positional vs) i q)
    (hdeclared : declared = before ++ i :: rest)
    (hliteral : i.kind.wireOnly = false)
    (hbefore : ∀ j ∈ before, j.kind.wireOnly = false →
      Alone (.positional vs) j) (hlength : literalCount before ≤ vs.length) :
    q = .position (literalCount before) := by
  obtain ⟨rs, hrs⟩ := @walk_alone vs before hbefore 0
    (by rw [Nat.zero_add]; exact hlength) (i :: rest)
  rw [Nat.zero_add] at hrs
  have hmem : (⟨.declared i, some (.position (literalCount before))⟩ : Reading)
      ∈ (readings declared (.positional vs)).filter
          (·.reader.input = i.name) := by
    refine List.mem_filter.2 ⟨?_, decide_eq_true rfl⟩
    rw [readings, hdeclared, hrs]
    refine List.mem_append_right _ (List.mem_append_left _ ?_)
    exact Cursor.declared_mem_readings hliteral
  rw [h] at hmem
  cases List.mem_singleton.1 hmem
  rfl

end PromptGraph.Flatten

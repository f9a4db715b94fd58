/-
Wires and widget values that come under one name.

A declared input that is wired holds its wire, whatever widget value is
read for it, and a wire to an undeclared input is kept. The exception
are followers, the inputs that another input's value selects: they put
the value that they read without a look at the wires, and whatever their
declared kind. So a wire is kept unless a follower has the last word
(`wire_kept_unless_displaced`). An input that is only ever wired takes
no widget value where it is declared, and takes one where it is a
sub-input (`wireOnly_reads_only_as_subInput`).
-/
import PromptGraph.Proofs.Flatten.Reading

namespace PromptGraph.Flatten

open Editor
open Execution (Input)

-- ==== the last word

/-- The last of a list for which there is a value. -/
theorem findSome?_reverse_eq_some_iff {α β : Type} {f : α → Option β}
    {l : List α} {b : β} :
    l.reverse.findSome? f = some b
      ↔ ∃ before a after, l = before ++ a :: after ∧ f a = some b
          ∧ ∀ x ∈ after, f x = none := by
  rw [List.findSome?_eq_some_iff]
  constructor
  · rintro ⟨l₁, a, l₂, hl, ha, hl₁⟩
    refine ⟨l₂.reverse, a, l₁.reverse, ?_, ha, fun x hx => ?_⟩
    · rw [← l.reverse_reverse, hl]
      simp
    · exact hl₁ x (List.mem_reverse.1 hx)
  · rintro ⟨before, a, after, rfl, ha, hafter⟩
    refine ⟨after.reverse, a, before.reverse, by simp, ha, fun x hx => ?_⟩
    exact hafter x (List.mem_reverse.1 hx)

/-- The reading has something to put under a name that is wired: a
declared input the wire, a follower the value that it has read. -/
def Reading.claims (values : Widgets) (name : String) (r : Reading) : Bool :=
  r.reader.input = name &&
    match r.reader with
    | .declared i => i.kind.wireOnly || !pseudoInputs.contains i.name
    | _ => (r.value? values).isSome

variable {wires : List (String × Input)} {name : String} {w : Input}

/-- What is put under a wired name. -/
theorem put?_of_wire (hwire : wire? wires name = some w) (values : Widgets)
    (r : Reading) :
    r.put? wires values name
      = if r.claims values name then
          if r.reader.follows then (r.value? values).map .literal else some w
        else none := by
  unfold Reading.put? Reading.claims
  by_cases hname : r.reader.input = name
  · rw [if_pos hname, decide_eq_true hname, Bool.true_and]
    cases hreader : r.reader with
    | declared i =>
        rw [hreader] at hname
        have hown : wire? wires i.name = some w := by
          rw [← hwire, ← hname]
          rfl
        rw [Reader.give?, hown]
        by_cases hwireOnly : i.kind.wireOnly = true
        · simp [hwireOnly, Reader.follows]
        · simp [hwireOnly, Reader.follows]
    | extra i extraName =>
        rw [Reader.give?]
        · cases r.value? values with
          | none => rfl
          | some v => rfl
        · intro _ h
          cases h
    | sub i s =>
        rw [Reader.give?]
        · cases r.value? values with
          | none => rfl
          | some v => rfl
        · intro _ h
          cases h
  · rw [if_neg hname, decide_eq_false hname, Bool.false_and]
    rfl

theorem put?_eq_none_iff (hwire : wire? wires name = some w) (values : Widgets)
    (r : Reading) :
    r.put? wires values name = none ↔ r.claims values name = false := by
  rw [put?_of_wire hwire]
  cases hclaims : r.claims values name with
  | false => simp
  | true =>
      cases hreader : r.reader with
      | declared i => simp [Reader.follows]
      | extra i extraName =>
          unfold Reading.claims at hclaims
          rw [hreader] at hclaims
          simpa [Reader.follows, Option.isSome_iff_ne_none] using
            (Bool.and_eq_true_iff.1 hclaims).2
      | sub i s =>
          unfold Reading.claims at hclaims
          rw [hreader] at hclaims
          simpa [Reader.follows, Option.isSome_iff_ne_none] using
            (Bool.and_eq_true_iff.1 hclaims).2

theorem wire?_of_mem (hnames : (wires.map Prod.fst).Nodup)
    (h : (name, w) ∈ wires) : wire? wires name = some w := by
  unfold wire?
  cases hfind : wires.find? (·.1 = name) with
  | none =>
      have hno := List.find?_eq_none.1 hfind _ h
      exact absurd (decide_eq_true rfl) hno
  | some e =>
      have hname : e.1 = name := by simpa using List.find?_some hfind
      rw [List.inj_on_of_nodup_map hnames (List.mem_of_find?_eq_some hfind) h
        hname]
      rfl

-- ==== where wires are lost

/-- Among all that is read for a node, the last that has something to
put under this name is a follower, and it has read this value. -/
def Displaced (declared : List InputType) (values : Widgets) (name : String)
    (v : Json) : Prop :=
  ∃ before r after, readings declared values = before ++ r :: after
    ∧ r.reader.follows = true ∧ r.reader.input = name
    ∧ r.value? values = some v ∧ ∀ q ∈ after, q.claims values name = false

/-- A wire is never lost to the widget value of its own input, declared
or not, and not to a name that is no input; it is lost exactly to a
follower of the same name that reads a value and has the last word. Then
the value stands under the name, and else the wire. -/
theorem wire_kept_unless_displaced {wires : List (String × Input)}
    (hnames : (wires.map Prod.fst).Nodup) {name : String} {w : Input}
    (hw : (name, w) ∈ wires) (node : String) (declared : List InputType)
    (values : Widgets) :
    (∀ v, Displaced declared values name v →
      Assoc.get? (fillInputs node declared values wires).1 name
        = some (.literal v))
    ∧ ((¬ ∃ v, Displaced declared values name v) →
      Assoc.get? (fillInputs node declared values wires).1 name = some w) := by
  have hwire : wire? wires name = some w := wire?_of_mem hnames hw
  rw [get?_fillInputs_eq, hwire]
  constructor
  · rintro v ⟨before, r, after, hsplit, hfollows, hname, hv, hafter⟩
    have hlast : (readings declared values).reverse.findSome?
        (Reading.put? wires values name) = some (.literal v) := by
      refine findSome?_reverse_eq_some_iff.2
        ⟨before, r, after, hsplit, ?_, fun q hq => ?_⟩
      · rw [Reading.put?, if_pos hname, Reader.give?_of_follows wires hfollows, hv]
        rfl
      · exact (put?_eq_none_iff hwire values q).2 (hafter q hq)
    rw [hlast]
    rfl
  · intro hno
    cases hlast : (readings declared values).reverse.findSome?
        (Reading.put? wires values name) with
    | none => rfl
    | some u =>
        obtain ⟨before, r, after, hsplit, hr, hafter⟩ :=
          findSome?_reverse_eq_some_iff.1 hlast
        have hquiet : ∀ q ∈ after, q.claims values name = false :=
          fun q hq => (put?_eq_none_iff hwire values q).1 (hafter q hq)
        rw [put?_of_wire hwire] at hr
        split at hr
        · next hclaims =>
          split at hr
          · next hfollows =>
            obtain ⟨v, hv, -⟩ := Option.map_eq_some_iff.1 hr
            have hname : r.reader.input = name :=
              of_decide_eq_true (Bool.and_eq_true_iff.1 hclaims).1
            exact absurd ⟨v, before, r, after, hsplit, hfollows, hname, hv,
              hquiet⟩ hno
          · rw [← hr]
            rfl
        · cases hr

/-- A choice of formats, one of which brings a rate with it. -/
def formatInput : InputType :=
  .mk "format" "COMBO" .combo .required false (some ["png", "gif"])
    [("gif", ["rate"])] none

def textInput : InputType :=
  .mk "text" "STRING" .string .required false none [] none

/-- A node that saves a text in the format chosen. -/
def savedGif : Widgets :=
  .positional [.string "gif", .number "8", .string "hi"]

def savedGifWires : List (String × Input) :=
  [("rate", .ref ⟨"1", 0⟩), ("text", .ref ⟨"3", 0⟩)]

/-- Rate and text are both wired. The text holds its wire and not its
widget value; the rate is displaced by the value that the format brings
with it. -/
theorem wire_kept_unless_displaced_savedGif :
    Displaced [formatInput, textInput] savedGif "rate" (.number "8")
      ∧ Assoc.get? (fillInputs "2" [formatInput, textInput] savedGif
          savedGifWires).1 "rate" = some (.literal (.number "8"))
      ∧ (¬ ∃ v, Displaced [formatInput, textInput] savedGif "text" v)
      ∧ Assoc.get? (fillInputs "2" [formatInput, textInput] savedGif
          savedGifWires).1 "text" = some (.ref ⟨"3", 0⟩) := by
  have hrate : Displaced [formatInput, textInput] savedGif "rate"
      (.number "8") :=
    ⟨[⟨.declared formatInput, some (.position 0)⟩],
      ⟨.extra formatInput "rate", some (.position 1)⟩,
      [⟨.declared textInput, some (.position 2)⟩], rfl, rfl, rfl, rfl,
      by decide⟩
  have htext : ¬ ∃ v, Displaced [formatInput, textInput] savedGif "text" v := by
    rintro ⟨v, before, r, after, hsplit, hfollows, hname, -⟩
    have hr : r ∈ readings [formatInput, textInput] savedGif := by
      rw [hsplit]
      simp
    have hother : ∀ q ∈ readings [formatInput, textInput] savedGif,
        q.reader.follows = true → q.reader.input ≠ "text" := by decide
    exact hother r hr hfollows hname
  have hnames : (savedGifWires.map Prod.fst).Nodup := by decide
  exact ⟨hrate,
    (wire_kept_unless_displaced hnames (.head _) "2" _ savedGif).1 _ hrate,
    htext,
    (wire_kept_unless_displaced hnames (.tail _ (.head _)) "2" _
      savedGif).2 htext⟩

/-- A dynamic choice whose option has a rate and a mask. -/
def modeInput : InputType :=
  .mk "mode" "COMFY_DYNAMICCOMBO_V3" .dynamicCombo .required false none []
    (some [("fast", [.mk "rate" "INT" .int .required false none [] none,
      .mk "mask" "MASK" .wire .required false none [] none])])

/-- A wire is lost to the value that a format or an option brings with
it, under the same name. -/
theorem wire_lost_to_follower :
    Assoc.get? (fillInputs "2" [formatInput]
        (.positional [.string "gif", .number "8"])
        [("rate", .ref ⟨"1", 0⟩)]).1 "rate"
      = some (.literal (.number "8"))
    ∧ Assoc.get? (fillInputs "2" [modeInput]
        (.keyed [("mode", .string "fast"), ("mode.rate", .number "8")])
        [("mode.rate", .ref ⟨"1", 0⟩)]).1 "mode.rate"
      = some (.literal (.number "8")) := ⟨rfl, rfl⟩

-- ==== inputs only wired

variable {c : Cursor}

theorem follows_of_mem_selected {i : InputType} {r : Reader}
    (h : r ∈ c.selected i) : r.follows = true := by
  unfold Cursor.selected at h
  split at h
  · exact follows_of_mem_followers h
  · cases h

variable {r : Reading}

/-- What is read for followers is read for followers, and somewhere. -/
theorem follows_of_mem_readFor {rs : List Reader}
    (hrs : ∀ q ∈ rs, q.follows = true) (hr : r ∈ c.readFor rs) :
    r.reader.follows = true ∧ r.place.isSome = true := by
  induction rs generalizing c with
  | nil => cases hr
  | cons q rs ih =>
      rcases List.mem_cons.1 hr with rfl | hr
      · exact ⟨hrs q List.mem_cons_self, rfl⟩
      · exact ih (fun p hp => hrs p (List.mem_cons_of_mem q hp)) hr

/-- Everything that is read for: a declared input that is only wired,
which reads nothing; another declared input; or a follower. -/
theorem mem_walk {declared : List InputType} (h : r ∈ c.walk declared) :
    (∃ i ∈ declared, i.kind.wireOnly = true ∧ r = ⟨.declared i, none⟩)
      ∨ (∃ i ∈ declared, i.kind.wireOnly = false ∧ r.reader = .declared i
          ∧ r.place.isSome = true)
      ∨ r.reader.follows = true ∧ r.place.isSome = true := by
  induction declared generalizing c with
  | nil => cases h
  | cons i declared ih =>
      rcases List.mem_append.1 h with h | h
      · unfold Cursor.readings at h
        split at h
        · next hi =>
          exact .inl ⟨i, List.mem_cons_self, hi, List.mem_singleton.1 h⟩
        · next hi =>
          rcases List.mem_cons.1 h with rfl | h
          · exact .inr (.inl ⟨i, List.mem_cons_self, by simpa using hi, rfl,
              rfl⟩)
          · exact .inr (.inr (follows_of_mem_readFor
              (fun q hq => follows_of_mem_selected hq) h))
      · rcases ih h with ⟨j, hj, hrest⟩ | ⟨j, hj, hrest⟩ | hrest
        · exact .inl ⟨j, List.mem_cons_of_mem i hj, hrest⟩
        · exact .inr (.inl ⟨j, List.mem_cons_of_mem i hj, hrest⟩)
        · exact .inr (.inr hrest)

/-- As far as reading goes, a declared input that is only wired might as
well not be declared. -/
theorem filter_walk (c : Cursor) (declared : List InputType) :
    (c.walk declared).filter (·.place.isSome)
      = c.walk (declared.filter fun i => !i.kind.wireOnly) := by
  induction declared generalizing c with
  | nil => rfl
  | cons i declared ih =>
      rw [Cursor.walk, List.filter_append, ih]
      by_cases hi : i.kind.wireOnly = true
      · rw [List.filter_cons_of_neg (by simp [hi]), Cursor.readings, if_pos hi,
          Cursor.after, if_pos hi]
        rfl
      · rw [List.filter_cons_of_pos (by simp [hi]), Cursor.walk]
        congr 1
        refine List.filter_eq_self.2 fun r hr => ?_
        have hwalk : r ∈ c.walk [i] := List.mem_append_left _ hr
        rcases mem_walk hwalk with ⟨j, hj, hwire, -⟩ | ⟨-, -, -, -, hplace⟩
          | ⟨-, hplace⟩
        · rw [List.mem_singleton.1 hj] at hwire
          exact absurd hwire hi
        · exact hplace
        · exact hplace

/-- What is put under a name is its wire or the value that is read. -/
theorem of_put? {values : Widgets} {u : Input}
    (h : r.put? wires values name = some u) :
    r.reader.input = name ∧ (wire? wires name = some u
      ∨ ∃ v, r.value? values = some v ∧ u = .literal v) := by
  unfold Reading.put? at h
  split at h
  · next hname =>
    refine ⟨hname, ?_⟩
    by_cases hfollows : r.reader.follows = true
    · rw [Reader.give?_of_follows wires hfollows] at h
      obtain ⟨v, hv, rfl⟩ := Option.map_eq_some_iff.1 h
      exact .inr ⟨v, hv, rfl⟩
    · cases hreader : r.reader with
      | declared i =>
          rw [hreader] at h hname
          rw [Reader.give?] at h
          split at h
          · cases h
          · rw [show i.name = name from hname] at h
            rcases Option.or_eq_some_iff.1 h with h | ⟨-, h⟩
            · exact .inl h
            · obtain ⟨v, hv, rfl⟩ := Option.map_eq_some_iff.1 h
              exact .inr ⟨v, hv, rfl⟩
      | extra i extraName =>
          rw [hreader] at hfollows
          exact absurd rfl hfollows
      | sub i s =>
          rw [hreader] at hfollows
          exact absurd rfl hfollows
  · cases h

/-- It reads for an input that is declared as only wired. -/
def Reader.wireOnly (r : Reader) : Bool := r.kind?.any Kind.wireOnly

/-- Inputs that are only ever wired, and widget values.

One that the type declares itself reads none, and all others read as if
it were not declared. One that is a sub-input of the selected option
reads a value, as every sub-input does. A name under which nothing is
read holds exactly its wire, and what it holds in any case is its wire or
a value that was read under it. The value that a sub-input has read
stands under its name unless someone else comes later under that name. -/
theorem wireOnly_reads_only_as_subInput (node : String)
    (declared : List InputType) (values : Widgets)
    (wires : List (String × Input)) :
    let rs := readings declared values
    let inputs := (fillInputs node declared values wires).1
    rs.filter (·.place.isSome)
        = readings (declared.filter fun i => !i.kind.wireOnly) values
      ∧ (∀ r ∈ rs, r.reader.wireOnly = true →
          (r.place.isSome = true ↔ r.reader.follows = true))
      ∧ (∀ name, (∀ r ∈ rs, r.reader.input = name → r.value? values = none) →
          Assoc.get? inputs name = wire? wires name)
      ∧ (∀ name u, Assoc.get? inputs name = some u →
          wire? wires name = some u
            ∨ ∃ r ∈ rs, r.reader.input = name
                ∧ ∃ v, r.value? values = some v ∧ u = .literal v)
      ∧ ∀ before r after v, rs = before ++ r :: after →
          r.reader.follows = true → r.value? values = some v →
          (∀ q ∈ after, q.reader.input ≠ r.reader.input) →
          Assoc.get? inputs r.reader.input = some (.literal v) := by
  intro rs inputs
  have hget : ∀ name, Assoc.get? inputs name
      = (rs.reverse.findSome? (Reading.put? wires values name)).or
          (wire? wires name) :=
    fun name => get?_fillInputs_eq wires node declared values name
  -- what the last reading has put there was put by one of them
  have hfrom : ∀ name u,
      rs.reverse.findSome? (Reading.put? wires values name) = some u →
      ∃ r ∈ rs, r.put? wires values name = some u := by
    intro name u hu
    obtain ⟨r, hr, hput⟩ := List.exists_of_findSome?_eq_some hu
    exact ⟨r, List.mem_reverse.1 hr, hput⟩
  refine ⟨filter_walk _ _, fun r hr hwire => ?_, fun name hnone => ?_,
    fun name u hu => ?_, fun before r after v hsplit hfollows hv hlater => ?_⟩
  · rcases mem_walk hr with ⟨i, -, -, rfl⟩ | ⟨i, -, hi, hreader, -⟩
      | ⟨hfollows, hplace⟩
    · simp [Reader.follows]
    · rw [hreader] at hwire
      have hwire : i.kind.wireOnly = true := hwire
      rw [hi] at hwire
      cases hwire
    · simp [hfollows, hplace]
  · rw [hget]
    cases hlast : rs.reverse.findSome? (Reading.put? wires values name) with
    | none => rfl
    | some u =>
        obtain ⟨r, hr, hput⟩ := hfrom name u hlast
        obtain ⟨hname, hu | ⟨v, hv, -⟩⟩ := of_put? hput
        · rw [hu]
          rfl
        · rw [hnone r hr hname] at hv
          cases hv
  · rw [hget] at hu
    rcases Option.or_eq_some_iff.1 hu with hu | ⟨-, hu⟩
    · obtain ⟨r, hr, hput⟩ := hfrom name u hu
      obtain ⟨hname, hu | hv⟩ := of_put? hput
      · exact .inl hu
      · exact .inr ⟨r, hr, hname, hv⟩
    · exact .inl hu
  · have hlast : rs.reverse.findSome?
        (Reading.put? wires values r.reader.input) = some (.literal v) := by
      refine findSome?_reverse_eq_some_iff.2
        ⟨before, r, after, hsplit, ?_, fun q hq => if_neg (hlater q hq)⟩
      rw [Reading.put?, if_pos rfl, Reader.give?_of_follows wires hfollows, hv]
      rfl
    rw [hget, hlast]
    rfl

/-- The mask of the selected option is only ever wired, and yet it takes
the value of the input declared next. -/
theorem mask_takes_next_literal :
    (fillInputs "2" [.mk "mode" "COMFY_DYNAMICCOMBO_V3" .dynamicCombo
        .required false none [] (some [("masked",
          [.mk "mask" "MASK" .wire .required false none [] none])]),
        .mk "steps" "INT" .int .required false none [] none]
        (.positional [.string "masked", .number "20"]) []).1
      = [("mode", .literal (.string "masked")),
        ("mode.mask", .literal (.number "20"))] := rfl

end PromptGraph.Flatten

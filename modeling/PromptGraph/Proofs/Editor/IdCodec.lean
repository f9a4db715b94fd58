/-
What becomes of an id that is written and read again. Every id comes from
some JSON text (`exists_source`), and ids that are no integers come back
from their quoted form, whatever characters they hold. Two things go
wrong.

- What is written need not be JSON. Quoted text has escapes of its own,
  and an integer is written bare in the spelling it came with, where JSON
  has no plus sign and no leading zeros (`read?_write_isSome`).
- An integer is read through a double. It comes back in the one spelling
  that integers have, rounded, unless it is so large that its text is
  kept (`read_write_iff`). So integers that are rounded to the same one
  are read as the same id (`read_eq_iff`).
-/
import PromptGraph.Proofs.Editor.Id

namespace PromptGraph.Editor.Id

open Json (Source Digits Whole)
open Number (int64?)
open Number.Double (rounded Exact)
open Text.Quoted (Shared)

-- ==== sources

/-- Each id is what some JSON text stands for. -/
theorem exists_source (i : Id) :
    ∃ t, (Source.read? .strict t).isSome ∧ read t = .ok i := by
  refine ⟨Json.quote i.text, ?_, read_quote i.text⟩
  have hread : Source.readValue? .strict ((Json.quoteChars i.text).length + 1)
      (Json.quoteChars i.text ++ [])
        = some (.string (String.ofList (Json.Texts.inside i.text)), []) :=
    Source.readValue?_quoted i.text []
  rw [List.append_nil] at hread
  unfold Source.read? Json.quote
  dsimp only
  rw [String.toList_ofList, hread]
  rfl

-- ==== integers

/-- Digits that are no whole part have a zero in front. -/
theorem exists_leadingZero {ds : List Char} (hds : Digits ds)
    (hnot : ¬ Whole ds) :
    ∃ c r, ds = '0' :: c :: r ∧ Number.isDigit c = true := by
  have hhead : ds.head? = some '0' ∧ ds ≠ ['0'] := by
    by_contra hcon
    exact hnot ⟨hds, fun hzero => by_contra fun hne => hcon ⟨hzero, hne⟩⟩
  obtain ⟨r, rfl⟩ := List.head?_eq_some_iff.1 hhead.1
  cases r with
  | nil => exact absurd rfl hhead.2
  | cons c r => exact ⟨c, r, rfl, hds.2 c (by simp)⟩

variable {c : Char}

/-- A leading zero is all of the number, and the rest is left over. -/
theorem readNumber?_leadingZero (hc : Number.isDigit c = true) (r : List Char) :
    Source.readNumber? ('0' :: c :: r) = some ("0", c :: r)
      ∧ Source.readNumber? ('-' :: '0' :: c :: r) = some ("-0", c :: r) := by
  have hpoint := Json.ne_of_isDigit hc (show Number.isDigit '.' = false by decide)
  have hlower := Json.ne_of_isDigit hc (show Number.isDigit 'e' = false by decide)
  have hupper := Json.ne_of_isDigit hc (show Number.isDigit 'E' = false by decide)
  have hwhole : Source.integerPart? ('0' :: c :: r) = some (['0'], c :: r) := rfl
  have hfraction : Source.fractionPart? (c :: r) = some ([], c :: r) := by
    unfold Source.fractionPart?
    split
    · next heq => exact absurd (List.cons.inj heq).1 hpoint
    · rfl
  have hexponent : Source.exponentPart? (c :: r) = some ([], c :: r) := by
    unfold Source.exponentPart?
    simp [hlower, hupper]
  constructor
  · unfold Source.readNumber?
    simp [hwhole, hfraction, hexponent]
  · unfold Source.readNumber?
    simp [hwhole, hfraction, hexponent]

variable {t : String}

theorem read?_numeral_isSome (h : Json.Numeral t.toList) :
    (Source.read? .strict t).isSome := by
  have hread : Source.readValue? .strict (t.toList.length + 1) (t.toList ++ [])
      = some (.number (String.ofList t.toList), []) :=
    Source.readValue?_numeral h fun c hc => by cases hc
  rw [List.append_nil] at hread
  unfold Source.read?
  dsimp only
  rw [hread]
  rfl

/-- A text that begins with a sign or a digit is JSON if a number ends
where it does, but for blanks. -/
theorem read?_isSome_of_head {cs : List Char} (ht : t.toList = c :: cs)
    (hc : c = '-' ∨ c = '+' ∨ Number.isDigit c = true) :
    (Source.read? .strict t).isSome
      ↔ ∃ u rest, Source.readNumber? (c :: cs) = some (u, rest)
        ∧ Source.skipBlank rest = [] := by
  unfold Source.read?
  dsimp only
  rw [ht, Source.readValue?_number hc]
  cases hread : Source.readNumber? (c :: cs) with
  | none => simp
  | some x =>
      obtain ⟨u, rest⟩ := x
      simp [List.isEmpty_iff]

theorem skipBlank_digit (hc : Number.isDigit c = true) (r : List Char) :
    Source.skipBlank (c :: r) ≠ [] := by
  rw [Source.skipBlank_cons (Json.opens_of_isDigit hc).1]
  exact List.cons_ne_nil c r

variable {n : Int}

/-- An integer that is JSON as it stands has the numeral's grammar. -/
theorem numeral_of_read? (h : int64? t = some n)
    (hsome : (Source.read? .strict t).isSome) : Json.Numeral t.toList := by
  rcases Json.signed?_cases (Json.signed?_of_int64? h) with
    ⟨ds, ht, hds, -⟩ | ⟨ds, ht, hds, -⟩ | ⟨hds, -⟩
  · rw [ht]
    by_cases hwhole : Whole ds
    · simpa using Json.Numeral.mk (.inr rfl) hwhole (.inl rfl) (.inl rfl)
    · obtain ⟨c, r, rfl, hc⟩ := exists_leadingZero hds hwhole
      obtain ⟨u, rest, hread, hrest⟩ := (read?_isSome_of_head ht (.inl rfl)).1 hsome
      rw [(readNumber?_leadingZero hc r).2] at hread
      cases hread
      exact absurd hrest (skipBlank_digit hc r)
  · obtain ⟨u, rest, hread, -⟩ := (read?_isSome_of_head ht (.inr (.inl rfl))).1 hsome
    cases hread
  · by_cases hwhole : Whole t.toList
    · simpa using Json.Numeral.mk (.inl rfl) hwhole (.inl rfl) (.inl rfl)
    · obtain ⟨c, r, ht, hc⟩ := exists_leadingZero hds hwhole
      obtain ⟨u, rest, hread, hrest⟩ :=
        (read?_isSome_of_head ht (.inr (.inr rfl))).1 hsome
      rw [(readNumber?_leadingZero hc r).1] at hread
      cases hread
      exact absurd hrest (skipBlank_digit hc r)

/-- An integer that stands bare is JSON in one spelling, and in one more
if it is zero. -/
theorem read?_bare_isSome (h : int64? t = some n) :
    (Source.read? .strict t).isSome ↔ t = toString n ∨ t = "-0" := by
  constructor
  · intro hsome
    have hspelling := Json.toString_of_int64? (numeral_of_read? h hsome) h
    split at hspelling
    · next hzero => exact .inr hzero
    · exact .inl hspelling.symm
  · rintro (rfl | rfl)
    · exact read?_numeral_isSome (Json.numeral_toString n)
    · rfl

-- ==== writing

/-- Quoted text is read as the text it was written for. -/
theorem read_encode (s : String) : read (Text.Quoted.encode s) = .ok ⟨s⟩ :=
  read_enclosed (Text.Quoted.decode?_encode s)

theorem write_bare {i : Id} (h : i.int? = some n) :
    i.write = i.text := by
  unfold write
  rw [h]
  rfl

theorem write_text {i : Id} (h : i.int? = none) :
    i.write = Text.Quoted.encode i.text := by
  unfold write
  rw [h]
  rfl

/-- What is written for the id is JSON: an integer is spelt as JSON spells
it, and other text has only characters that both kinds of quotes write
alike. -/
def Sound (i : Id) : Prop :=
  match i.int? with
  | some n => i = ofInt n ∨ i = ⟨"-0"⟩
  | none => ∀ c ∈ i.text.toList, Shared c

/-- The id comes back: an integer is spelt canonically and is a double, or
it is too large to be rounded to an integer. -/
def Stable (i : Id) : Prop :=
  match i.int? with
  | some n => 2 ^ 63 - 512 ≤ n ∨ i = ofInt n ∧ Exact n.natAbs
  | none => True

theorem read?_write_isSome (i : Id) :
    (Source.read? .strict i.write).isSome ↔ i.Sound := by
  unfold Sound
  cases hint : i.int? with
  | none =>
      rw [write_text hint]
      exact Text.Quoted.read?_encode_isSome i.text
  | some n =>
      have hid : ∀ t, i = ⟨t⟩ ↔ i.text = t := by
        intro t
        cases i
        rw [Id.mk.injEq]
      dsimp only
      rw [write_bare hint, read?_bare_isSome hint]
      exact or_congr (hid _).symm (hid _).symm

theorem read_write_iff (i : Id) : read i.write = .ok i ↔ i.Stable := by
  unfold Stable
  cases hint : i.int? with
  | none =>
      rw [write_text hint]
      exact iff_true_intro (read_encode i.text)
  | some n =>
      have hn := Json.inInt64_of_int64? hint
      dsimp only
      rw [write_bare hint, read_bare hint, Except.ok.injEq,
        ← Number.Double.rounded_eq_none_iff hn, ← Number.Double.rounded_eq_self_iff hn]
      cases hround : rounded n with
      | none => simp
      | some m =>
          have hm := Number.Double.inInt64_of_rounded hround
          constructor
          · intro heq
            have heq : ofInt m = i := heq
            obtain rfl : m = n := by
              rw [← heq, int?_ofInt hm] at hint
              exact Option.some.inj hint
            exact .inr ⟨heq.symm, rfl⟩
          · rintro (hnone | ⟨rfl, hself⟩)
            · cases hnone
            · cases hself
              rfl

-- ==== distinction

theorem ofInt_inj {m n : Int} (h : ofInt m = ofInt n) : m = n := by
  have hm := Json.signed?_toString m
  rw [show toString m = toString n from congrArg text h, Json.signed?_toString n] at hm
  exact (Option.some.inj hm).symm

/-- An integer whose text is kept is no double, so no integer is rounded
to it. -/
theorem ofInt_ne_of_rounded {k m n : Int} (hm : Number.inInt64 m = true)
    (ht : int64? t = some n) (hk : rounded m = some k) (hn : rounded n = none) :
    ofInt k ≠ ⟨t⟩ := by
  intro heq
  have hint := int?_ofInt (Number.Double.inInt64_of_rounded hk)
  rw [heq] at hint
  obtain rfl : n = k := Option.some.inj (ht.symm.trans hint)
  rw [Number.Double.rounded_rounded hm hk] at hn
  cases hn

/-- Two integers are read as one id where they are rounded to the same
integer, and only there. -/
theorem read_eq_iff {s t : String} {m n : Int} (hs : int64? s = some m)
    (ht : int64? t = some n) (hne : m ≠ n) :
    read s = read t ↔ ∃ k, rounded m = some k ∧ rounded n = some k := by
  have hm := Json.inInt64_of_int64? hs
  have hn := Json.inInt64_of_int64? ht
  have hreads : read s = .ok (((rounded m).map ofInt).getD ⟨s⟩) :=
    read_bare (i := ⟨s⟩) hs
  have hreadt : read t = .ok (((rounded n).map ofInt).getD ⟨t⟩) :=
    read_bare (i := ⟨t⟩) ht
  rw [hreads, hreadt, Except.ok.injEq]
  cases hj : rounded m with
  | none =>
      refine iff_of_false ?_ fun ⟨k, hk, _⟩ => Option.some_ne_none k hk.symm
      cases hk : rounded n with
      | none =>
          rintro heq
          obtain rfl : s = t := congrArg text heq
          exact hne (Option.some.inj (hs.symm.trans ht))
      | some k => exact (ofInt_ne_of_rounded hn hs hk hj).symm
  | some j =>
      cases hk : rounded n with
      | none =>
          refine iff_of_false ?_ fun ⟨k, _, hk⟩ => Option.some_ne_none k hk.symm
          exact ofInt_ne_of_rounded hm ht hj hk
      | some k =>
          constructor
          · intro heq
            have heq : ofInt j = ofInt k := heq
            exact ⟨j, rfl, congrArg some (ofInt_inj heq).symm⟩
          · rintro ⟨l, hjl, hkl⟩
            cases hjl
            cases hkl
            rfl

/-- Each id comes from some JSON text. It is written as JSON if it is
sound, and is read back from that if it is stable. Two integers are told
apart unless they are rounded to the same one. -/
theorem read_write_sound_stable (i : Id) (s t : String) :
    (∃ source, (Source.read? .strict source).isSome ∧ read source = .ok i)
      ∧ ((Source.read? .strict i.write).isSome ↔ i.Sound)
      ∧ (read i.write = .ok i ↔ i.Stable)
      ∧ ∀ m n : Int, int64? s = some m → int64? t = some n → m ≠ n →
        (read s = read t ↔ ∃ k, rounded m = some k ∧ rounded n = some k) := by
  refine ⟨exists_source i, read?_write_isSome i, read_write_iff i, ?_⟩
  intro m n hs ht hne
  exact read_eq_iff hs ht hne

theorem read_write_sound_stable_seven :
    (Source.read? .strict (ofInt 7).write).isSome
      ∧ read (ofInt 7).write = .ok (ofInt 7) ∧ read "7" ≠ read "+8" := by
  obtain ⟨-, hjson, hback, hdistinct⟩ :=
    read_write_sound_stable (ofInt 7) "7" "+8"
  have hseven : rounded 7 = some 7 := by decide +kernel
  have height : rounded 8 = some 8 := by decide +kernel
  refine ⟨hjson.2 (.inl rfl), hback.2 (.inr ⟨rfl, 7, 0, by decide, rfl⟩), ?_⟩
  rw [Ne, hdistinct 7 8 (by decide +kernel) (by decide +kernel) (by decide)]
  rintro ⟨k, hk, hk'⟩
  rw [hseven] at hk
  rw [height, ← hk] at hk'
  cases hk'

/-- A bell is written with an escape that JSON has not, a number with
zeros in front is read back without them, and neighbours above 2^53 are
one id. -/
theorem read_write_loses :
    (read "\"\\u0007\"" = .ok ⟨"\x07"⟩
        ∧ Source.read? .strict (write ⟨"\x07"⟩) = none)
      ∧ (read "\"007\"" = .ok ⟨"007"⟩ ∧ Source.read? .strict (write ⟨"007"⟩) = none
        ∧ read (write ⟨"007"⟩) = .ok ⟨"7"⟩)
      ∧ read "9007199254740993" = read "9007199254740992" := by
  decide +kernel

end PromptGraph.Editor.Id

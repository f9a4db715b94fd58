/-
Numerals: the texts that JSON takes for numbers. A sign, a whole part
without superfluous zeros, a fraction and an exponent; of these only the
whole part has to be there.

- What is read as a number is a numeral (`numeral_of_readNumber?`), and a
  numeral is read whole, if what follows cannot be taken for more of it
  (`readNumber?_append`).
- An integer is written as a numeral (`numeral_toString`) and read back
  if it fits 64 bits (`int64?_toString`). The other way round there is one
  exception: of all numerals that denote such an integer, only `-0` is
  not how the integer is written (`toString_of_int64?`).
-/
import Mathlib.Data.List.Induction
import Mathlib.Data.List.TakeDrop
import Mathlib.Data.List.TakeWhile
import PromptGraph.Json.Source

namespace PromptGraph.Json

open Number (isDigit ofDigits int64? inInt64 signed? numeral?)

-- ==== grammar

/-- Digits, at least one. -/
def Digits (cs : List Char) : Prop := cs ≠ [] ∧ ∀ c ∈ cs, isDigit c = true

/-- The whole part of a numeral: a lone zero, or no zero in front. -/
def Whole (cs : List Char) : Prop :=
  Digits cs ∧ (cs.head? = some '0' → cs = ['0'])

def Fraction (cs : List Char) : Prop :=
  cs = [] ∨ ∃ ds, Digits ds ∧ cs = '.' :: ds

def Exponent (cs : List Char) : Prop :=
  cs = [] ∨ ∃ mark sign ds, (mark = 'e' ∨ mark = 'E')
    ∧ (sign = [] ∨ sign = ['+'] ∨ sign = ['-']) ∧ Digits ds
    ∧ cs = mark :: (sign ++ ds)

/-- A numeral from its parts. -/
inductive Numeral : List Char → Prop where
  | mk {sign whole fraction exponent : List Char}
      (signed : sign = [] ∨ sign = ['-']) (isWhole : Whole whole)
      (isFraction : Fraction fraction) (isExponent : Exponent exponent) :
      Numeral (sign ++ whole ++ fraction ++ exponent)

/-- What cannot be taken for more of a numeral. -/
def EndsNumeral (rest : List Char) : Prop :=
  ∀ c, rest.head? = some c →
    isDigit c = false ∧ c ≠ '.' ∧ c ≠ 'e' ∧ c ≠ 'E'

-- ==== digits

theorem isDigit_eq (c : Char) : isDigit c = c.isDigit := by
  unfold isDigit Char.isDigit
  rw [Bool.eq_iff_iff]
  simp [Char.le_def]

/-- A digit is no other character. -/
theorem ne_of_isDigit {c d : Char} (hc : isDigit c = true)
    (hd : isDigit d = false) : c ≠ d := by
  rintro rfl
  rw [hc] at hd
  cases hd

variable {cs : List Char} {c : Char}

theorem Digits.head_isDigit (h : Digits (c :: cs)) : isDigit c = true :=
  h.2 c List.mem_cons_self

/-- Digits are read up to what is no digit. -/
theorem digits?_append {ds rest : List Char} (hds : Digits ds)
    (hrest : ∀ c, rest.head? = some c → isDigit c = false) :
    Source.digits? (ds ++ rest) = some (ds, rest) := by
  have hspan : (ds ++ rest).span isDigit = (ds, rest) := by
    rw [List.span_eq_takeWhile_dropWhile,
      List.takeWhile_append_of_pos hds.2, List.dropWhile_append_of_pos hds.2]
    cases rest with
    | nil => simp
    | cons c rest => simp [hrest c rfl]
  unfold Source.digits?
  rw [hspan]
  cases ds with
  | nil => exact absurd rfl hds.1
  | cons d ds => rfl

/-- What is read as digits are digits. -/
theorem digits_of_digits? {cs ds rest : List Char}
    (h : Source.digits? cs = some (ds, rest)) :
    Digits ds ∧ cs = ds ++ rest := by
  unfold Source.digits? at h
  rw [List.span_eq_takeWhile_dropWhile] at h
  split at h
  · cases h
  · next hne =>
    cases h
    refine ⟨⟨fun hnil => hne _ (by rw [hnil]), fun c hc => ?_⟩, ?_⟩
    · exact List.mem_takeWhile_imp hc
    · exact (List.takeWhile_append_dropWhile).symm

-- ==== parts

/-- A whole part is read up to its end. -/
theorem integerPart?_append {whole rest : List Char} (hw : Whole whole)
    (hrest : ∀ c, rest.head? = some c → isDigit c = false) :
    Source.integerPart? (whole ++ rest) = some (whole, rest) := by
  obtain ⟨hdigits, hzero⟩ := hw
  unfold Source.integerPart?
  split
  · next r heq =>
    cases whole with
    | nil => exact absurd rfl hdigits.1
    | cons d ds =>
        cases heq
        cases hzero rfl
        rfl
  · exact digits?_append hdigits hrest

/-- What is read as a whole part is one. -/
theorem whole_of_integerPart? {cs whole rest : List Char}
    (h : Source.integerPart? cs = some (whole, rest)) : Whole whole := by
  unfold Source.integerPart? at h
  split at h
  · cases h
    refine ⟨⟨by simp, fun c hc => ?_⟩, fun _ => rfl⟩
    rw [List.mem_singleton.1 hc]
    rfl
  · next hne =>
    obtain ⟨hdigits, rfl⟩ := digits_of_digits? h
    refine ⟨hdigits, fun hhead => ?_⟩
    obtain ⟨ds, rfl⟩ := List.head?_eq_some_iff.1 hhead
    exact absurd rfl (hne _)

/-- A fraction is read up to its end. -/
theorem fractionPart?_append {fraction rest : List Char}
    (hf : Fraction fraction)
    (hrest : ∀ c, rest.head? = some c → isDigit c = false ∧ c ≠ '.') :
    Source.fractionPart? (fraction ++ rest) = some (fraction, rest) := by
  unfold Source.fractionPart?
  rcases hf with rfl | ⟨ds, hds, rfl⟩
  · split
    · exact absurd rfl (hrest '.' (by simp_all)).2
    · rfl
  · show (Source.digits? (ds ++ rest)).map _ = _
    rw [digits?_append hds fun c hc => (hrest c hc).1]
    rfl

/-- What is read as a fraction is one. -/
theorem fraction_of_fractionPart? {cs fraction rest : List Char}
    (h : Source.fractionPart? cs = some (fraction, rest)) :
    Fraction fraction := by
  unfold Source.fractionPart? at h
  split at h
  · obtain ⟨⟨ds, r⟩, hds, heq⟩ := Option.map_eq_some_iff.1 h
    cases heq
    exact Or.inr ⟨ds, (digits_of_digits? hds).1, rfl⟩
  · cases h
    exact Or.inl rfl

/-- An exponent is read up to its end. -/
theorem exponentPart?_append {exponent rest : List Char}
    (he : Exponent exponent) (hrest : EndsNumeral rest) :
    Source.exponentPart? (exponent ++ rest) = some (exponent, rest) := by
  have hdigit : ∀ c, rest.head? = some c → isDigit c = false :=
    fun c hc => (hrest c hc).1
  rcases he with rfl | ⟨mark, sign, ds, hmark, hsign, hds, rfl⟩
  · cases rest with
    | nil => rfl
    | cons c rest =>
        obtain ⟨-, -, hlower, hupper⟩ := hrest c rfl
        show (if _ then _ else _) = _
        rw [if_neg (by simp [hlower, hupper])]
  · have hm : (mark = 'e' || mark = 'E') = true := by simpa using hmark
    rcases hsign with rfl | rfl | rfl
    · cases ds with
      | nil => exact absurd rfl hds.1
      | cons d ds =>
          have hd : (d = '+' || d = '-') = false := by
            have := hds.head_isDigit
            by_contra hcon
            rw [Bool.not_eq_false, Bool.or_eq_true] at hcon
            rcases hcon with h | h
            · rw [of_decide_eq_true h] at this
              cases this
            · rw [of_decide_eq_true h] at this
              cases this
          have hread := digits?_append hds hdigit
          simp only [List.cons_append] at hread
          simp only [Source.exponentPart?, List.cons_append, List.nil_append,
            hm, hd, if_true, hread]
          rfl
    · have hread := digits?_append hds hdigit
      simp [Source.exponentPart?, hm, hread]
    · have hread := digits?_append hds hdigit
      simp [Source.exponentPart?, hm, hread]

/-- What is read as an exponent is one. -/
theorem exponent_of_exponentPart? {cs exponent rest : List Char}
    (h : Source.exponentPart? cs = some (exponent, rest)) :
    Exponent exponent := by
  unfold Source.exponentPart? at h
  split at h
  · next c r =>
    split at h
    · next hmark =>
      have hmark' : c = 'e' ∨ c = 'E' := by simpa using hmark
      split at h
      · next s r' =>
        split at h
        · next hsign =>
          obtain ⟨⟨ds, x⟩, hds, heq⟩ := Option.map_eq_some_iff.1 h
          cases heq
          have hsign' : s = '+' ∨ s = '-' := by simpa using hsign
          refine Or.inr ⟨c, [s], ds, hmark', Or.inr ?_,
            (digits_of_digits? hds).1, rfl⟩
          exact hsign'.imp (by rintro rfl; rfl) (by rintro rfl; rfl)
        · obtain ⟨⟨ds, x⟩, hds, heq⟩ := Option.map_eq_some_iff.1 h
          cases heq
          exact Or.inr ⟨c, [], ds, hmark', Or.inl rfl,
            (digits_of_digits? hds).1, rfl⟩
      · cases h
    · cases h
      exact Or.inl rfl
  · cases h
    exact Or.inl rfl

-- ==== numerals

/-- The parts of a numeral are told apart by their first characters, so
each part ends what stands before it. -/
theorem endsWhole_append {fraction exponent rest : List Char}
    (hf : Fraction fraction) (he : Exponent exponent)
    (hrest : EndsNumeral rest) :
    ∀ c, (fraction ++ (exponent ++ rest)).head? = some c →
      isDigit c = false ∧ (fraction = [] → c ≠ '.') := by
  intro c hc
  rcases hf with rfl | ⟨ds, -, rfl⟩
  · rcases he with rfl | ⟨mark, sign, ds, hmark, -, -, rfl⟩
    · exact ⟨(hrest c hc).1, fun _ => (hrest c hc).2.1⟩
    · cases hc
      rcases hmark with rfl | rfl
      · exact ⟨by decide, fun _ => by decide⟩
      · exact ⟨by decide, fun _ => by decide⟩
  · cases hc
    exact ⟨by decide, fun h => by cases h⟩

/-- A numeral is read whole. -/
theorem readNumber?_append {cs rest : List Char} (h : Numeral cs)
    (hrest : EndsNumeral rest) :
    Source.readNumber? (cs ++ rest) = some (String.ofList cs, rest) := by
  obtain @⟨sign, whole, fraction, exponent, hsign, hw, hf, he⟩ := h
  have hexp := exponentPart?_append he hrest
  have hfrac : Source.fractionPart? (fraction ++ (exponent ++ rest))
      = some (fraction, exponent ++ rest) := by
    refine fractionPart?_append hf fun c hc => ?_
    have := endsWhole_append (.inl rfl) he hrest c hc
    exact ⟨this.1, this.2 rfl⟩
  have hint : Source.integerPart? (whole ++ (fraction ++ (exponent ++ rest)))
      = some (whole, fraction ++ (exponent ++ rest)) :=
    integerPart?_append hw fun c hc => (endsWhole_append hf he hrest c hc).1
  have hhead : ∀ cs, whole ++ (fraction ++ (exponent ++ rest)) ≠ '-' :: cs := by
    intro cs heq
    cases whole with
    | nil => exact hw.1.1 rfl
    | cons d ds =>
        cases heq
        exact absurd hw.1.head_isDigit (by decide)
  unfold Source.readNumber?
  rcases hsign with rfl | rfl
  · -- no sign is found, by `hhead`
    simp [hint, hfrac, hexp, List.append_assoc]
  · simp [hint, hfrac, hexp, List.append_assoc]

variable {t : String}

/-- What is read as a number is a numeral. -/
theorem numeral_of_readNumber? {cs rest : List Char}
    (h : Source.readNumber? cs = some (t, rest)) : Numeral t.toList := by
  unfold Source.readNumber? at h
  simp only [Option.bind_eq_bind, Option.bind_eq_some_iff] at h
  obtain ⟨⟨whole, r₁⟩, hw, ⟨fraction, r₂⟩, hf, ⟨exponent, r₃⟩, he, heq⟩ := h
  cases heq
  rw [String.toList_ofList]
  refine .mk ?_ (whole_of_integerPart? hw) (fraction_of_fractionPart? hf)
    (exponent_of_exponentPart? he)
  split
  · exact Or.inr rfl
  · exact Or.inl rfl

-- ==== integers

theorem ofDigits_eq (cs : List Char) :
    ofDigits 0 cs = Nat.ofDigitChars 10 cs 0 := rfl

/-- A digit is told by its value. -/
theorem digitChar_digit (h : isDigit c = true) :
    Number.digit c < 10 ∧ (Number.digit c).digitChar = c := by
  unfold isDigit at h
  rw [Bool.and_eq_true, decide_eq_true_eq, decide_eq_true_eq,
    Char.le_def, Char.le_def, UInt32.le_iff_toNat_le,
    UInt32.le_iff_toNat_le] at h
  have hlow : 48 ≤ c.toNat := h.1
  have hhigh : c.toNat ≤ 57 := h.2
  have hc : c = Char.ofNat c.toNat := (Char.ofNat_toNat c).symm
  have hall : ∀ n, n ≤ 57 → 48 ≤ n →
      n - 48 < 10 ∧ (n - 48).digitChar = Char.ofNat n := by decide
  unfold Number.digit
  rw [hc]
  simpa using hall c.toNat hhigh hlow

theorem head?_append_of_ne {cs ds : List Char} (h : cs ≠ []) :
    (cs ++ ds).head? = cs.head? := by
  cases cs with
  | nil => exact absurd rfl h
  | cons c cs => rfl

/-- The digits of a positive number do not begin with a zero. -/
theorem head?_toDigits {n : Nat} (h : 0 < n) :
    (Nat.toDigits 10 n).head? ≠ some '0' := by
  induction n using Nat.strong_induction_on with
  | _ n ih =>
      by_cases hn : n < 10
      · rw [Nat.toDigits_of_lt_base hn, List.head?_cons, ne_eq,
          Option.some_inj, Nat.digitChar_eq_zero]
        omega
      · rw [Nat.toDigits_of_base_le (by decide) (by omega),
          head?_append_of_ne Nat.toDigits_ne_nil]
        exact ih (n / 10) (by omega) (by omega)

/-- The digits of a number are a whole part. -/
theorem whole_toDigits (n : Nat) : Whole (Nat.toDigits 10 n) := by
  refine ⟨⟨Nat.toDigits_ne_nil, fun c hc => ?_⟩, fun hhead => ?_⟩
  · rw [isDigit_eq]
    exact Nat.isDigit_of_mem_toDigits (by decide) (by decide) hc
  · rcases Nat.eq_zero_or_pos n with rfl | hpos
    · exact Nat.toDigits_zero 10
    · exact absurd hhead (head?_toDigits hpos)

/-- A whole part is how its value is written. -/
theorem Whole.toDigits_ofDigits (h : Whole cs) :
    Nat.toDigits 10 (ofDigits 0 cs) = cs := by
  induction cs using List.reverseRecOn with
  | nil => exact absurd rfl h.1.1
  | append_singleton cs c ih =>
      obtain ⟨⟨-, hdigits⟩, hzero⟩ := h
      obtain ⟨hlt, hchar⟩ := digitChar_digit (hdigits c (by simp))
      have hvalue : ofDigits 0 (cs ++ [c])
          = 10 * ofDigits 0 cs + Number.digit c := by
        unfold ofDigits
        rw [List.foldl_append]
        rfl
      rw [hvalue]
      by_cases hnil : cs = []
      · subst hnil
        show Nat.toDigits 10 (10 * 0 + Number.digit c) = [c]
        rw [Nat.mul_zero, Nat.zero_add, Nat.toDigits_of_lt_base hlt, hchar]
      · have hfront : cs.head? ≠ some '0' := by
          intro hhead
          have := hzero (by rw [head?_append_of_ne hnil, hhead])
          have hlen := congrArg List.length this
          rw [List.length_append] at hlen
          exact hnil (List.length_eq_zero_iff.1 (by simpa using hlen))
        have hcs := ih ⟨⟨hnil, fun d hd => hdigits d (by simp [hd])⟩,
          fun hhead => absurd hhead hfront⟩
        have hpos : 0 < ofDigits 0 cs := by
          rcases Nat.eq_zero_or_pos (ofDigits 0 cs) with hz | hpos
          · rw [hz, Nat.toDigits_zero] at hcs
            exact absurd (by rw [← hcs]; rfl) hfront
          · exact hpos
        rw [← Nat.toDigits_append_toDigits (by decide) hpos hlt, hcs,
          Nat.toDigits_of_lt_base hlt, hchar]

/-- A whole part has the value of its digits. -/
theorem Whole.numeral? (h : Whole cs) :
    Number.numeral? cs = some (ofDigits 0 cs) := by
  have hall : cs.all isDigit = true := List.all_eq_true.2 h.1.2
  have hne : cs.isEmpty = false := by
    rw [List.isEmpty_eq_false_iff]
    exact h.1.1
  unfold Number.numeral?
  rw [hall, hne]
  rfl

/-- The digits of a number have its value. -/
theorem ofDigits_toDigits (n : Nat) : ofDigits 0 (Nat.toDigits 10 n) = n := by
  rw [ofDigits_eq]
  exact Nat.ofDigitChars_ten_toDigits

/-- An integer in writing: a sign for the negative ones, and digits. -/
theorem toList_toString (n : Int) :
    (toString n).toList
      = if n < 0 then '-' :: Nat.toDigits 10 n.natAbs
        else Nat.toDigits 10 n.natAbs := by
  cases n with
  | ofNat m =>
      rw [if_neg (by simp)]
      exact Nat.toList_repr
  | negSucc m =>
      rw [if_pos (Int.negSucc_lt_zero m)]
      show ("-" ++ (m + 1).repr).toList = _
      rw [String.toList_append, Nat.toList_repr]
      rfl

/-- An integer is written as a numeral. -/
theorem numeral_toString (n : Int) : Numeral (toString n).toList := by
  have hwhole := whole_toDigits n.natAbs
  rw [toList_toString]
  split
  · have h := Numeral.mk (.inr rfl) hwhole (.inl rfl) (.inl rfl)
    simpa using h
  · have h := Numeral.mk (.inl rfl) hwhole (.inl rfl) (.inl rfl)
    simpa using h

/-- Without a sign, an integer is read by its digits. -/
theorem signed?_of_isDigit (h : isDigit c = true) :
    signed? (c :: cs)
      = (Number.numeral? (c :: cs)).map fun m : Nat => (m : Int) := by
  unfold signed?
  split
  · next heq =>
    cases heq
    cases h
  · next heq =>
    cases heq
    cases h
  · cases Number.numeral? (c :: cs) with
    | none => rfl
    | some m => rfl

/-- A minus negates. -/
theorem signed?_minus (cs : List Char) :
    signed? ('-' :: cs)
      = (Number.numeral? cs).map fun m : Nat => -(m : Int) := by
  rw [signed?]
  cases Number.numeral? cs with
  | none => rfl
  | some m => rfl

/-- Without a sign the value is that of the digits. -/
theorem Whole.signed? (h : Whole cs) :
    Number.signed? cs = some (ofDigits 0 cs : Int) := by
  cases cs with
  | nil => exact absurd rfl h.1.1
  | cons c cs =>
      rw [signed?_of_isDigit h.1.head_isDigit, h.numeral?]
      rfl

/-- An integer is read from its writing, whatever its size. -/
theorem signed?_toString (n : Int) : signed? (toString n).toList = some n := by
  rw [toList_toString]
  split
  · next hneg =>
    rw [signed?_minus, (whole_toDigits _).numeral?, ofDigits_toDigits]
    show some (-(n.natAbs : Int)) = some n
    rw [Int.ofNat_natAbs_of_nonpos (by omega), Int.neg_neg]
  · next hpos =>
    rw [(whole_toDigits _).signed?, ofDigits_toDigits,
      Int.natAbs_of_nonneg (by omega)]

variable {n : Int}

/-- An integer that fits is read back. -/
theorem int64?_toString (h : inInt64 n = true) :
    int64? (toString n) = some n := by
  unfold int64?
  rw [signed?_toString]
  exact if_pos h

/-- What has a value are digits. -/
theorem numeral?_eq_some {m : Nat} (h : Number.numeral? cs = some m) :
    Digits cs ∧ m = ofDigits 0 cs := by
  unfold Number.numeral? at h
  split at h
  · cases h
  · next hall =>
    rw [Bool.or_eq_true, not_or, Bool.not_eq_true', Bool.not_eq_false,
      List.isEmpty_iff] at hall
    cases h
    exact ⟨⟨hall.1, List.all_eq_true.1 hall.2⟩, rfl⟩

/-- The spellings of an integer: digits, perhaps after a sign. -/
theorem signed?_cases (h : signed? cs = some n) :
    (∃ ds, cs = '-' :: ds ∧ Digits ds ∧ n = -(ofDigits 0 ds : Int))
      ∨ (∃ ds, cs = '+' :: ds ∧ Digits ds ∧ n = ofDigits 0 ds)
      ∨ Digits cs ∧ n = ofDigits 0 cs := by
  have hdigits : ∀ {ds : List Char} {k : Int},
      (numeral? ds >>= fun m : Nat => some (m : Int)) = some k →
      Digits ds ∧ k = ofDigits 0 ds := by
    intro ds k hk
    obtain ⟨m, hm, hk⟩ := Option.bind_eq_some_iff.1 hk
    cases hk
    obtain ⟨hds, rfl⟩ := numeral?_eq_some hm
    exact ⟨hds, rfl⟩
  unfold signed? at h
  split at h
  · next ds =>
    obtain ⟨k, hk, rfl⟩ := Option.map_eq_some_iff.1 h
    obtain ⟨hds, rfl⟩ := hdigits hk
    exact .inl ⟨ds, rfl, hds, rfl⟩
  · next ds =>
    obtain ⟨k, hk, rfl⟩ := Option.map_eq_some_iff.1 h
    obtain ⟨hds, rfl⟩ := hdigits hk
    exact .inr (.inl ⟨ds, rfl, hds, rfl⟩)
  · obtain ⟨k, hk, rfl⟩ := Option.map_eq_some_iff.1 h
    exact .inr (.inr (hdigits hk))

/-- A numeral made of digits alone has neither fraction nor exponent. -/
theorem no_parts_of_digits {cs whole fraction exponent : List Char}
    (hf : Fraction fraction) (he : Exponent exponent)
    (hcs : cs = whole ++ (fraction ++ exponent))
    (h : ∀ c ∈ cs, isDigit c = true) : fraction = [] ∧ exponent = [] := by
  subst hcs
  refine ⟨hf.resolve_right ?_, he.resolve_right ?_⟩
  · rintro ⟨ds, -, rfl⟩
    exact absurd (h '.' (by simp)) (by decide)
  · rintro ⟨mark, sign, ds, hmark, -, -, rfl⟩
    have hdigit := h mark (by simp)
    rcases hmark with rfl | rfl
    · exact absurd hdigit (by decide)
    · exact absurd hdigit (by decide)

/-- An integer that fits is an integer. -/
theorem signed?_of_int64? (h : int64? t = some n) :
    signed? t.toList = some n := by
  unfold int64? at h
  split at h
  · next m hm =>
    split at h
    · cases h
      exact hm
    · cases h
  · cases h

/-- An integer that is read fits. -/
theorem inInt64_of_int64? (h : int64? t = some n) :
    inInt64 n = true := by
  unfold int64? at h
  split at h
  · split at h
    · next hin =>
      cases h
      exact hin
    · cases h
  · cases h

/-- How an integer is written that was read from a numeral: as the
numeral, unless this is `-0`. -/
theorem toString_of_int64? (ht : Numeral t.toList) (h : int64? t = some n) :
    toString n = if t = "-0" then "0" else t := by
  have hsigned := signed?_of_int64? h
  rw [← String.toList_inj]
  generalize hcs : t.toList = cs at ht hsigned
  have htext : t = String.ofList cs := by rw [← hcs, String.ofList_toList]
  obtain @⟨sign, whole, fraction, exponent, hsign, hw, hf, he⟩ := ht
  rcases hsign with rfl | rfl
  · obtain ⟨d, ds, rfl⟩ := List.exists_cons_of_ne_nil hw.1.1
    have hd := hw.1.head_isDigit
    simp only [List.nil_append, List.cons_append] at hsigned
    rw [signed?_of_isDigit hd] at hsigned
    obtain ⟨m, hm, rfl⟩ := Option.map_eq_some_iff.1 hsigned
    obtain ⟨hall, rfl⟩ := numeral?_eq_some hm
    obtain ⟨rfl, rfl⟩ := no_parts_of_digits hf he
      (show _ = d :: ds ++ (fraction ++ exponent) by simp) hall.2
    have hne : t ≠ "-0" := by
      rintro rfl
      have hhead : '-' = d := by simpa using congrArg List.head? hcs
      rw [← hhead] at hd
      cases hd
    rw [if_neg hne, hcs, toList_toString, if_neg (by omega)]
    simpa using hw.toDigits_ofDigits
  · simp only [List.cons_append, List.nil_append] at hsigned hcs htext
    rw [signed?_minus] at hsigned
    obtain ⟨m, hm, rfl⟩ := Option.map_eq_some_iff.1 hsigned
    obtain ⟨hall, rfl⟩ := numeral?_eq_some hm
    obtain ⟨rfl, rfl⟩ := no_parts_of_digits hf he (List.append_assoc _ _ _) hall.2
    simp only [List.append_nil] at hcs htext ⊢
    have hdigits := hw.toDigits_ofDigits
    rcases Nat.eq_zero_or_pos (ofDigits 0 whole) with hzero | hpos
    · rw [hzero, Nat.toDigits_zero] at hdigits
      subst hdigits
      rw [if_pos htext]
      rfl
    · have hne : t ≠ "-0" := by
        rintro rfl
        have hwhole : whole = ['0'] := by simpa using hcs.symm
        rw [hwhole] at hpos
        exact absurd hpos (by decide)
      rw [if_neg hne, hcs, toList_toString, if_pos (by omega)]
      rw [Int.natAbs_neg, Int.natAbs_natCast, hdigits]

end PromptGraph.Json

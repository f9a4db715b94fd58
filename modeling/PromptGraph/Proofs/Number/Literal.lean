/-
Integers as floating-point literals. An integer of 64 bits, however it is
spelt, reads as the double that it is rounded to (`Literal.read?_of_int64?`).
Up to 2^53 in absolute value that is the integer again; past 2^53
neighbours read as one number.
-/
import PromptGraph.Number.Literal
import PromptGraph.Proofs.Json.Numeral
import PromptGraph.Proofs.Number.Integral

namespace PromptGraph.Number

variable {n : Int}

theorem inInt64_of_natAbs_le (h : n.natAbs ≤ 2 ^ 53) :
    inInt64 n = true := by
  unfold inInt64 int64Min int64Max
  rw [Bool.and_eq_true, decide_eq_true_eq, decide_eq_true_eq]
  omega

-- ==== literals

namespace Literal

open Json (Digits ne_of_isDigit)

variable {c : Char}

theorem digitIn?_of_isDigit (h : isDigit c = true) :
    digitIn? 10 c = some (digit c) := by
  have hvalue : Text.Quoted.hexValue? c = some (digit c) := if_pos h
  unfold digitIn?
  rw [hvalue]
  exact if_pos (Json.digitChar_digit h).1

theorem asciiLower_of_isDigit (h : isDigit c = true) :
    asciiLower c = c := by
  unfold asciiLower
  rw [if_neg ?_]
  intro hletter
  unfold isDigit at h
  rw [Bool.and_eq_true, decide_eq_true_eq, decide_eq_true_eq] at h hletter
  exact absurd (Char.le_trans hletter.1 h.2) (by decide)

variable {cs : List Char}

/-- Digits are all of the mantissa, and their value its coefficient. -/
theorem Mantissa.read_digits (h : ∀ c ∈ cs, isDigit c = true) (n : Nat)
    (saw : Bool) :
    Mantissa.read 10 ⟨n, 0, saw, false⟩ cs
      = (⟨ofDigits n cs, 0, saw || !cs.isEmpty, false⟩, []) := by
  induction cs generalizing n saw with
  | nil =>
      cases saw with
      | true => rfl
      | false => rfl
  | cons c cs ih =>
      have hc := h c List.mem_cons_self
      rw [Mantissa.read, if_neg (ne_of_isDigit hc (by decide)),
        if_neg (ne_of_isDigit hc (by decide)), digitIn?_of_isDigit hc]
      dsimp only
      rw [if_neg Bool.false_ne_true, ih fun d hd => h d (List.mem_cons_of_mem _ hd)]
      simp [ofDigits]

theorem underscoresOk_append (h : ∀ c ∈ cs, isDigit c = true)
    {rest : List Char}
    (hrest : ∀ b, b ≠ .underscore → underscoresOk false b rest = true)
    {b : Before} (hb : b ≠ .underscore) :
    underscoresOk false b (cs ++ rest) = true := by
  induction cs generalizing b with
  | nil => exact hrest b hb
  | cons c cs ih =>
      have hdigit := digitIn?_of_isDigit (h c List.mem_cons_self)
      rw [List.cons_append, underscoresOk]
      simp only [Bool.false_eq_true, if_false, hdigit, Option.isSome_some, if_true]
      exact ih (fun d hd => h d (List.mem_cons_of_mem _ hd)) (by decide)

theorem underscoresOk_digits (h : ∀ c ∈ cs, isDigit c = true) {b : Before}
    (hb : b ≠ .underscore) :
    underscoresOk false b cs = true := by
  rw [← List.append_nil cs]
  refine underscoresOk_append h (fun b hb => ?_) hb
  unfold underscoresOk
  simpa using hb

theorem readDecimal?_digits (negative : Bool) (h : Digits cs) :
    readDecimal? negative cs
      = some (ofOption (Double.ofDecimal? negative (ofDigits 0 cs) 0)) := by
  have hread := Mantissa.read_digits h.2 0 false
  have hne : cs.isEmpty = false := List.isEmpty_eq_false_iff.2 h.1
  rw [hne] at hread
  unfold readDecimal?
  rw [hread, underscoresOk_digits h.2 (by decide)]
  rfl

/-- The sign in front of a literal, and what follows it. -/
def split : List Char → Option Bool × List Char
  | '-' :: r => (some true, r)
  | '+' :: r => (some false, r)
  | r => (none, r)

/-- A literal after its sign. -/
def readBody? (sign : Option Bool) (body : List Char) : Option Literal :=
  let negative := sign.getD false
  if isInfinityWord body then some (infinite negative)
  else if sign.isNone && body.map asciiLower == "nan".toList then some nan
  else
    match body with
    | '0' :: c :: r =>
      if asciiLower c = 'x' then readHex? negative r
      else readDecimal? negative body
    | _ => readDecimal? negative body

theorem read?_eq (s : String) :
    read? s = readBody? (split s.toList).1 (split s.toList).2 := rfl

theorem split_of_isDigit (h : isDigit c = true) (cs : List Char) :
    split (c :: cs) = (none, c :: cs) := by
  unfold split
  split
  · next heq =>
    cases heq
    cases h
  · next heq =>
    cases heq
    cases h
  · rfl

/-- What begins with a digit is none of the words, and is in decimal if no
base mark follows. -/
theorem readBody?_of_isDigit (sign : Option Bool) {d : Char} {ds : List Char}
    (hd : isDigit d = true)
    (hmark : d = '0' → ∀ c, ds.head? = some c → asciiLower c ≠ 'x') :
    readBody? sign (d :: ds) = readDecimal? (sign.getD false) (d :: ds) := by
  have hword : (d :: ds).map asciiLower = d :: ds.map asciiLower := by
    rw [List.map_cons, asciiLower_of_isDigit hd]
  have hinf : isInfinityWord (d :: ds) = false := by
    unfold isInfinityWord
    rw [hword]
    simp [ne_of_isDigit hd (show isDigit 'i' = false by decide)]
  have hnan : ((d :: ds).map asciiLower == "nan".toList) = false := by
    rw [hword]
    simp [ne_of_isDigit hd (show isDigit 'n' = false by decide)]
  unfold readBody?
  dsimp only
  rw [hinf, hnan, Bool.and_false]
  simp only [Bool.false_eq_true, if_false]
  split
  · next c r heq =>
    cases heq
    rw [if_neg (hmark rfl c rfl)]
  · rfl

/-- An integer with or without a sign, as a literal. The sign of zero is
left open. -/
theorem read?_of_signed? {t : String} (h : signed? t.toList = some n) :
    ∃ negative, (n ≠ 0 → negative = decide (n < 0))
      ∧ read? t = some (ofOption (Double.ofDecimal? negative n.natAbs 0)) := by
  have hbody : ∀ (sign : Option Bool) {cs : List Char}, Digits cs →
      readBody? sign cs = some (ofOption
        (Double.ofDecimal? (sign.getD false) (ofDigits 0 cs) 0)) := by
    intro sign cs hdigits
    obtain ⟨d, ds, rfl⟩ := List.exists_cons_of_ne_nil hdigits.1
    rw [← readDecimal?_digits _ hdigits]
    refine readBody?_of_isDigit sign hdigits.head_isDigit fun _ c hc => ?_
    have hdigit : isDigit c = true :=
      hdigits.2 c (List.mem_cons_of_mem _ (List.mem_of_head? hc))
    rw [asciiLower_of_isDigit hdigit]
    exact ne_of_isDigit hdigit (by decide)
  rw [read?_eq]
  rcases Json.signed?_cases h with
    ⟨ds, hds, hdigits, rfl⟩ | ⟨ds, hds, hdigits, rfl⟩ | ⟨hdigits, rfl⟩
  · rw [hds, Int.natAbs_neg, Int.natAbs_natCast]
    exact ⟨true, fun hne => (decide_eq_true (by omega)).symm,
      hbody (some true) hdigits⟩
  · rw [hds, Int.natAbs_natCast]
    exact ⟨false, fun _ => (decide_eq_false (by omega)).symm,
      hbody (some false) hdigits⟩
  · have hsplit : split t.toList = (none, t.toList) := by
      obtain ⟨c, cs, hcs⟩ := List.exists_cons_of_ne_nil hdigits.1
      rw [hcs] at hdigits ⊢
      exact split_of_isDigit hdigits.head_isDigit cs
    rw [hsplit, Int.natAbs_natCast]
    exact ⟨false, fun _ => (decide_eq_false (by omega)).symm,
      hbody none hdigits⟩

/-- An integer of 64 bits is read with what the rounding makes of it. -/
theorem read?_of_int64? {t : String} (h : int64? t = some n) :
    ∃ d, read? t = some (.finite d) ∧ d.toInt64? = Double.rounded n := by
  have hn := Json.inInt64_of_int64? h
  obtain ⟨negative, hsign, hread⟩ := read?_of_signed? (Json.signed?_of_int64? h)
  suffices hdecimal : ∃ d, Double.ofDecimal? negative n.natAbs 0 = some d
      ∧ d.toInt64? = Double.rounded n by
    obtain ⟨d, hd, hint⟩ := hdecimal
    rw [hd] at hread
    exact ⟨d, hread, hint⟩
  by_cases hzero : n = 0
  · subst hzero
    have hmagnitude : Double.magnitude ⟨negative, 0, Double.leastExponent⟩
        = (0 : ℕ) := by
      simp [Double.magnitude]
    refine ⟨⟨negative, 0, Double.leastExponent⟩, by simp [Double.ofDecimal?], ?_⟩
    rw [(Double.rounded_eq_self_iff hn).2 (Double.exact_of_le (by decide)),
      Double.toInt64?, Double.toInt?_of_magnitude hmagnitude]
    simp [inInt64, int64Min, int64Max]
  · obtain ⟨d, hd⟩ := Double.exists_ofInt? hn
    have hsame : Double.ofDecimal? negative n.natAbs 0 = Double.ofInt? n := by
      have hdecimal := Double.converts_ofDecimal? negative n.natAbs 0
      have hratio := Double.converts_ofRatio? negative n.natAbs Nat.one_pos
      rw [zpow_zero, mul_one] at hdecimal
      rw [Nat.cast_one, div_one] at hratio
      rw [hdecimal.eq hratio, hsign hzero]
      rfl
    refine ⟨d, hsame.trans hd, ?_⟩
    rw [Double.rounded, hd, Option.bind_some]

end Literal

end PromptGraph.Number

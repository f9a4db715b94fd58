/-
Doubles as rounded rationals. Every magnitude that rounds to a double
lies between two ends, halfway to the neighbours, which belong to the
double if its significand is even (`Rounds`). Conversion from a ratio
rounds in this sense, to the one double there is (`Rounds.unique`), and
fails exactly for what is past the last end (`converts_ofRatio?`). So
does the conversion of a decimal, also where it answers without looking
at the digits (`converts_ofDecimal?`).
-/
import Mathlib.Algebra.Order.Field.Power
import Mathlib.Data.Nat.Digits.Defs
import Mathlib.Data.Rat.Cast.Order
import Mathlib.Tactic.FieldSimp
import Mathlib.Tactic.Linarith
import Mathlib.Tactic.Positivity
import Mathlib.Tactic.Ring
import PromptGraph.Number.Double

namespace PromptGraph.Number.Double

-- ==== ends of a rounding

/-- The magnitude of a double. -/
def magnitude (d : Double) : ℚ := d.significand * 2 ^ d.exponent

/-- A full significand, unless the exponent is the least one. -/
structure Shaped (d : Double) : Prop where
  lt : d.significand < 2 ^ 53
  full : 2 ^ 52 ≤ d.significand ∨ d.exponent = leastExponent
  least : leastExponent ≤ d.exponent

/-- The one form of a double. -/
structure Formed (d : Double) : Prop extends Shaped d where
  most : d.exponent ≤ 971

/-- Half the way to the double below, in quarters of the last place. At a
power of two the places below are finer. -/
def below (d : Double) : ℕ :=
  if d.significand = 2 ^ 52 ∧ d.exponent > leastExponent then 1 else 2

def lowerEnd (d : Double) : ℚ :=
  (4 * d.significand - d.below) * 2 ^ (d.exponent - 2)

def upperEnd (d : Double) : ℚ :=
  (4 * d.significand + 2) * 2 ^ (d.exponent - 2)

/-- The magnitude rounds to the double. -/
def Rounds (x : ℚ) (d : Double) : Prop :=
  if d.significand % 2 = 0 then d.lowerEnd ≤ x ∧ x ≤ d.upperEnd
  else d.lowerEnd < x ∧ x < d.upperEnd

/-- A power with an integer exponent is a natural number or the inverse of
one. -/
theorem zpow_cases (b : ℕ) (k : ℤ) :
    k < 0 ∧ (b : ℚ) ^ k = ((Nat.pow b (-k).toNat : ℕ) : ℚ)⁻¹
      ∨ ¬ k < 0 ∧ (b : ℚ) ^ k = (Nat.pow b k.toNat : ℕ) := by
  by_cases hneg : k < 0
  · obtain ⟨n, rfl⟩ : ∃ n : ℕ, k = -(n : ℤ) := ⟨(-k).toNat, by omega⟩
    refine .inl ⟨hneg, ?_⟩
    rw [Int.neg_neg, Int.toNat_natCast, Nat.pow_eq, zpow_neg, zpow_natCast]
    push_cast
    rfl
  · obtain ⟨n, rfl⟩ : ∃ n : ℕ, k = (n : ℤ) := ⟨k.toNat, by omega⟩
    refine .inr ⟨hneg, ?_⟩
    rw [Int.toNat_natCast, Nat.pow_eq, zpow_natCast]
    push_cast
    rfl

theorem two_zpow_cases (e : ℤ) :
    e < 0 ∧ (2 : ℚ) ^ e = ((Nat.pow 2 (-e).toNat : ℕ) : ℚ)⁻¹
      ∨ ¬ e < 0 ∧ (2 : ℚ) ^ e = (Nat.pow 2 e.toNat : ℕ) := zpow_cases 2 e

theorem ten_zpow_cases (k : ℤ) :
    k < 0 ∧ (10 : ℚ) ^ k = ((Nat.pow 10 (-k).toNat : ℕ) : ℚ)⁻¹
      ∨ ¬ k < 0 ∧ (10 : ℚ) ^ k = (Nat.pow 10 k.toNat : ℕ) := zpow_cases 10 k

theorem two_zpow_pos (e : ℤ) : (0 : ℚ) < 2 ^ e := by positivity

theorem two_zpow_add_one (e : ℤ) : (2 : ℚ) ^ (e + 1) = 2 * 2 ^ e := by
  rw [zpow_add_one₀ (by norm_num), mul_comm]

theorem two_zpow_quarter (e : ℤ) : (2 : ℚ) ^ e = 4 * 2 ^ (e - 2) := by
  have h : (2 : ℚ) ^ e = 2 ^ (e - 2 + 1 + 1) := by
    congr 1
    omega
  rw [h, two_zpow_add_one, two_zpow_add_one]
  ring

/-- A magnitude in quarters of its last place. -/
theorem magnitude_eq (d : Double) :
    d.magnitude = 4 * d.significand * 2 ^ (d.exponent - 2) := by
  unfold magnitude
  rw [two_zpow_quarter]
  ring

/-- Below a power of two the doubles are closer. -/
theorem below_cases (d : Double) :
    d.below = 1 ∧ d.significand = 2 ^ 52 ∧ d.exponent > leastExponent
      ∨ d.below = 2
        ∧ ¬ (d.significand = 2 ^ 52 ∧ d.exponent > leastExponent) := by
  unfold below
  by_cases h : d.significand = 2 ^ 52 ∧ d.exponent > leastExponent
  · rw [if_pos h]
    exact .inl ⟨rfl, h⟩
  · rw [if_neg h]
    exact .inr ⟨rfl, h⟩

variable {d : Double} {x : ℚ}

/-- What rounds to a double is not below its interval. -/
theorem Rounds.lower_le (h : Rounds x d) :
    d.lowerEnd ≤ x := by
  unfold Rounds at h
  split at h
  · exact h.1
  · exact h.1.le

/-- Nor is it above. -/
theorem Rounds.le_upper (h : Rounds x d) :
    x ≤ d.upperEnd := by
  unfold Rounds at h
  split at h
  · exact h.2
  · exact h.2.le

/-- What lies between two magnitudes that round to a double rounds to it. -/
theorem Rounds.between {x y z : ℚ} (hx : Rounds x d) (hz : Rounds z d)
    (hxy : x ≤ y) (hyz : y ≤ z) : Rounds y d := by
  unfold Rounds at *
  split at hx
  · next heven =>
    rw [if_pos heven] at hz ⊢
    exact ⟨hx.1.trans hxy, hyz.trans hz.2⟩
  · next hodd =>
    rw [if_neg hodd] at hz ⊢
    exact ⟨hx.1.trans_le hxy, hyz.trans_lt hz.2⟩

/-- A double rounds to itself. -/
theorem rounds_magnitude (d : Double) : Rounds d.magnitude d := by
  have hpos := two_zpow_pos (d.exponent - 2)
  have hbelow : (0 : ℚ) < d.below := by
    rcases below_cases d with ⟨h, -⟩ | ⟨h, -⟩
    · rw [h]; norm_num
    · rw [h]; norm_num
  have hlower : d.lowerEnd < d.magnitude := by
    rw [magnitude_eq, lowerEnd]
    nlinarith
  have hupper : d.magnitude < d.upperEnd := by
    rw [magnitude_eq, upperEnd]
    nlinarith
  unfold Rounds
  split
  · exact ⟨hlower.le, hupper.le⟩
  · exact ⟨hlower, hupper⟩

theorem below_le_two (d : Double) : (d.below : ℚ) ≤ 2 := by
  rcases below_cases d with ⟨h, -⟩ | ⟨h, -⟩
  · rw [h]
    norm_num
  · rw [h]
    norm_num

/-- Half a place, at least, rounds to zero. -/
theorem half_le_lowerEnd (hd : d.significand ≠ 0) :
    2 * 2 ^ (d.exponent - 2) ≤ d.lowerEnd := by
  have hsig : (1 : ℚ) ≤ d.significand := by
    exact_mod_cast Nat.pos_of_ne_zero hd
  have hbelow := d.below_le_two
  have hpos := two_zpow_pos (d.exponent - 2)
  unfold lowerEnd
  apply mul_le_mul_of_nonneg_right _ hpos.le
  linarith

/-- A double other than zero is not read from zero. -/
theorem not_rounds_zero (hd : d.significand ≠ 0) :
    ¬ Rounds 0 d := by
  intro h
  have hpos := two_zpow_pos (d.exponent - 2)
  linarith [h.lower_le, half_le_lowerEnd hd]

/-- A double is the ratio of two integers. -/
theorem ratio_spec (d : Double) :
    0 < d.ratio.2 ∧ (d.ratio.1 : ℚ) / d.ratio.2 = d.magnitude := by
  unfold ratio magnitude
  rcases two_zpow_cases d.exponent with ⟨hneg, hpow⟩ | ⟨hneg, hpow⟩
  · rw [if_pos hneg, hpow]
    exact ⟨Nat.pow_pos (by decide), div_eq_mul_inv _ _⟩
  · rw [if_neg hneg, hpow]
    refine ⟨Nat.one_pos, ?_⟩
    push_cast
    exact div_one _

-- ==== uniqueness

/-- The double `d` ends where `d'` begins, or before, and an end that they
share belongs to one of them at most. -/
def Before (d d' : Double) : Prop :=
  d.upperEnd ≤ d'.lowerEnd
    ∧ (d.upperEnd = d'.lowerEnd →
      d.significand % 2 = 1 ∨ d'.significand % 2 = 1)

/-- Intervals that lie apart share no number. -/
theorem Before.not_rounds {d d' : Double} (h : Before d d') (hx : Rounds x d) :
    ¬ Rounds x d' := by
  intro hx'
  have hlower := hx'.lower_le
  have hupper := hx.le_upper
  have hend : d.upperEnd = d'.lowerEnd :=
    le_antisymm h.1 (hlower.trans hupper)
  rcases h.2 hend with hodd | hodd
  · rw [Rounds, if_neg (by omega)] at hx
    linarith [hx.2]
  · rw [Rounds, if_neg (by omega)] at hx'
    linarith [hx'.1]

/-- The places double at least from one exponent to the next. -/
theorem two_mul_zpow_le {e e' : ℤ} (h : e < e') :
    2 * (2 : ℚ) ^ (e - 2) ≤ 2 ^ (e' - 2) := by
  rw [← two_zpow_add_one]
  exact zpow_le_zpow_right₀ (by norm_num) (by omega)

/-- A smaller exponent comes before. -/
theorem before_of_exponent_lt {d d' : Double} (hd : d.Shaped)
    (hd' : d'.Shaped) (h : d.exponent < d'.exponent) : Before d d' := by
  have hleast := hd.least
  have hfull : 2 ^ 52 ≤ d'.significand := hd'.full.resolve_right (by omega)
  have hsmall : (d.significand : ℚ) + 1 ≤ 2 ^ 53 := by exact_mod_cast hd.lt
  have hplaces := two_mul_zpow_le h
  have hpos := two_zpow_pos (d.exponent - 2)
  unfold Before lowerEnd upperEnd
  generalize (2 : ℚ) ^ (d.exponent - 2) = u at hplaces hpos ⊢
  generalize (2 : ℚ) ^ (d'.exponent - 2) = u' at hplaces ⊢
  rcases below_cases d' with ⟨hbelow, hsig, -⟩ | ⟨hbelow, hne⟩
  · rw [hbelow, hsig]
    push_cast
    refine ⟨by nlinarith, fun heq => .inl ?_⟩
    have hlast : 2 ^ 53 ≤ (d.significand : ℚ) + 1 := by nlinarith
    have hlast : 2 ^ 53 ≤ d.significand + 1 := by exact_mod_cast hlast
    have hlt := hd.lt
    omega
  · have hmore : 2 ^ 52 + 1 ≤ d'.significand := by
      have hsig : d'.significand ≠ 2 ^ 52 := fun heq => hne ⟨heq, by omega⟩
      omega
    have hmore : (2 : ℚ) ^ 52 + 1 ≤ d'.significand := by exact_mod_cast hmore
    rw [hbelow]
    push_cast
    have hgap : (4 * (d.significand : ℚ) + 2) * u
        < (4 * (d'.significand : ℚ) - 2) * u' := by nlinarith
    exact ⟨hgap.le, fun heq => absurd heq hgap.ne⟩

/-- So does a smaller significand. -/
theorem before_of_significand_lt {d d' : Double} (hd : d.Shaped)
    (he : d.exponent = d'.exponent) (h : d.significand < d'.significand) :
    Before d d' := by
  have hbelow : d'.below = 2 := by
    rcases below_cases d' with ⟨-, hsig, hleast⟩ | ⟨hbelow, -⟩
    · have hfull := hd.full
      omega
    · exact hbelow
  have hstep : (d.significand : ℚ) + 1 ≤ d'.significand := by exact_mod_cast h
  have hpos := two_zpow_pos (d'.exponent - 2)
  unfold Before lowerEnd upperEnd
  rw [hbelow, he]
  generalize (2 : ℚ) ^ (d'.exponent - 2) = u at hpos ⊢
  push_cast
  refine ⟨by nlinarith, fun heq => ?_⟩
  have hnext : (d'.significand : ℚ) ≤ d.significand + 1 := by nlinarith
  have hnext : d'.significand ≤ d.significand + 1 := by exact_mod_cast hnext
  omega

/-- A magnitude rounds to one shape at most. -/
theorem Rounds.unique {d d' : Double} (hd : d.Shaped) (hd' : d'.Shaped)
    (hx : Rounds x d) (hx' : Rounds x d') :
    d.significand = d'.significand ∧ d.exponent = d'.exponent := by
  rcases lt_trichotomy d.exponent d'.exponent with he | he | he
  · exact absurd hx' ((before_of_exponent_lt hd hd' he).not_rounds hx)
  · rcases lt_trichotomy d.significand d'.significand with hs | hs | hs
    · exact absurd hx' ((before_of_significand_lt hd he hs).not_rounds hx)
    · exact ⟨hs, he⟩
    · exact absurd hx ((before_of_significand_lt hd' he.symm hs).not_rounds hx')
  · exact absurd hx ((before_of_exponent_lt hd' hd he).not_rounds hx')

-- ==== rounding

/-- Rounding to an integer: to the nearer one, and if there is none to
the even one. -/
theorem roundHalfEven_spec (a : ℕ) {b : ℕ} (hb : 0 < b) :
    let m := roundHalfEven a b
    2 * a ≤ (2 * m + 1) * b ∧ 2 * m * b ≤ 2 * a + b
      ∧ (m % 2 = 1 → 2 * a < (2 * m + 1) * b ∧ 2 * m * b < 2 * a + b) := by
  have hdiv := Nat.div_add_mod a b
  have hmod := Nat.mod_lt a hb
  unfold roundHalfEven
  dsimp only
  generalize a / b = q at hdiv ⊢
  generalize a % b = r at hdiv hmod ⊢
  subst hdiv
  split
  · next hlow =>
    refine ⟨by nlinarith, by nlinarith, fun _ => ⟨by nlinarith, by nlinarith⟩⟩
  · split
    · next hhigh =>
      refine ⟨by nlinarith, by nlinarith, fun _ => ⟨by nlinarith, by nlinarith⟩⟩
    · next hlow hhigh =>
      have hhalf : b = 2 * r := by omega
      split
      · next heven =>
        refine ⟨by nlinarith, by nlinarith, fun hodd => by omega⟩
      · next hodd =>
        refine ⟨by nlinarith, by nlinarith, fun hodd' => by omega⟩

/-- Scaling divides by a power of two. -/
theorem scaled_spec (num : ℕ) {den : ℕ} (hden : 0 < den) (e : ℤ) :
    0 < (scaled num den e).2
      ∧ ((scaled num den e).1 : ℚ) / (scaled num den e).2 * 2 ^ e
        = (num : ℚ) / den := by
  have hq : (den : ℚ) ≠ 0 := by positivity
  unfold scaled
  rcases two_zpow_cases e with ⟨hneg, hpow⟩ | ⟨hneg, hpow⟩
  · rw [if_pos hneg, hpow]
    refine ⟨hden, ?_⟩
    push_cast [Nat.pow_eq]
    field_simp
  · rw [if_neg hneg, hpow]
    refine ⟨Nat.mul_pos hden (Nat.pow_pos (by decide)), ?_⟩
    push_cast [Nat.pow_eq]
    field_simp

variable {num den : ℕ}

/-- The binary logarithms of two numbers tell the one of their ratio to
within one. -/
theorem ratio_bounds (hnum : num ≠ 0) (hden : den ≠ 0) :
    (2 : ℚ) ^ ((num.log2 : ℤ) - den.log2 - 1) ≤ (num : ℚ) / den
      ∧ (num : ℚ) / den < 2 ^ ((num.log2 : ℤ) - den.log2 + 1) := by
  have hnum_le : (2 : ℚ) ^ num.log2 ≤ num := by
    exact_mod_cast Nat.log2_self_le hnum
  have hnum_lt : (num : ℚ) < 2 ^ (num.log2 + 1) := by
    exact_mod_cast @Nat.lt_log2_self num
  have hden_le : (2 : ℚ) ^ den.log2 ≤ den := by
    exact_mod_cast Nat.log2_self_le hden
  have hden_lt : (den : ℚ) < 2 ^ (den.log2 + 1) := by
    exact_mod_cast @Nat.lt_log2_self den
  have hpos : (0 : ℚ) < den := by positivity
  constructor
  · have hpow : (2 : ℚ) ^ ((num.log2 : ℤ) - den.log2 - 1)
        = 2 ^ num.log2 / 2 ^ (den.log2 + 1) := by
      rw [sub_sub, zpow_sub₀ (by norm_num), zpow_natCast]
      norm_cast
    rw [hpow]
    gcongr
  · have hpow : (2 : ℚ) ^ ((num.log2 : ℤ) - den.log2 + 1)
        = 2 ^ (num.log2 + 1) / 2 ^ den.log2 := by
      rw [sub_add_eq_add_sub, zpow_sub₀ (by norm_num), zpow_natCast]
      norm_cast
    rw [hpow, div_lt_div_iff₀ hpos (by positivity)]
    calc (num : ℚ) * 2 ^ den.log2 < 2 ^ (num.log2 + 1) * 2 ^ den.log2 := by
          gcongr
      _ ≤ 2 ^ (num.log2 + 1) * den := by gcongr

/-- The exponent leaves a significand of 53 bits, or is the least one. -/
theorem exponentFor_spec (hnum : num ≠ 0) (hden : 0 < den) :
    leastExponent ≤ exponentFor num den
      ∧ (num : ℚ) / den < 2 ^ 53 * 2 ^ exponentFor num den
      ∧ (2 ^ 52 * 2 ^ exponentFor num den ≤ (num : ℚ) / den
        ∨ exponentFor num den = leastExponent) := by
  obtain ⟨hlow, hhigh⟩ := ratio_bounds hnum (Nat.pos_iff_ne_zero.1 hden)
  have hpow : ∀ (n : ℕ) (e : ℤ), (2 : ℚ) ^ n * 2 ^ e = 2 ^ ((n : ℤ) + e) := by
    intro n e
    rw [zpow_add₀ (by norm_num), zpow_natCast]
  unfold exponentFor
  generalize hfirst : max ((num.log2 : ℤ) - den.log2 - 53) leastExponent = e
  obtain ⟨hpos, hscale⟩ := scaled_spec num hden e
  dsimp only
  generalize (scaled num den e).1 = a at hscale ⊢
  generalize (scaled num den e).2 = b at hscale hpos ⊢
  have hb : (0 : ℚ) < b := by exact_mod_cast hpos
  have hunit := two_zpow_pos e
  have htest : Nat.pow 2 53 ≤ a / b
      ↔ 2 ^ 53 * 2 ^ e ≤ (num : ℚ) / den := by
    rw [Nat.pow_eq, Nat.le_div_iff_mul_le hpos, ← hscale]
    constructor
    · intro h
      have h : (2 : ℚ) ^ 53 * b ≤ a := by exact_mod_cast h
      have hle : (2 : ℚ) ^ 53 ≤ a / b := (le_div_iff₀ hb).2 h
      exact mul_le_mul_of_nonneg_right hle hunit.le
    · intro h
      have hle : (2 : ℚ) ^ 53 ≤ a / b := le_of_mul_le_mul_right h hunit
      exact_mod_cast (le_div_iff₀ hb).1 hle
  split
  · next hmore =>
    have hle := htest.1 hmore
    refine ⟨by omega, hhigh.trans_le ?_, .inl ?_⟩
    · rw [hpow]
      exact zpow_le_zpow_right₀ (by norm_num) (by omega)
    · rw [two_zpow_add_one]
      linarith
  · next hless =>
    refine ⟨by omega, not_le.1 fun h => hless (htest.2 h), ?_⟩
    by_cases hleast : e = leastExponent
    · exact .inr hleast
    · refine .inl (le_trans ?_ hlow)
      rw [hpow]
      exact zpow_le_zpow_right₀ (by norm_num) (by omega)

/-- The significand and exponent that a ratio is rounded to, before it is
known whether there is such a double. -/
def nearest (num den : ℕ) : ℕ × ℤ :=
  let e := exponentFor num den
  let m := roundHalfEven (scaled num den e).1 (scaled num den e).2
  if m = 2 ^ 53 then (2 ^ 52, e + 1) else (m, e)

/-- A ratio is rounded unless it is too large. -/
theorem ofRatio?_eq {num : ℕ} (negative : Bool) (hnum : num ≠ 0) (den : ℕ) :
    ofRatio? negative num den
      = if (nearest num den).2 + 53 > 1024 then none
        else some ⟨negative, (nearest num den).1, (nearest num den).2⟩ := by
  unfold ofRatio? nearest
  rw [if_neg hnum]
  rfl

/-- A significand to which `y` rounds as an integer. -/
structure Nears (m : ℕ) (y : ℚ) : Prop where
  above : (m : ℚ) - 1 / 2 ≤ y
  below : y ≤ m + 1 / 2
  strict : m % 2 = 1 → (m : ℚ) - 1 / 2 < y ∧ y < m + 1 / 2

/-- Rounding takes the nearest integer, the even one of two. -/
theorem nears_roundHalfEven (a : ℕ) {b : ℕ} (hb : 0 < b) :
    Nears (roundHalfEven a b) ((a : ℚ) / b) := by
  obtain ⟨hup, hdown, hodd⟩ := roundHalfEven_spec a hb
  generalize roundHalfEven a b = m at hup hdown hodd ⊢
  have hbq : (0 : ℚ) < b := by exact_mod_cast hb
  have hup : 2 * (a : ℚ) ≤ (2 * m + 1) * b := by exact_mod_cast hup
  have hdown : 2 * (m : ℚ) * b ≤ 2 * a + b := by exact_mod_cast hdown
  refine ⟨?_, ?_, fun h => ⟨?_, ?_⟩⟩
  · rw [le_div_iff₀ hbq]
    linarith
  · rw [div_le_iff₀ hbq]
    linarith
  · have hstrict : 2 * (m : ℚ) * b < 2 * a + b := by exact_mod_cast (hodd h).2
    rw [lt_div_iff₀ hbq]
    linarith
  · have hstrict : 2 * (a : ℚ) < (2 * m + 1) * b := by
      exact_mod_cast (hodd h).1
    rw [div_lt_iff₀ hbq]
    linarith

/-- Rounding the significand is rounding the magnitude, also down to a
power of two, where the significand cannot have been smaller. -/
theorem Nears.rounds {m : ℕ} {y : ℚ} (h : Nears m y) {e : ℤ}
    (hfull : 2 ^ 52 ≤ y ∨ e = leastExponent) (negative : Bool) :
    Rounds (y * 2 ^ e) ⟨negative, m, e⟩ := by
  have hpos := two_zpow_pos (e - 2)
  have hlower : lowerEnd ⟨negative, m, e⟩ ≤ y * 2 ^ e
      ∧ (m % 2 = 1 → lowerEnd ⟨negative, m, e⟩ < y * 2 ^ e) := by
    unfold lowerEnd
    dsimp only
    rw [two_zpow_quarter e]
    generalize (2 : ℚ) ^ (e - 2) = u at hpos ⊢
    rcases below_cases ⟨negative, m, e⟩ with ⟨hbelow, hm, he⟩ | ⟨hbelow, -⟩
    · have hy : (2 : ℚ) ^ 52 ≤ y := by
        refine hfull.resolve_right ?_
        dsimp only at he
        omega
      dsimp only at hm
      rw [hbelow, hm]
      push_cast
      exact ⟨by nlinarith, fun _ => by nlinarith⟩
    · rw [hbelow]
      push_cast
      refine ⟨by nlinarith [h.above], fun hodd => ?_⟩
      nlinarith [(h.strict hodd).1]
  have hupper : y * 2 ^ e ≤ upperEnd ⟨negative, m, e⟩
      ∧ (m % 2 = 1 → y * 2 ^ e < upperEnd ⟨negative, m, e⟩) := by
    unfold upperEnd
    dsimp only
    rw [two_zpow_quarter e]
    generalize (2 : ℚ) ^ (e - 2) = u at hpos ⊢
    refine ⟨by nlinarith [h.below], fun hodd => ?_⟩
    nlinarith [(h.strict hodd).2]
  unfold Rounds
  dsimp only
  split
  · exact ⟨hlower.1, hupper.1⟩
  · next hodd => exact ⟨hlower.2 (by omega), hupper.2 (by omega)⟩

/-- The same magnitudes round to a significand of 54 bits and to half of
it with the next exponent, if they are not above. -/
theorem rounds_carry {y : ℚ} (h : Nears (2 ^ 53) y) (hlt : y < 2 ^ 53) {e : ℤ}
    (hleast : leastExponent ≤ e) (negative : Bool) :
    Rounds (y * 2 ^ e) ⟨negative, 2 ^ 52, e + 1⟩ := by
  have hpos := two_zpow_pos (e - 1)
  have hbelow : below ⟨negative, 2 ^ 52, e + 1⟩ = 1 :=
    if_pos ⟨rfl, by dsimp only; omega⟩
  have habove := h.above
  have hunit : (2 : ℚ) ^ e = 2 * 2 ^ (e - 1) := by
    rw [← two_zpow_add_one]
    congr 1
    omega
  have hexp : e + 1 - 2 = e - 1 := by omega
  unfold Rounds lowerEnd upperEnd
  rw [hbelow]
  dsimp only
  rw [if_pos (by decide), hexp, hunit]
  generalize (2 : ℚ) ^ (e - 1) = u at hpos ⊢
  push_cast at habove ⊢
  exact ⟨by nlinarith, by nlinarith⟩

/-- What a ratio is rounded to has the shape of a double, and the ratio
rounds to it. -/
theorem nearest_spec (negative : Bool) (hnum : num ≠ 0) (hden : 0 < den) :
    Shaped ⟨negative, (nearest num den).1, (nearest num den).2⟩
      ∧ Rounds ((num : ℚ) / den)
          ⟨negative, (nearest num den).1, (nearest num den).2⟩ := by
  obtain ⟨hleast, hlt, hfull⟩ := exponentFor_spec hnum hden
  unfold nearest
  generalize exponentFor num den = e at hleast hlt hfull ⊢
  obtain ⟨hpos, hscale⟩ := scaled_spec num hden e
  have hnears := nears_roundHalfEven (scaled num den e).1 hpos
  dsimp only
  generalize roundHalfEven _ _ = m at hnears ⊢
  generalize ((scaled num den e).1 : ℚ) / (scaled num den e).2 = y
    at hscale hnears
  rw [← hscale] at hlt hfull ⊢
  have hunit := two_zpow_pos e
  have hy : y < 2 ^ 53 := lt_of_mul_lt_mul_right hlt hunit.le
  have hfull : 2 ^ 52 ≤ y ∨ e = leastExponent :=
    hfull.imp_left fun h => le_of_mul_le_mul_right h hunit
  have hm : m < 2 ^ 53 + 1 := by
    have hle : (m : ℚ) < 2 ^ 53 + 1 := by linarith [hnears.above]
    exact_mod_cast hle
  split
  · next hcarry =>
    subst hcarry
    refine ⟨⟨by norm_num, .inl (Nat.le_refl _), ?_⟩,
      rounds_carry hnears hy hleast negative⟩
    dsimp only
    omega
  · next hne =>
    refine ⟨⟨by dsimp only; omega, hfull.imp_left fun h => ?_, hleast⟩,
      hnears.rounds hfull negative⟩
    have hge : (2 : ℚ) ^ 52 < m + 1 := by linarith [hnears.below]
    have hge : 2 ^ 52 < m + 1 := by exact_mod_cast hge
    dsimp only
    omega

-- ==== conversion

/-- The outcome of a conversion is the double with this sign that the
magnitude rounds to, if there is one. -/
def Converts (negative : Bool) (x : ℚ) (o : Option Double) : Prop :=
  ∀ d, o = some d ↔ d.negative = negative ∧ d.Formed ∧ Rounds x d

/-- A number that rounds to a double is converted to it. -/
theorem converts_some (hd : d.Formed) (hx : Rounds x d) :
    Converts d.negative x (some d) := by
  intro d'
  constructor
  · rintro ⟨⟩
    exact ⟨rfl, hd, hx⟩
  · rintro ⟨hsign, hd', hx'⟩
    obtain ⟨hs, he⟩ := hx.unique hd.toShaped hd'.toShaped hx'
    obtain ⟨n, s, e⟩ := d
    obtain ⟨n', s', e'⟩ := d'
    dsimp only at hsign hs he
    rw [hsign, hs, he]

/-- One that rounds to none is not converted. -/
theorem converts_none {negative : Bool}
    (h : ∀ d : Double, d.Formed → ¬ Rounds x d) :
    Converts negative x none := by
  intro d
  constructor
  · intro hnone
    cases hnone
  · rintro ⟨-, hd, hx⟩
    exact absurd hx (h d hd)

/-- A conversion has one outcome. -/
theorem Converts.eq {negative : Bool} {o o' : Option Double}
    (h : Converts negative x o) (h' : Converts negative x o') : o = o' :=
  Option.ext fun d => (h d).trans (h' d).symm

/-- What is within half of the least place of zero rounds to zero. -/
theorem converts_zero (negative : Bool) (h0 : 0 ≤ x) (h : x ≤ 2 ^ (-1075 : ℤ)) :
    Converts negative x (some ⟨negative, 0, leastExponent⟩) := by
  refine converts_some ⟨⟨by norm_num, .inr rfl, le_refl _⟩, (by decide : leastExponent ≤ 971)⟩ ?_
  have hbelow : below ⟨negative, 0, leastExponent⟩ = 2 := rfl
  have hunit : (2 : ℚ) ^ (-1075 : ℤ) = 2 * 2 ^ (leastExponent - 2) := by
    rw [← two_zpow_add_one]
    rfl
  have hpos := two_zpow_pos (leastExponent - 2)
  unfold Rounds lowerEnd upperEnd
  rw [hbelow]
  dsimp only
  rw [if_pos rfl]
  push_cast
  constructor
  · nlinarith
  · linarith

/-- Ratios are converted by rounding. -/
theorem converts_ofRatio? (negative : Bool) (num : ℕ) {den : ℕ}
    (hden : 0 < den) :
    Converts negative ((num : ℚ) / den) (ofRatio? negative num den) := by
  by_cases hnum : num = 0
  · subst hnum
    have hzero := converts_zero negative le_rfl (two_zpow_pos (-1075)).le
    simpa [ofRatio?] using hzero
  · obtain ⟨hshaped, hrounds⟩ := nearest_spec negative hnum hden
    rw [ofRatio?_eq negative hnum]
    split
    · next hlarge =>
      refine converts_none fun d hd hx => ?_
      obtain ⟨-, he⟩ := hrounds.unique hshaped hd.toShaped hx
      have hmost := hd.most
      dsimp only at he
      omega
    · next hsmall =>
      refine converts_some ⟨hshaped, ?_⟩ hrounds
      dsimp only
      omega

/-- What is not enormous can be converted. -/
theorem exists_ofRatio? (negative : Bool) (hden : 0 < den)
    (h : (num : ℚ) / den < 2 ^ (1023 : ℤ)) :
    ∃ d, ofRatio? negative num den = some d := by
  by_cases hnum : num = 0
  · rw [hnum]
    exact ⟨_, if_pos rfl⟩
  · obtain ⟨hshaped, hrounds⟩ := nearest_spec negative hnum hden
    rw [ofRatio?_eq negative hnum]
    refine ⟨_, if_neg fun hlarge => ?_⟩
    generalize nearest num den = p at hshaped hrounds hlarge
    have hfull : 2 ^ 52 ≤ p.1 := by
      refine hshaped.full.resolve_right fun hleast => ?_
      have hleast : p.2 = -1074 := hleast
      omega
    have hfull : (2 : ℚ) ^ 52 ≤ p.1 := by exact_mod_cast hfull
    have hplace : (2 : ℚ) ^ (970 : ℤ) ≤ 2 ^ (p.2 - 2) :=
      zpow_le_zpow_right₀ (by norm_num) (by omega)
    have htop : (2 : ℚ) ^ (1023 : ℤ) = 2 ^ 53 * 2 ^ (970 : ℤ) := by
      rw [← zpow_natCast, ← zpow_add₀ (by norm_num)]
      rfl
    have hbelow := below_le_two ⟨negative, p.1, p.2⟩
    refine absurd h (not_lt.2 ?_)
    calc (2 : ℚ) ^ (1023 : ℤ) = 2 ^ 53 * 2 ^ (970 : ℤ) := htop
      _ ≤ 2 ^ 53 * 2 ^ (p.2 - 2) := by gcongr
      _ ≤ lowerEnd ⟨negative, p.1, p.2⟩ := by
          unfold lowerEnd
          apply mul_le_mul_of_nonneg_right _ (two_zpow_pos (p.2 - 2)).le
          dsimp only
          linarith
      _ ≤ (num : ℚ) / den := hrounds.lower_le

-- ==== decimals

/-- The digits of a number tell its size. -/
theorem toDigits_bounds {c : ℕ} (hc : c ≠ 0) :
    10 ^ ((Nat.toDigits 10 c).length - 1) ≤ c
      ∧ c < 10 ^ (Nat.toDigits 10 c).length := by
  have hpos : 0 < (Nat.toDigits 10 c).length := Nat.length_toDigits_pos
  refine ⟨?_, (Nat.length_toDigits_le_iff (by decide) hpos).1 (Nat.le_refl _)⟩
  by_contra hlt
  by_cases hone : (Nat.toDigits 10 c).length - 1 = 0
  · rw [hone] at hlt
    omega
  · have hle := (Nat.length_toDigits_le_iff (b := 10) (n := c) (by decide)
      (Nat.pos_of_ne_zero hone)).2 (by omega)
    omega

/-- A decimal lies between two powers of ten. -/
theorem decimal_bounds {c : ℕ} (hc : c ≠ 0) (e : ℤ) :
    (10 : ℚ) ^ ((Nat.toDigits 10 c).length + e - 1) ≤ c * 10 ^ e
      ∧ (c : ℚ) * 10 ^ e < 10 ^ ((Nat.toDigits 10 c).length + e) := by
  obtain ⟨hlow, hhigh⟩ := toDigits_bounds hc
  have hpos : 0 < (Nat.toDigits 10 c).length := Nat.length_toDigits_pos
  have hunit : (0 : ℚ) < 10 ^ e := by positivity
  have hpow : ∀ n : ℕ, (10 : ℚ) ^ ((n : ℤ) + e) = 10 ^ n * 10 ^ e := by
    intro n
    rw [zpow_add₀ (by norm_num), zpow_natCast]
  constructor
  · have hexp : ((Nat.toDigits 10 c).length : ℤ) + e - 1
        = (((Nat.toDigits 10 c).length - 1 : ℕ) : ℤ) + e := by omega
    rw [hexp, hpow]
    exact mul_le_mul_of_nonneg_right (by exact_mod_cast hlow) hunit.le
  · rw [hpow]
    exact mul_lt_mul_of_pos_right (by exact_mod_cast hhigh) hunit

/-- No interval reaches beyond the largest double. -/
theorem Formed.upperEnd_lt (hd : d.Formed) :
    d.upperEnd < 2 ^ (1024 : ℤ) := by
  have hsig : (d.significand : ℚ) + 1 ≤ 2 ^ 53 := by exact_mod_cast hd.lt
  have hexp : (2 : ℚ) ^ (d.exponent - 2) ≤ 2 ^ (969 : ℤ) :=
    zpow_le_zpow_right₀ (by norm_num) (by have := hd.most; omega)
  have hpos := two_zpow_pos (d.exponent - 2)
  have htop : (2 : ℚ) ^ (1024 : ℤ) = 2 ^ 55 * 2 ^ (969 : ℤ) := by
    rw [← zpow_natCast, ← zpow_add₀ (by norm_num)]
    rfl
  unfold upperEnd
  rw [htop]
  calc (4 * (d.significand : ℚ) + 2) * 2 ^ (d.exponent - 2)
      < 2 ^ 55 * 2 ^ (d.exponent - 2) := by
        apply mul_lt_mul_of_pos_right _ hpos
        linarith
    _ ≤ 2 ^ 55 * 2 ^ (969 : ℤ) := by gcongr

theorem ten_zpow_le_tiny : (10 : ℚ) ^ (-331 : ℤ) ≤ 2 ^ (-1075 : ℤ) := by
  have hpow : (2 : ℕ) ^ 1075 ≤ 10 ^ 331 := by decide +kernel
  rw [zpow_neg, zpow_neg]
  apply inv_anti₀ (by positivity)
  exact_mod_cast hpow

theorem huge_le_ten_zpow : (2 : ℚ) ^ (1024 : ℤ) ≤ 10 ^ (310 : ℤ) := by
  have hpow : (2 : ℕ) ^ 1024 ≤ 10 ^ 310 := by decide +kernel
  exact_mod_cast hpow

/-- A decimal is converted to the double that it rounds to. -/
theorem converts_ofDecimal? (negative : Bool) (c : ℕ) (e : ℤ) :
    Converts negative (c * 10 ^ e) (ofDecimal? negative c e) := by
  unfold ofDecimal?
  dsimp only
  split
  · next hzero =>
    refine converts_zero negative (by positivity) ?_
    rw [Bool.or_eq_true, decide_eq_true_eq, decide_eq_true_eq] at hzero
    rcases hzero with rfl | hsmall
    · rw [Nat.cast_zero, zero_mul]
      positivity
    · by_cases hc : c = 0
      · rw [hc, Nat.cast_zero, zero_mul]
        positivity
      · refine (decimal_bounds hc e).2.le.trans (le_trans ?_ ten_zpow_le_tiny)
        exact zpow_le_zpow_right₀ (by norm_num) (by omega)
  · next hnonzero =>
    have hc : c ≠ 0 := by
      rintro rfl
      simp at hnonzero
    split
    · next hlarge =>
      refine converts_none fun d hd hx => ?_
      have hle : (10 : ℚ) ^ (310 : ℤ) ≤ c * 10 ^ e := by
        refine le_trans ?_ (decimal_bounds hc e).1
        exact zpow_le_zpow_right₀ (by norm_num) (by omega)
      exact absurd (hx.le_upper.trans_lt hd.upperEnd_lt)
        (not_lt.2 (huge_le_ten_zpow.trans hle))
    · rcases ten_zpow_cases e with ⟨hneg, hpow⟩ | ⟨hneg, hpow⟩
      · rw [if_pos hneg, hpow, ← div_eq_mul_inv]
        exact converts_ofRatio? negative c (Nat.pow_pos (by decide))
      · have hratio := converts_ofRatio? negative (c * Nat.pow 10 e.toNat)
          Nat.one_pos
        rw [if_neg hneg, hpow, ← Nat.cast_mul]
        rwa [Nat.cast_one, div_one] at hratio

-- ==== integers

/-- An integer that needs no more than 53 bits before its trailing zeros
is the magnitude of a double. -/
theorem exists_shaped {m s k : ℕ} (hm : m ≠ 0) (hs : s < 2 ^ 53)
    (h : m = s * 2 ^ k) (negative : Bool) :
    ∃ d : Double, d.negative = negative ∧ d.Shaped ∧ d.magnitude = m := by
  have hlow := Nat.log2_self_le hm
  have hhigh := @Nat.lt_log2_self m
  rcases Nat.lt_or_ge m.log2 53 with hlog | hlog
  · obtain ⟨n, hn⟩ := Nat.exists_eq_add_of_le (Nat.le_of_lt_succ hlog)
    have hfull : 2 ^ 52 ≤ m * 2 ^ n := by
      rw [hn, pow_add]
      exact Nat.mul_le_mul_right _ hlow
    have hlt : m * 2 ^ n < 2 ^ 53 := by
      have hpow : 2 ^ 53 = 2 ^ (m.log2 + 1) * 2 ^ n := by
        rw [← pow_add]
        congr 1
        omega
      rw [hpow]
      exact Nat.mul_lt_mul_of_pos_right hhigh (Nat.two_pow_pos n)
    refine ⟨⟨negative, m * 2 ^ n, -(n : ℤ)⟩, rfl, ⟨hlt, .inl hfull, ?_⟩, ?_⟩
    · show -1074 ≤ -(n : ℤ)
      omega
    · unfold magnitude
      dsimp only
      rw [zpow_neg, zpow_natCast]
      push_cast
      field_simp
  · obtain ⟨n, hn⟩ := Nat.exists_eq_add_of_le hlog
    -- fewer zeros would leave more than 53 bits
    have hk : n + 1 ≤ k := by
      by_contra hless
      have hpow : 2 ^ k ≤ 2 ^ n := Nat.pow_le_pow_right (by decide) (by omega)
      have hlarge : 2 ^ 53 * 2 ^ n ≤ s * 2 ^ k := by
        rw [← h, ← pow_add, ← hn]
        exact hlow
      have hsmall : s * 2 ^ k < 2 ^ 53 * 2 ^ n :=
        Nat.mul_lt_mul_of_lt_of_le hs hpow (Nat.two_pow_pos n)
      omega
    obtain ⟨j, rfl⟩ := Nat.exists_eq_add_of_le hk
    have hm : m = s * 2 ^ j * 2 ^ (n + 1) := by
      rw [h, pow_add]
      ring
    have hfull : 2 ^ 52 ≤ s * 2 ^ j := by
      have hle : 2 ^ 52 * 2 ^ (n + 1) ≤ s * 2 ^ j * 2 ^ (n + 1) := by
        rw [← hm, ← pow_add]
        refine le_trans (le_of_eq ?_) hlow
        congr 1
        omega
      exact Nat.le_of_mul_le_mul_right hle (Nat.two_pow_pos _)
    have hlt : s * 2 ^ j < 2 ^ 53 := by
      have hlt : s * 2 ^ j * 2 ^ (n + 1) < 2 ^ 53 * 2 ^ (n + 1) := by
        rw [← hm, ← pow_add]
        refine lt_of_lt_of_eq hhigh ?_
        congr 1
        omega
      exact Nat.lt_of_mul_lt_mul_right hlt
    refine ⟨⟨negative, s * 2 ^ j, ((n + 1 : ℕ) : ℤ)⟩, rfl,
      ⟨hlt, .inl hfull, ?_⟩, ?_⟩
    · show -1074 ≤ ((n + 1 : ℕ) : ℤ)
      omega
    · unfold magnitude
      dsimp only
      rw [zpow_natCast]
      exact_mod_cast hm.symm

end PromptGraph.Number.Double

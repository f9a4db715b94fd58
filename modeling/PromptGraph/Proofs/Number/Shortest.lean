/-
The shortest decimal of a double. What the search over powers of ten
finds reads back as the double, no decimal on a coarser grid does, and on
its own grid none is nearer to the double (`shortest_spec`). This says
which decimal it is (`Shortest.unique`).

The search looks at twenty grids. The first is coarse enough, since no
decimal beyond it is small enough to read back (`upperEnd_lt_top`), and
the last is fine enough, since its step is smaller than half a place of
the double (`step_lt_half`). Both are comparisons of powers of two with
powers of ten over the range of the exponent, which are computed
(`powers_compare`).
-/
import Mathlib.Algebra.Order.Group.Abs
import Mathlib.Tactic.NormNum
import PromptGraph.Number.Shortest
import PromptGraph.Proofs.Number.Rounding

namespace PromptGraph.Number

open Double (Rounds ten_zpow_cases)

def Decimal.value (r : Decimal) : ℚ := r.coefficient * 10 ^ r.exponent

/-- On its own grid no decimal that reads back is nearer to the double,
and one as near gives way to an even coefficient. -/
def Decimal.Nearest (r : Decimal) (d : Double) : Prop :=
  ∀ q : Decimal, q.exponent = r.exponent → Rounds q.value d →
    |r.value - d.magnitude| ≤ |q.value - d.magnitude|
      ∧ (|r.value - d.magnitude| = |q.value - d.magnitude| →
        q = r ∨ r.coefficient % 2 = 0)

/-- The shortest decimal that reads back as the double. -/
structure Shortest (d : Double) (r : Decimal) : Prop where
  reads : Rounds r.value d
  coarsest : ∀ q : Decimal, Rounds q.value d → q.exponent ≤ r.exponent
  nearest : r.Nearest d

theorem ten_zpow_pos (k : ℤ) : (0 : ℚ) < 10 ^ k := by positivity

theorem Decimal.value_lt {q r : Decimal} (he : q.exponent = r.exponent)
    (h : q.coefficient < r.coefficient) : q.value < r.value := by
  unfold value
  rw [he]
  exact mul_lt_mul_of_pos_right (by exact_mod_cast h) (ten_zpow_pos _)

/-- Two even coefficients that are as near as each other have one between
them that is nearer. -/
theorem Shortest.coefficient_not_lt {d : Double} {r r' : Decimal}
    (h : Shortest d r) (h' : Shortest d r')
    (he : r.exponent = r'.exponent) : ¬ r.coefficient < r'.coefficient := by
  intro hlt
  obtain ⟨hle, htie⟩ := h.nearest r' he.symm h'.reads
  obtain ⟨hle', htie'⟩ := h'.nearest r he h.reads
  have hdist := le_antisymm hle hle'
  have hne : r' ≠ r := by
    rintro rfl
    exact absurd hlt (Nat.lt_irrefl _)
  have heven := (htie hdist).resolve_left hne
  let q : Decimal := ⟨r.coefficient + 1, r.exponent⟩
  have hrq : r.value < q.value := Decimal.value_lt rfl (Nat.lt_succ_self _)
  have hqr : q.value < r'.value := by
    have heven' := (htie' hdist.symm).resolve_left hne.symm
    refine Decimal.value_lt he ?_
    show r.coefficient + 1 < r'.coefficient
    omega
  have hq := (h.nearest q rfl (h.reads.between h'.reads hrq.le hqr.le)).1
  have hcloser : |q.value - d.magnitude| < |r.value - d.magnitude| := by
    rcases le_total q.value d.magnitude with hside | hside
    · rw [abs_of_nonpos (by linarith), abs_of_nonpos (by linarith)]
      linarith
    · rw [hdist, abs_of_nonneg (by linarith), abs_of_nonneg (by linarith)]
      linarith
  exact absurd hq (not_le.2 hcloser)

theorem Shortest.unique {d : Double} {r r' : Decimal} (h : Shortest d r)
    (h' : Shortest d r') : r = r' := by
  have he : r.exponent = r'.exponent :=
    le_antisymm (h'.coarsest r h.reads) (h.coarsest r' h'.reads)
  have hc := h.coefficient_not_lt h' he
  have hc' := h'.coefficient_not_lt h he.symm
  obtain ⟨c, e⟩ := r
  obtain ⟨c', e'⟩ := r'
  dsimp only at he hc hc'
  rw [he, show c = c' by omega]

-- ==== comparisons

theorem pow_ten_pos (n : ℕ) : (0 : ℚ) < (Nat.pow 10 n : ℕ) := by
  rw [Nat.pow_eq]
  positivity

section Comparison

variable (num : ℕ) {den : ℕ} (hden : 0 < den) (a : ℕ) (k : ℤ)
include hden

theorem scaleLe_iff :
    scaleLe a k num den = true ↔ (a : ℚ) * 10 ^ k ≤ (num : ℚ) / den := by
  have hq : (0 : ℚ) < den := by exact_mod_cast hden
  unfold scaleLe
  rcases ten_zpow_cases k with ⟨hneg, hpow⟩ | ⟨hneg, hpow⟩
  · have hten := pow_ten_pos (-k).toNat
    rw [if_pos hneg, decide_eq_true_eq, hpow, ← div_eq_mul_inv,
      div_le_div_iff₀ hten hq]
    exact_mod_cast Iff.rfl
  · rw [if_neg hneg, decide_eq_true_eq, hpow, le_div_iff₀ hq]
    exact_mod_cast Iff.rfl

theorem scaleGe_iff :
    scaleGe a k num den = true ↔ (num : ℚ) / den ≤ (a : ℚ) * 10 ^ k := by
  have hq : (0 : ℚ) < den := by exact_mod_cast hden
  unfold scaleGe
  rcases ten_zpow_cases k with ⟨hneg, hpow⟩ | ⟨hneg, hpow⟩
  · have hten := pow_ten_pos (-k).toNat
    rw [if_pos hneg, decide_eq_true_eq, hpow, ← div_eq_mul_inv,
      div_le_div_iff₀ hq hten]
    exact_mod_cast Iff.rfl
  · rw [if_neg hneg, decide_eq_true_eq, hpow, div_le_iff₀ hq]
    exact_mod_cast Iff.rfl

/-- The test for the upper neighbour, as a comparison with the middle. -/
theorem roundsAbove_iff :
    roundsAbove num den a k = true
      ↔ (2 * a + 1) * 10 ^ k < 2 * ((num : ℚ) / den)
        ∨ (2 * a + 1) * 10 ^ k = 2 * ((num : ℚ) / den) ∧ a % 2 = 1 := by
  have hq : (0 : ℚ) < den := by exact_mod_cast hden
  unfold roundsAbove
  rcases ten_zpow_cases k with ⟨hneg, hpow⟩ | ⟨hneg, hpow⟩
  · have hten := pow_ten_pos (-k).toNat
    rw [if_pos hneg, hpow, ← div_eq_mul_inv, ← mul_div_assoc,
      div_lt_div_iff₀ hten hq, div_eq_div_iff hten.ne' hq.ne']
    simp only [Bool.or_eq_true, Bool.and_eq_true, decide_eq_true_eq, beq_iff_eq]
    exact_mod_cast Iff.rfl
  · rw [if_neg hneg, hpow, ← mul_div_assoc, lt_div_iff₀ hq, eq_div_iff hq.ne']
    simp only [Bool.or_eq_true, Bool.and_eq_true, decide_eq_true_eq, beq_iff_eq]
    rw [mul_assoc (2 * (a : ℚ) + 1), mul_comm _ (den : ℚ)]
    exact_mod_cast Iff.rfl

omit a in
/-- The grid point at or below a ratio. -/
theorem gridFloor_spec :
    (gridFloor num den k : ℚ) * 10 ^ k ≤ (num : ℚ) / den
      ∧ (num : ℚ) / den < ((gridFloor num den k : ℚ) + 1) * 10 ^ k := by
  have hq : (0 : ℚ) < den := by exact_mod_cast hden
  unfold gridFloor
  rcases ten_zpow_cases k with ⟨hneg, hpow⟩ | ⟨hneg, hpow⟩
  · have hten := pow_ten_pos (-k).toNat
    rw [if_pos hneg, hpow, ← div_eq_mul_inv, ← div_eq_mul_inv,
      div_le_div_iff₀ hten hq, div_lt_div_iff₀ hq hten]
    constructor
    · exact_mod_cast Nat.div_mul_le_self _ _
    · rw [add_mul, one_mul]
      exact_mod_cast Nat.lt_div_mul_add hden
  · have hmul : 0 < den * Nat.pow 10 k.toNat :=
      Nat.mul_pos hden (Nat.pow_pos (by decide))
    rw [if_neg hneg, hpow, le_div_iff₀ hq, div_lt_iff₀ hq]
    constructor
    · rw [mul_assoc, mul_comm _ (den : ℚ)]
      exact_mod_cast Nat.div_mul_le_self num (den * Nat.pow 10 k.toNat)
    · rw [mul_assoc, mul_comm _ (den : ℚ), add_mul, one_mul]
      exact_mod_cast Nat.lt_div_mul_add hmul

end Comparison

-- ==== one grid

namespace Double

/-- The ends of the interval are the ends of the rounding. -/
theorem interval_spec {d : Double} (hd : d.significand ≠ 0) :
    0 < d.interval.den
      ∧ (d.interval.lo : ℚ) / d.interval.den = d.lowerEnd
      ∧ (d.interval.hi : ℚ) / d.interval.den = d.upperEnd
      ∧ d.interval.closed = (d.significand % 2 == 0) := by
  have hbelow : (if d.significand = Nat.pow 2 52 && d.exponent > leastExponent
      then 1 else 2) = d.below := by
    unfold below
    simp only [Bool.and_eq_true, decide_eq_true_eq, Nat.pow_eq]
  have hle : d.below ≤ 4 * d.significand := by
    rcases below_cases d with ⟨h, -⟩ | ⟨h, -⟩
    · omega
    · omega
  unfold interval lowerEnd upperEnd
  dsimp only
  rw [hbelow]
  rcases two_zpow_cases (d.exponent - 2) with ⟨hneg, hpow⟩ | ⟨hneg, hpow⟩
  · rw [if_pos hneg, if_pos hneg, hpow]
    refine ⟨Nat.pow_pos (by decide), ?_, ?_, rfl⟩
    · push_cast [Nat.cast_sub hle]
      rw [mul_one, div_eq_mul_inv]
    · push_cast
      rw [mul_one, div_eq_mul_inv]
  · rw [if_neg hneg, if_neg hneg, hpow]
    refine ⟨Nat.one_pos, ?_, ?_, rfl⟩
    · push_cast [Nat.cast_sub hle]
      exact div_one _
    · push_cast
      exact div_one _

/-- The interval holds the decimals that read back. -/
theorem holds_iff {d : Double} (hd : d.significand ≠ 0) (a : ℕ) (k : ℤ) :
    d.interval.holds a k = true ↔ Rounds ((a : ℚ) * 10 ^ k) d := by
  obtain ⟨hden, hlo, hhi, hclosed⟩ := interval_spec hd
  unfold Interval.holds Rounds
  rw [hclosed, ← hlo, ← hhi]
  by_cases heven : d.significand % 2 = 0
  · rw [if_pos (beq_iff_eq.2 heven), if_pos heven, Bool.and_eq_true,
      scaleGe_iff _ hden, scaleLe_iff _ hden]
  · rw [if_neg (fun h => heven (beq_iff_eq.1 h)), if_neg heven,
      Bool.and_eq_true, Bool.not_eq_true', Bool.not_eq_true',
      ← Bool.not_eq_true, ← Bool.not_eq_true, scaleLe_iff _ hden,
      scaleGe_iff _ hden, not_le, not_le]

/-- A decimal that reads back lies below the double or above it, and then
so does the nearest grid point on that side. -/
theorem neighbour_rounds {d : Double} {a b : ℕ} {k : ℤ}
    (hlow : (a : ℚ) * 10 ^ k ≤ d.magnitude)
    (hhigh : d.magnitude < ((a : ℚ) + 1) * 10 ^ k)
    (hb : Rounds ((b : ℚ) * 10 ^ k) d) :
    b ≤ a ∧ Rounds ((a : ℚ) * 10 ^ k) d
      ∨ a + 1 ≤ b ∧ Rounds (((a + 1 : ℕ) : ℚ) * 10 ^ k) d := by
  have hunit := ten_zpow_pos k
  rcases Nat.lt_or_ge a b with hlt | hle
  · have hstep : ((a + 1 : ℕ) : ℚ) ≤ b := by exact_mod_cast hlt
    refine .inr ⟨hlt, (rounds_magnitude d).between hb ?_ ?_⟩
    · push_cast
      exact hhigh.le
    · exact mul_le_mul_of_nonneg_right hstep hunit.le
  · have hstep : (b : ℚ) ≤ a := by exact_mod_cast hle
    exact .inl ⟨hle, hb.between (rounds_magnitude d)
      (mul_le_mul_of_nonneg_right hstep hunit.le) hlow⟩

section Grid

variable {d : Double} {a : ℕ} {k : ℤ}
  (hlow : (a : ℚ) * 10 ^ k ≤ d.magnitude)
  (hhigh : d.magnitude < ((a : ℚ) + 1) * 10 ^ k)
include hlow hhigh

/-- The lower neighbour is the nearest if the upper one does not read
back, or is farther off, or as far and the lower one is even. -/
theorem nearest_lower
    (h : Rounds (((a + 1 : ℕ) : ℚ) * 10 ^ k) d →
      2 * d.magnitude ≤ (2 * a + 1) * 10 ^ k
        ∧ (2 * d.magnitude = (2 * a + 1) * 10 ^ k → a % 2 = 0)) :
    Decimal.Nearest ⟨a, k⟩ d := by
  rintro ⟨b, j⟩ he hb
  obtain rfl : k = j := he.symm
  unfold Decimal.value at hb ⊢
  dsimp only at hb ⊢
  rw [abs_of_nonpos (by linarith)]
  rcases neighbour_rounds hlow hhigh hb with ⟨hle, -⟩ | ⟨hlt, hupper⟩
  · have hstep : (b : ℚ) ≤ a := by exact_mod_cast hle
    rw [abs_of_nonpos (by nlinarith [ten_zpow_pos k])]
    refine ⟨by nlinarith [ten_zpow_pos k], fun heq => .inl ?_⟩
    have hsame : (a : ℚ) * 10 ^ k = b * 10 ^ k := by linarith
    have hsame := mul_right_cancel₀ (ten_zpow_pos k).ne' hsame
    rw [show b = a by exact_mod_cast hsame.symm]
  · obtain ⟨hfar, heven⟩ := h hupper
    have hstep : (a : ℚ) + 1 ≤ b := by exact_mod_cast hlt
    have hmul := mul_le_mul_of_nonneg_right hstep (ten_zpow_pos k).le
    rw [abs_of_nonneg (by linarith)]
    refine ⟨by linarith, fun heq => .inr (heven ?_)⟩
    linarith

/-- The same for the upper neighbour. -/
theorem nearest_upper
    (h : Rounds ((a : ℚ) * 10 ^ k) d →
      (2 * a + 1) * 10 ^ k ≤ 2 * d.magnitude
        ∧ (2 * d.magnitude = (2 * a + 1) * 10 ^ k → a % 2 = 1)) :
    Decimal.Nearest ⟨a + 1, k⟩ d := by
  rintro ⟨b, j⟩ he hb
  obtain rfl : k = j := he.symm
  unfold Decimal.value at hb ⊢
  dsimp only at hb ⊢
  push_cast
  rw [abs_of_nonneg (by linarith)]
  rcases neighbour_rounds hlow hhigh hb with ⟨hle, hlower⟩ | ⟨hlt, -⟩
  · obtain ⟨hfar, hodd⟩ := h hlower
    have hstep : (b : ℚ) ≤ a := by exact_mod_cast hle
    have hmul := mul_le_mul_of_nonneg_right hstep (ten_zpow_pos k).le
    rw [abs_of_nonpos (by linarith)]
    refine ⟨by linarith, fun heq => .inr ?_⟩
    have := hodd (by linarith)
    omega
  · have hstep : (a : ℚ) + 1 ≤ b := by exact_mod_cast hlt
    have hmul := mul_le_mul_of_nonneg_right hstep (ten_zpow_pos k).le
    rw [abs_of_nonneg (by linarith)]
    refine ⟨by linarith, fun heq => .inl ?_⟩
    have hsame : ((a : ℚ) + 1) * 10 ^ k = b * 10 ^ k := by linarith
    have hsame := mul_right_cancel₀ (ten_zpow_pos k).ne' hsame
    rw [show b = a + 1 by exact_mod_cast hsame.symm]

end Grid

/-- A grid has a point for the double, the nearest one that reads back,
or no point of it reads back. -/
theorem gridPoint?_spec {d : Double} (hd : d.significand ≠ 0) (k : ℤ) :
    (∃ c, d.gridPoint? k = some ⟨c, k⟩ ∧ Rounds ((c : ℚ) * 10 ^ k) d
        ∧ Decimal.Nearest ⟨c, k⟩ d)
      ∨ d.gridPoint? k = none ∧ ∀ b : ℕ, ¬ Rounds ((b : ℚ) * 10 ^ k) d := by
  obtain ⟨hden, hmag⟩ := ratio_spec d
  obtain ⟨hlow, hhigh⟩ := gridFloor_spec d.ratio.1 hden k
  have habove := roundsAbove_iff d.ratio.1 hden
    (gridFloor d.ratio.1 d.ratio.2 k) k
  rw [hmag] at hlow hhigh habove
  unfold gridPoint?
  dsimp only
  generalize gridFloor d.ratio.1 d.ratio.2 k = a at hlow hhigh habove ⊢
  have hlower : (d.interval.holds a k && a != 0) = true
      ↔ Rounds ((a : ℚ) * 10 ^ k) d := by
    rw [Bool.and_eq_true, holds_iff hd, and_iff_left_iff_imp, bne_iff_ne]
    rintro h rfl
    exact not_rounds_zero hd (by simpa using h)
  have hupper := holds_iff hd (a + 1) k
  generalize (d.interval.holds a k && a != 0) = lower at hlower ⊢
  generalize d.interval.holds (a + 1) k = upper at hupper ⊢
  cases lower with
  | true =>
    have hlower := hlower.1 rfl
    cases upper with
    | true =>
      refine .inl ⟨_, rfl, ?_⟩
      have hupper := hupper.1 rfl
      split
      · next h =>
        refine ⟨hupper, nearest_upper hlow hhigh fun _ => ?_⟩
        rcases habove.1 h with hlt | ⟨heq, hodd⟩
        · exact ⟨hlt.le, fun heq => absurd heq.symm hlt.ne⟩
        · exact ⟨heq.le, fun _ => hodd⟩
      · next h =>
        refine ⟨hlower, nearest_lower hlow hhigh fun _ => ?_⟩
        rw [habove, not_or, not_lt, not_and] at h
        exact ⟨h.1, fun heq => by have := h.2 heq.symm; omega⟩
    | false =>
      refine .inl ⟨a, rfl, hlower, nearest_lower hlow hhigh fun h => ?_⟩
      exact absurd (hupper.2 h) Bool.false_ne_true
  | false =>
    cases upper with
    | true =>
      refine .inl ⟨a + 1, rfl, hupper.1 rfl, nearest_upper hlow hhigh fun h => ?_⟩
      exact absurd (hlower.2 h) Bool.false_ne_true
    | false =>
      refine .inr ⟨rfl, fun b hb => ?_⟩
      rcases neighbour_rounds hlow hhigh hb with ⟨-, h⟩ | ⟨-, h⟩
      · exact absurd (hlower.2 h) Bool.false_ne_true
      · exact absurd (hupper.2 h) Bool.false_ne_true

-- ==== the search

/-- The factor of the search is the logarithm of two to within what the
exponents of doubles can show of it. -/
theorem powers_compare {p : ℤ} (hlow : -1073 ≤ p) (hhigh : p ≤ 1024) :
    (2 : ℚ) ^ p ≤ 10 ^ (p * 30103 / 100000 + 2)
      ∧ (10 : ℚ) ^ (p * 30103 / 100000) ≤ 2 ^ (p + 1) := by
  rcases Int.le_total 0 p with hsign | hsign
  · obtain ⟨n, rfl⟩ : ∃ n : ℕ, p = n := ⟨p.toNat, by omega⟩
    have hall : ∀ n < 1025, 2 ^ n ≤ 10 ^ (n * 30103 / 100000 + 2)
        ∧ 10 ^ (n * 30103 / 100000) ≤ 2 ^ (n + 1) := by decide +kernel
    have hn := hall n (by omega)
    exact_mod_cast hn
  · obtain ⟨n, rfl⟩ : ∃ n : ℕ, p = -(n : ℤ) := ⟨(-p).toNat, by omega⟩
    have hall : ∀ n < 1074,
        10 ^ ((n * 30103 + 99999) / 100000) ≤ 10 ^ 2 * 2 ^ n
          ∧ 2 ^ n ≤ 2 * 10 ^ ((n * 30103 + 99999) / 100000) := by
      decide +kernel
    obtain ⟨hle, hge⟩ := hall n (by omega)
    have hdiv : -(n : ℤ) * 30103 / 100000
        = -(((n * 30103 + 99999) / 100000 : ℕ) : ℤ) := by omega
    rw [hdiv]
    generalize (n * 30103 + 99999) / 100000 = g at hle hge
    have hle : (10 : ℚ) ^ g ≤ 10 ^ 2 * 2 ^ n := by exact_mod_cast hle
    have hge : (2 : ℚ) ^ n ≤ 2 * 10 ^ g := by exact_mod_cast hge
    constructor
    · rw [zpow_add₀ (by norm_num), zpow_neg, zpow_neg, zpow_natCast, zpow_natCast,
        ← div_eq_inv_mul, inv_eq_one_div, div_le_div_iff₀ (by positivity)
        (by positivity)]
      rw [one_mul]
      exact_mod_cast hle
    · rw [zpow_add_one₀ (by norm_num), zpow_neg, zpow_neg, zpow_natCast,
        zpow_natCast, ← div_eq_inv_mul, inv_eq_one_div,
        div_le_div_iff₀ (by positivity) (by positivity)]
      rw [one_mul]
      exact hge

section Search

variable {d : Double} (hd : d.Formed) (hs : d.significand ≠ 0)
include hd hs

/-- The binary exponent above a double is in range. -/
theorem log2_bounds :
    -1073 ≤ (Nat.log2 d.significand : ℤ) + 1 + d.exponent
      ∧ (Nat.log2 d.significand : ℤ) + 1 + d.exponent ≤ 1024
      ∧ Nat.log2 d.significand < 53 := by
  have hlog : Nat.log2 d.significand < 53 := (Nat.log2_lt hs).2 hd.lt
  have hleast : -1074 ≤ d.exponent := hd.least
  have hmost := hd.most
  omega

/-- No decimal beyond the first grid is small enough. -/
theorem upperEnd_lt_top : d.upperEnd < 10 ^ (d.topExponent + 1) := by
  obtain ⟨hlow, hhigh, -⟩ := log2_bounds hd hs
  have hsig : (d.significand : ℚ) + 1 ≤ 2 ^ (Nat.log2 d.significand + 1) := by
    exact_mod_cast @Nat.lt_log2_self d.significand
  have hpos := two_zpow_pos (d.exponent - 2)
  calc d.upperEnd
      < 4 * 2 ^ (Nat.log2 d.significand + 1) * 2 ^ (d.exponent - 2) := by
        unfold upperEnd
        apply mul_lt_mul_of_pos_right _ hpos
        linarith
    _ = 2 ^ ((Nat.log2 d.significand : ℤ) + 1 + d.exponent) := by
        rw [zpow_add₀ (by norm_num), ← Int.natCast_succ, zpow_natCast,
          two_zpow_quarter d.exponent, Nat.succ_eq_add_one]
        ring
    _ ≤ 10 ^ (d.topExponent + 1) := by
        have htop := (powers_compare hlow hhigh).1
        rwa [show (2 : ℤ) = 1 + 1 from rfl, ← add_assoc] at htop

/-- The step of the last grid is less than half a place. -/
theorem step_lt_half :
    (10 : ℚ) ^ (d.topExponent - 19) < 2 * 2 ^ (d.exponent - 2) := by
  obtain ⟨hlow, hhigh, hlog⟩ := log2_bounds hd hs
  have hexp : d.topExponent - 19
      = ((Nat.log2 d.significand : ℤ) + 1 + d.exponent) * 30103 / 100000
        + (-18) := by
    unfold topExponent
    omega
  have hpos := two_zpow_pos (d.exponent - 2)
  calc (10 : ℚ) ^ (d.topExponent - 19)
      ≤ 2 ^ ((Nat.log2 d.significand : ℤ) + 1 + d.exponent + 1)
          * 10 ^ (-18 : ℤ) := by
        rw [hexp, zpow_add₀ (by norm_num)]
        exact mul_le_mul_of_nonneg_right (powers_compare hlow hhigh).2
          (ten_zpow_pos _).le
    _ ≤ 2 ^ (56 + (d.exponent - 2)) * 10 ^ (-18 : ℤ) := by
        refine mul_le_mul_of_nonneg_right ?_ (ten_zpow_pos _).le
        exact zpow_le_zpow_right₀ (by norm_num) (by omega)
    _ < 2 * 2 ^ (d.exponent - 2) := by
        rw [zpow_add₀ (by norm_num), mul_right_comm]
        apply mul_lt_mul_of_pos_right _ hpos
        norm_num

/-- So a point of the last grid reads back. -/
theorem exists_rounds_last :
    ∃ a : ℕ, Rounds ((a : ℚ) * 10 ^ (d.topExponent - 19)) d := by
  obtain ⟨hden, hmag⟩ := ratio_spec d
  obtain ⟨hlow, hhigh⟩ :=
    gridFloor_spec d.ratio.1 hden (d.topExponent - 19)
  rw [hmag] at hlow hhigh
  refine ⟨gridFloor d.ratio.1 d.ratio.2 (d.topExponent - 19) + 1, ?_⟩
  have hupper : ((gridFloor d.ratio.1 d.ratio.2 (d.topExponent - 19) : ℚ) + 1)
      * 10 ^ (d.topExponent - 19) < d.upperEnd := by
    have hstep := step_lt_half hd hs
    have hend : d.upperEnd = d.magnitude + 2 * 2 ^ (d.exponent - 2) := by
      rw [magnitude_eq]
      unfold upperEnd
      ring
    linarith
  have hself := (rounds_magnitude d).lower_le
  push_cast
  unfold Rounds
  split
  · exact ⟨by linarith, hupper.le⟩
  · exact ⟨by linarith, hupper⟩

/-- Nothing is read back from beyond the first grid. -/
theorem exponent_le_top {q : Decimal} (hq : Rounds q.value d) :
    q.exponent ≤ d.topExponent := by
  by_contra hgt
  have hcoefficient : (1 : ℚ) ≤ q.coefficient := by
    have hne : q.coefficient ≠ 0 := by
      intro hzero
      apply not_rounds_zero hs
      simpa [Decimal.value, hzero] using hq
    exact_mod_cast Nat.pos_of_ne_zero hne
  have hpow : (10 : ℚ) ^ (d.topExponent + 1) ≤ 10 ^ q.exponent :=
    zpow_le_zpow_right₀ (by norm_num) (by omega)
  have htop := upperEnd_lt_top hd hs
  have hvalue := hq.le_upper
  have hpos := ten_zpow_pos q.exponent
  unfold Decimal.value at hvalue
  nlinarith

end Search

end Double

/-- A search over an initial range stops at the first success. -/
theorem findSome?_range {α : Type} {f : ℕ → Option α} {n : ℕ} {b : α}
    (h : (List.range n).findSome? f = some b) :
    ∃ i, f i = some b ∧ ∀ j < i, f j = none := by
  obtain ⟨before, i, after, hrange, hi, hbefore⟩ :=
    List.findSome?_eq_some_iff.1 h
  rw [List.range_eq_range'] at hrange
  obtain ⟨k, hk, rfl, hafter⟩ := List.range'_eq_append_iff.1 hrange
  have hik : i = k := by
    cases hm : n - k with
    | zero => simp [hm] at hafter
    | succ m =>
      rw [hm, List.range'_succ] at hafter
      simpa using (List.cons.inj hafter).1
  subst hik
  exact ⟨i, hi, fun j hj => hbefore j (by simpa using hj)⟩

variable {r : Decimal}

/-- A trailing zero would be a point of a coarser grid. -/
theorem Shortest.coefficient_mod_ten {d : Double} (h : Shortest d r) :
    r.coefficient % 10 ≠ 0 := by
  intro hzero
  have hvalue : Decimal.value ⟨r.coefficient / 10, r.exponent + 1⟩ = r.value := by
    have hmul : r.coefficient = r.coefficient / 10 * 10 := by omega
    unfold Decimal.value
    dsimp only
    rw [zpow_add_one₀ (by norm_num)]
    nth_rewrite 2 [hmul]
    push_cast
    ring
  have hle := h.coarsest ⟨r.coefficient / 10, r.exponent + 1⟩
    (by rw [hvalue]; exact h.reads)
  dsimp only at hle
  omega

theorem Decimal.normalise_eq_self (h : r.coefficient % 10 ≠ 0) (fuel : ℕ) :
    r.normalise fuel = r := by
  cases fuel with
  | zero => rfl
  | succ fuel =>
    unfold normalise
    rw [if_neg (by simp [h])]

/-- What is found is the shortest decimal. -/
theorem shortest_spec {d : Double} (hd : d.Formed) (hs : d.significand ≠ 0) :
    Shortest d d.shortest := by
  unfold Double.shortest
  rw [if_neg hs]
  split
  · next r hfound =>
    obtain ⟨n, hn, hbefore⟩ := findSome?_range hfound
    rcases Double.gridPoint?_spec hs (d.topExponent - n) with
      ⟨c, hc, hreads, hnearest⟩ | ⟨hnone, -⟩
    · rw [hc] at hn
      cases hn
      have hshortest : Shortest d ⟨c, d.topExponent - n⟩ := by
        refine ⟨hreads, fun q hq => ?_, hnearest⟩
        by_contra hgt
        have htop := Double.exponent_le_top hd hs hq
        dsimp only at hgt
        -- a coarser grid was looked at before, and had no point
        obtain ⟨j, hj⟩ : ∃ j : ℕ, q.exponent = d.topExponent - j :=
          ⟨(d.topExponent - q.exponent).toNat, by omega⟩
        have hnone := hbefore j (by omega)
        rcases Double.gridPoint?_spec hs (d.topExponent - j) with
          ⟨b, hb, -⟩ | ⟨-, hno⟩
        · rw [hb] at hnone
          cases hnone
        · apply hno q.coefficient
          rw [← hj]
          exact hq
      rwa [Decimal.normalise_eq_self hshortest.coefficient_mod_ten]
    · rw [hnone] at hn
      cases hn
  · next hnone =>
    have hlast := List.findSome?_eq_none_iff.1 hnone 19 (by decide)
    obtain ⟨a, ha⟩ := Double.exists_rounds_last hd hs
    rcases Double.gridPoint?_spec hs (d.topExponent - 19) with
      ⟨c, hc, -⟩ | ⟨-, hno⟩
    · rw [show ((19 : ℕ) : ℤ) = 19 from rfl, hc] at hlast
      cases hlast
    · exact absurd ha (hno a)

-- ==== few digits

/-- A decimal on a coarser grid is a multiple of the finer step. -/
theorem Decimal.exists_multiple {q r : Decimal}
    (h : r.exponent ≤ q.exponent) :
    ∃ n : ℕ, q.exponent = r.exponent + n
      ∧ q.value = ((q.coefficient * 10 ^ n : ℕ) : ℚ) * 10 ^ r.exponent := by
  obtain ⟨n, hn⟩ := Int.le.dest h
  refine ⟨n, hn.symm, ?_⟩
  unfold value
  rw [← hn, zpow_add₀ (by norm_num), zpow_natCast]
  push_cast
  ring

/-- If all that rounds to a double is less than a step away from a decimal
that does, then no other decimal is as short. -/
theorem shortest_of_apart {d : Double} (hr : r.coefficient % 10 ≠ 0)
    (hreads : Rounds r.value d)
    (hapart : ∀ y, Rounds y d → |y - r.value| < 10 ^ r.exponent) :
    Shortest d r := by
  have hunit := ten_zpow_pos r.exponent
  have hself : ∀ q : Decimal, Rounds q.value d → r.exponent ≤ q.exponent →
      q = r := by
    intro q hq hle
    obtain ⟨n, hn, hvalue⟩ := Decimal.exists_multiple hle
    have hclose := hapart q.value hq
    rw [hvalue, Decimal.value, ← sub_mul, abs_mul, abs_of_pos hunit,
      mul_lt_iff_lt_one_left hunit] at hclose
    have hsame : ((q.coefficient * 10 ^ n : ℕ) : ℤ) - r.coefficient = 0 := by
      rw [← Int.abs_lt_one_iff]
      exact_mod_cast hclose
    obtain ⟨c, k⟩ := q
    obtain ⟨c', k'⟩ := r
    dsimp only at hn hsame hr
    cases n with
    | zero =>
      obtain rfl : k = k' := by omega
      obtain rfl : c = c' := by omega
      rfl
    | succ n =>
      rw [pow_succ, ← mul_assoc] at hsame
      omega
  refine ⟨hreads, fun q hq => ?_, fun q he hq => ?_⟩
  · by_contra hgt
    have hq' := hself q hq (by omega)
    rw [hq'] at hgt
    exact hgt le_rfl
  · obtain rfl := hself q hq he.ge
    exact ⟨le_rfl, fun _ => .inl rfl⟩

theorem Double.width_le (d : Double) :
    d.upperEnd - d.lowerEnd ≤ 4 * 2 ^ (d.exponent - 2) := by
  have hbelow := d.below_le_two
  have hpos := two_zpow_pos (d.exponent - 2)
  unfold upperEnd lowerEnd
  nlinarith

/-- Fifteen digits are within the precision of a double. -/
theorem shortest_of_lt {d : Double} (hfull : 2 ^ 52 ≤ d.significand)
    (hr : r.coefficient % 10 ≠ 0) (hlt : r.coefficient < 10 ^ 15)
    (hreads : Rounds r.value d) :
    Shortest d r := by
  refine shortest_of_apart hr hreads fun y hy => ?_
  have hunit := ten_zpow_pos r.exponent
  have hpos := Double.two_zpow_pos (d.exponent - 2)
  have hwidth := d.width_le
  have hstep : 4 * 2 ^ (d.exponent - 2) < (10 : ℚ) ^ r.exponent := by
    have hlower := hreads.lower_le
    have hfull : (2 : ℚ) ^ 52 ≤ d.significand := by exact_mod_cast hfull
    have hlt : (r.coefficient : ℚ) < 10 ^ 15 := by exact_mod_cast hlt
    have hbelow := d.below_le_two
    unfold Double.lowerEnd Decimal.value at hlower
    nlinarith
  rw [abs_lt]
  constructor
  · linarith [hy.lower_le, hreads.le_upper]
  · linarith [hy.le_upper, hreads.lower_le]

/-- An integer that a double holds has nothing else within reach. -/
theorem shortest_of_exact {d : Double} (he : d.exponent ≤ 0)
    (hr : r.coefficient % 10 ≠ 0) (hk : 0 ≤ r.exponent)
    (hvalue : r.value = d.magnitude) : Shortest d r := by
  refine shortest_of_apart hr ?_ fun y hy => ?_
  · rw [hvalue]
    exact d.rounds_magnitude
  · have hplace : (2 : ℚ) ^ (d.exponent - 2) ≤ 1 / 4 := by
      have hle : (2 : ℚ) ^ (d.exponent - 2) ≤ 2 ^ (-2 : ℤ) :=
        zpow_le_zpow_right₀ (by norm_num) (by omega)
      norm_num at hle ⊢
      exact hle
    have hone : (1 : ℚ) ≤ 10 ^ r.exponent := one_le_zpow₀ (by norm_num) hk
    have hlower := hy.lower_le
    have hupper := hy.le_upper
    have hbelow := d.below_le_two
    have hpos := Double.two_zpow_pos (d.exponent - 2)
    rw [hvalue, Double.magnitude_eq, abs_lt]
    unfold Double.lowerEnd at hlower
    unfold Double.upperEnd at hupper
    constructor
    · nlinarith
    · nlinarith

/-- A decimal without its trailing zeros. -/
theorem exists_trimmed {c : ℕ} (hc : c ≠ 0) (k : ℤ) :
    ∃ r : Decimal, r.coefficient % 10 ≠ 0 ∧ r.coefficient ≤ c
      ∧ k ≤ r.exponent ∧ r.value = c * 10 ^ k := by
  induction c using Nat.strong_induction_on generalizing k with
  | _ c ih =>
    by_cases hzero : c % 10 = 0
    · obtain ⟨r, hr, hle, hk, hvalue⟩ :=
        ih (c / 10) (by omega) (by omega) (k + 1)
      refine ⟨r, hr, by omega, by omega, ?_⟩
      have hmul : (c : ℚ) = (c / 10 : ℕ) * 10 := by
        exact_mod_cast (by omega : c = c / 10 * 10)
      rw [hvalue, zpow_add_one₀ (by norm_num), hmul]
      ring
    · exact ⟨⟨c, k⟩, hzero, le_rfl, le_rfl, rfl⟩

end PromptGraph.Number

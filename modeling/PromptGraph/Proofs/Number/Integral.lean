/-
Integers as doubles. An integer that is rounded to a double becomes an
integer again (`exists_natural`): itself if 53 bits are enough before its
trailing zeros (`magnitude_eq_iff`), and otherwise a neighbour. Among the
integers of 64 bits, the last 512 are rounded out of the range
(`rounded_eq_none_iff`).
-/
import PromptGraph.Proofs.Number.Rounding

namespace PromptGraph.Number.Double

/-- An integer that a double holds: 53 bits and zeros after them. -/
def Exact (m : ℕ) : Prop := ∃ s k, s < 2 ^ 53 ∧ m = s * 2 ^ k

/-- Small integers are doubles. -/
theorem exact_of_le {m : ℕ} (h : m ≤ 2 ^ 53) : Exact m := by
  rcases Nat.lt_or_eq_of_le h with hlt | rfl
  · exact ⟨m, 0, hlt, by simp⟩
  · exact ⟨1, 53, by decide, by simp⟩

/-- A whole double is an integer. -/
theorem toInt?_of_magnitude {d : Double} {m : ℕ} (h : d.magnitude = m) :
    d.toInt? = some (if d.negative then -(m : ℤ) else m) := by
  obtain ⟨hden, hratio⟩ := ratio_spec d
  have hnum : d.ratio.1 = m * d.ratio.2 := by
    have hden : (d.ratio.2 : ℚ) ≠ 0 := by
      exact_mod_cast Nat.pos_iff_ne_zero.1 hden
    rw [h, div_eq_iff hden] at hratio
    exact_mod_cast hratio
  unfold toInt?
  dsimp only
  rw [hnum, if_pos (Nat.mul_mod_left _ _), ← Int.natCast_ediv,
    Nat.mul_div_cancel _ hden]

-- ==== the magnitude

section Magnitude

variable {d : Double} (hd : d.Shaped) {n : ℕ} (h : Rounds n d)
include hd h

/-- What a double holds it is not rounded away from. -/
theorem magnitude_of_exact (hn : Exact n) : d.magnitude = n := by
  by_cases hzero : n = 0
  · subst hzero
    have hs : d.significand = 0 := by
      by_contra hs
      exact not_rounds_zero hs (by exact_mod_cast h)
    rw [magnitude, hs, Nat.cast_zero, zero_mul]
  · obtain ⟨s, k, hs, hsk⟩ := hn
    obtain ⟨d', -, hd', hvalue⟩ := exists_shaped hzero hs hsk d.negative
    have hself := d'.rounds_magnitude
    rw [hvalue] at hself
    obtain ⟨hsig, hexp⟩ := hself.unique hd' hd h
    rw [← hvalue, magnitude, magnitude, hsig, hexp]

/-- Where a double has binary places after the point, integers are small. -/
theorem lt_of_exponent_neg (he : d.exponent < 0) : n < 2 ^ 53 := by
  have hsig : (d.significand : ℚ) + 1 ≤ 2 ^ 53 := by exact_mod_cast hd.lt
  have hplace : (2 : ℚ) ^ (d.exponent - 2) ≤ 1 / 8 := by
    have hle : (2 : ℚ) ^ (d.exponent - 2) ≤ 2 ^ (-3 : ℤ) :=
      zpow_le_zpow_right₀ (by norm_num) (by omega)
    norm_num at hle ⊢
    exact hle
  have hupper := h.le_upper
  have hlt : (n : ℚ) < 2 ^ 53 := by
    unfold upperEnd at hupper
    nlinarith [two_zpow_pos (d.exponent - 2)]
  exact_mod_cast hlt

omit h in
/-- Below 2^53 the places of a double are at most one. -/
theorem exponent_nonpos (hlt : d.magnitude < 2 ^ 53) : d.exponent ≤ 0 := by
  by_contra hpos
  have hfull : 2 ^ 52 ≤ d.significand := by
    refine hd.full.resolve_right fun hleast => ?_
    have hleast : d.exponent = -1074 := hleast
    omega
  have hfull : (2 : ℚ) ^ 52 ≤ d.significand := by exact_mod_cast hfull
  have hplace : (2 : ℚ) ^ (1 : ℤ) ≤ 2 ^ d.exponent :=
    zpow_le_zpow_right₀ (by norm_num) (by omega)
  rw [zpow_one] at hplace
  unfold magnitude at hlt
  nlinarith

theorem exists_natural : ∃ m : ℕ, d.magnitude = m := by
  rcases two_zpow_cases d.exponent with ⟨hneg, -⟩ | ⟨-, hpow⟩
  · exact ⟨n, magnitude_of_exact hd h
      (exact_of_le (lt_of_exponent_neg hd h hneg).le)⟩
  · refine ⟨d.significand * Nat.pow 2 d.exponent.toNat, ?_⟩
    rw [magnitude, hpow]
    push_cast
    rfl

/-- An integer stays if it is a double. -/
theorem magnitude_eq_iff : d.magnitude = n ↔ Exact n := by
  refine ⟨fun heq => ?_, magnitude_of_exact hd h⟩
  rcases two_zpow_cases d.exponent with ⟨hneg, -⟩ | ⟨-, hpow⟩
  · exact exact_of_le (lt_of_exponent_neg hd h hneg).le
  · refine ⟨d.significand, d.exponent.toNat, hd.lt, ?_⟩
    rw [magnitude, hpow, Nat.pow_eq] at heq
    exact_mod_cast heq.symm

end Magnitude

-- ==== the limit

/-- The double past the integers of 64 bits. -/
def limit : Double := ⟨false, 2 ^ 52, 11⟩

/-- The limit is a double. -/
theorem limit_shaped : limit.Shaped :=
  ⟨by decide, .inl (Nat.le_refl _), by decide⟩

theorem limit_lowerEnd : limit.lowerEnd = 2 ^ 63 - 512 := by
  have hbelow : limit.below = 1 := by decide
  unfold lowerEnd
  rw [hbelow]
  norm_num [limit]

theorem limit_magnitude : limit.magnitude = 2 ^ 63 := by
  norm_num [magnitude, limit]

/-- What lies just below the limit rounds to it. -/
theorem rounds_limit {x : ℚ} (hlow : 2 ^ 63 - 512 ≤ x) (hhigh : x ≤ 2 ^ 63) :
    Rounds x limit := by
  have hupper := limit.rounds_magnitude.le_upper
  rw [limit_magnitude] at hupper
  unfold Rounds
  rw [if_pos (by decide), limit_lowerEnd]
  exact ⟨hlow, hhigh.trans hupper⟩

section Limit

variable {d : Double} (hd : d.Shaped) {x : ℚ} (h : Rounds x d)
include hd h

theorem magnitude_eq_limit (hlow : 2 ^ 63 - 512 ≤ x) (hhigh : x ≤ 2 ^ 63) :
    d.magnitude = 2 ^ 63 := by
  obtain ⟨hsig, hexp⟩ := h.unique hd limit_shaped (rounds_limit hlow hhigh)
  rw [← limit_magnitude, magnitude, magnitude, hsig, hexp]

/-- What lies further below does not. -/
theorem magnitude_lt_limit (hx : x < 2 ^ 63 - 512) : d.magnitude < 2 ^ 63 := by
  by_contra hge
  have hmiddle : Rounds (2 ^ 63 - 512) d :=
    h.between d.rounds_magnitude hx.le (by linarith)
  obtain ⟨hsig, hexp⟩ :=
    hmiddle.unique hd limit_shaped (rounds_limit le_rfl (by norm_num))
  have hend : d.lowerEnd = limit.lowerEnd := by
    unfold lowerEnd below
    rw [hsig, hexp]
  have hlower := h.lower_le
  rw [hend, limit_lowerEnd] at hlower
  linarith

theorem magnitude_le_limit (hx : x ≤ 2 ^ 63) : d.magnitude ≤ 2 ^ 63 := by
  rcases lt_or_ge x (2 ^ 63 - 512) with hlt | hge
  · exact (magnitude_lt_limit hd h hlt).le
  · exact (magnitude_eq_limit hd h hge hx).le

end Limit

-- ==== integers rounded

/-- The integer of 64 bits that an integer becomes as a double. -/
def rounded (n : ℤ) : Option ℤ := (ofInt? n).bind toInt64?

/-- The integers of 64 bits. -/
theorem inInt64_iff (n : ℤ) :
    inInt64 n = true ↔ -2 ^ 63 ≤ n ∧ n < 2 ^ 63 := by
  unfold inInt64 int64Min int64Max
  rw [Bool.and_eq_true, decide_eq_true_eq, decide_eq_true_eq]
  omega

/-- They have doubles. -/
theorem exists_ofInt? {n : ℤ} (hn : inInt64 n = true) :
    ∃ d, ofInt? n = some d := by
  refine exists_ofRatio? (decide (n < 0)) Nat.one_pos ?_
  rw [inInt64_iff] at hn
  have hle : n.natAbs ≤ 2 ^ 63 := by omega
  have hle : (n.natAbs : ℚ) ≤ 2 ^ 63 := by exact_mod_cast hle
  rw [Nat.cast_one, div_one]
  refine hle.trans_lt ?_
  rw [← zpow_natCast]
  exact zpow_lt_zpow_right₀ (by norm_num) (by norm_num)

/-- An integer of 64 bits is rounded to an integer of the same sign. -/
theorem rounded_spec {n : ℤ} (hn : inInt64 n = true) :
    ∃ (d : Double) (v : ℤ), d.Shaped ∧ Rounds n.natAbs d
      ∧ d.magnitude = v.natAbs ∧ (n < 0 → v ≤ 0) ∧ (0 ≤ n → 0 ≤ v)
      ∧ rounded n = if inInt64 v then some v else none := by
  obtain ⟨d, hint⟩ := exists_ofInt? hn
  obtain ⟨hsign, hformed, hrounds⟩ :=
    (converts_ofRatio? (decide (n < 0)) n.natAbs Nat.one_pos d).1 hint
  rw [Nat.cast_one, div_one] at hrounds
  obtain ⟨m, hm⟩ := exists_natural hformed.toShaped hrounds
  have hvalue := toInt?_of_magnitude hm
  rw [hsign] at hvalue
  have hrounded : ∀ v, d.toInt? = some v →
      rounded n = if inInt64 v then some v else none := by
    intro v hv
    unfold rounded
    rw [hint, Option.bind_some, toInt64?, hv]
  by_cases hneg : n < 0
  · rw [if_pos (decide_eq_true hneg)] at hvalue
    refine ⟨d, -(m : ℤ), hformed.toShaped, hrounds, ?_, ?_, ?_, hrounded _ hvalue⟩
    · rw [hm, Int.natAbs_neg, Int.natAbs_natCast]
    · omega
    · omega
  · rw [if_neg (by simpa using hneg)] at hvalue
    refine ⟨d, m, hformed.toShaped, hrounds, ?_, ?_, ?_, hrounded _ hvalue⟩
    · rw [hm, Int.natAbs_natCast]
    · omega
    · omega

/-- What is rounded fits again. -/
theorem inInt64_of_rounded {n m : ℤ} (h : rounded n = some m) :
    inInt64 m = true := by
  obtain ⟨d, -, hd⟩ := Option.bind_eq_some_iff.1 h
  unfold toInt64? at hd
  split at hd
  · split at hd
    · next hin =>
      cases hd
      exact hin
    · cases hd
  · cases hd

/-- The last 512 integers of 64 bits are too close to 2^63. -/
theorem rounded_eq_none_iff {n : ℤ} (hn : inInt64 n = true) :
    rounded n = none ↔ 2 ^ 63 - 512 ≤ n := by
  obtain ⟨d, v, hd, hrounds, hv, hneg, hnonneg, hvalue⟩ := rounded_spec hn
  rw [inInt64_iff] at hn
  rw [hvalue, ite_eq_right_iff]
  simp only [reduceCtorEq, imp_false, inInt64_iff]
  have hle : (n.natAbs : ℚ) ≤ 2 ^ 63 := by
    have hle : n.natAbs ≤ 2 ^ 63 := by omega
    exact_mod_cast hle
  have hbound := magnitude_le_limit hd hrounds hle
  rw [hv] at hbound
  have hbound : v.natAbs ≤ 2 ^ 63 := by exact_mod_cast hbound
  rcases lt_or_ge n (2 ^ 63 - 512) with hlt | hge
  · by_cases hsign : n < 0
    · have := hneg hsign
      omega
    · have hx : (n.natAbs : ℚ) < 2 ^ 63 - 512 := by
        have hlt : n.natAbs < 2 ^ 63 - 512 := by omega
        have hlt : (n.natAbs : ℚ) < ((2 ^ 63 - 512 : ℕ) : ℚ) := by
          exact_mod_cast hlt
        exact hlt.trans_le (by norm_num)
      have hbound := magnitude_lt_limit hd hrounds hx
      rw [hv] at hbound
      have hbound : v.natAbs < 2 ^ 63 := by exact_mod_cast hbound
      omega
  · have hx : (2 : ℚ) ^ 63 - 512 ≤ n.natAbs := by
      have hge : 2 ^ 63 - 512 ≤ n.natAbs := by omega
      have hge : ((2 ^ 63 - 512 : ℕ) : ℚ) ≤ n.natAbs := by exact_mod_cast hge
      exact le_trans (by norm_num) hge
    have hlimit := magnitude_eq_limit hd hrounds hx hle
    rw [hv] at hlimit
    have hlimit : v.natAbs = 2 ^ 63 := by exact_mod_cast hlimit
    have := hnonneg (by omega)
    omega

/-- Rounding keeps those that are doubles. -/
theorem rounded_eq_self_iff {n : ℤ} (hn : inInt64 n = true) :
    rounded n = some n ↔ Exact n.natAbs := by
  obtain ⟨d, v, hd, hrounds, hv, hneg, hnonneg, hvalue⟩ := rounded_spec hn
  rw [hvalue, ← magnitude_eq_iff hd hrounds, hv, Nat.cast_inj]
  constructor
  · intro h
    split at h
    · rw [Option.some.inj h]
    · cases h
  · intro h
    have hself : v = n := by
      by_cases hsign : n < 0
      · have := hneg hsign
        omega
      · have := hnonneg (by omega)
        omega
    rw [hself, if_pos hn]

/-- What is rounded stays as it is. -/
theorem rounded_rounded {n m : ℤ} (hn : inInt64 n = true)
    (h : rounded n = some m) : rounded m = some m := by
  obtain ⟨d, v, hd, hrounds, hv, -, -, hvalue⟩ := rounded_spec hn
  rw [rounded_eq_self_iff (inInt64_of_rounded h)]
  rw [hvalue] at h
  split at h
  · cases h
    have hself := d.rounds_magnitude
    rw [hv] at hself
    exact (magnitude_eq_iff hd hself).1 hv
  · cases h

end PromptGraph.Number.Double

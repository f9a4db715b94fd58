/-
Numbers written out: a sign, a whole part and a fraction that does not
end in a zero. There is one way to write out a magnitude (`Plain.unique`),
and what is written out reads as the double that the magnitude rounds to
(`Plain.converts`).

A double is written out by its shortest decimal (`plain_render`). So a
text is how its double is written exactly if it is written out and says
no more than the shortest decimal does (`eq_render_iff`), and it is read
back from there (`double?_render`).
-/
import PromptGraph.Json.Display
import PromptGraph.Proofs.Number.Literal
import PromptGraph.Proofs.Number.Shortest

namespace PromptGraph.Number

open Json (Digits Whole)
open Double (Rounds Converts leastExponent)

-- ==== digits

/-- Digits behind a number. -/
theorem ofDigits_from (n : ℕ) (cs : List Char) :
    ofDigits n cs = n * 10 ^ cs.length + ofDigits 0 cs := by
  induction cs generalizing n with
  | nil => simp [ofDigits]
  | cons c cs ih =>
    show ofDigits (10 * n + digit c) cs
      = n * 10 ^ (cs.length + 1) + ofDigits (10 * 0 + digit c) cs
    rw [ih (10 * n + digit c), ih (10 * 0 + digit c)]
    ring

/-- The value of digits behind digits. -/
theorem ofDigits_append (cs ds : List Char) :
    ofDigits 0 (cs ++ ds) = ofDigits 0 cs * 10 ^ ds.length + ofDigits 0 ds := by
  rw [← ofDigits_from]
  unfold ofDigits
  exact List.foldl_append

variable {cs : List Char}

/-- The number of digits bounds the value. -/
theorem ofDigits_lt (h : ∀ c ∈ cs, isDigit c = true) :
    ofDigits 0 cs < 10 ^ cs.length := by
  induction cs with
  | nil => simp [ofDigits]
  | cons c cs ih =>
    have hc := (Json.digitChar_digit (h c List.mem_cons_self)).1
    have hcs := ih fun d hd => h d (List.mem_cons_of_mem _ hd)
    show ofDigits (10 * 0 + digit c) cs < 10 ^ (cs.length + 1)
    rw [ofDigits_from, pow_succ]
    nlinarith

theorem ofDigits_zeros (n : ℕ) : ofDigits 0 (List.replicate n '0') = 0 := by
  induction n with
  | zero => rfl
  | succ n ih =>
    rw [List.replicate_succ]
    exact ih

/-- The last digit is the remainder by ten. -/
theorem getLast?_eq_zero_iff (h : Digits cs) :
    cs.getLast? = some '0' ↔ ofDigits 0 cs % 10 = 0 := by
  induction cs using List.reverseRecOn with
  | nil => exact absurd rfl h.1
  | append_singleton cs c _ =>
    obtain ⟨hlt, hchar⟩ := Json.digitChar_digit (h.2 c (by simp))
    have hvalue : ofDigits 0 (cs ++ [c]) = ofDigits 0 cs * 10 + digit c := by
      rw [ofDigits_append]
      simp [ofDigits]
    rw [List.getLast?_concat, Option.some_inj, hvalue]
    constructor
    · rintro rfl
      have hzero : digit '0' = 0 := rfl
      omega
    · intro hmod
      have hzero : digit c = 0 := by omega
      rw [← hchar, hzero]
      rfl

/-- Digits of one length are told apart by their value. -/
theorem eq_of_ofDigits_eq {cs ds : List Char}
    (hcs : ∀ c ∈ cs, isDigit c = true) (hds : ∀ c ∈ ds, isDigit c = true)
    (hlen : cs.length = ds.length) (h : ofDigits 0 cs = ofDigits 0 ds) :
    cs = ds := by
  -- a digit in front keeps the zeros
  have hwhole : ∀ {es : List Char}, (∀ c ∈ es, isDigit c = true) →
      Whole ('1' :: es) := by
    intro es hes
    refine ⟨⟨List.cons_ne_nil _ _, fun c hc => ?_⟩, fun hhead => ?_⟩
    · rcases List.mem_cons.1 hc with rfl | hc
      · rfl
      · exact hes c hc
    · cases hhead
  have hvalue : ofDigits 0 ('1' :: cs) = ofDigits 0 ('1' :: ds) := by
    show ofDigits 1 cs = ofDigits 1 ds
    rw [ofDigits_from, ofDigits_from 1 ds, hlen, h]
  have hall := (hwhole hcs).toDigits_ofDigits
  rw [hvalue, (hwhole hds).toDigits_ofDigits] at hall
  exact (List.cons.inj hall).2.symm

-- ==== written out

/-- The digits of a number that is written out: before the point and
behind it. -/
structure Parts where
  whole : List Char
  fraction : List Char
  isWhole : Whole whole
  isFraction : ∀ c ∈ fraction, isDigit c = true
  trimmed : fraction.getLast? ≠ some '0'

namespace Parts

def coefficient (p : Parts) : ℕ := ofDigits 0 (p.whole ++ p.fraction)

def value (p : Parts) : ℚ := p.coefficient * 10 ^ (-(p.fraction.length : ℤ))

def body (p : Parts) : List Char :=
  p.whole ++ if p.fraction = [] then [] else '.' :: p.fraction

/-- The parts together are digits. -/
theorem digits (p : Parts) : Digits (p.whole ++ p.fraction) := by
  refine ⟨by simp [p.isWhole.1.1], fun c hc => ?_⟩
  rcases List.mem_append.1 hc with hc | hc
  · exact p.isWhole.1.2 c hc
  · exact p.isFraction c hc

/-- A fraction does not end with a zero. -/
theorem coefficient_mod_ten {p : Parts} (h : p.fraction ≠ []) :
    p.coefficient % 10 ≠ 0 := by
  intro hzero
  have hlast := (getLast?_eq_zero_iff p.digits).2 hzero
  rw [List.getLast?_append] at hlast
  cases hp : p.fraction.getLast? with
  | none => exact h (List.getLast?_eq_none_iff.1 hp)
  | some c =>
    rw [hp] at hlast
    exact p.trimmed (hp.trans hlast)

/-- A longer fraction would end in a zero. -/
theorem length_not_lt {p q : Parts} (h : p.value = q.value) :
    ¬ p.fraction.length < q.fraction.length := by
  intro hlt
  obtain ⟨n, hn⟩ := Nat.exists_eq_add_of_lt hlt
  have hscaled : q.coefficient = p.coefficient * 10 ^ n * 10 := by
    unfold value at h
    have hpow : (10 : ℚ) ^ (-(p.fraction.length : ℤ))
        = 10 ^ n * 10 * 10 ^ (-(q.fraction.length : ℤ)) := by
      rw [← zpow_natCast, ← zpow_add_one₀ (by norm_num),
        ← zpow_add₀ (by norm_num)]
      congr 1
      omega
    rw [hpow, ← mul_assoc] at h
    have h := mul_right_cancel₀ (ten_zpow_pos _).ne' h
    rw [← mul_assoc] at h
    exact_mod_cast h.symm
  have hne : q.fraction ≠ [] := by
    intro hnil
    rw [hnil] at hlt
    exact Nat.not_lt_zero _ hlt
  exact coefficient_mod_ten hne (by omega)

/-- One magnitude, one body. -/
theorem body_eq {p q : Parts} (h : p.value = q.value) : p.body = q.body := by
  have hlen : p.fraction.length = q.fraction.length := by
    have := length_not_lt h
    have := length_not_lt h.symm
    omega
  have hcoefficient : p.coefficient = q.coefficient := by
    unfold value at h
    rw [hlen] at h
    exact_mod_cast mul_right_cancel₀ (ten_zpow_pos _).ne' h
  unfold coefficient at hcoefficient
  rw [ofDigits_append, ofDigits_append, hlen] at hcoefficient
  have hp := ofDigits_lt p.isFraction
  have hq := ofDigits_lt q.isFraction
  rw [hlen] at hp
  have hfraction : ofDigits 0 p.fraction = ofDigits 0 q.fraction := by
    have hmod := congrArg (· % 10 ^ q.fraction.length) hcoefficient
    simpa [Nat.mul_add_mod', Nat.mod_eq_of_lt hp, Nat.mod_eq_of_lt hq]
      using hmod
  have hwhole : ofDigits 0 p.whole = ofDigits 0 q.whole := by
    rw [hfraction, Nat.add_right_cancel_iff] at hcoefficient
    exact Nat.eq_of_mul_eq_mul_right (Nat.pow_pos (by decide)) hcoefficient
  unfold body
  rw [← p.isWhole.toDigits_ofDigits, ← q.isWhole.toDigits_ofDigits, hwhole,
    eq_of_ofDigits_eq p.isFraction q.isFraction hlen hfraction]

end Parts

/-- The text is this sign and this magnitude, written out. -/
inductive Plain (negative : Bool) : ℚ → List Char → Prop where
  | mk (p : Parts) : Plain negative p.value
      (if negative then '-' :: p.body else p.body)

variable {negative : Bool} {x : ℚ}

/-- A number is written out in one way. -/
theorem Plain.unique {cs ds : List Char} (hcs : Plain negative x cs)
    (hds : Plain negative x ds) : cs = ds := by
  obtain ⟨p⟩ := hcs
  generalize hx : p.value = x at hds
  obtain ⟨q⟩ := hds
  rw [Parts.body_eq hx]

-- ==== reading

namespace Literal

/-- Digits go to the mantissa, behind the point as before it. -/
theorem Mantissa.read_append (h : ∀ c ∈ cs, isDigit c = true)
    (rest : List Char) (n j : ℕ) (saw point : Bool) :
    Mantissa.read 10 ⟨n, j, saw, point⟩ (cs ++ rest)
      = Mantissa.read 10 ⟨ofDigits n cs, if point then j + cs.length else j,
          saw || !cs.isEmpty, point⟩ rest := by
  induction cs generalizing n j saw with
  | nil => simp [ofDigits]
  | cons c cs ih =>
    have hc := h c List.mem_cons_self
    rw [List.cons_append, Mantissa.read,
      if_neg (Json.ne_of_isDigit hc (by decide)),
      if_neg (Json.ne_of_isDigit hc (by decide)), digitIn?_of_isDigit hc]
    dsimp only
    rw [ih fun d hd => h d (List.mem_cons_of_mem _ hd)]
    cases point with
    | true => simp [ofDigits, Nat.add_assoc, Nat.add_comm 1]
    | false => simp [ofDigits]

/-- What is written out is read as a decimal. -/
theorem readDecimal?_body (negative : Bool) (p : Parts) :
    readDecimal? negative p.body
      = some (ofOption (Double.ofDecimal? negative p.coefficient
          (-(p.fraction.length : ℤ)))) := by
  obtain ⟨whole, fraction, hwhole, hfraction, htrimmed⟩ := p
  have hne : whole.isEmpty = false := List.isEmpty_eq_false_iff.2 hwhole.1.1
  unfold Parts.body Parts.coefficient
  dsimp only
  by_cases hnil : fraction = []
  · subst hnil
    simpa using readDecimal?_digits negative hwhole.1
  · have hread : Mantissa.read 10 {} (whole ++ '.' :: fraction)
        = (⟨ofDigits 0 (whole ++ fraction), fraction.length, true, true⟩, []) := by
      have hdigits := Mantissa.read_append hfraction [] (ofDigits 0 whole) 0
        true true
      rw [Mantissa.read_append hwhole.1.2, hne]
      show Mantissa.read 10 ⟨ofDigits 0 whole, 0, true, true⟩ fraction = _
      rw [List.append_nil] at hdigits
      rw [hdigits, ofDigits_append, ofDigits_from]
      simp [Mantissa.read]
    have hunderscores : underscoresOk false .start (whole ++ '.' :: fraction)
        = true := by
      refine underscoresOk_append hwhole.1.2 (fun b hb => ?_) (by decide)
      have hpoint : digitIn? 10 '.' = none := by decide
      rw [underscoresOk]
      simp only [Bool.false_eq_true, if_false, hpoint, Option.isSome_none]
      rw [if_neg (by decide), underscoresOk_digits hfraction (by decide)]
      simpa using hb
    unfold readDecimal?
    rw [if_neg hnil, hread, hunderscores]
    rfl

/-- It is read so with a sign or without. -/
theorem readBody?_body (sign : Option Bool) (p : Parts) :
    readBody? sign p.body
      = some (ofOption (Double.ofDecimal? (sign.getD false) p.coefficient
          (-(p.fraction.length : ℤ)))) := by
  rw [← readDecimal?_body]
  unfold Parts.body
  obtain ⟨d, ds, hds⟩ := List.exists_cons_of_ne_nil p.isWhole.1.1
  have hd : isDigit d = true := p.isWhole.1.2 d (by simp [hds])
  rw [hds]
  refine readBody?_of_isDigit sign hd fun hzero c hc => ?_
  -- a zero in front is all of the whole part, so the point comes next
  have hlone := p.isWhole.2 (by rw [hds, hzero]; rfl)
  rw [hds] at hlone
  obtain rfl : ds = [] := (List.cons.inj hlone).2
  split at hc
  · cases hc
  · cases hc
    decide

/-- What is written out is a literal in decimal. -/
theorem read?_plain (negative : Bool) (p : Parts) :
    read? (String.ofList (if negative then '-' :: p.body else p.body))
      = some (ofOption (Double.ofDecimal? negative p.coefficient
          (-(p.fraction.length : ℤ)))) := by
  rw [read?_eq, String.toList_ofList]
  cases negative with
  | true => exact readBody?_body (some true) p
  | false =>
    obtain ⟨d, ds, hds⟩ := List.exists_cons_of_ne_nil p.isWhole.1.1
    have hd : isDigit d = true := p.isWhole.1.2 d (by simp [hds])
    have hbody := readBody?_body none p
    have hsplit : split p.body = (none, p.body) := by
      unfold Parts.body
      rw [hds]
      exact split_of_isDigit hd _
    rw [if_neg Bool.false_ne_true, hsplit]
    exact hbody

end Literal

variable {t : String}

/-- What is written out converts as its value. -/
theorem Plain.converts (h : Plain negative x t.toList) :
    Converts negative x (Json.double? t) := by
  generalize hcs : t.toList = cs at h
  obtain ⟨p⟩ := h
  have ht : t = String.ofList (if negative then '-' :: p.body else p.body) := by
    rw [← hcs, String.ofList_toList]
  have hdouble : Json.double? t
      = Double.ofDecimal? negative p.coefficient
          (-(p.fraction.length : ℤ)) := by
    unfold Json.double?
    rw [ht, Literal.read?_plain]
    cases Double.ofDecimal? negative p.coefficient
      (-(p.fraction.length : ℤ)) with
    | none => rfl
    | some d => rfl
  rw [hdouble]
  exact Double.converts_ofDecimal? _ _ _

-- ==== writing

/-- The digits of a number, without a zero at either end. -/
structure Trimmed (ds : List Char) (c : ℕ) : Prop where
  digits : Digits ds
  front : ds.head? ≠ some '0'
  last : ds.getLast? ≠ some '0'
  value : ofDigits 0 ds = c

/-- The digits of a number without a trailing zero. -/
theorem trimmed_toDigits {c : ℕ} (hc : c % 10 ≠ 0) :
    Trimmed (Nat.toDigits 10 c) c := by
  have hdigits := (Json.whole_toDigits c).1
  have hvalue := Json.ofDigits_toDigits c
  refine ⟨hdigits, Json.head?_toDigits (by omega), ?_, hvalue⟩
  rw [ne_eq, getLast?_eq_zero_iff hdigits, hvalue]
  exact hc

namespace Trimmed

variable {ds : List Char} {c n : ℕ} {k : ℤ}

/-- The point in front of all digits. -/
theorem exists_parts_before (h : Trimmed ds c)
    (hn : -((ds.length : ℤ) + k) = n) :
    ∃ p : Parts, p.body = '0' :: '.' :: (List.replicate n '0' ++ ds)
      ∧ p.value = c * 10 ^ k := by
  have hlength : (((List.replicate n '0' ++ ds).length : ℕ) : ℤ) = -k := by
    rw [List.length_append, List.length_replicate]
    push_cast
    omega
  refine ⟨⟨['0'], List.replicate n '0' ++ ds, Json.whole_toDigits 0, ?_, ?_⟩,
    ?_, ?_⟩
  · intro d hd
    rcases List.mem_append.1 hd with hd | hd
    · rw [List.eq_of_mem_replicate hd]
      rfl
    · exact h.digits.2 d hd
  · rw [List.getLast?_append_of_ne_nil _ h.digits.1]
    exact h.last
  · simp [Parts.body, h.digits.1]
  · unfold Parts.value Parts.coefficient
    dsimp only
    rw [hlength, Int.neg_neg, ofDigits_append, ofDigits_append, ofDigits_zeros,
      h.value]
    simp [ofDigits, digit]

/-- The point between digits. -/
theorem exists_parts_within (h : Trimmed ds c) (hn : (ds.length : ℤ) + k = n)
    (hpos : 0 < n) (hlt : n < ds.length) :
    ∃ p : Parts, p.body = ds.take n ++ '.' :: ds.drop n
      ∧ p.value = c * 10 ^ k := by
  have hne : ds.drop n ≠ [] := by
    rw [ne_eq, List.drop_eq_nil_iff]
    omega
  have hlength : (((ds.drop n).length : ℕ) : ℤ) = -k := by
    rw [List.length_drop]
    omega
  have htake : (ds.take n).head? = ds.head? := by
    rw [List.head?_take, if_neg (by omega)]
  refine ⟨⟨ds.take n, ds.drop n, ⟨⟨?_, ?_⟩, ?_⟩, ?_, ?_⟩, ?_, ?_⟩
  · rw [ne_eq, List.take_eq_nil_iff]
    rintro (hzero | hnil)
    · omega
    · exact h.digits.1 hnil
  · exact fun d hd => h.digits.2 d (List.mem_of_mem_take hd)
  · rw [htake]
    exact fun hhead => absurd hhead h.front
  · exact fun d hd => h.digits.2 d (List.mem_of_mem_drop hd)
  · rw [List.getLast?_drop, if_neg (by omega)]
    exact h.last
  · simp [Parts.body, hne]
  · unfold Parts.value Parts.coefficient
    dsimp only
    rw [hlength, Int.neg_neg, List.take_append_drop, h.value]

/-- The point behind all digits. -/
theorem exists_parts_behind (h : Trimmed ds c) (hn : (ds.length : ℤ) + k = n)
    (hle : ds.length ≤ n) :
    ∃ p : Parts, p.body = ds ++ List.replicate (n - ds.length) '0'
      ∧ p.value = c * 10 ^ k := by
  have hk : ((n - ds.length : ℕ) : ℤ) = k := by omega
  refine ⟨⟨ds ++ List.replicate (n - ds.length) '0', [], ⟨⟨?_, ?_⟩, ?_⟩,
    ?_, ?_⟩, ?_, ?_⟩
  · simp [h.digits.1]
  · intro d hd
    rcases List.mem_append.1 hd with hd | hd
    · exact h.digits.2 d hd
    · rw [List.eq_of_mem_replicate hd]
      rfl
  · rw [Json.head?_append_of_ne h.digits.1]
    exact fun hhead => absurd hhead h.front
  · exact fun d hd => absurd hd List.not_mem_nil
  · simp
  · simp [Parts.body]
  · unfold Parts.value Parts.coefficient
    dsimp only
    rw [List.append_nil, ofDigits_append, ofDigits_zeros, h.value,
      List.length_replicate, ← hk, zpow_natCast]
    simp

/-- With a point anywhere among the digits or off their ends they are the
number written out. -/
theorem exists_parts (h : Trimmed ds c) (k : ℤ) :
    ∃ p : Parts, p.body = placePoint ds (ds.length + k)
      ∧ p.value = c * 10 ^ k := by
  unfold placePoint
  split
  · next hpoint =>
    obtain ⟨n, hn⟩ : ∃ n : ℕ, -((ds.length : ℤ) + k) = n :=
      ⟨(-((ds.length : ℤ) + k)).toNat, by omega⟩
    rw [hn, Int.toNat_natCast]
    exact h.exists_parts_before hn
  · next hpositive =>
    obtain ⟨n, hn⟩ : ∃ n : ℕ, (ds.length : ℤ) + k = n :=
      ⟨((ds.length : ℤ) + k).toNat, by omega⟩
    rw [hn, Int.toNat_natCast]
    split
    · next hlt => exact h.exists_parts_within hn (by omega) hlt
    · next hge => exact h.exists_parts_behind hn (by omega)

end Trimmed

variable {d : Double}

/-- No double has its leading digit outside of what is written out. -/
theorem leading_bounds (hd : d.Formed) (hs : d.significand ≠ 0) {r : Decimal}
    (hr : Rounds r.value d) :
    -400 ≤ ((Nat.toDigits 10 r.coefficient).length : ℤ) + r.exponent - 1
      ∧ ((Nat.toDigits 10 r.coefficient).length : ℤ) + r.exponent - 1
        ≤ 400 := by
  have hc : r.coefficient ≠ 0 := by
    intro hzero
    apply Double.not_rounds_zero hs
    simpa [Decimal.value, hzero] using hr
  obtain ⟨hlow, hhigh⟩ := Double.decimal_bounds hc r.exponent
  constructor
  · have hleast : (2 : ℚ) ^ (-1075 : ℤ) ≤ 2 * 2 ^ (d.exponent - 2) := by
      rw [← Double.two_zpow_add_one]
      refine zpow_le_zpow_right₀ (by norm_num) ?_
      have hleast : -1074 ≤ d.exponent := hd.least
      omega
    have hlt : (10 : ℚ) ^ (-331 : ℤ)
        < 10 ^ (((Nat.toDigits 10 r.coefficient).length : ℤ) + r.exponent) :=
      calc (10 : ℚ) ^ (-331 : ℤ) ≤ 2 ^ (-1075 : ℤ) := Double.ten_zpow_le_tiny
        _ ≤ 2 * 2 ^ (d.exponent - 2) := hleast
        _ ≤ d.lowerEnd := Double.half_le_lowerEnd hs
        _ ≤ r.value := hr.lower_le
        _ < _ := hhigh
    have hlt := (zpow_lt_zpow_iff_right₀ (by norm_num)).1 hlt
    omega
  · have hlt : (10 : ℚ) ^ (((Nat.toDigits 10 r.coefficient).length : ℤ)
        + r.exponent - 1) < 10 ^ (310 : ℤ) :=
      calc _ ≤ r.value := hlow
        _ ≤ d.upperEnd := hr.le_upper
        _ < 2 ^ (1024 : ℤ) := hd.upperEnd_lt
        _ ≤ 10 ^ (310 : ℤ) := Double.huge_le_ten_zpow
    have hlt := (zpow_lt_zpow_iff_right₀ (by norm_num)).1 hlt
    omega

/-- The magnitude under which a double is written. -/
inductive Concise (d : Double) : ℚ → Prop where
  | zero (h : d.significand = 0) : Concise d 0
  | shortest {r : Decimal} (h : d.significand ≠ 0) (hr : Shortest d r) :
      Concise d r.value

/-- There is one concise magnitude. -/
theorem Concise.unique {x y : ℚ} (hx : Concise d x) (hy : Concise d y) :
    x = y := by
  cases hx with
  | zero h =>
    cases hy with
    | zero _ => rfl
    | shortest h' _ => exact absurd h h'
  | shortest h hr =>
    cases hy with
    | zero h' => exact absurd h' h
    | shortest _ hr' => rw [hr.unique hr']

/-- It rounds to the double. -/
theorem Concise.rounds (h : Concise d x) :
    Rounds x d := by
  cases h with
  | zero h =>
    have hself := Double.rounds_magnitude d
    rwa [Double.magnitude, h, Nat.cast_zero, zero_mul] at hself
  | shortest _ hr => exact hr.reads

/-- A double is written out by its shortest decimal. -/
theorem plain_render (hd : d.Formed) :
    ∃ x, Plain d.negative x (d.render .positional).toList ∧ Concise d x := by
  unfold Double.render
  dsimp only
  rw [String.toList_ofList]
  by_cases hs : d.significand = 0
  · let p : Parts := ⟨['0'], [], Json.whole_toDigits 0, by simp, by simp⟩
    have hvalue : p.value = 0 := by
      simp [Parts.value, Parts.coefficient, p, ofDigits, digit]
    have hplain : Plain d.negative p.value _ := .mk p
    rw [hvalue] at hplain
    rw [if_pos hs]
    exact ⟨0, hplain, .zero hs⟩
  · have hshortest := shortest_spec hd hs
    obtain ⟨p, hbody, hvalue⟩ :=
      (trimmed_toDigits hshortest.coefficient_mod_ten).exists_parts
        d.shortest.exponent
    have hinside : (Layout.positional.least
          ≤ ((Nat.toDigits 10 d.shortest.coefficient).length : ℤ)
            + d.shortest.exponent - 1
        && ((Nat.toDigits 10 d.shortest.coefficient).length : ℤ)
            + d.shortest.exponent - 1 ≤ Layout.positional.most) = true := by
      rw [Bool.and_eq_true, decide_eq_true_eq, decide_eq_true_eq]
      exact leading_bounds hd hs hshortest.reads
    have hplain : Plain d.negative p.value _ := .mk p
    rw [hbody, hvalue] at hplain
    rw [if_neg hs, hinside, if_pos rfl]
    exact ⟨_, hplain, .shortest hs hshortest⟩

/-- The text writes the double out, and says no more than its concise
magnitude. -/
def Canonical (d : Double) (t : String) : Prop :=
  ∃ x, Plain d.negative x t.toList ∧ Concise d x

/-- A text is how a double is written exactly if it is canonical. -/
theorem eq_render_iff (hd : d.Formed) (t : String) :
    t = d.render .positional ↔ Canonical d t := by
  constructor
  · rintro rfl
    exact plain_render hd
  · rintro ⟨x, hplain, hx⟩
    obtain ⟨y, hplain', hy⟩ := plain_render hd
    rw [hy.unique hx] at hplain'
    exact String.toList_inj.1 (hplain.unique hplain')

/-- What a double is written as reads as the double. -/
theorem double?_render (hd : d.Formed) :
    Json.double? (d.render .positional) = some d := by
  obtain ⟨x, hplain, hx⟩ := plain_render hd
  exact (hplain.converts d).2 ⟨rfl, hd, hx.rounds⟩

-- ==== what is read

theorem formed_zero (negative : Bool) :
    Double.Formed ⟨negative, 0, leastExponent⟩ :=
  ⟨⟨by norm_num, .inr rfl, le_refl _⟩, (by decide : leastExponent ≤ 971)⟩

/-- What binary digits give is a double. -/
theorem formed_of_ofBinary? {c : ℕ} {e : ℤ}
    (h : Double.ofBinary? negative c e = some d) : d.Formed := by
  unfold Double.ofBinary? at h
  dsimp only at h
  split at h
  · cases h
    exact formed_zero negative
  · split at h
    · cases h
    · split at h
      · exact ((Double.converts_ofRatio? negative c
          (Nat.pow_pos (by decide)) d).1 h).2.1
      · exact ((Double.converts_ofRatio? negative _ Nat.one_pos d).1 h).2.1

theorem formed_of_ofOption {o : Option Double}
    (ho : ∀ d, o = some d → d.Formed) (h : Literal.ofOption o = .finite d) :
    d.Formed := by
  cases o with
  | none => cases h
  | some d' =>
    cases h
    exact ho _ rfl

/-- What a decimal gives is a double. -/
theorem formed_of_readDecimal?
    (h : Literal.readDecimal? negative cs = some (.finite d)) : d.Formed := by
  have hformed : ∀ (c : ℕ) (e : ℤ) (d : Double),
      Double.ofDecimal? negative c e = some d → d.Formed :=
    fun c e d hd => ((Double.converts_ofDecimal? negative c e d).1 hd).2.1
  unfold Literal.readDecimal? at h
  dsimp only at h
  split at h
  · cases h
  · split at h
    · exact formed_of_ofOption (hformed _ _) (Option.some.inj h)
    · split at h
      · obtain ⟨e, -, he⟩ := Option.map_eq_some_iff.1 h
        exact formed_of_ofOption (hformed _ _) he
      · cases h

theorem formed_of_readHex?
    (h : Literal.readHex? negative cs = some (.finite d)) : d.Formed := by
  unfold Literal.readHex? at h
  dsimp only at h
  split at h
  · cases h
  · split at h
    · cases h
    · split at h
      · obtain ⟨e, -, he⟩ := Option.map_eq_some_iff.1 h
        exact formed_of_ofOption (fun _ => formed_of_ofBinary?) he
      · cases h

/-- Whatever its spelling, what is read is a double in its one form. -/
theorem formed_of_double? (h : Json.double? t = some d) : d.Formed := by
  have hread : Literal.read? t = some (.finite d) := by
    unfold Json.double? at h
    split at h
    · next hread =>
      cases h
      exact hread
    · cases h
  rw [Literal.read?_eq] at hread
  unfold Literal.readBody? at hread
  dsimp only at hread
  split at hread
  · cases hread
  · split at hread
    · cases hread
    · split at hread
      · split at hread
        · exact formed_of_readHex? hread
        · exact formed_of_readDecimal? hread
      · exact formed_of_readDecimal? hread

-- ==== few digits

/-- A number of fifteen digits is canonical as soon as it is written
out, if its double has full precision. -/
theorem canonical_of_lt (ht : Json.double? t = some d)
    (hfull : 2 ^ 52 ≤ d.significand) {c : ℕ} (hc : c < 10 ^ 15) {k : ℤ}
    (hplain : Plain negative (c * 10 ^ k) t.toList) : Canonical d t := by
  obtain ⟨rfl, -, hreads⟩ := (hplain.converts d).1 ht
  have hs : d.significand ≠ 0 := by omega
  have hne : c ≠ 0 := by
    rintro rfl
    apply Double.not_rounds_zero hs
    simpa using hreads
  obtain ⟨r, hr, hle, -, hvalue⟩ := exists_trimmed hne k
  rw [← hvalue] at hreads hplain
  exact ⟨_, hplain, .shortest hs (shortest_of_lt hfull hr (by omega) hreads)⟩

/-- Integers are written out. -/
theorem plain_toString (n : ℤ) :
    Plain (decide (n < 0)) n.natAbs (toString n).toList := by
  let p : Parts := ⟨Nat.toDigits 10 n.natAbs, [], Json.whole_toDigits _,
    by simp, by simp⟩
  have hvalue : p.value = n.natAbs := by
    simp [p, Parts.value, Parts.coefficient, Json.ofDigits_toDigits]
  have hplain : Plain (decide (n < 0)) p.value _ := .mk p
  have hbody : p.body = Nat.toDigits 10 n.natAbs := by simp [p, Parts.body]
  rw [hvalue, hbody] at hplain
  rw [Json.toList_toString]
  simpa using hplain

/-- An integer below 2^53 is canonical as integers are written. -/
theorem canonical_toString {n : ℤ} (hn : n.natAbs < 2 ^ 53)
    (ht : Json.double? (toString n) = some d) : Canonical d (toString n) := by
  have hplain := plain_toString n
  obtain ⟨hsign, hd, hreads⟩ := (hplain.converts d).1 ht
  rw [← hsign] at hplain
  refine ⟨_, hplain, ?_⟩
  by_cases hzero : n.natAbs = 0
  · rw [hzero, Nat.cast_zero] at hreads ⊢
    refine .zero ?_
    by_contra hs
    exact Double.not_rounds_zero hs hreads
  · -- the double is the integer itself
    have hmagnitude := Double.magnitude_of_exact hd.toShaped hreads
      (Double.exact_of_le hn.le)
    have he : d.exponent ≤ 0 := by
      refine Double.exponent_nonpos hd.toShaped ?_
      rw [hmagnitude]
      exact_mod_cast hn
    obtain ⟨r, hr, -, hk, hr'⟩ := exists_trimmed hzero 0
    rw [zpow_zero, mul_one] at hr'
    have hs : d.significand ≠ 0 := by
      intro hs
      rw [Double.magnitude, hs, Nat.cast_zero, zero_mul] at hmagnitude
      exact hzero (by exact_mod_cast hmagnitude.symm)
    rw [← hr']
    exact .shortest hs (shortest_of_exact he hr hk (hr'.trans hmagnitude.symm))

/-- Numbers as they are commonly written: an integer below 2^53, or a
decimal of up to fifteen digits whose double has full precision. -/
inductive Common (d : Double) (t : String) : Prop where
  | integer {n : ℤ} (hn : n.natAbs < 2 ^ 53) (ht : t = toString n)
  | decimal {negative : Bool} {c : ℕ} {k : ℤ} (hc : c < 10 ^ 15)
      (hfull : 2 ^ 52 ≤ d.significand)
      (hplain : Plain negative (c * 10 ^ k) t.toList)

/-- The common texts are canonical. -/
theorem Common.canonical (h : Common d t) (ht : Json.double? t = some d) :
    Canonical d t := by
  cases h with
  | integer hn heq =>
    subst heq
    exact canonical_toString hn ht
  | decimal hc hfull hplain => exact canonical_of_lt ht hfull hc hplain

end PromptGraph.Number

/-
Double-precision numbers as exact data: a sign, a significand below 2^53 and a power of two. Every
operation is exact integer arithmetic followed by one rounding to nearest, ties to even.
-/
import PromptGraph.Number.Integer

namespace PromptGraph.Number

/-- The finite number `± significand · 2 ^ exponent`. The significand is below `2 ^ 53`, and at least
`2 ^ 52` unless the exponent is the least one, `-1074`. -/
structure Double where
  negative : Bool
  significand : Nat
  exponent : Int
  deriving DecidableEq

namespace Double

def leastExponent : Int := -1074

def zero : Double := ⟨false, 0, leastExponent⟩

/-- `num / den` to the nearest integer, a half to the even neighbour. -/
def roundHalfEven (num den : Nat) : Nat :=
  let q := num / den
  let r := num % den
  if 2 * r < den then q
  else if den < 2 * r then q + 1
  else if q % 2 = 0 then q else q + 1

/-- `num / den · 2 ^ (-e)` as a ratio of naturals. -/
def scaled (num den : Nat) (e : Int) : Nat × Nat :=
  if e < 0 then (num * Nat.pow 2 (-e).toNat, den) else (num, den * Nat.pow 2 e.toNat)

/-- The exponent at which `num / den` has a significand of 53 bits, or the least exponent. -/
def exponentFor (num den : Nat) : Int :=
  let e : Int := max (Nat.log2 num - Nat.log2 den - 53) leastExponent
  let (a, b) := scaled num den e
  if Nat.pow 2 53 ≤ a / b then e + 1 else e

/-- The double nearest to `num / den`, or nothing when that is past the largest one. -/
def ofRatio? (negative : Bool) (num den : Nat) : Option Double :=
  if num = 0 then some ⟨negative, 0, leastExponent⟩
  else
    let e := exponentFor num den
    let (a, b) := scaled num den e
    let m := roundHalfEven a b
    let (m, e) := if m = Nat.pow 2 53 then (Nat.pow 2 52, e + 1) else (m, e)
    if e + 53 > 1024 then none else some ⟨negative, m, e⟩

/-- The double nearest to `coefficient · 10 ^ exponent`. Coefficients of any length and exponents of
any size are accepted; what is far out of range is settled without raising ten to it. -/
def ofDecimal? (negative : Bool) (coefficient : Nat) (exponent : Int) : Option Double :=
  let size : Int := (Nat.toDigits 10 coefficient).length + exponent
  if coefficient = 0 || size < -330 then some ⟨negative, 0, leastExponent⟩
  else if size > 310 then none
  else if exponent < 0 then ofRatio? negative coefficient (Nat.pow 10 (-exponent).toNat)
  else ofRatio? negative (coefficient * Nat.pow 10 exponent.toNat) 1

/-- The double nearest to `coefficient · 2 ^ exponent`. -/
def ofBinary? (negative : Bool) (coefficient : Nat) (exponent : Int) : Option Double :=
  let size : Int := Nat.log2 coefficient + exponent
  if coefficient = 0 || size < -1200 then some ⟨negative, 0, leastExponent⟩
  else if size > 1100 then none
  else if exponent < 0 then ofRatio? negative coefficient (Nat.pow 2 (-exponent).toNat)
  else ofRatio? negative (coefficient * Nat.pow 2 exponent.toNat) 1

/-- The double nearest to an integer. -/
def ofInt? (n : Int) : Option Double := ofRatio? (n < 0) n.natAbs 1

/-- The magnitude as a ratio of naturals. -/
def ratio (d : Double) : Nat × Nat :=
  if d.exponent < 0 then (d.significand, Nat.pow 2 (-d.exponent).toNat)
  else (d.significand * Nat.pow 2 d.exponent.toNat, 1)

/-- The double nearest to a sum. A sum of zeros is negative when both are. -/
def add? (a b : Double) : Option Double :=
  let (an, ad) := a.ratio
  let (bn, bd) := b.ratio
  let signed (negative : Bool) (n : Nat) : Int := if negative then -(n : Int) else n
  let sum := signed a.negative (an * bd) + signed b.negative (bn * ad)
  ofRatio? (if sum = 0 then a.negative && b.negative else sum < 0) sum.natAbs (ad * bd)

/-- The value, when it is an integer. -/
def toInt? (d : Double) : Option Int :=
  let (num, den) := d.ratio
  if num % den = 0 then
    let n : Int := num / den
    some (if d.negative then -n else n)
  else none

/-- The value, when it is an integer that 64 bits hold. -/
def toInt64? (d : Double) : Option Int :=
  match d.toInt? with
  | some n => if inInt64 n then some n else none
  | none => none

end Double

end PromptGraph.Number

/-
The shortest decimal that reads back: among the decimals that round to a given double, one with the
fewest digits, and of those the one nearest to the double, a half to the even neighbour.
-/
import PromptGraph.Number.Double

namespace PromptGraph.Number

/-- The decimal `coefficient · 10 ^ exponent`. -/
structure Decimal where
  coefficient : Nat
  exponent : Int
  deriving DecidableEq

/-- `a · 10 ^ k ≤ num / den`, in naturals. -/
def scaleLe (a : Nat) (k : Int) (num den : Nat) : Bool :=
  if k < 0 then a * den ≤ num * Nat.pow 10 (-k).toNat else a * Nat.pow 10 k.toNat * den ≤ num

/-- `num / den ≤ a · 10 ^ k`, in naturals. -/
def scaleGe (a : Nat) (k : Int) (num den : Nat) : Bool :=
  if k < 0 then num * Nat.pow 10 (-k).toNat ≤ a * den else num ≤ a * Nat.pow 10 k.toNat * den

/-- The reals that round to a double lie between `lo / den` and `hi / den`; the ends belong to them
when `closed`. -/
structure Interval where
  lo : Nat
  hi : Nat
  den : Nat
  closed : Bool

/-- The rounding interval of a positive double, in quarters of its last place. -/
def Double.interval (d : Double) : Interval :=
  let below := if d.significand = Nat.pow 2 52 && d.exponent > Double.leastExponent then 1 else 2
  let e := d.exponent - 2
  let unit := if e < 0 then 1 else Nat.pow 2 e.toNat
  let den := if e < 0 then Nat.pow 2 (-e).toNat else 1
  ⟨(4 * d.significand - below) * unit, (4 * d.significand + 2) * unit, den,
    d.significand % 2 == 0⟩

/-- `a · 10 ^ k` lies in the interval. -/
def Interval.holds (i : Interval) (a : Nat) (k : Int) : Bool :=
  if i.closed then scaleGe a k i.lo i.den && scaleLe a k i.hi i.den
  else !scaleLe a k i.lo i.den && !scaleGe a k i.hi i.den

/-- The grid point at or below the value. -/
def gridFloor (num den : Nat) (k : Int) : Nat :=
  if k < 0 then num * Nat.pow 10 (-k).toNat / den else num / (den * Nat.pow 10 k.toNat)

/-- On the grid of step `10 ^ k` the value is nearer to `a + 1` than to `a`, or halfway between them
and `a` is odd. -/
def roundsAbove (num den a : Nat) (k : Int) : Bool :=
  let (half, value) :=
    if k < 0 then ((2 * a + 1) * den, 2 * num * Nat.pow 10 (-k).toNat)
    else ((2 * a + 1) * (den * Nat.pow 10 k.toNat), 2 * num)
  half < value || (half == value && a % 2 == 1)

/-- The point of the grid of step `10 ^ k` that reads back, if a neighbour of the value does. -/
def Double.gridPoint? (d : Double) (k : Int) : Option Decimal :=
  let (num, den) := d.ratio
  let a := gridFloor num den k
  let i := d.interval
  match i.holds a k && a != 0, i.holds (a + 1) k with
  | true, true => some ⟨if roundsAbove num den a k then a + 1 else a, k⟩
  | true, false => some ⟨a, k⟩
  | false, true => some ⟨a + 1, k⟩
  | false, false => none

/-- An exponent of ten that is at least the one of the value's leading digit. -/
def Double.topExponent (d : Double) : Int :=
  ((Nat.log2 d.significand : Int) + 1 + d.exponent) * 30103 / 100000 + 1

/-- A coefficient without trailing zeros. -/
def Decimal.normalise : Nat → Decimal → Decimal
  | 0, d => d
  | fuel + 1, d =>
    if d.coefficient ≠ 0 && d.coefficient % 10 = 0 then
      normalise fuel ⟨d.coefficient / 10, d.exponent + 1⟩
    else d

/-- The shortest decimal of a double's magnitude. -/
def Double.shortest (d : Double) : Decimal :=
  if d.significand = 0 then ⟨0, 0⟩
  else
    match (List.range 20).findSome? fun (n : Nat) => d.gridPoint? (d.topExponent - n) with
    | some r => r.normalise 20
    | none => ⟨0, 0⟩

end PromptGraph.Number

/-
How a double is written down: which magnitudes are positional, and what an exponent looks like.
-/
import PromptGraph.Number.Shortest

namespace PromptGraph.Number

/-- The decisions of a number format: the leading digit's exponents from `least` to `most` are
written positionally, others with an exponent of at least `exponentDigits` digits. -/
structure Layout where
  least : Int
  most : Int
  exponentDigits : Nat

/-- Never an exponent. -/
def Layout.positional : Layout := ⟨-400, 400, 2⟩

/-- Numbers inside the text of a list or a map. -/
def Layout.compact : Layout := ⟨-4, 5, 2⟩

/-- Numbers in JSON. -/
def Layout.json : Layout := ⟨-6, 20, 1⟩

/-- Digits with a point after the first `point` of them, padded by zeros on either side. -/
def placePoint (digits : List Char) (point : Int) : List Char :=
  if point ≤ 0 then '0' :: '.' :: (List.replicate (-point).toNat '0' ++ digits)
  else if point.toNat < digits.length then
    digits.take point.toNat ++ '.' :: digits.drop point.toNat
  else digits ++ List.replicate (point.toNat - digits.length) '0'

def padLeft (width : Nat) (cs : List Char) : List Char :=
  List.replicate (width - cs.length) '0' ++ cs

/-- `d.ddd` followed by `e`, a sign and the exponent. -/
def scientific (width : Nat) (digits : List Char) (exponent : Int) : List Char :=
  let sign := if exponent < 0 then '-' else '+'
  let mantissa := if digits.length ≤ 1 then digits else digits.take 1 ++ '.' :: digits.drop 1
  mantissa ++ 'e' :: sign :: padLeft width (Nat.toDigits 10 exponent.natAbs)

/-- A double with its shortest digits. -/
def Double.render (style : Layout) (d : Double) : String :=
  let dec := d.shortest
  let digits := Nat.toDigits 10 dec.coefficient
  let point : Int := digits.length + dec.exponent
  let body :=
    if d.significand = 0 then ['0']
    else if style.least ≤ point - 1 && point - 1 ≤ style.most then placePoint digits point
    else scientific style.exponentDigits digits (point - 1)
  String.ofList (if d.negative then '-' :: body else body)

end PromptGraph.Number

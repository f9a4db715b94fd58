/-
Decimal numerals and the 64-bit integer range.
-/

namespace PromptGraph.Number

def isDigit (c : Char) : Bool := '0' ≤ c && c ≤ '9'

def digit (c : Char) : Nat := c.toNat - '0'.toNat

/-- The number that a digit list denotes, continuing from `n`. -/
def ofDigits (n : Nat) (cs : List Char) : Nat :=
  cs.foldl (fun acc c => 10 * acc + digit c) n

/-- A non-empty list of digits as a number. -/
def numeral? (cs : List Char) : Option Nat :=
  if cs.isEmpty || !cs.all isDigit then none else some (ofDigits 0 cs)

def int64Min : Int := -9223372036854775808

def int64Max : Int := 9223372036854775807

def inInt64 (n : Int) : Bool := int64Min ≤ n && n ≤ int64Max

/-- A numeral with an optional sign of either kind. -/
def signed? : List Char → Option Int
  | '-' :: cs => (numeral? cs).map fun n => -(n : Int)
  | '+' :: cs => (numeral? cs).map fun n => (n : Int)
  | cs => (numeral? cs).map fun n => (n : Int)

/-- A signed decimal numeral whose value fits 64 bits. -/
def int64? (s : String) : Option Int :=
  match signed? s.toList with
  | some n => if inInt64 n then some n else none
  | none => none

end PromptGraph.Number

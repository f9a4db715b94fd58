/-
Floating-point literals: decimal or hexadecimal, with a fraction, an exponent and single underscores
between digits, and the words for infinity and not-a-number. Hexadecimal ones must have an exponent.
-/
import PromptGraph.Number.Double
import PromptGraph.Text.Quoted

namespace PromptGraph.Number

/-- What a literal denotes. `overflow` is a finite literal past the largest double. -/
inductive Literal where
  | finite (value : Double)
  | infinite (negative : Bool)
  | nan
  | overflow

namespace Literal

def asciiLower (c : Char) : Char :=
  if 'A' ≤ c && c ≤ 'Z' then Char.ofNat (c.toNat + 32) else c

def digitIn? (base : Nat) (c : Char) : Option Nat :=
  match Text.Quoted.hexValue? c with
  | some n => if n < base then some n else none
  | none => none

/-- The digits of a literal before its exponent: their number as one integer, how many stood after
the point, and what follows. -/
structure Mantissa where
  coefficient : Nat := 0
  fraction : Nat := 0
  sawDigit : Bool := false
  sawPoint : Bool := false

def Mantissa.read (base : Nat) : Mantissa → List Char → Mantissa × List Char
  | m, [] => (m, [])
  | m, c :: cs =>
    if c = '_' then read base m cs
    else if c = '.' then
      if m.sawPoint then (m, c :: cs) else read base { m with sawPoint := true } cs
    else
      match digitIn? base c with
      | some d =>
        read base { m with coefficient := base * m.coefficient + d
                           fraction := if m.sawPoint then m.fraction + 1 else m.fraction
                           sawDigit := true } cs
      | none => (m, c :: cs)

/-- An exponent: an optional sign, then digits and underscores beginning with a digit, to the end. -/
def exponent? (cs : List Char) : Option Int :=
  let (sign, digits) : Int × List Char :=
    match cs with
    | '-' :: r => (-1, r)
    | '+' :: r => (1, r)
    | r => (1, r)
  match digits with
  | [] => none
  | c :: _ =>
    if isDigit c && digits.all (fun d => isDigit d || d == '_') then
      some (sign * ofDigits 0 (digits.filter isDigit))
    else none

/-- What an underscore may stand next to. -/
inductive Before where
  | start
  | digit
  | underscore
  | other
  deriving DecidableEq

/-- Every underscore stands between two digits, or between the base mark and a digit. -/
def underscoresOk (hex : Bool) : Before → List Char → Bool
  | b, [] => b != .underscore
  | b, c :: cs =>
    if (digitIn? (if hex then 16 else 10) c).isSome then underscoresOk hex .digit cs
    else if c = '_' then b == .digit && underscoresOk hex .underscore cs
    else b != .underscore && underscoresOk hex .other cs

def ofOption : Option Double → Literal
  | some d => finite d
  | none => overflow

def readDecimal? (negative : Bool) (cs : List Char) : Option Literal :=
  let (m, rest) := Mantissa.read 10 {} cs
  if !m.sawDigit || !underscoresOk false .start cs then none
  else
    match rest with
    | [] => some (ofOption (Double.ofDecimal? negative m.coefficient (-m.fraction)))
    | c :: r =>
      if asciiLower c = 'e' then
        (exponent? r).map fun e =>
          ofOption (Double.ofDecimal? negative m.coefficient (e - m.fraction))
      else none

def readHex? (negative : Bool) (cs : List Char) : Option Literal :=
  let (m, rest) := Mantissa.read 16 {} cs
  if !m.sawDigit || !underscoresOk true .digit cs then none
  else
    match rest with
    | [] => none
    | c :: r =>
      if asciiLower c = 'p' then
        (exponent? r).map fun e =>
          ofOption (Double.ofBinary? negative m.coefficient (e - 4 * m.fraction))
      else none

def isInfinityWord (cs : List Char) : Bool :=
  let word := cs.map asciiLower
  word == "inf".toList || word == "infinity".toList

/-- Reads a whole literal. -/
def read? (s : String) : Option Literal :=
  let (sign, body) : Option Bool × List Char :=
    match s.toList with
    | '-' :: r => (some true, r)
    | '+' :: r => (some false, r)
    | r => (none, r)
  let negative := sign.getD false
  if isInfinityWord body then some (infinite negative)
  else if sign.isNone && body.map asciiLower == "nan".toList then some nan
  else
    match body with
    | '0' :: c :: r =>
      if asciiLower c = 'x' then readHex? negative r else readDecimal? negative body
    | _ => readDecimal? negative body

end Literal

end PromptGraph.Number

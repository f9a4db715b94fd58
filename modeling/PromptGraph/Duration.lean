/-
Lengths of time in nanoseconds, their text such as "1h30m0.5s", and its reading.
-/
import PromptGraph.Number.Double
import PromptGraph.Number.Integer
import PromptGraph.Text.Octets
import PromptGraph.Text.Quoted

namespace PromptGraph

structure Duration where
  nanoseconds : Int
  deriving DecidableEq, Inhabited

namespace Duration

def nanosecond : Nat := 1
def microsecond : Nat := 1000
def millisecond : Nat := 1000 * microsecond
def second : Nat := 1000 * millisecond
def minute : Nat := 60 * second
def hour : Nat := 60 * minute

/-- The longest length: nanoseconds are counted in 64 bits. -/
def limit : Nat := Nat.pow 2 63 - 1

/-- The time from one instant to another, both in nanoseconds, as far as it can be counted. -/
def between (start stop : Int) : Duration :=
  ⟨max (-(limit : Int) - 1) (min limit (stop - start))⟩

/-- The length in seconds: the whole seconds and the rest of one, each rounded, and their sum. -/
def seconds (d : Duration) : Number.Double :=
  let result : Option Number.Double := do
    let whole ← Number.Double.ofInt? (Int.tdiv d.nanoseconds second)
    let rest := Int.tmod d.nanoseconds second
    let part ← Number.Double.ofRatio? (rest < 0) rest.natAbs second
    whole.add? part
  result.getD .zero

-- ==== text

/-- A fraction below one in units of 10 to the minus `places`, with its point and without zeros at the
end. -/
def fraction (value places : Nat) : String :=
  let digits := toString value
  let padded := (List.replicate (places - digits.length) '0') ++ digits.toList
  let kept := (padded.reverse.dropWhile (· = '0')).reverse
  if kept.isEmpty then "" else String.ofList ('.' :: kept)

/-- `n` nanoseconds in a unit of 10 to the `places` nanoseconds. -/
def inUnit (n places : Nat) (unit : String) : String :=
  toString (n / Nat.pow 10 places) ++ fraction (n % Nat.pow 10 places) places ++ unit

def magnitude (n : Nat) : String :=
  if n = 0 then "0s"
  else if n < microsecond then inUnit n 0 "ns"
  else if n < millisecond then inUnit n 3 "µs"
  else if n < second then inUnit n 6 "ms"
  else
    let seconds := inUnit (n % minute) 9 "s"
    if n < minute then seconds
    else if n < hour then toString (n / minute) ++ "m" ++ seconds
    else toString (n / hour) ++ "h" ++ toString (n / minute % 60) ++ "m" ++ seconds

/-- Hours, minutes and seconds, or one smaller unit when it is below a second. -/
def text (d : Duration) : String :=
  (if d.nanoseconds < 0 then "-" else "") ++ magnitude d.nanoseconds.natAbs

-- ==== reading

inductive ReadError where
  | invalid (text : String)
  | missingUnit (text : String)
  | unknownUnit (unit text : String)
  deriving DecidableEq, Inhabited

/-- Quotes a text in an error: octets outside of printable ASCII are written in hexadecimal. -/
def quote (s : String) : String :=
  let octet (b : UInt8) : List Char :=
    let n := b.toNat
    if n = 34 || n = 92 then ['\\', Char.ofNat n]
    else if n < 32 || 128 ≤ n then '\\' :: 'x' :: Text.Quoted.hexDigits 2 n
    else [Char.ofNat n]
  String.ofList ('"' :: (Text.octets s).flatMap octet ++ ['"'])

def ReadError.message : ReadError → String
  | invalid t => "time: invalid duration " ++ quote t
  | missingUnit t => "time: missing unit in duration " ++ quote t
  | unknownUnit u t => "time: unknown unit " ++ quote u ++ " in duration " ++ quote t

def unit? : String → Option Nat
  | "ns" => some nanosecond
  | "us" => some microsecond
  | "µs" => some microsecond
  | "μs" => some microsecond
  | "ms" => some millisecond
  | "s" => some second
  | "m" => some minute
  | "h" => some hour
  | _ => none

/-- The digits of a fraction as a numeral and a scale. Digits beyond 63 bits are left out. -/
def fractionDigits : List Char → Nat → Nat → Nat × Nat
  | [], value, places => (value, places)
  | c :: rest, value, places =>
    let next := value * 10 + Number.digit c
    if limit / 10 < value || limit + 1 < next then (value, places)
    else fractionDigits rest next (places + 1)

/-- Ten to the `n` as a double, each step rounded. -/
def scale : Nat → Option Number.Double
  | 0 => Number.Double.ofInt? 1
  | n + 1 => do
    let s ← scale n
    let (num, den) := s.ratio
    Number.Double.ofRatio? s.negative (num * 10) den

/-- The whole nanoseconds in a fraction of a unit, counted in doubles. -/
def fractionOf (value places unit : Nat) : Nat :=
  let result : Option Nat := do
    let s ← scale places
    let (num, den) := s.ratio
    let step ← Number.Double.ofRatio? false (unit * den) num
    let v ← Number.Double.ofInt? value
    let (vn, vd) := v.ratio
    let (sn, sd) := step.ratio
    let product ← Number.Double.ofRatio? false (vn * sn) (vd * sd)
    let (pn, pd) := product.ratio
    return pn / pd
  result.getD 0

/-- The sum of the parts of a text, each a numeral with a unit. -/
def readParts (text : String) (cs : List Char) (sum : Nat) : Except ReadError Nat :=
  match cs with
  | [] => .ok sum
  | first :: others =>
    let cs := first :: others
    let whole := cs.takeWhile Number.isDigit
    let rest := cs.dropWhile Number.isDigit
    let (frac, point, rest') := match rest with
      | '.' :: more => (more.takeWhile Number.isDigit, true, more.dropWhile Number.isDigit)
      | _ => ([], false, rest)
    if whole.isEmpty && frac.isEmpty then .error (.invalid text)
    else if limit + 1 < Number.ofDigits 0 whole then .error (.invalid text)
    else
      let name := rest'.takeWhile fun c => c ≠ '.' && !Number.isDigit c
      let after := rest'.dropWhile fun c => c ≠ '.' && !Number.isDigit c
      if name.isEmpty then .error (.missingUnit text)
      else
        match unit? (String.ofList name) with
        | none => .error (.unknownUnit (String.ofList name) text)
        | some unit =>
          if (limit + 1) / unit < Number.ofDigits 0 whole then .error (.invalid text)
          else
            let (value, places) := fractionDigits frac 0 0
            let amount := Number.ofDigits 0 whole * unit + if point then fractionOf value places unit else 0
            if limit + 1 < amount || limit + 1 < sum + amount then .error (.invalid text)
            else if after.length < cs.length then readParts text after (sum + amount)
            else .error (.invalid text)
  termination_by cs.length
  decreasing_by assumption

/-- Reads a text such as "1h30m", "1.5s" or "-10ms". -/
def read (text : String) : Except ReadError Duration :=
  let (negative, cs) := match text.toList with
    | '-' :: rest => (true, rest)
    | '+' :: rest => (false, rest)
    | cs => (false, cs)
  if cs = ['0'] then .ok ⟨0⟩
  else if cs.isEmpty then .error (.invalid text)
  else do
    let sum ← readParts text cs 0
    if negative then return ⟨-(sum : Int)⟩
    else if limit < sum then .error (.invalid text)
    else return ⟨sum⟩

end Duration

end PromptGraph

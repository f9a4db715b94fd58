/-
What scalars mean: null, truth values, numbers, points in time, and texts. And a document as JSON.
-/
import PromptGraph.Calendar
import PromptGraph.Json.Basic
import PromptGraph.Number.Layout
import PromptGraph.Number.Based
import PromptGraph.Number.Literal
import PromptGraph.Text.Octets
import PromptGraph.Yaml.Node

namespace PromptGraph.Yaml

/-- A point in time with its distance from universal time in minutes. -/
structure Instant where
  date : DateTime
  nanosecond : Nat := 0
  offset : Int := 0
  deriving DecidableEq, Inhabited

namespace Instant

/-- A number of one or two digits. -/
def short? : List Char → Option (Nat × List Char)
  | a :: b :: rest =>
    if Number.isDigit a && Number.isDigit b then some (Number.ofDigits 0 [a, b], rest)
    else if Number.isDigit a then some (Number.digit a, b :: rest)
    else none
  | [a] => if Number.isDigit a then some (Number.digit a, []) else none
  | [] => none

def expect? (c : Char) : List Char → Option (List Char)
  | x :: rest => if x = c then some rest else none
  | [] => none

/-- A fraction of a second in nanoseconds; digits after the ninth are left out. -/
def fraction (cs : List Char) : Nat × List Char :=
  match cs with
  | p :: d :: _ =>
    if (p = '.' || p = ',') && Number.isDigit d then
      let digits := (cs.drop 1).takeWhile Number.isDigit
      let kept := digits.take 9
      (Number.ofDigits 0 kept * Nat.pow 10 (9 - kept.length), cs.drop (1 + digits.length))
    else (0, cs)
  | _ => (0, cs)

def time? (cs : List Char) : Option (Nat × Nat × Nat × Nat × List Char) := do
  let (hour, cs) ← short? cs
  let (minute, cs) ← short? (← expect? ':' cs)
  let (second, cs) ← short? (← expect? ':' cs)
  if 24 ≤ hour || 60 ≤ minute || 60 ≤ second then none
  let (nanosecond, cs) := fraction cs
  return (hour, minute, second, nanosecond, cs)

/-- The letter Z, or hours and minutes with a sign. -/
def zone? : List Char → Option Int
  | ['Z'] => some 0
  | [sign, a, b, ':', c, d] =>
    if [a, b, c, d].all Number.isDigit && (sign = '+' || sign = '-') then
      let minutes : Int := Number.ofDigits 0 [a, b] * 60 + Number.ofDigits 0 [c, d]
      if 24 < Number.ofDigits 0 [a, b] || 60 ≤ Number.ofDigits 0 [c, d] then none
      else some (if sign = '-' then -minutes else minutes)
    else none
  | _ => none

/-- Reads a date, a date and a time with a zone, or a date, blanks and a time without one. -/
def read? (text : String) : Option Instant := do
  let cs := text.toList
  let digits := cs.takeWhile Number.isDigit
  if digits.length ≠ 4 then none
  let year := Number.ofDigits 0 digits
  let (month, cs) ← short? (← expect? '-' (cs.drop 4))
  let (day, cs) ← short? (← expect? '-' cs)
  if month < 1 || 12 < month || day < 1 || Calendar.daysInMonth year month < day then none
  match cs with
  | [] => return { date := ⟨year, month, day, 0, 0, 0⟩ }
  | x :: rest =>
    if x = 'T' || x = 't' then
      let (hour, minute, second, nanosecond, cs) ← time? rest
      let offset ← zone? cs
      return ⟨⟨year, month, day, hour, minute, second⟩, nanosecond, offset⟩
    else if x = ' ' then
      let (hour, minute, second, nanosecond, cs) ← time? (rest.dropWhile (· = ' '))
      if !cs.isEmpty then none
      return ⟨⟨year, month, day, hour, minute, second⟩, nanosecond, 0⟩
    else none

/-- The fraction of a second with its point and no zeros at the end. -/
def fractionText (t : Instant) : String :=
  let digits := (DateTime.padded 9 t.nanosecond).toList
  let kept := (digits.reverse.dropWhile (· = '0')).reverse
  if kept.isEmpty then "" else "." ++ String.ofList kept

def offsetText (colon : String) (offset : Int) : String :=
  (if offset < 0 then "-" else "+") ++ DateTime.padded 2 (offset.natAbs / 60) ++ colon
    ++ DateTime.padded 2 (offset.natAbs % 60)

def dateText (t : Instant) (separator : String) : String :=
  t.date.year4 ++ "-" ++ DateTime.padded 2 t.date.month ++ "-" ++ DateTime.padded 2 t.date.day
    ++ separator ++ DateTime.padded 2 t.date.hour ++ ":" ++ DateTime.padded 2 t.date.minute ++ ":"
    ++ DateTime.padded 2 t.date.second ++ t.fractionText

/-- The form `2006-01-02T15:04:05.5Z`. -/
def iso (t : Instant) : String :=
  t.dateText "T" ++ if t.offset = 0 then "Z" else offsetText ":" t.offset

/-- The form `2006-01-02 15:04:05.5 +0000 UTC`. -/
def display (t : Instant) : String :=
  let zone := offsetText "" t.offset
  t.dateText " " ++ " " ++ zone ++ " " ++ if t.offset = 0 then "UTC" else zone

end Instant

-- ==== scalars

inductive Value where
  | null
  | bool (b : Bool)
  | int (n : Int)
  | float (x : Number.Literal)
  | time (t : Instant)
  | text (s : String)

namespace Value

/-- The standard tag of its kind. -/
def tag : Value → String
  | null => "!!null"
  | bool _ => "!!bool"
  | int _ => "!!int"
  | float _ => "!!float"
  | time _ => "!!timestamp"
  | text _ => "!!str"

def word? (s : String) : Option Value :=
  if ["", "~", "null", "Null", "NULL"].contains s then some null
  else if ["true", "True", "TRUE"].contains s then some (bool true)
  else if ["false", "False", "FALSE"].contains s then some (bool false)
  else if [".nan", ".NaN", ".NAN"].contains s then some (float .nan)
  else if [".inf", ".Inf", ".INF", "+.inf", "+.Inf", "+.INF"].contains s then
    some (float (.infinite false))
  else if ["-.inf", "-.Inf", "-.INF"].contains s then some (float (.infinite true))
  else none

/-- A whole number within 64 bits; those without a sign may use all of them. -/
def integer? (cs : List Char) : Option Int :=
  let bounded (n : Int) : Option Int := if Number.inInt64 n then some n else none
  match cs with
  | '-' :: rest => (Number.Based.natural? rest).bind fun n => bounded (-(n : Int))
  | '+' :: rest => (Number.Based.natural? rest).bind fun n => bounded n
  | cs => (Number.Based.natural? cs).bind fun n => if n < Nat.pow 2 64 then some (n : Int) else none

/-- Digits with an optional point and exponent, and no more. -/
def isDecimal (cs : List Char) : Bool :=
  let cs := match cs with
    | '-' :: rest => rest
    | '+' :: rest => rest
    | cs => cs
  let whole := cs.takeWhile Number.isDigit
  let (frac, rest) := match cs.dropWhile Number.isDigit with
    | '.' :: rest => (some (rest.takeWhile Number.isDigit), rest.dropWhile Number.isDigit)
    | rest => (none, rest)
  let exponent := match rest with
    | [] => true
    | e :: rest =>
      (e = 'e' || e = 'E') &&
        let digits := match rest with
          | '-' :: rest => rest
          | '+' :: rest => rest
          | rest => rest
        !digits.isEmpty && digits.all Number.isDigit
  (!whole.isEmpty || frac.any (!·.isEmpty)) && exponent

def finite? (s : String) : Option Value :=
  match Number.Literal.read? s with
  | some (.finite d) => some (float (.finite d))
  | some (.infinite n) => some (float (.infinite n))
  | some .nan => some (float .nan)
  | _ => none

/-- What a plain text means. -/
def ofPlain (s : String) : Value :=
  match word? s with
  | some v => v
  | none =>
    match s.toList with
    | [] => null
    | c :: _ =>
      if c = '.' then (finite? s).getD (text s)
      else if Number.isDigit c || c = '+' || c = '-' then
        match Instant.read? s with
        | some t => time t
        | none =>
          let cs := s.toList.filter (· ≠ '_')
          match integer? cs with
          | some n => int n
          | none => if isDecimal cs then (finite? (String.ofList cs)).getD (text s) else text s
      else text s

def sextet? (c : Char) : Option Nat :=
  if 'A' ≤ c && c ≤ 'Z' then some (c.toNat - 65)
  else if 'a' ≤ c && c ≤ 'z' then some (c.toNat - 71)
  else if Number.isDigit c then some (c.toNat + 4)
  else if c = '+' then some 62
  else if c = '/' then some 63
  else none

/-- Octets written in base 64. Breaks are passed over. -/
def base64? : List Char → Option (List UInt8)
  | [] => some []
  | [a, b, '=', '='] => do
    let n := (← sextet? a) * 64 + (← sextet? b)
    return [UInt8.ofNat (n / 16)]
  | [a, b, c, '='] => do
    let n := ((← sextet? a) * 64 + (← sextet? b)) * 64 + (← sextet? c)
    return [UInt8.ofNat (n / 1024), UInt8.ofNat (n / 4)]
  | a :: b :: c :: d :: rest => do
    let n := (((← sextet? a) * 64 + (← sextet? b)) * 64 + (← sextet? c)) * 64 + (← sextet? d)
    return UInt8.ofNat (n / 65536) :: UInt8.ofNat (n / 256) :: UInt8.ofNat n :: (← base64? rest)
  | _ => none

/-- What a scalar means under its tag; nothing when it cannot be read that way. -/
def ofScalar? (tag s : String) (style : Style) : Option Value :=
  if tag = "!!str" || ((tag = "" || tag = "!") && style ≠ .plain) then some (text s)
  else if tag = "" || tag = "!" then some (ofPlain s)
  else if tag = "!!binary" then
    (base64? (s.toList.filter fun c => c ≠ '\n' && c ≠ '\r')).map fun bs => text (Text.ofOctets bs)
  else if ["!!bool", "!!int", "!!float", "!!null", "!!timestamp"].contains tag then
    let v := match ofPlain s with
      | time t => if tag = "!!timestamp" then time t else text s
      | v => v
    if v.tag = tag then some v
    else
      match tag, v with
      | "!!float", int n =>
        if Number.inInt64 n then (Number.Double.ofInt? n).map fun d => float (.finite d) else none
      | _, _ => none
  else some (text s)

/-- The text of a value as a key. -/
def display : Value → String
  | null => "<nil>"
  | bool b => if b then "true" else "false"
  | int n => toString n
  | float (.finite d) => d.render .compact
  | float (.infinite negative) => if negative then "-Inf" else "+Inf"
  | float _ => "NaN"
  | time t => t.display
  | text s => s

/-- JSON has no infinite numbers. -/
def toJson? : Value → Option Json
  | null => some .null
  | bool b => some (.bool b)
  | int n => some (.int n)
  | float (.finite d) => some (.number (d.render .json))
  | float _ => none
  | time t => some (.string t.iso)
  | text s => some (.string s)

end Value

-- ==== documents

/-- Why a document has no JSON form: it cannot be understood, or its values have none. -/
inductive JsonError where
  | malformed
  | unwritable
  deriving DecidableEq, Inhabited

namespace Node

/-- A key that takes in the pairs of other mappings. -/
def isMerge : Node → Bool
  | scalar tag text style =>
    text = "<<" && (tag = "!!merge" || ((tag = "" || tag = "!") && style = .plain))
  | _ => false

def isMapping : Node → Bool
  | mapping .. => true
  | _ => false

/-- Keys are the same when their texts are; all lists are the same key, and so are all mappings. -/
def sameKey : Node → Node → Bool
  | scalar _ a _, scalar _ b _ => a = b
  | sequence .., sequence .. => true
  | mapping .., mapping .. => true
  | _, _ => false

def hasRepeatedKey : List (Node × Node) → Bool
  | [] => false
  | (k, _) :: rest => rest.any (fun (k', _) => sameKey k k') || hasRepeatedKey rest

def keyText? : Node → Except JsonError String
  | scalar tag text style =>
    match Value.ofScalar? tag text style with
    | some v => .ok v.display
    | none => .error .malformed
  | _ => .error .malformed

/-- Adds the entries of a mapping that are not there yet. -/
def addMissing (base more : Assoc Json) : Assoc Json :=
  more.foldl (fun acc (k, v) => if Assoc.contains acc k then acc else Assoc.insert acc k v) base

mutual

def toJson : Node → Except JsonError Json
  | scalar tag text style =>
    match Value.ofScalar? tag text style with
    | none => .error .malformed
    | some v =>
      match v.toJson? with
      | some j => .ok j
      | none => .error .unwritable
  | sequence _ items => do return .array (← itemsToJson items)
  | mapping _ pairs => do
    if hasRepeatedKey pairs then throw .malformed
    let own ← pairsToJson pairs []
    let merged ← mergedPairs pairs
    return .object (merged.foldl addMissing own)

def itemsToJson : List Node → Except JsonError (List Json)
  | [] => .ok []
  | n :: rest => do return (← toJson n) :: (← itemsToJson rest)

def pairsToJson : List (Node × Node) → Assoc Json → Except JsonError (Assoc Json)
  | [], acc => .ok acc
  | (k, v) :: rest, acc => do
    if k.isMerge then pairsToJson rest acc
    else
      let key ← keyText? k
      let j ← toJson v
      pairsToJson rest (Assoc.insert acc key j)

/-- The mappings that merge keys take in, in order. -/
def mergedPairs : List (Node × Node) → Except JsonError (List (Assoc Json))
  | [] => .ok []
  | (k, v) :: rest => do
    let more ← mergedPairs rest
    if !k.isMerge then return more
    match v with
    | mapping _ pairs => return (← mergedMapping pairs) :: more
    | sequence _ items => return (← mergedItems items) ++ more
    | scalar .. => throw .malformed

def mergedMapping : List (Node × Node) → Except JsonError (Assoc Json)
  | pairs => do
    if hasRepeatedKey pairs then throw .malformed
    let own ← pairsToJson pairs []
    let merged ← mergedPairs pairs
    return merged.foldl addMissing own

def mergedItems : List Node → Except JsonError (List (Assoc Json))
  | [] => .ok []
  | n :: rest => do
    match n with
    | mapping _ pairs => return (← mergedMapping pairs) :: (← mergedItems rest)
    | _ => throw .malformed

end

end Node

/-- The first document of a text as JSON; null when there is none. -/
def toJson (text : String) : Except JsonError Json :=
  match Node.parse? text with
  | none => .error .malformed
  | some none => .ok .null
  | some (some n) => n.toJson

end PromptGraph.Yaml

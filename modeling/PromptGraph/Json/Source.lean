/-
JSON as written. Reading keeps what a later decoding step may ask for: strings are still escaped, and
lists and objects carry their own text, so a decoder can quote the input it refuses. Two kinds of
reading exist. The strict one checks every string; the lenient one lets control characters stand in
strings and leaves escapes to whoever asks for the string's value.
-/
import PromptGraph.Json.Basic
import PromptGraph.Number.Integer
import PromptGraph.Text.Quoted

namespace PromptGraph.Json

/-- A JSON value with its spelling. A string holds its inside, escapes not yet read. -/
inductive Source where
  | null
  | bool (value : Bool)
  | number (text : String)
  | string (body : String)
  | array (text : String) (items : List Source)
  | object (text : String) (fields : List (String × Source))
  deriving Inhabited

/-- How much of a string reading checks. -/
inductive Rigour where
  | strict
  | lenient
  deriving DecidableEq

namespace Source

/-- The text a value was read from. -/
def text : Source → String
  | null => "null"
  | bool true => "true"
  | bool false => "false"
  | number t => t
  | string body => "\"" ++ body ++ "\""
  | array t _ => t
  | object t _ => t

-- ==== strings

/-- The code unit of four hexadecimal digits. -/
def unit? (a b c d : Char) : Option Nat := Text.Quoted.numeral? 16 Text.Quoted.hexValue? [a, b, c, d]

def isHighSurrogate (n : Nat) : Bool := 0xd800 ≤ n && n < 0xdc00

def isLowSurrogate (n : Nat) : Bool := 0xdc00 ≤ n && n < 0xe000

def ofPair (high low : Nat) : Char := Char.ofNat (0x10000 + (high - 0xd800) * 0x400 + (low - 0xdc00))

/-- The character that a one-letter escape stands for. -/
def shortEscape? (c : Char) : Option Char :=
  if c = '"' || c = '\\' || c = '/' then some c
  else if c = 'b' then some (Char.ofNat 8)
  else if c = 'f' then some (Char.ofNat 12)
  else if c = 'n' then some '\n'
  else if c = 'r' then some '\r'
  else if c = 't' then some '\t'
  else none

/-- Reads the escapes of a string's inside. `high` is a high surrogate still waiting for its low
half. A surrogate without its other half reads as `lone`, or makes the reading fail if there is no
such character. -/
def unescapeFrom (lone : Option Char) : Option Nat → List Char → Option (List Char)
  | none, [] => some []
  | some _, [] => lone.map ([·])
  | some h, '\\' :: 'u' :: a :: b :: c :: d :: r => do
    let n ← unit? a b c d
    if isLowSurrogate n then (ofPair h n :: ·) <$> unescapeFrom lone none r
    else
      let l ← lone
      if isHighSurrogate n then (l :: ·) <$> unescapeFrom lone (some n) r
      else (l :: Char.ofNat n :: ·) <$> unescapeFrom lone none r
  | none, '\\' :: 'u' :: a :: b :: c :: d :: r => do
    let n ← unit? a b c d
    if isHighSurrogate n then unescapeFrom lone (some n) r
    else
      let x ← if isLowSurrogate n then lone else some (Char.ofNat n)
      (x :: ·) <$> unescapeFrom lone none r
  | high, '\\' :: c :: r => do
    let e ← shortEscape? c
    let front ← if high.isSome then lone.map ([·]) else some []
    (front ++ e :: ·) <$> unescapeFrom lone none r
  | high, c :: r => do
    if c = '\\' then none
    else
      let front ← if high.isSome then lone.map ([·]) else some []
      (front ++ c :: ·) <$> unescapeFrom lone none r

/-- The text of a string's inside, or nothing if an escape is malformed. Lone surrogates are
replaced. -/
def unescape? (body : String) : Option String :=
  if body.toList.contains '\\' then
    (unescapeFrom (some Text.replacement) none body.toList).map String.ofList
  else some body

/-- The text of a string's inside, or nothing if an escape is malformed or a surrogate stands
alone. -/
def unescapePaired? (body : String) : Option String :=
  (unescapeFrom none none body.toList).map String.ofList

/-- Splits at the closing quote; a backslash hides the character after it. -/
def spanString : List Char → Option (List Char × List Char)
  | [] => none
  | '"' :: r => some ([], r)
  | '\\' :: c :: r => (spanString r).map fun (body, rest) => ('\\' :: c :: body, rest)
  | c :: r => (spanString r).map fun (body, rest) => (c :: body, rest)

def bodyOk (rigour : Rigour) (body : List Char) : Bool :=
  match rigour with
  | .lenient => true
  | .strict => body.all (fun c => 0x20 ≤ c.toNat) && (unescapeFrom (some Text.replacement) none body).isSome

/-- Reads a string after its opening quote. -/
def readString? (rigour : Rigour) (cs : List Char) : Option (String × List Char) :=
  match spanString cs with
  | some (body, rest) => if bodyOk rigour body then some (String.ofList body, rest) else none
  | none => none

-- ==== numbers

/-- Digits, at least one. -/
def digits? (cs : List Char) : Option (List Char × List Char) :=
  match cs.span Number.isDigit with
  | ([], _) => none
  | r => some r

/-- An integer part without superfluous zeros. -/
def integerPart? : List Char → Option (List Char × List Char)
  | '0' :: r => some (['0'], r)
  | cs => digits? cs

def fractionPart? : List Char → Option (List Char × List Char)
  | '.' :: r => (digits? r).map fun (ds, rest) => ('.' :: ds, rest)
  | cs => some ([], cs)

def exponentPart? : List Char → Option (List Char × List Char)
  | c :: r =>
    if c = 'e' || c = 'E' then
      match r with
      | s :: r' =>
        if s = '+' || s = '-' then (digits? r').map fun (ds, rest) => (c :: s :: ds, rest)
        else (digits? r).map fun (ds, rest) => (c :: ds, rest)
      | [] => none
    else some ([], c :: r)
  | [] => some ([], [])

def readNumber? (cs : List Char) : Option (String × List Char) := do
  let (sign, r) := match cs with
    | '-' :: r => (['-'], r)
    | r => ([], r)
  let (whole, r) ← integerPart? r
  let (fraction, r) ← fractionPart? r
  let (exponent, r) ← exponentPart? r
  return (String.ofList (sign ++ whole ++ fraction ++ exponent), r)

-- ==== values

def isBlank (c : Char) : Bool := c = ' ' || c = '\t' || c = '\n' || c = '\r'

def skipBlank (cs : List Char) : List Char := cs.dropWhile isBlank

/-- The part of `cs` in front of its suffix `rest`. -/
def consumed (cs rest : List Char) : String := String.ofList (cs.take (cs.length - rest.length))

mutual

/-- Reads one value; `fuel` bounds the nesting and the number of members. -/
def readValue? (rigour : Rigour) : Nat → List Char → Option (Source × List Char)
  | 0, _ => none
  | fuel + 1, cs =>
    match skipBlank cs with
    | 'n' :: 'u' :: 'l' :: 'l' :: r => some (null, r)
    | 't' :: 'r' :: 'u' :: 'e' :: r => some (bool true, r)
    | 'f' :: 'a' :: 'l' :: 's' :: 'e' :: r => some (bool false, r)
    | '"' :: r => (readString? rigour r).map fun (body, rest) => (string body, rest)
    | '[' :: r =>
      match skipBlank r with
      | ']' :: rest => some (array (consumed ('[' :: r) rest) [], rest)
      | _ =>
        (readItems? rigour fuel r).map fun (items, rest) =>
          (array (consumed ('[' :: r) rest) items, rest)
    | '{' :: r =>
      match skipBlank r with
      | '}' :: rest => some (object (consumed ('{' :: r) rest) [], rest)
      | _ =>
        (readFields? rigour fuel r).map fun (fields, rest) =>
          (object (consumed ('{' :: r) rest) fields, rest)
    | r => (readNumber? r).map fun (t, rest) => (number t, rest)

/-- Reads the items of a list up to its closing bracket. -/
def readItems? (rigour : Rigour) : Nat → List Char → Option (List Source × List Char)
  | 0, _ => none
  | fuel + 1, cs => do
    let (item, r) ← readValue? rigour fuel cs
    match skipBlank r with
    | ',' :: r' =>
      let (items, rest) ← readItems? rigour fuel r'
      return (item :: items, rest)
    | ']' :: rest => return ([item], rest)
    | _ => none

/-- Reads the fields of an object up to its closing brace. -/
def readFields? (rigour : Rigour) : Nat → List Char → Option (List (String × Source) × List Char)
  | 0, _ => none
  | fuel + 1, cs =>
    match skipBlank cs with
    | '"' :: r => do
      let (name, r) ← readString? rigour r
      match skipBlank r with
      | ':' :: r =>
        let (value, r) ← readValue? rigour fuel r
        match skipBlank r with
        | ',' :: r' =>
          let (fields, rest) ← readFields? rigour fuel r'
          return ((name, value) :: fields, rest)
        | '}' :: rest => return ([(name, value)], rest)
        | _ => none
      | _ => none
    | _ => none

end

/-- Reads the first value of a text and ignores what follows it. -/
def readFirst? (rigour : Rigour) (s : String) : Option Source :=
  let cs := s.toList
  (readValue? rigour (cs.length + 1) cs).map Prod.fst

/-- Reads a text that holds one value and nothing else. -/
def read? (rigour : Rigour) (s : String) : Option Source :=
  let cs := s.toList
  match readValue? rigour (cs.length + 1) cs with
  | some (v, rest) => if (skipBlank rest).isEmpty then some v else none
  | none => none

-- ==== meaning

mutual

/-- The value written, or nothing if a string in it has a malformed escape. -/
def value? : Source → Option Json
  | null => some .null
  | bool b => some (.bool b)
  | number t => some (.number t)
  | string body => (unescape? body).map .string
  | array _ items => (values? items).map .array
  | object _ fields => (members? fields).map fun fs => .object (Assoc.ofList fs)

def values? : List Source → Option (List Json)
  | [] => some []
  | v :: rest => do
    let j ← value? v
    return j :: (← values? rest)

def members? : List (String × Source) → Option (List (String × Json))
  | [] => some []
  | (name, v) :: rest => do
    let key ← unescape? name
    let j ← value? v
    return (key, j) :: (← members? rest)

end

-- ==== fields

/-- The fields of an object with their names read. -/
def fields? : Source → Option (List (String × Source))
  | object _ fields => fields.mapM fun (name, x) => (unescape? name).map (·, x)
  | _ => none

def lastField? (fields : List (String × Source)) (name : String) : Option Source :=
  (fields.reverse.find? (·.1 = name)).map Prod.snd

/-- Of equal names only the last field. -/
def lastOfEach : List (String × Source) → List (String × Source)
  | [] => []
  | (k, v) :: rest => if rest.any (·.1 = k) then lastOfEach rest else (k, v) :: lastOfEach rest

end Source

/-- Reads a JSON text strictly. -/
def parse? (s : String) : Option Json := (Source.read? .strict s).bind Source.value?

end PromptGraph.Json

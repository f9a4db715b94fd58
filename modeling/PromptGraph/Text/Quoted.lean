/-
Quoted text: double quotes around a text whose quotes, backslashes and unprintable characters are
escaped. Reading accepts every escape that writing produces and a few more (octal, hexadecimal and
eight-digit ones), and refuses a raw line break.
-/
import PromptGraph.Text.Octets
import PromptGraph.Text.Printable

namespace PromptGraph.Text.Quoted

def hexDigit (n : Nat) : Char :=
  if n < 10 then Char.ofNat (48 + n) else Char.ofNat (87 + n)

/-- `n` in base 16 with exactly `width` digits. -/
def hexDigits (width n : Nat) : List Char :=
  (List.range width).map fun i => hexDigit (n / Nat.pow 16 (width - 1 - i) % 16)

/-- A character as quoted text shows it. -/
def escapeChar (c : Char) : List Char :=
  let n := c.toNat
  if c = '"' || c = '\\' then ['\\', c]
  else if isPrintable c then [c]
  else if n = 7 then ['\\', 'a']
  else if n = 8 then ['\\', 'b']
  else if n = 12 then ['\\', 'f']
  else if n = 10 then ['\\', 'n']
  else if n = 13 then ['\\', 'r']
  else if n = 9 then ['\\', 't']
  else if n = 11 then ['\\', 'v']
  else if n < 0x20 || n = 0x7f then '\\' :: 'x' :: hexDigits 2 n
  else if n < 0x10000 then '\\' :: 'u' :: hexDigits 4 n
  else '\\' :: 'U' :: hexDigits 8 n

def encodeChars (cs : List Char) : List Char :=
  '"' :: (cs.flatMap escapeChar ++ ['"'])

/-- The quoted form of a text. -/
def encode (s : String) : String := String.ofList (encodeChars s.toList)

def hexValue? (c : Char) : Option Nat :=
  if '0' ≤ c && c ≤ '9' then some (c.toNat - 48)
  else if 'a' ≤ c && c ≤ 'f' then some (c.toNat - 87)
  else if 'A' ≤ c && c ≤ 'F' then some (c.toNat - 55)
  else none

def octalValue? (c : Char) : Option Nat :=
  if '0' ≤ c && c ≤ '7' then some (c.toNat - 48) else none

/-- The number that the digits denote, or nothing if one is no digit. -/
def numeral? (base : Nat) (digit? : Char → Option Nat) (cs : List Char) : Option Nat :=
  cs.foldlM (fun n c => (digit? c).map (base * n + ·)) 0

/-- A code point as octets; surrogates and values past the last plane are no characters. -/
def scalar? (n : Nat) : Option (List UInt8) :=
  if n < 0xd800 || (0xe000 ≤ n && n < 0x110000) then some (octets (String.singleton (Char.ofNat n)))
  else none

def octet (n : Nat) : List UInt8 := [UInt8.ofNat n]

/-- The octets that a quoted text's inside denotes, up to and including its closing quote, which
must be the last character. -/
def decodeBody : List Char → Option (List UInt8)
  | ['"'] => some []
  | '\\' :: 'x' :: a :: b :: r => do
    let n ← numeral? 16 hexValue? [a, b]
    return octet n ++ (← decodeBody r)
  | '\\' :: 'u' :: a :: b :: c :: d :: r => do
    let n ← numeral? 16 hexValue? [a, b, c, d]
    return (← scalar? n) ++ (← decodeBody r)
  | '\\' :: 'U' :: a :: b :: c :: d :: e :: f :: g :: h :: r => do
    let n ← numeral? 16 hexValue? [a, b, c, d, e, f, g, h]
    return (← scalar? n) ++ (← decodeBody r)
  | '\\' :: 'a' :: r => (octet 7 ++ ·) <$> decodeBody r
  | '\\' :: 'b' :: r => (octet 8 ++ ·) <$> decodeBody r
  | '\\' :: 'f' :: r => (octet 12 ++ ·) <$> decodeBody r
  | '\\' :: 'n' :: r => (octet 10 ++ ·) <$> decodeBody r
  | '\\' :: 'r' :: r => (octet 13 ++ ·) <$> decodeBody r
  | '\\' :: 't' :: r => (octet 9 ++ ·) <$> decodeBody r
  | '\\' :: 'v' :: r => (octet 11 ++ ·) <$> decodeBody r
  | '\\' :: '\\' :: r => (octet 92 ++ ·) <$> decodeBody r
  | '\\' :: '"' :: r => (octet 34 ++ ·) <$> decodeBody r
  | '\\' :: a :: b :: c :: r => do
    let n ← numeral? 8 octalValue? [a, b, c]
    if n < 256 then return octet n ++ (← decodeBody r) else none
  | c :: r =>
    if c = '"' || c = '\\' || c = '\n' then none
    else (octets (String.singleton c) ++ ·) <$> decodeBody r
  | [] => none

/-- Reads a quoted text. -/
def decode? (s : String) : Option String :=
  match s.toList with
  | '"' :: body => (decodeBody body).map ofOctets
  | _ => none

end PromptGraph.Text.Quoted

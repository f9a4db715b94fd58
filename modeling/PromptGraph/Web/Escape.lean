/-
Percent escapes. Every part of an address has octets that stand for themselves; the others are
written as a percent sign and two hexadecimal digits. A host is stricter than the rest: its ASCII
octets are never escaped, so one that cannot stand for itself cannot be in a host at all.
-/
import PromptGraph.Text.Octets
import PromptGraph.Text.Quoted

namespace PromptGraph.Web

/-- A part of an address. -/
inductive Part where
  | path
  /-- One name of a path. -/
  | segment
  | user
  | query
  | fragment
  | host
  /-- The name of a link inside a bracketed host. -/
  | zone
  deriving DecidableEq

namespace Part

def isHost : Part → Bool
  | host | zone => true
  | _ => false

/-- Octets that divide addresses, where a part takes them as they are. -/
def takesReserved : Part → Char → Bool
  | path, c => c ≠ '?'
  | segment, c => c ≠ '/' && c ≠ ';' && c ≠ ',' && c ≠ '?'
  | user, c => c ≠ '@' && c ≠ '/' && c ≠ '?' && c ≠ ':'
  | query, _ => false
  | fragment, _ => true
  | host, _ => false
  | zone, _ => false

/-- The octet stands for itself. -/
def isPlain (part : Part) (b : UInt8) : Bool :=
  let c := Char.ofNat b.toNat
  c.isAlphanum || "-_.~".toList.contains c
    || (part.isHost && "!$&'()*+,;=:[]<>\"".toList.contains c)
    || ("$&+,/:;=?@".toList.contains c && part.takesReserved c)
    || (part = fragment && "!()*".toList.contains c)

end Part

-- ==== writing

def escapeOctet (part : Part) (b : UInt8) : List Char :=
  if part.isPlain b then [Char.ofNat b.toNat]
  else if part = .query && b = 0x20 then ['+']
  else
    let digit (n : Nat) : Char := (Text.Quoted.hexDigit n).toUpper
    ['%', digit (b.toNat / 16), digit (b.toNat % 16)]

def escapeOctets (part : Part) (bs : List UInt8) : String :=
  String.ofList (bs.flatMap (escapeOctet part))

def escape (part : Part) (s : String) : String := escapeOctets part (Text.octets s)

-- ==== reading

/-- Why a part cannot be read. -/
inductive EscapeError where
  /-- A percent sign without two digits after it, or an escape that has no place here. -/
  | escape (text : String)
  /-- An octet that cannot be in a host. -/
  | character (c : Char)
  deriving DecidableEq

/-- The value of an escape's two digits. -/
def pairValue? (high low : UInt8) : Option UInt8 := do
  let h ← Text.Quoted.hexValue? (Char.ofNat high.toNat)
  let l ← Text.Quoted.hexValue? (Char.ofNat low.toNat)
  return UInt8.ofNat (16 * h + l)

/-- A host escapes octets beyond ASCII only, and the percent sign; a zone whatever a host has. -/
def Part.admits (part : Part) (value : UInt8) : Bool :=
  match part with
  | .host => 0x80 ≤ value.toNat || value = 0x25
  | .zone => value = 0x25 || value = 0x20 || Part.host.isPlain value
  | _ => true

def unescapeOctets (part : Part) : List UInt8 → Except EscapeError (List UInt8)
  | [] => .ok []
  | b :: rest =>
    if b = 0x25 then
      match rest with
      | high :: low :: after =>
        match pairValue? high low with
        | some value =>
          if part.admits value then (value :: ·) <$> unescapeOctets part after
          else .error (.escape (Text.ofOctets [b, high, low]))
        | none => .error (.escape (Text.ofOctets [b, high, low]))
      | short => .error (.escape (Text.ofOctets (b :: short)))
    else if part = .query && b = 0x2b then (0x20 :: ·) <$> unescapeOctets part rest
    else if part.isHost && b.toNat < 0x80 && !part.isPlain b then
      .error (.character (Char.ofNat b.toNat))
    else (b :: ·) <$> unescapeOctets part rest

def unescape (part : Part) (s : String) : Except EscapeError String :=
  Text.ofOctets <$> unescapeOctets part (Text.octets s)

end PromptGraph.Web

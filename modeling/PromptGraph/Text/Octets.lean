/-
Text as octets: UTF-8 sequences, and reading them back when some are broken. A text that is cut at a
number of octets may end inside a character; each octet that is not part of a well-formed sequence
then reads as the replacement character.

Elsewhere a text is a `String`, which is always well-formed: documents, files, messages and the
answers of a server are taken to be UTF-8, and what broken octets in them would do is not modelled.
The exception are the texts of JSON values and of editor graphs, which may be octets where they are
written (`Json.Texts`).
-/

namespace PromptGraph.Text

/-- Stands for one octet that belongs to no character. -/
def replacement : Char := '�'

/-- A text as it is stored. Only the octets of a well-formed text are those of a `String`. -/
abbrev Octets := List UInt8

def octets (s : String) : Octets := s.toUTF8.toList

/-- The number of octets of a text. -/
def octetLength (s : String) : Nat := s.utf8ByteSize

/-- A continuation octet's six payload bits. -/
def continuation? (b : UInt8) : Option Nat :=
  if 0x80 ≤ b.toNat && b.toNat < 0xc0 then some (b.toNat - 0x80) else none

/-- Reads one character. Overlong forms, surrogates and values past the last plane are refused. -/
def takeChar? : Octets → Option (Char × Octets)
  | [] => none
  | b :: rest =>
    let lead := b.toNat
    if lead < 0x80 then some (Char.ofNat lead, rest)
    else if 0xc2 ≤ lead && lead < 0xe0 then
      match rest with
      | b₁ :: r => (continuation? b₁).map fun x => (Char.ofNat ((lead - 0xc0) * 64 + x), r)
      | _ => none
    else if 0xe0 ≤ lead && lead < 0xf0 then
      match rest with
      | b₁ :: b₂ :: r => do
        let x ← continuation? b₁
        let y ← continuation? b₂
        let n := ((lead - 0xe0) * 64 + x) * 64 + y
        if n < 0x800 || (0xd800 ≤ n && n < 0xe000) then none else some (Char.ofNat n, r)
      | _ => none
    else if 0xf0 ≤ lead && lead < 0xf5 then
      match rest with
      | b₁ :: b₂ :: b₃ :: r => do
        let x ← continuation? b₁
        let y ← continuation? b₂
        let z ← continuation? b₃
        let n := (((lead - 0xf0) * 64 + x) * 64 + y) * 64 + z
        if n < 0x10000 || 0x110000 ≤ n then none else some (Char.ofNat n, r)
      | _ => none
    else none

/-- The characters of an octet sequence, with nothing for each octet that belongs to none; `fuel`
bounds the number of characters read. -/
def readMarks : Nat → Octets → List (Option Char)
  | _, [] => []
  | 0, _ => []
  | fuel + 1, b :: rest =>
    match takeChar? (b :: rest) with
    | some (c, r) => some c :: readMarks fuel r
    | none => none :: readMarks fuel rest

def marks (bs : Octets) : List (Option Char) := readMarks bs.length bs

/-- The text of an octet sequence, broken octets replaced. -/
def ofOctets (bs : Octets) : String := String.ofList ((marks bs).map (·.getD replacement))

/-- The text of a stored octet sequence, broken octets replaced. -/
def ofBytes (bs : ByteArray) : String := (String.fromUTF8? bs).getD (ofOctets bs.toList)

/-- The first `n` octets of a text, as text. -/
def cut (n : Nat) (s : String) : String := ofOctets ((octets s).take n)

end PromptGraph.Text

/-
Octets written with sixty-four printable characters: three octets are four characters, and what is
missing at the end is made up with equals signs.
-/

namespace PromptGraph.Text.Radix64

def alphabet : List Char :=
  "ABCDEFGHIJKLMNOPQRSTUVWXYZabcdefghijklmnopqrstuvwxyz0123456789+/".toList

/-- The character of the six bits of `n` above the lowest `shift`. -/
def sextet (n shift : Nat) : Char := alphabet[(n >>> shift) % 64]?.getD '='

def encodeChars : List UInt8 → List Char
  | [] => []
  | [a] =>
    let n := a.toNat * 65536
    [sextet n 18, sextet n 12, '=', '=']
  | [a, b] =>
    let n := a.toNat * 65536 + b.toNat * 256
    [sextet n 18, sextet n 12, sextet n 6, '=']
  | a :: b :: c :: rest =>
    let n := a.toNat * 65536 + b.toNat * 256 + c.toNat
    sextet n 18 :: sextet n 12 :: sextet n 6 :: sextet n 0 :: encodeChars rest

def encode (bs : List UInt8) : String := String.ofList (encodeChars bs)

end PromptGraph.Text.Radix64

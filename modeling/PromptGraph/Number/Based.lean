/-
Whole numbers in the base that their first characters name: `0b`, `0o`, `0x`, or `0` alone for
octal.
-/
import PromptGraph.Number.Integer
import PromptGraph.Number.Literal

namespace PromptGraph.Number.Based

def digits? (base : Nat) (cs : List Char) : Option Nat :=
  Text.Quoted.numeral? base (Literal.digitIn? base) cs

/-- A numeral in the base its first characters name. -/
def natural? : List Char → Option Nat
  | [] => none
  | '0' :: x :: y :: rest =>
    match Literal.asciiLower x with
    | 'b' => digits? 2 (y :: rest)
    | 'o' => digits? 8 (y :: rest)
    | 'x' => digits? 16 (y :: rest)
    | _ => digits? 8 (x :: y :: rest)
  | ['0'] => some 0
  | '0' :: rest => digits? 8 rest
  | cs => digits? 10 cs

/-- Why a text is no whole number of 64 bits. -/
inductive ReadError where
  | malformed
  | tooLarge
  deriving DecidableEq

/-- Underscores divide digits, and nothing else. -/
def underscoresOk : List Char → Bool
  | '0' :: x :: rest =>
    match Literal.asciiLower x with
    | 'b' | 'o' => Literal.underscoresOk false .digit rest
    | 'x' => Literal.underscoresOk true .digit rest
    | _ => Literal.underscoresOk false .start ('0' :: x :: rest)
  | cs => Literal.underscoresOk false .start cs

def unsigned (cs : List Char) : Except ReadError Nat :=
  if cs.contains '_' && !underscoresOk cs then .error .malformed
  else
    match natural? (cs.filter (· ≠ '_')) with
    | some n => .ok n
    | none => .error .malformed

/-- A whole number of 64 bits, with an optional sign. -/
def read (s : String) : Except ReadError Int := do
  let n : Int ← match s.toList with
    | '-' :: cs => do pure (-(← unsigned cs : Nat) : Int)
    | '+' :: cs => do pure ((← unsigned cs : Nat) : Int)
    | cs => do pure ((← unsigned cs : Nat) : Int)
  if inInt64 n then return n else throw .tooLarge

end PromptGraph.Number.Based

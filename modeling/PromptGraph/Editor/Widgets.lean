/-
Widget values: the literals embedded in a node. Older exports list them by position, newer ones name
them.
-/
import PromptGraph.Json.Decode
import PromptGraph.Json.Printer
import PromptGraph.Text.Space

namespace PromptGraph.Editor

inductive Widgets (τ : Type := String) where
  | positional (values : List (Json τ))
  | keyed (values : List (τ × Json τ))
  deriving Inhabited

namespace Widgets

def none {τ : Type} : Widgets τ := positional []

def isKeyed : Widgets → Bool
  | keyed _ => true
  | positional _ => false

def size : Widgets → Nat
  | positional vs => vs.length
  | keyed vs => vs.length

/-- The value at a position. -/
def at? (w : Widgets) (i : Int) : Option Json :=
  match w with
  | positional vs => if i < 0 then .none else vs[i.toNat]?
  | keyed _ => .none

/-- The value under a name. -/
def get? (w : Widgets) (name : String) : Option Json :=
  match w with
  | positional _ => .none
  | keyed vs => Assoc.get? vs name

/-- Stores a value at a position; a gap before it is filled with nulls. -/
def setAt (w : Widgets) (i : Int) (v : Json) : Widgets :=
  match w with
  | positional vs =>
    if i < 0 then w
    else positional ((vs ++ List.replicate (i.toNat + 1 - vs.length) Json.null).set i.toNat v)
  | keyed _ => w

/-- Stores a value under a name. -/
def set (w : Widgets) (name : String) (v : Json) : Widgets :=
  match w with
  | positional _ => w
  | keyed vs => keyed (Assoc.insert vs name v)

def toJson {τ : Type} : Widgets τ → Json τ
  | positional vs => .array vs
  | keyed vs => .object vs

/-- Why a text holds no widget values. -/
inductive Refusal where
  | malformed
  | shape (text : String)
  deriving DecidableEq

/-- A long text is shown by its first octets. -/
def excerpt (s : String) : String :=
  if Text.octetLength s > 32 then Text.cut 32 s ++ "..." else s

/-- Reads widget values from the JSON text that stands for them. -/
def read (source : String) : Except Refusal Widgets :=
  let t := Text.trim source
  if t = "" || t = "null" then .ok none
  else
    match t.toList.head? with
    | some '{' =>
      match (Json.Source.read? .lenient t).bind Json.Source.value? with
      | some (.object fields) => .ok (keyed fields)
      | _ => .error .malformed
    | some '[' =>
      match (Json.Source.read? .lenient t).bind Json.Source.value? with
      | some (.array items) => .ok (positional items)
      | _ => .error .malformed
    | _ => .error (.shape (excerpt t))

end Widgets

end PromptGraph.Editor

/-
Ids of nodes and links. The editor writes numbers, some exporters write strings; both are kept as
text, a number in its canonical decimal form when it has one.
-/
import PromptGraph.Number.Literal
import PromptGraph.Text.Space

namespace PromptGraph.Editor

structure Id where
  text : String
  deriving DecidableEq, Inhabited

namespace Id

def empty : Id := ⟨""⟩

def isEmpty (i : Id) : Bool := i.text = ""

def ofInt (n : Int) : Id := ⟨toString n⟩

/-- The number an id stands for, if its text is one of 64 bits. -/
def int? (i : Id) : Option Int := Number.int64? i.text

/-- Numbers in numeric order, then all other ids in order of their text. -/
def less (a b : Id) : Bool :=
  match a.int?, b.int? with
  | some m, some n => m < n
  | some _, none => true
  | none, some _ => false
  | none, none => a.text < b.text

/-- Why a text is no id. -/
inductive Refusal where
  | quotes (text : String)
  | number (text : String)
  deriving DecidableEq

def Refusal.message : Refusal → String
  | quotes t => "workflow: invalid id " ++ t ++ ": invalid syntax"
  | number t => "workflow: invalid id " ++ t

/-- Reads an id from the JSON text that stands for it. -/
def read (source : String) : Except Refusal Id :=
  let t := Text.trim source
  if t = "" || t = "null" then .ok empty
  else if t.toList.head? = some '"' then
    match Text.Quoted.decode? t with
    | some s => .ok ⟨s⟩
    | none => .error (.quotes t)
  else
    match Number.Literal.read? t with
    | some (.finite d) =>
      match d.toInt64? with
      | some n => .ok (ofInt n)
      | none => .ok ⟨t⟩
    | some (.infinite _) => .ok ⟨t⟩
    | some .nan => .ok ⟨t⟩
    | some .overflow => .error (.number t)
    | none => .error (.number t)

/-- The JSON text written for an id: a number bare, anything else in quotes. -/
def write (i : Id) : String :=
  if i.int?.isSome then i.text else Text.Quoted.encode i.text

end Id

end PromptGraph.Editor

/-
Reading an execution graph. Only the first JSON value of a text counts.
-/
import PromptGraph.Execution.Graph
import PromptGraph.Json.Decode
import PromptGraph.Text.Complaint

namespace PromptGraph.Execution

open Json (Source Decode)

/-- Why a text is no execution graph. -/
inductive GraphError where
  | malformed
  | notObject
  | nullEntry (id : String)
  deriving DecidableEq

def GraphError.message : GraphError → String
  | malformed => "graph: decode: " ++ Text.complaint
  | notObject => "graph: decode: expected an object"
  | nullEntry id => "graph: node " ++ Text.Quoted.encode id ++ ": entry is null"

abbrev Read := Decode Empty

/-- Inputs are added to those already read. -/
def readInputs (old : Option (Assoc Input)) : Source → Read (Option (Assoc Input))
  | .null => pure none
  | .object _ fields => do
    let members ← Decode.ofOption (Source.members? fields)
    return some (members.foldl (fun t (k, v) => Assoc.insert t k (Input.ofJson v)) (old.getD []))
  | _ => Decode.skip old

def readTitle : String → Source → Read String :=
  Decode.record .strict ["title"] fun old _ v => Decode.text old v

def readEntry : Entry → Source → Read Entry :=
  Decode.record .strict ["class_type", "inputs", "_meta"] fun e field v =>
    match field with
    | "class_type" => return { e with classType := ← Decode.text e.classType v }
    | "inputs" => return { e with inputs := ← readInputs e.inputs v }
    | _ => return { e with title := ← Decode.optional "" readTitle e.title v }

/-- The entries by id, absent for `null`; of equal ids the last. -/
def readEntries : Assoc (Option Entry) → List (String × Source) → Read (Assoc (Option Entry))
  | t, [] => pure t
  | t, (name, v) :: rest => do
    let id ← Decode.ofOption (Source.unescape? name)
    let e ← Decode.optional {} readEntry none v
    readEntries (Assoc.insert t id e) rest

/-- Every entry, or the first id whose entry is null. -/
def requireEntries : Assoc (Option Entry) → Except GraphError Graph
  | [] => .ok []
  | (id, none) :: _ => .error (.nullEntry id)
  | (id, some e) :: rest =>
    match requireEntries rest with
    | .ok g => .ok ((id, e) :: g)
    | .error err => .error err

def Graph.ofSource : Source → Except GraphError Graph
  | .null => .error .notObject
  | .object _ fields =>
    match (readEntries [] fields).run with
    | .ok t => requireEntries t
    | .error _ => .error .malformed
  | _ => .error .malformed

/-- Reads the first value of a text as an execution graph. -/
def Graph.parse (text : String) : Except GraphError Graph :=
  match Source.readFirst? .strict text with
  | some v => Graph.ofSource v
  | none => .error .malformed

/-- Why a text is no reference. -/
inductive RefError where
  | malformed
  | wrongSize (size : Nat)
  | badNode
  | badSlot
  deriving DecidableEq

def RefError.message : RefError → String
  | malformed => Text.complaint
  | wrongSize n => "graph: reference must have 2 elements, got " ++ toString n
  | badNode => "graph: reference id: " ++ Text.complaint
  | badSlot => "graph: reference slot: " ++ Text.complaint

def readNode (v : Source) : Read String := Decode.text "" v

def readSlot (v : Source) : Read Int := Decode.integer 0 v

/-- Reads a reference on its own: a list of an id and a slot. -/
def Ref.parse (text : String) : Except RefError Ref :=
  match Source.read? .strict text with
  | some (.array _ [node, slot]) =>
    match (readNode node).run, (readSlot slot).run with
    | .ok n, .ok s => .ok ⟨n, s⟩
    | .error _, _ => .error .badNode
    | .ok _, .error _ => .error .badSlot
  | some (.array _ items) => .error (.wrongSize items.length)
  | some .null => .error (.wrongSize 0)
  | _ => .error .malformed

end PromptGraph.Execution

/-
Validation: every entry has a class, every reference names an entry, and references form no cycle;
with a table of node types also that classes are known, that slots exist and that required inputs are
there.
-/
import PromptGraph.Diagnostic
import PromptGraph.Execution.Graph
import PromptGraph.NodeType.Table

namespace PromptGraph.Execution

/-- The references among an entry's inputs, by input name. -/
def Entry.refs (e : Entry) : List (String × Ref) :=
  e.inputTable.filterMap fun (name, v) => v.asRef?.map (name, ·)

def inputPath (id name : String) : String := id ++ ".inputs." ++ name

-- ==== structure

def noClass (id : String) : Diagnostic :=
  .error "GR-002" id ("Node " ++ Text.Quoted.encode id ++ " has no class_type")

def unknownNode (id name : String) (r : Ref) : Diagnostic :=
  .error "GR-001" (inputPath id name)
    ("Input " ++ Text.Quoted.encode name ++ " references unknown node " ++ Text.Quoted.encode r.node)

def checkEntry (g : Graph) (id : String) (e : Entry) : List Diagnostic :=
  (if e.classType = "" then [noClass id] else [])
  ++ e.refs.filterMap fun (name, r) =>
    if Assoc.contains g r.node then none else some (unknownNode id name r)

-- ==== cycles

/-- Every reference as a pair of the entry it names and the entry that holds it, in id order. An entry
that reads another through several inputs is paired with it as often. -/
def Graph.wires (g : Graph) : List (String × String) :=
  g.ordered.flatMap fun (id, e) => e.refs.map fun (_, r) => (r.node, id)

/-- A count of references still open, by the entry that holds them, and the entries that have none
open, in the order in which they came to that. -/
structure Countdown where
  waits : Assoc Nat
  queue : List String

namespace Countdown

def waitsOf (c : Countdown) (id : String) : Nat := (Assoc.get? c.waits id).getD 0

/-- One reference of an entry is met. With the last one the entry joins the queue. -/
def meet (c : Countdown) (id : String) : Countdown :=
  let left := c.waitsOf id - 1
  { waits := Assoc.insert c.waits id left
    queue := if left = 0 then c.queue ++ [id] else c.queue }

/-- The entries that read `id`, as often as they do. -/
def readers (wires : List (String × String)) (id : String) : List String :=
  wires.filterMap fun (a, b) => if a = id then some b else none

/-- Takes one entry after the other from the queue and meets the references to it. Each of at most
`fuel` entries is taken once. -/
def run (wires : List (String × String)) : Nat → Countdown → Countdown
  | 0, c => c
  | fuel + 1, c =>
    match c.queue with
    | [] => c
    | id :: queue => run wires fuel ((readers wires id).foldl meet { c with queue })

end Countdown

/-- All references are open, and the entries without any are queued. -/
def Graph.countdown (g : Graph) : Countdown :=
  let waits := Assoc.mapValues (fun e => e.refs.length) g
  { waits, queue := g.ids.filter fun id => (Assoc.get? waits id).getD 0 = 0 }

/-- The entries with a reference that is never met, because they are on a cycle or downstream of one,
in id order. -/
def Graph.stuck (g : Graph) : List String :=
  let c := Countdown.run g.wires g.length g.countdown
  g.ids.filter fun id => 0 < c.waitsOf id

def cycleFound (ids : List String) : Diagnostic :=
  .error "GR-004" "" ("Graph contains a cycle: nodes involved: [" ++ " ".intercalate ids ++ "]")

/-- Cycles are looked for only if every reference names an entry. -/
def Graph.validate (g : Graph) : List Diagnostic :=
  let ds := g.ordered.flatMap fun (id, e) => checkEntry g id e
  if ds.any (·.code = "GR-001") || g.stuck.isEmpty then ds else ds ++ [cycleFound g.stuck]

-- ==== node types

def unknownClass (id classType : String) : Diagnostic :=
  .error "GR-003" (id ++ ".class_type")
    ("Node " ++ Text.Quoted.encode id ++ " has unknown class type " ++ Text.Quoted.encode classType)

def missingInput (id classType name : String) : Diagnostic :=
  .warning "GR-006" (inputPath id name)
    ("Node " ++ Text.Quoted.encode id ++ " (" ++ classType ++ ") is missing required input "
      ++ Text.Quoted.encode name)

def noSuchOutput (id name : String) (r : Ref) (classType : String) (count : Nat) : Diagnostic :=
  .warning "GR-005" (inputPath id name)
    ("Input " ++ Text.Quoted.encode name ++ " reads output " ++ toString r.slot ++ " of "
      ++ Text.Quoted.encode r.node ++ " (" ++ classType ++ "), which declares " ++ toString count
      ++ " outputs")

def missingInputs (id : String) (e : Entry) (t : NodeType) : List Diagnostic :=
  t.inputs.filterMap fun i =>
    if i.sec = .required && (e.input? i.name).isNone then some (missingInput id e.classType i.name)
    else none

/-- A reference to a slot that its producer does not declare. A producer that declares no outputs at
all is not judged. -/
def checkSlot (g : Graph) (table : NodeTable) (id name : String) (r : Ref) : Option Diagnostic :=
  match Assoc.get? g r.node with
  | none => none
  | some producer =>
    match Assoc.get? table producer.classType with
    | none => none
    | some t =>
      let count := t.outputs.length
      if count = 0 || (0 ≤ r.slot && r.slot < count) then none
      else some (noSuchOutput id name r producer.classType count)

def checkTypes (g : Graph) (table : NodeTable) (id : String) (e : Entry) : List Diagnostic :=
  match Assoc.get? table e.classType with
  | none => if e.classType = "" then [] else [unknownClass id e.classType]
  | some t =>
    missingInputs id e t ++ e.refs.filterMap fun (name, r) => checkSlot g table id name r

def Graph.validateWith (g : Graph) (table : NodeTable) : List Diagnostic :=
  g.validate ++ g.ordered.flatMap fun (id, e) => checkTypes g table id e

end PromptGraph.Execution

/-
Inlining: every level becomes entries whose ids carry the path of instances they were reached
through. An instance is expanded only while its definition is not being expanded already, so the
definitions still available bound the nesting.
-/
import PromptGraph.Editor.Workflow
import PromptGraph.Flatten.Event
import PromptGraph.Flatten.Inputs
import PromptGraph.Flatten.Order
import PromptGraph.NodeClass

namespace PromptGraph.Flatten

open Editor
open Execution (Input Ref Entry Graph)

/-- What does not change during a conversion. -/
structure Context where
  registry : Registry
  table : NodeTable
  definitions : List Definition

/-- Port values by slot, each slot once. -/
abbrev Bindings := List (Int × Input)

def Bindings.get? (b : Bindings) (slot : Int) : Option Input := (b.find? (·.1 = slot)).map Prod.snd

/-- The result under construction. `instances` holds the output bindings of every expanded
instance. -/
structure Build where
  entries : Graph := []
  instances : Assoc Bindings := []
  diagnostics : List Diagnostic := []
  events : List Event := []

namespace Build

def warn (b : Build) (ds : List Diagnostic) : Build := { b with diagnostics := b.diagnostics ++ ds }

def emit (b : Build) (e : Event) : Build := { b with events := b.events ++ [e] }

end Build

-- ==== roles of nodes

/-- What becomes of a node while the definitions `available` are not being expanded. -/
inductive Role (available : List Definition) where
  | dropped (reason : DropReason)
  | occurrence (d : Definition) (mem : d ∈ available)
  | ordinary

def role (ctx : Context) (available : List Definition) (n : Node) : Role available :=
  if n.disabled then .dropped .disabled
  else if ctx.registry.isUiOnly n.type then .dropped .uiOnly
  else if ctx.definitions.any (·.id = n.type) then
    match h : available.find? (·.id = n.type) with
    | some d => .occurrence d (List.mem_of_find?_eq_some h)
    | none => .dropped .recursive
  else if Assoc.contains ctx.table n.type then .ordinary
  else .dropped .unknownType

/-- An instance of an available definition. -/
structure Site (available : List Definition) where
  id : Id
  definition : Definition
  mem : definition ∈ available

/-- The nodes of a level in id order, sorted by role. -/
structure Plan (available : List Definition) where
  sites : List (Site available) := []
  ordinary : List Node := []

namespace Plan

variable {available : List Definition}

def putSite (s : Site available) : List (Site available) → List (Site available)
  | [] => [s]
  | t :: rest => if t.id = s.id then s :: rest else t :: putSite s rest

def isSite (p : Plan available) (id : Id) : Bool := p.sites.any (·.id = id)

end Plan

def unknownType (pid type : String) : Diagnostic :=
  .warning "CV-001" pid ("Node " ++ Text.Quoted.encode pid ++ " has unknown type "
    ++ Text.Quoted.encode type ++ " and was dropped")

def selfNested (pid type : String) : Diagnostic :=
  .warning "CV-006" pid ("Subgraph instance " ++ Text.Quoted.encode pid ++ " of "
    ++ Text.Quoted.encode type ++ " is nested inside itself and was skipped")

def dropWarnings (pid type : String) : DropReason → List Diagnostic
  | .unknownType => [unknownType pid type]
  | .recursive => [selfNested pid type]
  | _ => []

/-- One node joins the plan or is dropped. -/
def planNode (ctx : Context) (available : List Definition) (path : String)
    (acc : Plan available × Build) (n : Node) : Plan available × Build :=
  let (p, b) := acc
  match role ctx available n with
  | .dropped reason =>
    let pid := path ++ n.id.text
    (p, (b.warn (dropWarnings pid n.type reason)).emit (.dropped pid n.type reason))
  | .occurrence d mem => ({ p with sites := Plan.putSite ⟨n.id, d, mem⟩ p.sites }, b)
  | .ordinary => ({ p with ordinary := p.ordinary ++ [n] }, b)

def sortNodes (nodes : List Node) : List Node := nodes.mergeSort fun a b => !Id.less b.id a.id

def plan (ctx : Context) (available : List Definition) (path : String) (nodes : List Node)
    (b : Build) : Plan available × Build :=
  (sortNodes nodes).foldl (planNode ctx available path) ({}, b)

-- ==== sources

/-- A level as its links are resolved: where it stands, what its input ports are bound to, which of
its nodes are instances and which of those are expanded. -/
structure Scope where
  level : Level
  path : String
  ports : Bindings
  isSite : Id → Bool
  expanded : List (Id × Bindings) := []

namespace Scope

def outputsOf? (s : Scope) (id : Id) : Option Bindings :=
  (s.expanded.find? (·.1 = id)).map Prod.snd

def unboundOutput (consumer : String) (slot : Int) (pid : String) : Diagnostic :=
  .warning "CV-005" consumer ("Output " ++ toString slot ++ " of subgraph instance "
    ++ Text.Quoted.encode pid ++ " is not connected inside its definition")

/-- What a link carries. An instance not yet expanded, and a node that is dropped, are still named by
a reference, to be settled when all entries are known. -/
def resolve (s : Scope) (k : Link) (consumer : String) : Option Input × List Diagnostic :=
  match s.level.origin k with
  | .inputPort slot => (s.ports.get? slot, [])
  | .outputPort _ => (none, [])
  | .node id slot =>
    let pid := s.path ++ id.text
    match if s.isSite id then s.outputsOf? id else none with
    | some outputs =>
      match outputs.get? slot with
      | some v => (some v, [])
      | none => (none, [unboundOutput consumer slot pid])
    | none => (some (.ref ⟨pid, slot⟩), [])

/-- The last link into a slot of a node. -/
def incoming? (s : Scope) (id : Id) (slot : Int) : Option Link :=
  s.level.links.reverse.find? fun k => s.level.target k = .node id slot

end Scope

-- ==== instances

/-- The literal that an instance holds for an input port which the editor shows as a widget. -/
def promotedWidget (n : Node) (slot : Nat) : Option Json :=
  match n.inputs[slot]? with
  | none => none
  | some i =>
    match i.widget with
    | none => none
    | some w =>
      match n.widgets with
      | .keyed t =>
        nonNull? <|
          match Assoc.get? t (if w = "" then i.name else w) with
          | some v => some v
          | none => Assoc.get? t i.name
      | .positional vs => nonNull? ((n.widgetIndex? i.name).bind (vs[·]?))

/-- The value of one input port of an instance: its wire, or else its promoted widget. -/
def portValue (s : Scope) (n : Node) (id : Id) (slot : Nat) : Option Input × List Diagnostic :=
  match s.incoming? id slot with
  | some k => s.resolve k (s.path ++ id.text)
  | none => ((promotedWidget n slot).map .literal, [])

/-- The values of an instance's input ports. -/
def bindPorts (s : Scope) (n : Node) (id : Id) (d : Definition) (b : Build) : Bindings × Build :=
  (List.range d.inputs.length).foldl
    (fun (ports, b) slot =>
      let (v, ds) := portValue s n id slot
      (match v with
        | some v => ports ++ [((slot : Int), v)]
        | none => ports,
       b.warn ds))
    ([], b)

def instancePath (path : String) (id : Id) : String := path ++ "sg" ++ id.text ++ "_"

-- ==== ordinary nodes

/-- Puts a wire under an input's name; a later one replaces an earlier one in its place. -/
def putWire (name : String) (v : Input) : List (String × Input) → List (String × Input)
  | [] => [(name, v)]
  | (k, w) :: rest => if k = name then (k, v) :: rest else (k, w) :: putWire name v rest

/-- The resolved connections of a node by input name. -/
def nodeWires (s : Scope) (n : Node) (b : Build) : List (String × Input) × Build :=
  n.inputs.foldl
    (fun (wires, b) i =>
      match i.wire?.bind s.level.link? with
      | none => (wires, b)
      | some k =>
        let (v, ds) := s.resolve k (s.path ++ n.id.text)
        (match v with
          | some v => putWire i.name v wires
          | none => wires,
         b.warn ds))
    ([], b)

/-- An ordinary node becomes an entry. -/
def convertNode (ctx : Context) (s : Scope) (b : Build) (n : Node) : Build :=
  let pid := s.path ++ n.id.text
  let (wires, b) := nodeWires s n b
  let declared := ((Assoc.get? ctx.table n.type).map (·.inputs)).getD []
  let (inputs, ds) := fillInputs pid declared n.widgets wires
  let entry : Entry :=
    { classType := n.type, inputs := some inputs, title := if n.title = "" then none else some n.title }
  { b.warn ds with entries := Assoc.insert b.entries pid entry }

-- ==== output ports

def portType (ports : List Port) (slot : Int) : String :=
  if slot < 0 then "" else ((ports[slot.toNat]?).map (·.type)).getD ""

/-- A link of exactly the port's declared type; a wildcard link does not match. -/
def matchesPort (linkType portType : String) : Bool := portType ≠ "" && linkType = portType

def outputsPath (path : String) (slot : Int) : String := path ++ "outputs[" ++ toString slot ++ "]"

def severalLinks (path : String) (slot : Int) (d : Definition) (kept : Link) : Diagnostic :=
  .warning "CV-003" (outputsPath path slot) ("Output port " ++ toString slot ++ " of subgraph "
    ++ Text.Quoted.encode d.id ++ " has several links; using link " ++ kept.id.text)

def putChosen (slot : Int) (k : Link) : List (Int × Link) → List (Int × Link)
  | [] => [(slot, k)]
  | (t, j) :: rest => if t = slot then (t, k) :: rest else (t, j) :: putChosen slot k rest

/-- The link kept for each output port: the first, unless a later one has the port's type and the
kept one has not. -/
def chooseOutputs (level : Level) (path : String) (d : Definition) :
    List (Int × Link) × List Diagnostic :=
  level.links.foldl
    (fun (chosen, ds) k =>
      match level.target k with
      | .outputPort slot =>
        match chosen.find? (·.1 = slot) with
        | none => (chosen ++ [(slot, k)], ds)
        | some (_, prev) =>
          let want := portType d.outputs slot
          let kept := if !matchesPort prev.type want && matchesPort k.type want then k else prev
          (putChosen slot kept chosen, ds ++ [severalLinks path slot d kept])
      | _ => (chosen, ds))
    ([], [])

/-- The values of a definition's output ports. -/
def outputBindings (s : Scope) (d : Definition) (b : Build) : Bindings × Build :=
  let (chosen, ds) := chooseOutputs s.level s.path d
  chosen.foldl
    (fun (ports, b) (slot, k) =>
      let (v, ds) := s.resolve k (outputsPath s.path slot)
      (match v with
        | some v => ports ++ [(slot, v)]
        | none => ports,
       b.warn ds))
    ([], b.warn ds)

-- ==== levels

def cycleWarning (path : String) (cyclic : List Id) : List Diagnostic :=
  if cyclic.isEmpty then []
  else [.warning "CV-004" path ("Subgraph instances depend on each other in a cycle: "
    ++ ", ".intercalate (cyclic.map fun i => path ++ i.text))]

/-- The definitions left once `d` is being expanded. -/
def without (available : List Definition) (d : Definition) : List Definition :=
  available.filter (·.id ≠ d.id)

theorem length_without_lt {available : List Definition} {d : Definition} (h : d ∈ available) :
    (without available d).length < available.length := by
  unfold without
  refine List.length_filter_lt_length_iff_exists.2 ⟨d, h, ?_⟩
  simp

/-- Converts a level: its instances in order, then its ordinary nodes. For the inside of a definition
the result also holds the values of its output ports. -/
def convertLevel (ctx : Context) (available : List Definition) (depth : Nat) (level : Level)
    (path : String) (ports : Bindings) (inside : Option Definition) (b : Build) : Bindings × Build :=
  let (p, b) := plan ctx available path level.nodes b
  let (order, cyclic) := instanceOrder level (p.sites.map (·.id))
  let b := b.warn (cycleWarning path cyclic)
  let scope : Scope := { level, path, ports, isSite := p.isSite }
  let (scope, b) := order.foldl
    (fun (scope, b) id =>
      match p.sites.find? (·.id = id) with
      | none => (scope, b)
      | some site =>
        let d := site.definition
        let pid := path ++ id.text
        let node := (level.node? id).getD {}
        let (inputs, b) := bindPorts scope node id d b
        let before := b.entries.length
        let (outputs, b) := convertLevel ctx (without available d) (depth + 1) d.level
          (instancePath path id) inputs (some d) b
        let b := { b with instances := Assoc.insert b.instances pid outputs }
        let b := b.emit (.expanded pid d.id d.name (depth + 1) (b.entries.length - before)
          outputs.length)
        ({ scope with expanded := scope.expanded ++ [(id, outputs)] }, b))
    (scope, b)
  let b := p.ordinary.foldl (convertNode ctx scope) b
  match inside with
  | some d => outputBindings scope d b
  | none => ([], b)
termination_by available.length
decreasing_by exact length_without_lt site.mem

end PromptGraph.Flatten

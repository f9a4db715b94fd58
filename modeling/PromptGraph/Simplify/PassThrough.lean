/-
Nodes that only hand their input on: reroutes, and bypassed nodes, which pass each output through from
their first wired input of the same type. They are taken out and their consumers wired to the real
source. Nodes that are primitive values stay; a bypassed one is switched on again.
-/
import PromptGraph.Simplify.Basic

namespace PromptGraph.Simplify

open Editor

/-- Which nodes to take out. -/
structure PassThrough where
  bypassed : Bool
  reroutes : Bool

/-- What becomes of a node. -/
inductive Verdict where
  | stays
  | reenabled
  | reroute
  | bypassed
  deriving DecidableEq

def verdict (r : Registry) (o : PassThrough) (n : Node) : Verdict :=
  if r.inCategory n.type Category.primitiveValue then
    if n.mode = Mode.bypass && o.bypassed then .reenabled else .stays
  else if o.reroutes && r.inCategory n.type Category.reroute then .reroute
  else if o.bypassed && n.mode = Mode.bypass then .bypassed
  else .stays

def Verdict.collapses : Verdict → Bool
  | reroute => true
  | bypassed => true
  | _ => false

/-- The wired, typed inputs of a node with their sources, the first of each type. -/
def typedFeeds (links : List Link) : List NodeInput → List (String × Source)
  | [] => []
  | i :: rest =>
    match if i.type = "" then none else feedOf? links i with
    | some s => (i.type, s) :: (typedFeeds links rest).filter (·.1 ≠ i.type)
    | none => typedFeeds links rest

/-- A node saved without outputs still has one. -/
def outputTypes (n : Node) : List String :=
  if n.outputs.isEmpty then ["*"] else n.outputs.map (·.type)

/-- The source that an output of this type passes on. -/
def feedFor? (feeds : List (String × Source)) (type : String) : Option Source :=
  match feeds.find? (·.1 = type) with
  | some (_, s) => some s
  | none =>
    if type = "*" || type = "" then feeds.head?.map Prod.snd
    else (feeds.find? (·.1 = "*")).map Prod.snd

/-- What feeds each output slot of a node. -/
def feedsOf (links : List Link) (n : Node) : List (Source × Source) :=
  let feeds := typedFeeds links n.inputs
  (outputTypes n).zipIdx.filterMap fun (type, slot) =>
    (feedFor? feeds type).map fun s => (⟨n.id, slot⟩, s)

/-- Traces a source back through collapsed nodes to one that stays; nothing if it reaches an unfed
slot or runs in a circle. Each of at most `fuel` fed slots is passed once. -/
def traceFrom (through : List Id) (feeds : List (Source × Source)) : Nat → Source → Option Source
  | fuel, s =>
    if through.contains s.node then
      match feeds.reverse.find? (·.1 = s), fuel with
      | some (_, next), fuel + 1 => traceFrom through feeds fuel next
      | _, _ => none
    else some s

def trace (through : List Id) (feeds : List (Source × Source)) (s : Source) : Option Source :=
  traceFrom through feeds feeds.length s

/-- A link with its real source; nothing if it ends at a collapsed node or has no real source. -/
def collapseLink? (through : List Id) (feeds : List (Source × Source)) (k : Link) : Option Link :=
  if through.contains k.target then none
  else (trace through feeds (sourceOf k)).map (rewire k)

def reenable (r : Registry) (o : PassThrough) (n : Node) : Node :=
  if verdict r o n = .reenabled then { n with mode := Mode.always } else n

def passThroughStats (verdicts : List Verdict) : Stats :=
  { bypassed := verdicts.count .bypassed, rerouted := verdicts.count .reroute,
    reenabled := verdicts.count .reenabled }

def collapsePassThrough (r : Registry) (o : PassThrough) (w : Wiring) : Wiring × Stats :=
  let stats := passThroughStats (w.nodes.map (verdict r o))
  let through := (w.nodes.filter fun n => (verdict r o n).collapses).map (·.id)
  let nodes := w.nodes.map (reenable r o)
  if through.isEmpty then ({ w with nodes }, stats)
  else
    let feeds := (w.nodes.filter fun n => through.contains n.id).flatMap (feedsOf w.links)
    (⟨dropNodes through nodes, some (w.links.filterMap (collapseLink? through feeds))⟩, stats)

end PromptGraph.Simplify

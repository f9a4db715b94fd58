/-
The passes over a whole workflow. Nodes that pass their input on go before primitives are inlined, so
that a primitive behind a reroute still reaches its consumer.
-/
import PromptGraph.Simplify.PassThrough
import PromptGraph.Simplify.Primitive
import PromptGraph.Simplify.VirtualWire

namespace PromptGraph.Simplify

open Editor

/-- Which passes to run. -/
structure Passes where
  bypassed : Bool := true
  reroutes : Bool := true
  primitives : Bool := true
  virtualWires : Bool := true

-- ==== stale link ids

def pruneInput (valid : Id → Bool) (i : NodeInput) : NodeInput :=
  match i.wire? with
  | some l => if valid l then i else { i with link := none }
  | none => i

def pruneOutput (valid : Id → Bool) (o : NodeOutput) : NodeOutput :=
  if o.links.isEmpty then o else { o with linkList := some (o.links.filter valid) }

/-- Forgets link ids that no longer name a link. -/
def pruneNode (valid : Id → Bool) (n : Node) : Node :=
  { n with inputs := n.inputs.map (pruneInput valid), outputs := n.outputs.map (pruneOutput valid) }

def prune (w : Wiring) : Wiring :=
  let valid := fun id => w.links.any (·.id = id)
  { w with nodes := w.nodes.map (pruneNode valid) }

-- ==== levels

/-- A pass run only if it is wanted. -/
def onlyIf (wanted : Bool) (pass : Wiring → Wiring × Stats) (w : Wiring) : Wiring × Stats :=
  if wanted then pass w else (w, {})

def simplifyLevel (r : Registry) (p : Passes) (w : Wiring) : Wiring × Stats :=
  let (w, s₁) := onlyIf p.virtualWires (resolveVirtualWires r) w
  let (w, s₂) := onlyIf (p.bypassed || p.reroutes)
    (collapsePassThrough r ⟨p.bypassed, p.reroutes⟩) w
  let (w, s₃) := onlyIf p.primitives (inlinePrimitives r) w
  (prune w, s₁.add (s₂.add s₃))

/-- A definition without nodes stays one. -/
def simplifyDefinition (r : Registry) (p : Passes) (d : Definition) : Definition × Stats :=
  let (w, s) := simplifyLevel r p ⟨d.nodes, d.linkList⟩
  ({ d with nodeList := d.nodeList.map fun _ => w.nodes, linkList := w.linkList }, s)

/-- Runs the passes over the root and every definition of a copy. -/
def simplify (r : Registry) (p : Passes) (w : Workflow) : Workflow × Stats :=
  let w := w.clone
  let (root, s) := simplifyLevel r p ⟨w.nodes, w.linkList⟩
  let ds := w.definitions.map (simplifyDefinition r p)
  ({ w with nodes := root.nodes, linkList := root.linkList, definitions := ds.map Prod.fst },
    ds.foldl (fun acc d => acc.add d.2) s)

end PromptGraph.Simplify

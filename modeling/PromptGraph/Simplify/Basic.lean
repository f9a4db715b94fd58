/-
Simplifying a level before conversion: editor-only plumbing is taken out and its consumers are wired
to the real source. Every pass works on the nodes and links of one level.
-/
import PromptGraph.Editor.Workflow
import PromptGraph.NodeClass

namespace PromptGraph.Simplify

open Editor

/-- One output slot of a node. -/
structure Source where
  node : Id
  slot : Int
  deriving DecidableEq

def sourceOf (k : Link) : Source := ⟨k.origin, k.originSlot⟩

/-- The link with another origin. -/
def rewire (k : Link) (s : Source) : Link := { k with origin := s.node, originSlot := s.slot }

/-- What the passes changed, over all levels. -/
structure Stats where
  bypassed : Nat := 0
  rerouted : Nat := 0
  inlined : Nat := 0
  virtualWires : Nat := 0
  reenabled : Nat := 0
  deriving DecidableEq

def Stats.changed (s : Stats) : Bool := s ≠ {}

def Stats.add (s t : Stats) : Stats :=
  ⟨s.bypassed + t.bypassed, s.rerouted + t.rerouted, s.inlined + t.inlined,
    s.virtualWires + t.virtualWires, s.reenabled + t.reenabled⟩

/-- Nodes and links of one level. The links are absent where there are none and no pass has made a
list of those that are left. -/
structure Wiring where
  nodes : List Node
  linkList : Option (List Link)

def Wiring.links (w : Wiring) : List Link := w.linkList.getD []

/-- The last link with this id. -/
def linkById? (links : List Link) (id : Id) : Option Link := links.reverse.find? (·.id = id)

/-- The source wired to an input slot. -/
def feedOf? (links : List Link) (i : NodeInput) : Option Source :=
  (i.wire?.bind (linkById? links)).map sourceOf

def dropNodes (ids : List Id) (nodes : List Node) : List Node :=
  nodes.filter fun n => !ids.contains n.id

/-- The first widget value; named values are tried under the usual names first. Without those it is
the value whose name comes first, where any of them might be taken: names have no order in the
editor. A node with one widget has only one. -/
def firstWidget (w : Widgets) : Json :=
  match w with
  | .positional (v :: _) => v
  | .positional [] => .string ""
  | .keyed t =>
    match ["value", "text", "string", "Constant"].findSome? (Assoc.get? t) with
    | some v => v
    | none =>
      match t with
      | (_, v) :: _ => v
      | [] => .string ""

end PromptGraph.Simplify

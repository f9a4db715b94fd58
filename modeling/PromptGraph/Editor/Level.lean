/-
A level is one layer of an editor graph: the root of a workflow, or the inside of a definition, where
two reserved ids stand for the definition's own ports.
-/
import PromptGraph.Editor.Node

namespace PromptGraph.Editor

/-- The ids that stand for a definition's input ports and output ports inside its links. -/
structure Sentinels where
  input : Id
  output : Id
  deriving DecidableEq

structure Level where
  nodes : List Node
  links : List Link
  sentinels : Option Sentinels := none

/-- One end of a link. -/
inductive Endpoint where
  | node (id : Id) (slot : Int)
  | inputPort (slot : Int)
  | outputPort (slot : Int)
  deriving DecidableEq

namespace Level

/-- The last node with this id. -/
def node? (l : Level) (id : Id) : Option Node := l.nodes.reverse.find? (·.id = id)

/-- The last link with this id. -/
def link? (l : Level) (id : Id) : Option Link := l.links.reverse.find? (·.id = id)

def isInside (l : Level) : Bool := l.sentinels.isSome

/-- Where a link starts. -/
def origin (l : Level) (k : Link) : Endpoint :=
  match l.sentinels with
  | some s => if k.origin = s.input then .inputPort k.originSlot else .node k.origin k.originSlot
  | none => .node k.origin k.originSlot

/-- Where a link ends. -/
def target (l : Level) (k : Link) : Endpoint :=
  match l.sentinels with
  | some s => if k.target = s.output then .outputPort k.targetSlot else .node k.target k.targetSlot
  | none => .node k.target k.targetSlot

end Level

end PromptGraph.Editor

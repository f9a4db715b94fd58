/-
Virtual wires: a set node publishes what feeds it under a name, and get nodes of that name read it.
Both kinds are taken out and their consumers wired directly.
-/
import PromptGraph.Json.Display
import PromptGraph.Simplify.Basic

namespace PromptGraph.Simplify

open Editor

/-- The name that a set or get node carries in its first widget. -/
def wireName (w : Widgets) : String :=
  match firstWidget w with
  | .null => ""
  | .string s => s
  | v => v.display id

/-- The set and get nodes of a level and what the set nodes publish. -/
structure VirtualWires where
  /-- Set nodes with what feeds them. -/
  setters : List (Id × Option Source)
  /-- Get nodes with the name they read. -/
  getters : List (Id × String)
  /-- Published sources by name, the first of a name counts. -/
  published : List (String × Source)

def isSetter (r : Registry) (n : Node) : Bool := r.inCategory n.type Category.virtualSet

def isGetter (r : Registry) (n : Node) : Bool := r.inCategory n.type Category.virtualGet

/-- What feeds the first wired input of a set node. -/
def setterFeed? (links : List Link) (n : Node) : Option Source := n.inputs.findSome? (feedOf? links)

def virtualWires (r : Registry) (w : Wiring) : VirtualWires :=
  let setterIds := (w.nodes.filter (isSetter r)).map (·.id)
  let setters := w.nodes.filter fun n => setterIds.contains n.id
  { setters := setters.map fun n => (n.id, setterFeed? w.links n)
    getters := (w.nodes.filter (isGetter r)).map fun n => (n.id, wireName n.widgets)
    published := setters.filterMap fun n =>
      let name := wireName n.widgets
      if name = "" then none else (setterFeed? w.links n).map (name, ·) }

namespace VirtualWires

def isSet (v : VirtualWires) (id : Id) : Bool := v.setters.any (·.1 = id)

/-- The name a get node reads; of equal ids the last node counts. -/
def reads? (v : VirtualWires) (id : Id) : Option String :=
  (v.getters.reverse.find? (·.1 = id)).map Prod.snd

def isVirtual (v : VirtualWires) (id : Id) : Bool := v.isSet id || (v.reads? id).isSome

def publisher? (v : VirtualWires) (name : String) : Option Source :=
  (v.published.find? (·.1 = name)).map Prod.snd

/-- What feeds a set node; of equal ids the last that is fed counts. -/
def feeds? (v : VirtualWires) (id : Id) : Option Source :=
  v.setters.reverse.findSome? fun (i, s) => if i = id then s else none

/-- A link without virtual nodes at its ends, and whether it came from a get node; nothing if it is
dropped. -/
def direct? (v : VirtualWires) (k : Link) : Option (Link × Bool) :=
  if v.isVirtual k.target then none
  else
    match v.reads? k.origin with
    | some name => (v.publisher? name).map fun s => (rewire k s, true)
    | none =>
      if v.isSet k.origin then (v.feeds? k.origin).map fun s => (rewire k s, false)
      else some (k, false)

end VirtualWires

def resolveVirtualWires (r : Registry) (w : Wiring) : Wiring × Stats :=
  let v := virtualWires r w
  if v.setters.isEmpty && v.getters.isEmpty then (w, {})
  else
    let kept := w.links.filterMap v.direct?
    (⟨w.nodes.filter fun n => !v.isVirtual n.id, some (kept.map Prod.fst)⟩,
      { virtualWires := (kept.filter (·.2)).length })

end PromptGraph.Simplify

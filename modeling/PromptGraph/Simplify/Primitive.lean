/-
Primitive nodes that exist only in the editor: their value is written into the widget values of every
node they feed, and they and their links are taken out.
-/
import PromptGraph.Simplify.Basic

namespace PromptGraph.Simplify

open Editor

/-- The values of a level's primitives by node. -/
def primitiveValues (r : Registry) (nodes : List Node) : List (Id × Json) :=
  (nodes.filter fun n => r.inCategory n.type Category.inlinePrimitive).map fun n =>
    (n.id, firstWidget n.widgets)

/-- The value of a primitive; of equal ids the last counts. -/
def valueOf? (values : List (Id × Json)) (id : Id) : Option Json :=
  (values.reverse.find? (·.1 = id)).map Prod.snd

/-- Clears the first slot wired by `link`, and gives its name. -/
def unplug (link : Id) : List NodeInput → List NodeInput × Option String
  | [] => ([], none)
  | i :: rest =>
    if i.wire? = some link then ({ i with link := none } :: rest, some i.name)
    else
      let (rest, name) := unplug link rest
      (i :: rest, name)

/-- Stores a value as the widget value of the input wired by `link` and unplugs that input; tells
whether the value found its place. -/
def writeWidget (n : Node) (link : Id) (v : Json) : Node × Bool :=
  match unplug link n.inputs with
  | (_, none) => (n, false)
  | (inputs, some name) =>
    let n := { n with inputs }
    match n.widgets with
    | .keyed _ => ({ n with widgets := n.widgets.set name v }, true)
    | .positional vs =>
      match n.widgetIndex? name with
      | some idx =>
        if idx < vs.length then ({ n with widgets := n.widgets.setAt idx v }, true) else (n, false)
      | none => (n, false)

/-- Changes the last node with an id. -/
def writeLast (id : Id) (f : Node → Node × Bool) : List Node → List Node × Bool
  | [] => ([], false)
  | n :: rest =>
    if n.id = id && !rest.any (·.id = id) then
      let (n, done) := f n
      (n :: rest, done)
    else
      let (rest, done) := writeLast id f rest
      (n :: rest, done)

/-- Writes the values that primitives send over their links, one link after the other, and counts
those that found their place. -/
def writeValues (values : List (Id × Json)) (nodes : List Node) (links : List Link) :
    List Node × Nat :=
  links.foldl
    (fun (nodes, count) k =>
      match valueOf? values k.origin with
      | none => (nodes, count)
      | some v =>
        let (nodes, done) := writeLast k.target (fun n => writeWidget n k.id v) nodes
        (nodes, if done then count + 1 else count))
    (nodes, 0)

def inlinePrimitives (r : Registry) (w : Wiring) : Wiring × Stats :=
  let values := primitiveValues r w.nodes
  if values.isEmpty then (w, {})
  else
    let (nodes, inlined) := writeValues values w.nodes w.links
    (⟨dropNodes (values.map Prod.fst) nodes,
      some (w.links.filter fun k => (valueOf? values k.origin).isNone)⟩, { inlined })

end PromptGraph.Simplify

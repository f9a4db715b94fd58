/-
The order in which a level's instances are inlined: an instance comes after every instance it is
wired from. Instances that no such order can hold, because they lie on a cycle or behind one, come
last.
-/
import PromptGraph.Editor.Level

namespace PromptGraph.Flatten

open Editor

/-- Wires from one member of `ids` to another, in link order. -/
def wiresAmong (level : Level) (ids : List Id) : List (Id × Id) :=
  level.links.filterMap fun k =>
    match level.origin k, level.target k with
    | .node a _, .node b _ => if ids.contains a && ids.contains b && a ≠ b then some (a, b) else none
    | _, _ => none

def sortIds (ids : List Id) : List Id := ids.mergeSort fun a b => !Id.less b a

/-- The members that `a` is wired to, each once, in id order. -/
def consumers (wires : List (Id × Id)) (a : Id) : List Id :=
  sortIds ((wires.filterMap fun (x, y) => if x = a then some y else none).eraseDups)

/-- The members that `b` is wired from, each once. -/
def feeders (wires : List (Id × Id)) (b : Id) : List Id :=
  (wires.filterMap fun (x, y) => if y = b then some x else none).eraseDups

/-- How many members each member still waits for, and the members that wait for none, in the order in
which they came to that. -/
structure Countdown where
  waits : List (Id × Nat)
  queue : List Id

namespace Countdown

def waitsOf (c : Countdown) (b : Id) : Nat := ((c.waits.find? (·.1 = b)).map Prod.snd).getD 0

/-- One of those that `b` waits for is placed. With the last one `b` joins the queue. -/
def meet (c : Countdown) (b : Id) : Countdown :=
  let left := c.waitsOf b - 1
  { waits := c.waits.map fun (i, n) => (i, if i = b then left else n)
    queue := if left = 0 then c.queue ++ [b] else c.queue }

/-- Places the head of the queue, for which its consumers wait no longer. Each of at most `fuel`
members is placed once. -/
def run (wires : List (Id × Id)) : Nat → Countdown → List Id → List Id
  | 0, _, placed => placed
  | fuel + 1, c, placed =>
    match c.queue with
    | [] => placed
    | a :: queue => run wires fuel ((consumers wires a).foldl meet { c with queue }) (placed ++ [a])

end Countdown

/-- Nothing is placed, and the members that are wired from no other are queued. -/
def countdown (wires : List (Id × Id)) (ids : List Id) : Countdown :=
  { waits := ids.map fun b => (b, (feeders wires b).length)
    queue := ids.filter fun b => (feeders wires b).length = 0 }

/-- An order of `ids`, which are in id order, and those of them caught in a cycle. -/
def instanceOrder (level : Level) (ids : List Id) : List Id × List Id :=
  let wires := wiresAmong level ids
  let placed := (countdown wires ids).run wires ids.length []
  let cyclic := ids.filter fun a => !placed.contains a
  (placed ++ cyclic, cyclic)

end PromptGraph.Flatten

/-
Filling a node's inputs from its wires and its widget values. Positional values are consumed one by
one in the order of the declared inputs; named ones are looked up.
-/
import PromptGraph.Diagnostic
import PromptGraph.Editor.Node
import PromptGraph.Execution.Graph
import PromptGraph.Json.Display
import PromptGraph.NodeType.Table

namespace PromptGraph.Flatten

open Editor
open Execution (Input)

/-- A value that is there and not null. -/
def nonNull? : Option Json → Option Json
  | some .null => none
  | v => v

/-- Widget values and how many positional ones are used up. -/
structure Cursor where
  values : Widgets
  pos : Nat := 0

namespace Cursor

/-- The next value, or the one of this name. A null counts as absent but uses up its position. -/
def take (c : Cursor) (name : String) : Option Json × Cursor :=
  match c.values with
  | .keyed t => (nonNull? (Assoc.get? t name), c)
  | .positional vs =>
    match vs[c.pos]? with
    | some v => (nonNull? (some v), { c with pos := c.pos + 1 })
    | none => (none, c)

/-- Passes over one positional value. -/
def skip (c : Cursor) : Cursor :=
  match c.values with
  | .keyed _ => c
  | .positional vs => if c.pos < vs.length then { c with pos := c.pos + 1 } else c

def controlWords : List String := ["fixed", "randomize", "increment", "decrement", "random"]

/-- The next positional value is one the editor puts after a number it may change by itself. -/
def atControlWord (c : Cursor) : Bool :=
  match c.values.at? c.pos with
  | some (.string s) => controlWords.contains (Text.lower s)
  | _ => false

/-- A sub-input of a dynamic choice: under its full name or its own name when values are named. -/
def takeSub (c : Cursor) (full own : String) : Option Json × Cursor :=
  match c.values with
  | .keyed _ =>
    match c.take full with
    | (some v, c') => (some v, c')
    | (none, _) => c.take own
  | .positional _ => c.take own

end Cursor

/-- Widget names that are no inputs. -/
def pseudoInputs : List String := ["control_after_generate", "control_before_generate"]

/-- What is known of a node's inputs so far. -/
structure Filling where
  inputs : Assoc Input := []
  cursor : Cursor
  warnings : List Diagnostic := []

namespace Filling

def put (f : Filling) (name : String) (v : Input) : Filling :=
  { f with inputs := Assoc.insert f.inputs name v }

/-- Takes the value of an extra input that follows a selected value. -/
def takeExtra (f : Filling) (name : String) : Filling :=
  match f.cursor.take name with
  | (some v, c) => { f with cursor := c }.put name (.literal v)
  | (none, c) => { f with cursor := c }

/-- Takes the value of a dynamic choice's sub-input. -/
def takeSub (f : Filling) (owner own : String) : Filling :=
  let full := owner ++ "." ++ own
  match f.cursor.takeSub full own with
  | (some v, c) => { f with cursor := c }.put full (.literal v)
  | (none, c) => { f with cursor := c }

/-- Passes over the companion control value after an input's own value. -/
def passControl (f : Filling) (node : String) (i : InputType) : Filling :=
  if f.cursor.values.isKeyed then f
  else if i.control then { f with cursor := f.cursor.skip }
  else if i.kind = .int && f.cursor.atControlWord then
    { f with
      cursor := f.cursor.skip
      warnings := f.warnings ++ [.warning "CV-002" (node ++ ".inputs." ++ i.name)
        ("Skipped undeclared control widget after " ++ Text.Quoted.encode i.name ++ " on node "
          ++ Text.Quoted.encode node)] }
  else f

/-- Puts an input's value: a wire before a literal, and nothing for a name that is no input. -/
def putValue (f : Filling) (wires : List (String × Input)) (i : InputType) (v : Option Json) :
    Filling :=
  if pseudoInputs.contains i.name then f
  else
    match (wires.find? (·.1 = i.name)), v with
    | some (_, w), _ => f.put i.name w
    | none, some v => f.put i.name (.literal v)
    | none, none => f

/-- The extra inputs and sub-inputs that an input's value selects. -/
def takeSelected (f : Filling) (i : InputType) (v : Json) : Filling :=
  let f := ((Assoc.get? i.formats v.key).getD []).foldl takeExtra f
  if i.kind = .dynamicCombo then
    ((i.subInputs? v.key).getD []).foldl (fun f s => f.takeSub i.name s.name) f
  else f

/-- One declared input. -/
def step (node : String) (wires : List (String × Input)) (f : Filling) (i : InputType) : Filling :=
  if i.kind.wireOnly then
    match wires.find? (·.1 = i.name) with
    | some (_, w) => f.put i.name w
    | none => f
  else
    let (v, c) := f.cursor.take i.name
    let f := ({ f with cursor := c }.passControl node i).putValue wires i v
    match v with
    | some v => f.takeSelected i v
    | none => f

/-- A wire to an input that the type does not declare is kept. -/
def keepWire (f : Filling) (w : String × Input) : Filling :=
  if Assoc.contains f.inputs w.1 then f else f.put w.1 w.2

end Filling

/-- The inputs of a node of a given type, and what there is to say about its widget values. `wires`
holds the resolved connections by input name, each name once. -/
def fillInputs (node : String) (declared : List InputType) (values : Widgets)
    (wires : List (String × Input)) : Assoc Input × List Diagnostic :=
  let f := declared.foldl (Filling.step node wires) { cursor := { values } }
  let f := wires.foldl Filling.keepWire f
  (f.inputs, f.warnings)

end PromptGraph.Flatten

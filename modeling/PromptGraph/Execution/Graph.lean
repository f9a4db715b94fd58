/-
Execution graphs: the flat program a server runs. Every entry has an id of its own, and each input is
a literal or a reference to an output slot of another entry.
-/
import PromptGraph.Json.Printer
import PromptGraph.Number.Integer

namespace PromptGraph.Execution

/-- Output `slot` of entry `node`. -/
structure Ref where
  node : String
  slot : Int
  deriving DecidableEq, Inhabited

inductive Input where
  | ref (r : Ref)
  | literal (v : Json)
  deriving Inhabited

/-- One operation. `inputs` is absent when the document has none; `title` is absent when the entry
carries no editor information at all. -/
structure Entry where
  classType : String := ""
  inputs : Option (Assoc Input) := none
  title : Option String := none
  deriving Inhabited

def Entry.inputTable (e : Entry) : Assoc Input := e.inputs.getD []

def Entry.input? (e : Entry) (name : String) : Option Input := Assoc.get? e.inputTable name

abbrev Graph := Assoc Entry

-- ==== references

/-- A pair of a string and a whole number, with a reader for the number. -/
def Ref.ofPair? (slot? : String → Option Int) : Json → Option Ref
  | .array [.string node, .number t] => (slot? t).map (Ref.mk node)
  | _ => none

/-- The reference that an input is, or is written like. -/
def Input.asRef? : Input → Option Ref
  | ref r => some r
  | literal v => Ref.ofPair? Number.int64? v

/-- A value as an input: a written reference becomes one. -/
def Input.ofJson (v : Json) : Input :=
  match Ref.ofPair? Number.int64? v with
  | some r => ref r
  | none => literal v

def Ref.toJson (r : Ref) : Json := .array [.string r.node, .int r.slot]

def Ref.render (r : Ref) : String :=
  "[" ++ Text.Quoted.encode r.node ++ ", " ++ toString r.slot ++ "]"

-- ==== order

/-- A number of 64 bits with one more digit behind it. -/
def pushDigit (n : UInt64) (c : Char) : UInt64 := n * 10 + (Number.digit c).toUInt64

/-- The value of an id of one to nineteen digits, in 64 bits. -/
def idNumber? (id : String) : Option UInt64 :=
  let cs := id.toList
  if cs.isEmpty || 19 < cs.length || !cs.all Number.isDigit then none
  else some (cs.foldl pushDigit 0)

/-- Ids that are numbers in numeric order, equal numbers by their text, then all other ids by their
text. -/
def lessId (a b : String) : Bool :=
  match idNumber? a, idNumber? b with
  | some m, some n => if m = n then a < b else m < n
  | some _, none => true
  | none, some _ => false
  | none, none => a < b

def sortIds (ids : List String) : List String := ids.mergeSort fun a b => !lessId b a

def Graph.ids (g : Graph) : List String := sortIds (Assoc.keys g)

/-- The entries in the order of their ids. -/
def Graph.ordered (g : Graph) : List (String × Entry) :=
  g.ids.filterMap fun id => (Assoc.get? g id).map (id, ·)

-- ==== printing

def Input.toJson : Input → Json
  | ref r => r.toJson
  | literal v => v

def titleFields (title : String) : List (String × Json) :=
  if title = "" then [] else [("title", .string title)]

def Entry.toJson (e : Entry) : Json :=
  .object <|
    [("class_type", .string e.classType),
     ("inputs", match e.inputs with
      | some t => .object (Assoc.mapValues Input.toJson t)
      | none => .null)]
    ++ match e.title with
      | some t => [("_meta", .object (titleFields t))]
      | none => []

def Graph.toJson (g : Graph) : Json := .object (Assoc.mapValues Entry.toJson g)

def Graph.write (g : Graph) : String := g.toJson.write

def Graph.pretty (g : Graph) : String := g.toJson.pretty

/-- A copy of an entry always has a table of inputs. -/
def Entry.copy (e : Entry) : Entry := { e with inputs := some e.inputTable }

def Graph.copy (g : Graph) : Graph := Assoc.mapValues Entry.copy g

end PromptGraph.Execution

/-
Conversion: an editor graph becomes an execution graph. A text that already is an execution graph is
passed through.
-/
import PromptGraph.Editor.Reader
import PromptGraph.Execution.Reader
import PromptGraph.Flatten.Patch

namespace PromptGraph.Flatten

open Editor
open Execution (Graph)
open Json (Source Decode)

structure Result where
  graph : Graph
  diagnostics : List Diagnostic := []
  /-- The input already was an execution graph. -/
  passThrough : Bool := false
  events : List Event := []

-- ==== workflows

def skippedLink (i : Nat) : Diagnostic :=
  .warning "CV-007" ("links[" ++ toString i ++ "]")
    ("Link entry " ++ toString i ++ " is malformed and was skipped")

def skippedLinkOf (d : Definition) (i : Nat) : Diagnostic :=
  .warning "CV-007" (d.id ++ ".links[" ++ toString i ++ "]")
    ("Link entry " ++ toString i ++ " of subgraph " ++ Text.Quoted.encode d.id
      ++ " is malformed and was skipped")

def skippedLinks (w : Workflow) : List Diagnostic :=
  w.skipped.map skippedLink ++ w.definitions.flatMap fun d => d.skipped.map (skippedLinkOf d)

/-- Puts a definition in the place of an earlier one with its id. -/
def putDefinition (ds : List Definition) (d : Definition) : List Definition :=
  match ds with
  | [] => [d]
  | e :: rest => if e.id = d.id then d :: rest else e :: putDefinition rest d

/-- The definitions with different ids; of equal ones the last. -/
def distinctDefinitions (ds : List Definition) : List Definition := ds.foldl putDefinition []

/-- Converts a workflow against a table of node types. What cannot be converted is left out and
reported. -/
def convertWorkflow (registry : Registry) (table : NodeTable) (source : String) (w : Workflow) :
    Result :=
  let definitions := distinctDefinitions w.definitions
  let ctx : Context := { registry, table, definitions }
  let b : Build := ({} : Build).emit (.started w.nodes.length definitions.length source)
  let b := b.warn (skippedLinks w)
  let (_, b) := convertLevel ctx definitions 0 w.root "" [] none b
  let b := sweepDangling (patchReferences b)
  let b := b.emit (.finished b.entries.length b.instances.length b.diagnostics.length)
  { graph := b.entries, diagnostics := b.diagnostics, events := b.events }

-- ==== texts

/-- Why a text cannot be converted. -/
inductive ConvertError where
  | notObject
  | neitherGraph
  | executionGraph (cause : Execution.GraphError)
  | workflow (cause : StructureError)
  | noTable
  | provider (message : String)

def ConvertError.message : ConvertError → String
  | notObject => structurePreamble ++ "expected a JSON object"
  | neitherGraph => structurePreamble ++ "missing \"nodes\" and not an execution graph"
  | executionGraph c => structurePreamble ++ c.message
  | workflow c => c.message
  | noTable => "no object-info table available"
  | provider m => "fetch object info: " ++ m

/-- The class of an entry, absent when it is missing or null. -/
def classOf? (v : Source) : Option String :=
  let read : Decode Empty (Option String) :=
    Decode.record .lenient ["class_type"] (fun old _ x => Decode.optional "" Decode.text old x) none v
  match read.run with
  | .ok c => c
  | .error _ => none

/-- An object that names its class. -/
def isEntryShaped (v : Source) : Bool :=
  match v with
  | .object .. => (classOf? v).isSome
  | _ => false

/-- Every value is an object that names its class. -/
def isExecutionShaped (fields : List (String × Source)) : Bool :=
  (Source.lastOfEach fields).all fun (_, v) => isEntryShaped v

/-- Where the node types come from: nowhere, a table, or a provider that may fail or have none. -/
inductive TableSource where
  | missing
  | table (t : NodeTable)
  | failing (message : String)

def TableSource.get : TableSource → Except ConvertError NodeTable
  | missing => .error .noTable
  | table t => .ok t
  | failing m => .error (.provider m)

/-- The top-level fields of a text that is a JSON object. -/
def objectFields? (text : String) : Option (List (String × Source)) :=
  (Source.read? .lenient text).bind Source.fields?

/-- Converts a text. The table is asked for only when there is an editor graph to convert. -/
def convert (registry : Registry) (types : TableSource) (source text : String) :
    Except ConvertError Result :=
  match objectFields? text with
  | none => .error .notObject
  | some fields =>
    if fields.any (·.1 = "nodes") then
      match Workflow.parse text with
      | .error e => .error (.workflow e)
      | .ok w =>
        match types.get with
        | .error e => .error e
        | .ok t => .ok (convertWorkflow registry t source w)
    else if isExecutionShaped fields then
      match Execution.Graph.parse text with
      | .ok g => .ok { graph := g, passThrough := true }
      | .error e => .error (.executionGraph e)
    else .error .neitherGraph

end PromptGraph.Flatten

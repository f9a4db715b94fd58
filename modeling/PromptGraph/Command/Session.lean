/-
What the commands share: settings, the client and the table of its server, and the way from the name
of a workflow to an execution graph.
-/
import PromptGraph.Command.World
import PromptGraph.Flatten.Convert
import PromptGraph.Library.Listing
import PromptGraph.Server.Schema
import PromptGraph.Settings.Basic
import PromptGraph.Simplify.Apply

namespace PromptGraph.Command

structure Session where
  settings : Settings
  registry : Registry
  /-- Only errors are told. -/
  quiet : Bool := false
  clientId : String := ""

namespace Session

def client (s : Session) : Except Failure Server.Client :=
  (Server.Client.make s.settings.host s.settings.token s.clientId).mapError
    fun e => ⟨.input, e.message⟩

variable {m : Type → Type} [World m]

-- ==== table

/-- The store for tables, when there is one. One that cannot be used is done without. -/
def openStore (s : Session) : m (Option Store) := do
  let path := s.settings.cachePath
  let unavailable (reason : String) : m (Option Store) := do
    Console.log ⟨.warn, "schema cache unavailable", [("path", path), ("error", reason)]⟩
    return none
  if s.settings.cacheDisabled || path = "" then return none
  match ← Files.makeDirectories (Path.dir path) with
  | .error e => unavailable e.message
  | .ok () =>
    if ← Clock.cancelled then
      return some (.failing ("sqlitestore: get: " ++ Interruption.cancelled.message))
    match ← Shelf.load path with
    | .error reason => unavailable reason
    | .ok store => return some store

def keepStore (s : Session) : Option Store → m Unit
  | some (.working records) => Shelf.save s.settings.cachePath (.working records)
  | _ => pure ()

def tableFailure (e : Server.Client.TableFailure) : Failure :=
  let expired := match e with
    | .server _ cause => cause.isExpired
    | _ => false
  ⟨if expired then .timeout else .server,
    "fetching object info: " ++ e.message Server.Error.message⟩

/-- The table of the server, from the cache unless `anew`. -/
def serverTable (s : Session) (anew : Bool) : Action m NodeTable := do
  let client ← s.client
  let store ← (s.openStore : m _)
  let cache := client.cache store s.settings.cacheLifetime
  let (cache, result) ← (if anew then client.refreshTable none cache else client.fetchTable none cache : m _)
  ExceptT.lift (s.keepStore cache.store)
  match result with
  | .ok t => return t
  | .error e => throw (tableFailure e)

/-- A table from a file. -/
def fileTable (path : String) : Action m NodeTable := do
  match ← (Files.readText path : m _) with
  | .error e =>
    if e.cause = .missing then fail .fileNotFound ("schema file not found: " ++ path)
    else fail .fileNotFound ("reading schema file: " ++ e.message)
  | .ok text =>
    match NodeType.parseTable text with
    | .ok t => return t
    | .error e => fail .input ("parsing schema file: " ++ e.message)

-- ==== workflows

/-- The path of a workflow, its text as JSON and its kind. -/
def resolve (s : Session) (name : String) : Action m (String × String × Library.Format) := do
  let path ← match ← (Library.find name s.settings.workflowDirs : m _) with
    | .ok path => pure path
    | .error (.missing _) => fail .fileNotFound ("workflow not found: " ++ name)
    | .error (.list cause) => fail .fileNotFound ("searching workflows: " ++ cause.message)
    | .error e => fail .input e.message
  match ← (Library.read path : m _) with
  | .ok (text, format) => return (path, text, format)
  | .error (.missing _) => fail .fileNotFound ("file not found: " ++ path)
  | .error e =>
    match e with
    | .format _ .unknown => fail .wrongFormat e.message
    | _ => fail .input e.message

/-- What the log tells of an event. -/
def eventLine? : Flatten.Event → Option Log.Line
  | .started .. => none
  | .dropped node type reason =>
    some ⟨.debug, "node dropped", [("node", node), ("type", type), ("reason", reason.name)]⟩
  | .expanded node definition name depth _ _ =>
    some ⟨.debug, "subgraph instance expanded",
      [("instance", node), ("definition", definition), ("name", name), ("depth", toString depth)]⟩
  | .finished entries instances diagnostics =>
    some ⟨.debug, "conversion finished",
      [("entries", toString entries), ("instances", toString instances),
        ("diagnostics", toString diagnostics)]⟩

/-- How a workflow is compiled. -/
structure CompileOptions where
  /-- Read the table from here; empty for the server. -/
  schemaFile : String := ""
  /-- Leave bypassed, rerouted and virtual nodes as they are. -/
  asIs : Bool := false

/-- A workflow that has been compiled. -/
structure Compiled where
  path : String
  result : Flatten.Result
  /-- The table it was converted against; none for a graph that was passed through. -/
  table : Option NodeTable := none

def simplified (s : Session) (path : String) (asIs : Bool) (w : Editor.Workflow) :
    Action m Editor.Workflow := do
  if asIs then return w
  let (w, stats) := Simplify.simplify s.registry {} w
  if stats.changed then
    log ⟨.debug, "workflow preprocessed",
      [("path", path), ("bypassed", toString stats.bypassed), ("rerouted", toString stats.rerouted),
        ("inlined", toString stats.inlined), ("virtual_wires", toString stats.virtualWires)]⟩
  return w

/-- Finds, reads, simplifies and converts a workflow. An execution graph is passed through. -/
def compile (s : Session) (name : String) (o : CompileOptions) : Action m Compiled := do
  let (path, text, format) ← s.resolve name
  match format with
  | .execution =>
    match Flatten.convert s.registry .missing (Path.base path) text with
    | .error e => fail .input (path ++ ": " ++ e.message)
    | .ok result =>
      log ⟨.debug, "workflow is already in execution format", [("path", path)]⟩
      return { path, result }
  | .editor =>
    match Editor.Workflow.parse text with
    | .error e => fail .input (path ++ ": " ++ e.message)
    | .ok w =>
      let w ← s.simplified path o.asIs w
      let table ← if o.schemaFile = "" then s.serverTable false else fileTable o.schemaFile
      let result := Flatten.convertWorkflow s.registry table (Path.base path) w
      (result.events.filterMap eventLine?).forM log
      return { path, result, table := some table }

end Session

end PromptGraph.Command

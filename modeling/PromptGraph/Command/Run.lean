/-
The command that runs a workflow: it converts it, changes the graph as asked, submits it, waits, and
saves what came of it.
-/
import PromptGraph.Command.Convert
import PromptGraph.Execution.Edit
import PromptGraph.Execution.Validation
import PromptGraph.Server.Job
import PromptGraph.Server.Upload
import PromptGraph.Server.Wait

namespace PromptGraph.Command.Run

open Execution (Graph Overrides)
open Json (Source Decode)

def flags : List Flag := compileFlags ++ [
  textFlag "prompt" "Replace the text of every text-encoder node",
  textFlag "override" "Input overrides as JSON: \x7b\"<node id>\": \x7b\"<input>\": value\x7d\x7d",
  textFlag "image" "Upload this image and feed it to the first image loader",
  textFlag "prompt-id" "Prompt id to submit under, for idempotent resubmission (default: random)",
  textFlag "output-dir" "Directory for downloaded outputs (default: output_dir from config)",
  { name := "timeout", initial := .duration ⟨10 * Duration.minute⟩, help := "Execution timeout" },
  toggle "dry-run" "Convert and prepare only, print the prompt instead of submitting"]

structure Options where
  workflow : String
  compile : Session.CompileOptions := {}
  /-- The text for every text encoder; empty to leave them alone. -/
  prompt : String := ""
  overrides : Overrides := []
  /-- An image for the first image loader; empty for none. -/
  image : String := ""
  promptId : String := ""
  outputDir : String := ""
  timeout : Duration := ⟨0⟩
  dryRun : Bool := false

-- ==== options

def readUpdates : Option (Assoc Json) → Source → Decode Empty (Option (Assoc Json)) :=
  Decode.table .null fun _ => Decode.any

/-- Overrides written as JSON: an object of objects. -/
def readOverrides? (text : String) : Option Overrides :=
  (Decode.ofText? (Decode.table none readUpdates none) text).map fun table =>
    (table.getD []).mapValues (·.getD [])

variable {m : Type → Type} [World m]

def options (s : Session) (i : Invocation) (workflow : String) : Action m Options := do
  let override := i.textOf "override"
  let overrides ←
    if Text.trim override = "" then pure []
    else
      match readOverrides? override with
      | some o => pure o
      | none => fail .input ("parsing --override JSON: " ++ Text.complaint)
  let image := i.textOf "image"
  if image ≠ "" then
    if let .error _ ← (Files.isDirectory image : m _) then
      fail .fileNotFound ("image not found: " ++ image)
  let outputDir := i.textOf "output-dir"
  return {
    workflow, compile := compileOptions i, prompt := i.textOf "prompt", overrides, image,
    promptId := i.textOf "prompt-id",
    outputDir := if outputDir = "" then s.settings.outputDir else outputDir,
    timeout := i.durationOf "timeout", dryRun := i.isOn "dry-run" }

-- ==== editing

/-- The graph with a text in every text encoder, and the entries that changed. -/
def withPrompt (r : Registry) (prompt : String) (g : Graph) : Graph × List String :=
  if prompt = "" then (g, []) else g.setText prompt (r.typesIn Category.textEncoder)

/-- The graph with new values for inputs. All entries named have to be there. -/
def withOverrides (o : Overrides) (g : Graph) : Except (List String) Graph :=
  if o.isEmpty then .ok g
  else
    match g.applyOverrides o with
    | (g, []) => .ok g
    | (_, missing) => .error missing

/-- The first image loader. -/
def imageLoader? (r : Registry) (g : Graph) : Option String :=
  (g.findByType (r.typesIn Category.imageLoader)).head?

/-- The graph with an image in one of its loaders. -/
def withImage (loader reference : String) (g : Graph) : Graph :=
  match Assoc.get? g loader with
  | some e => Assoc.insert g loader (e.setInput "image" (.literal (.string reference)))
  | none => g

/-- The date and time of an instant in nanoseconds, in UTC. The zone of the machine, in which a
date of today is meant, is not known here; the two agree where the machine's clock is set to UTC. -/
def dateOf (now : Int) : DateTime := .ofUnix (Int.fdiv now Duration.second)

-- ==== errors

/-- How a run fails when the server does. -/
def failureOf (timeout : Duration) (expired : Bool) (e : Server.Error) : Failure :=
  if expired || e.isExpired then ⟨.timeout, "execution timed out after " ++ timeout.text⟩
  else
    match e with
    | .failed failure => ⟨.runtime, "execution failed: " ++ failure.text⟩
    | .stopped => ⟨.runtime, "execution was interrupted"⟩
    | _ =>
      match e.fault? with
      | some fault => ⟨.server, "server rejected the request: " ++ fault.text⟩
      | none => ⟨.server, e.message⟩

/-- Fails for a reason that the server gave, or because the time is over. -/
def giveUp (deadline : Deadline) (timeout : Duration) (e : Server.Error) : Action m α := do
  let interruption ← (Clock.interruption deadline : m _)
  throw (failureOf timeout (interruption = some .expired) e)

/-- What is wrong with the nodes of a rejected graph, a line for each complaint. -/
def nodeComplaints (fault : Server.Fault) : List String :=
  let nodes := fault.nodes.getD []
  (Execution.sortIds nodes.keys).flatMap fun id =>
    match nodes.get? id with
    | none => []
    | some n => (n.complaints.getD []).map fun c =>
      "ERROR [" ++ id ++ " " ++ n.nodeClass ++ "]: " ++ c.message
        ++ (if c.details = "" then "" else ": " ++ c.details) ++ "\n"

-- ==== steps

/-- Changes the graph as asked: its text, its inputs, its image, and the dates in its texts. -/
def prepare (s : Session) (o : Options) (g : Graph) : Action m Graph := do
  let (g, changed) := withPrompt s.registry o.prompt g
  if o.prompt ≠ "" then
    if changed.isEmpty then
      log ⟨.warn, "no text encoder found for --prompt",
        [("types", Log.list (s.registry.typesIn Category.textEncoder))]⟩
    else log ⟨.debug, "prompt text set", [("nodes", Log.list changed)]⟩
  let g ← match withOverrides o.overrides g with
    | .ok g => pure g
    | .error missing =>
      fail .input ("--override names " ++ count missing.length "unknown node"
        ++ " not in the graph: " ++ ", ".intercalate missing)
  let g ← if o.image = "" then pure g else withUpload g
  let (g, dated) := g.resolveDates (dateOf (← (Clock.now : m _)))
  if 0 < dated then log ⟨.debug, "date patterns resolved", [("inputs", toString dated)]⟩
  return g
where
  /-- Uploads the image, if this is no dry run, and puts it into the first loader. -/
  withUpload (g : Graph) : Action m Graph := do
    let some loader := imageLoader? s.registry g
      | fail .validation "--image given but the workflow has no image loader"
    if o.dryRun then return withImage loader (Path.base o.image) g
    let client ← s.client
    match ← (client.upload none o.image "" : m _) with
    | .ok u => return withImage loader u.reference g
    | .error e => giveUp none o.timeout e

/-- Where a file of the server is saved. -/
def target (dir : String) (f : Server.RemoteFile) : String :=
  Path.join [dir, f.folder, Path.base f.name]

/-- Why an output was not saved. -/
inductive SaveError where
  | server (cause : Server.Error)
  | directory (cause : FileError)
  | file (cause : FileError)

def saveFile (client : Server.Client) (deadline : Deadline) (dir : String) (f : Server.RemoteFile) :
    m (Except SaveError String) := do
  match ← client.download deadline f with
  | .error e => return .error (.server e)
  | .ok content =>
    let path := target dir f
    match ← Files.makeDirectories (Path.dir path) with
    | .error e => return .error (.directory e)
    | .ok () =>
      match ← Files.write path content with
      | .error e => return .error (.file e)
      | .ok () =>
        Console.log ⟨.debug, "output saved",
          [("node", f.node), ("path", path), ("bytes", toString content.size)]⟩
        return .ok path

/-- Saves files one after another. -/
def saveFiles (client : Server.Client) (deadline : Deadline) (dir : String) :
    List Server.RemoteFile → m (Except SaveError (List String))
  | [] => return .ok []
  | f :: rest => do
    match ← saveFile client deadline dir f with
    | .error e => return .error e
    | .ok path => return (← saveFiles client deadline dir rest).map (path :: ·)

/-- Saves the files of a job. -/
def saveOutputs (client : Server.Client) (deadline : Deadline) (promptId dir : String) :
    m (Except SaveError (List String)) := do
  match ← client.history deadline promptId with
  | .error e => return .error (.server e)
  | .ok record =>
    let files := record.files
    if files.isEmpty then
      Console.log ⟨.warn, "prompt finished without output files", [("prompt_id", promptId)]⟩
    saveFiles client deadline dir files

/-- What the log tells of the news of a job. -/
def updateLine? (u : Server.Update) : Option Log.Line :=
  match u.type with
  | "executing" =>
    if u.node = "" then none
    else some ⟨.debug, "executing", [("prompt_id", u.promptId), ("node", u.node)]⟩
  | "progress" =>
    some ⟨.debug, "progress",
      [("prompt_id", u.promptId), ("value", toString u.value), ("max", toString u.max)]⟩
  | "execution_cached" =>
    some ⟨.debug, "cached", [("prompt_id", u.promptId), ("nodes", Log.list u.cached)]⟩
  | _ => none

/-- Submits a graph, waits for it and saves its files. -/
def execute (s : Session) (o : Options) (path : String) (g : Graph) : Action m (List String) := do
  let client ← s.client
  let deadline : Deadline := some ((← (Clock.now : m _)) + o.timeout.nanoseconds)
  let job ← match ← (client.submit deadline g o.promptId : m _) with
    | .ok job => pure job
    | .error e =>
      if let some fault := e.fault? then
        if !s.quiet then (nodeComplaints fault).forM err
      giveUp deadline o.timeout e
  if !s.quiet then
    err ("Queued " ++ Path.base path ++ " (" ++ count g.length "node" ++ ") as " ++ job.promptId
      ++ "\n")
  let tell (u : Server.Update) : m Unit := (updateLine? u).forM Console.log
  if let .error e ← (client.wait deadline job.promptId tell : m _) then giveUp deadline o.timeout e
  match ← (saveOutputs client deadline job.promptId o.outputDir : m _) with
  | .ok saved =>
    saved.forM fun p => out (p ++ "\n")
    return saved
  | .error (.server e) => giveUp deadline o.timeout e
  | .error (.directory e) => fileFailure deadline ("creating output directory: " ++ e.message)
  | .error (.file e) => fileFailure deadline ("writing output: " ++ e.message)
where
  fileFailure (deadline : Deadline) (message : String) : Action m (List String) := do
    if (← (Clock.interruption deadline : m _)) = some .expired then
      fail .timeout ("execution timed out after " ++ o.timeout.text)
    else fail .server message

/-- Runs a workflow once, and tells which files were saved. -/
def once (s : Session) (o : Options) : Action m (List String) := do
  let c ← s.compile o.workflow o.compile
  let ds := c.result.diagnostics
  if !ds.isEmpty && !s.quiet then err (reportText ds)
  let problems := c.result.graph.validate
  if hasErrors problems then
    err (reportText problems)
    fail .validation "converted graph is not executable"
  let g ← prepare s o c.result.graph.copy
  if o.dryRun then
    out (g.pretty ++ "\n")
    return []
  execute s o c.path g

def run (s : Session) (i : Invocation) (name : String) : Action m Unit := do
  let o ← options s i name
  let _ ← once s o

end PromptGraph.Command.Run

/-
A server's records of the jobs it has worked on: how each went, and the files that came of it.
-/
import PromptGraph.Server.Client

namespace PromptGraph.Server

open Json (Source Decode)

structure JobStatus where
  text : String := ""
  completed : Bool := false
  /-- What happened on the way, as written. -/
  messages : Option (List Source) := none
  deriving Inhabited

def JobStatus.failed (s : JobStatus) : Bool := s.text = "error"

/-- The record of one job. -/
structure JobRecord where
  status : JobStatus := {}
  /-- What each node gave, by kind, as written. -/
  outputs : Option (Assoc (Option (Assoc Source))) := none
  deriving Inhabited

/-- A file on the server. -/
structure RemoteFile where
  /-- The node that made it. -/
  node : String := ""
  name : String := ""
  folder : String := ""
  /-- The place that folders are in. -/
  area : String := ""
  deriving DecidableEq, Inhabited

def defaultArea : String := "output"

-- ==== reading

def readStatus : JobStatus → Source → Decode Empty JobStatus :=
  Decode.record .lenient ["status_str", "completed", "messages"] fun s field v =>
    match field with
    | "status_str" => return { s with text := ← Decode.text s.text v }
    | "completed" => return { s with completed := ← Decode.boolean s.completed v }
    | _ => return { s with messages := ← Decode.list .null (fun _ => pure) s.messages v }

def readOutput : Option (Assoc Source) → Source → Decode Empty (Option (Assoc Source)) :=
  Decode.table .null fun _ => pure

def readRecord : JobRecord → Source → Decode Empty JobRecord :=
  Decode.record .lenient ["status", "outputs"] fun r field v =>
    match field with
    | "status" => return { r with status := ← readStatus r.status v }
    | _ => return { r with outputs := ← Decode.table none readOutput r.outputs v }

/-- The record of a job in a history. -/
def JobRecord.find (promptId body : String) : Except Error JobRecord :=
  match Decode.ofText? (Decode.table none (Decode.optional {} readRecord) none) body with
  | none => .error (.undecodable "history")
  | some records =>
    match (records.getD []).get? promptId with
    | some (some r) => .ok r
    | _ => .error (.unknownJob promptId)

def readFailure : ExecutionFailure → Source → Decode Empty ExecutionFailure :=
  Decode.record .lenient
    ["prompt_id", "node_id", "node_type", "exception_type", "exception_message"] fun e field v =>
      match field with
      | "prompt_id" => return { e with promptId := ← Decode.text e.promptId v }
      | "node_id" => return { e with nodeId := ← Decode.text e.nodeId v }
      | "node_type" => return { e with nodeType := ← Decode.text e.nodeType v }
      | "exception_type" => return { e with exception := ← Decode.text e.exception v }
      | _ => return { e with message := ← Decode.text e.message v }

/-- What an entry of a record's messages says went wrong. -/
def failureMessage? : Source → Option String
  | .array _ (kind :: detail :: _) => do
    let kind ← Decode.ofSource? (Decode.text "") kind
    if kind ≠ "execution_error" then none
    else
      let failure ← Decode.ofSource? (readFailure {}) detail
      if failure.message = "" then none else some failure.message
  | _ => none

/-- What a record of a failed job says went wrong. -/
def JobRecord.failureMessage (r : JobRecord) : String :=
  ((r.status.messages.getD []).findSome? failureMessage?).getD "execution failed"

-- ==== files

/-- The kinds of output that list files. -/
def fileKinds : List String :=
  ["images", "gifs", "videos", "video", "audio", "animated_webp", "files"]

/-- Numbers come first, by value; other ids follow, by their octets. -/
def nodeBefore (a b : String) : Bool :=
  match Number.int64? a, Number.int64? b with
  | some x, some y => x ≤ y
  | some _, none => true
  | none, some _ => false
  | none, none => a ≤ b

/-- A listed file; `other` is a second field that may hold its name. -/
structure ListedFile where
  name : String := ""
  other : String := ""
  folder : String := ""
  area : String := ""
  deriving Inhabited

def readListed : ListedFile → Source → Decode Empty ListedFile :=
  Decode.record .lenient ["filename", "name", "subfolder", "type"] fun f field v =>
    match field with
    | "filename" => return { f with name := ← Decode.text f.name v }
    | "name" => return { f with other := ← Decode.text f.other v }
    | "subfolder" => return { f with folder := ← Decode.text f.folder v }
    | _ => return { f with area := ← Decode.text f.area v }

def ListedFile.toRemote? (node : String) (f : ListedFile) : Option RemoteFile :=
  let name := if f.name = "" then f.other else f.name
  if name = "" then none
  else some { node, name, folder := f.folder, area := if f.area = "" then defaultArea else f.area }

/-- The files of one kind of output; what lists no files has none. -/
def listedFiles (node : String) (v : Source) : List RemoteFile :=
  match Decode.ofSource? (Decode.list {} readListed none) v with
  | some files => (files.getD []).filterMap (·.toRemote? node)
  | none => []

def outputFiles (node : String) (output : Assoc Source) : List RemoteFile :=
  fileKinds.flatMap fun kind =>
    match output.get? kind with
    | some v => listedFiles node v
    | none => []

/-- All files of a job, node by node. -/
def JobRecord.files (r : JobRecord) : List RemoteFile :=
  let outputs := r.outputs.getD []
  (outputs.keys.mergeSort nodeBefore).flatMap fun node =>
    outputFiles node (((outputs.get? node).getD none).getD [])

-- ==== requests

namespace Client

variable {m : Type → Type} [Monad m] [Web.Network m]

/-- The record of a job, which the server has once the job is over. -/
def history (c : Client) (deadline : Deadline) (promptId : String) : m (Except Error JobRecord) := do
  match ← ask deadline (c.request ("/history/" ++ Web.escape .segment promptId) []) with
  | .error cause => return .error (.request "history" cause)
  | .ok body => return JobRecord.find promptId body

/-- The content of a file. -/
def download (c : Client) (deadline : Deadline) (f : RemoteFile) : m (Except Error ByteArray) := do
  let area := if f.area = "" then defaultArea else f.area
  let params := [("filename", f.name), ("subfolder", f.folder), ("type", area)]
  match ← perform deadline (c.request "/view" params) with
  | .error cause => return .error (.request ("download " ++ f.name) cause)
  | .ok body => return .ok body

end Client

end PromptGraph.Server

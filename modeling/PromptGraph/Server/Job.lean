/-
Handing a graph to a server. A job has an id, chosen by whoever submits it; the server may choose
another, and tells the job's place in its queue.
-/
import PromptGraph.Execution.Graph
import PromptGraph.Server.Client

namespace PromptGraph.Server

open Json (Source Decode)

structure Job where
  promptId : String := ""
  /-- The place in the queue. -/
  number : Int := 0
  deriving DecidableEq, Inhabited

-- ==== writing

/-- A character in a text of the request: only what ends or breaks a text is escaped. -/
def escapeChar (c : Char) : List Char :=
  if c = '"' || c = '\\' then ['\\', c]
  else if c = '\n' then ['\\', 'n']
  else if c = '\r' then ['\\', 'r']
  else if c = '\t' then ['\\', 't']
  else if c.toNat < 0x20 then Json.unitEscape c
  else [c]

def quote (s : String) : String := String.ofList ('"' :: (s.toList.flatMap escapeChar ++ ['"']))

/-- The body of a submission. -/
def submission (graph : Execution.Graph) (clientId promptId : String) : String :=
  "\x7b\"prompt\":" ++ graph.write ++ ",\"client_id\":" ++ quote clientId
    ++ ",\"prompt_id\":" ++ quote promptId ++ "\x7d"

-- ==== reading

structure Receipt where
  job : Job := {}
  error : Option Source := none
  nodes : Option (Assoc NodeFault) := none

def readReceipt : Receipt → Source → Decode Empty Receipt :=
  Decode.record .lenient ["prompt_id", "number", "error", "node_errors"] fun r field v =>
    match field with
    | "prompt_id" =>
      return { r with job := { r.job with promptId := ← Decode.text r.job.promptId v } }
    | "number" => return { r with job := { r.job with number := ← Decode.integer r.job.number v } }
    | "error" => return { r with error := ← Decode.written r.error v }
    | _ => return { r with nodes := ← Decode.table {} readNodeFault r.nodes v }

/-- The job that an answer accepts. An answer with an error accepts none. -/
def Job.ofAnswer (promptId body : String) : Except Error Job :=
  match Decode.ofText? (readReceipt {}) body with
  | none => .error (.undecodable "submit response")
  | some receipt =>
    if receipt.error.isSome then .error (.request "submit" (.refused (.ofAnswer 200 body)))
    else if receipt.job.promptId = "" then .ok { receipt.job with promptId }
    else .ok receipt.job

-- ==== requests

namespace Client

variable {m : Type → Type} [Monad m] [Web.Network m]

/-- Submits a graph under an id, or under a fresh one if the id is empty. -/
def submit [Chance m] [Console m] (c : Client) (deadline : Deadline) (graph : Execution.Graph)
    (promptId : String) : m (Except Error Job) := do
  let promptId ← if promptId = "" then Chance.freshId else pure promptId
  let request := { c.request "/prompt" [] with
    method := .post, contentType := "application/json", body := (submission graph c.id promptId).toUTF8 }
  match ← ask deadline request with
  | .error cause => return .error (.request "submit" cause)
  | .ok body =>
    let outcome := Job.ofAnswer promptId body
    if let .ok job := outcome then
      Console.log ⟨.info, "prompt queued",
        [("prompt_id", job.promptId), ("number", toString job.number),
          ("nodes", toString graph.length)]⟩
    return outcome

end Client

end PromptGraph.Server

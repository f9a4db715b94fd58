/-
Waiting for a job. The stream of status messages is opened first and the history is read after that,
so that a job that ends in between is seen in one or the other. Messages of other jobs, frames that
are no text and texts that are no message change nothing.
-/
import PromptGraph.Server.History

namespace PromptGraph.Server

open Json (Source Decode)
open Web (Frame Network StreamEnd)

-- ==== messages

/-- A message of the status stream; `none` for a detail that is missing. -/
structure StatusMessage where
  type : String := ""
  data : Option Source := none
  deriving Inhabited

def readMessage : StatusMessage → Source → Decode Empty StatusMessage :=
  Decode.record .lenient ["type", "data"] fun s field v =>
    match field with
    | "type" => return { s with type := ← Decode.text s.type v }
    | _ => return { s with data := ← Decode.written s.data v }

def StatusMessage.ofText? (text : String) : Option StatusMessage :=
  Decode.ofText? (readMessage {}) text

/-- What a message tells about a job. -/
structure Progress where
  promptId : String := ""
  /-- The node at work; none once the last one is done. -/
  node : Option String := none
  value : Int := 0
  max : Int := 0
  /-- Nodes whose results were at hand. -/
  cached : Option (List String) := none
  deriving DecidableEq, Inhabited

def readProgress : Progress → Source → Decode Empty Progress :=
  Decode.record .lenient ["prompt_id", "node", "value", "max", "nodes"] fun p field v =>
    match field with
    | "prompt_id" => return { p with promptId := ← Decode.text p.promptId v }
    | "node" => return { p with node := ← Decode.optional "" Decode.text p.node v }
    | "value" => return { p with value := ← Decode.integer p.value v }
    | "max" => return { p with max := ← Decode.integer p.max v }
    | _ => return { p with cached := ← Decode.list "" Decode.text p.cached v }

/-- A message without data tells nothing in particular. -/
def StatusMessage.progress? (s : StatusMessage) : Option Progress :=
  match s.data with
  | none => some {}
  | some v => Decode.ofSource? (readProgress {}) v

def StatusMessage.failure? (s : StatusMessage) : Option ExecutionFailure :=
  s.data.bind (Decode.ofSource? (readFailure {}))

-- ==== judgement

/-- News of a job for whoever waits. -/
structure Update where
  type : String
  promptId : String
  node : String
  value : Int
  max : Int
  cached : List String
  deriving DecidableEq, Inhabited

def Update.of (type : String) (p : Progress) : Update :=
  { type, promptId := p.promptId, node := p.node.getD "", value := p.value, max := p.max,
    cached := p.cached.getD [] }

/-- How a job ended. -/
inductive Outcome where
  | done
  | stopped
  | failed (failure : ExecutionFailure)
  deriving DecidableEq, Inhabited

/-- What is noted while waiting. -/
inductive Note where
  | update (u : Update)
  /-- A text that is no message. -/
  | undecodable
  deriving DecidableEq, Inhabited

/-- Whether a message about `promptId` ends its job. -/
def ending (promptId type : String) (p : Progress) : Option Outcome :=
  match type with
  | "executing" => if p.node.isNone && p.promptId = promptId then some .done else none
  | "execution_success" => if p.promptId = promptId then some .done else none
  | "execution_interrupted" => some .stopped
  | _ => none

/-- What a message means for the job. A message without a job's id concerns everybody; the state of
the queue is news to nobody. -/
def judgeMessage (promptId : String) (s : StatusMessage) : List Note × Option Outcome :=
  if s.type = "execution_error" then
    match s.failure? with
    | some failure =>
      if failure.promptId = promptId then ([], some (.failed failure)) else ([], none)
    | none => ([], none)
  else
    match s.progress? with
    | none => ([], none)
    | some p =>
      if p.promptId ≠ "" && p.promptId ≠ promptId then ([], none)
      else
        (if s.type = "status" then [] else [.update (.of s.type p)], ending promptId s.type p)

/-- What a frame means for the job. -/
def judge (promptId : String) : Frame → List Note × Option Outcome
  | .binary => ([], none)
  | .text content =>
    match StatusMessage.ofText? content with
    | none => ([.undecodable], none)
    | some s => judgeMessage promptId s

/-- How a job went, if its record says that it is over. -/
def JobRecord.outcome? (promptId : String) (r : JobRecord) : Option Outcome :=
  if r.status.failed then some (.failed { promptId, message := r.failureMessage })
  else if r.status.completed then some .done
  else none

def Outcome.toExcept : Outcome → Except Error Unit
  | done => .ok ()
  | stopped => .error .stopped
  | failed failure => .error (.failed failure)

-- ==== waiting

namespace Client

/-- Where the status messages of this client come from. -/
def streamAddress (c : Client) : Web.Address :=
  { c.place "/ws" [("clientId", c.id)] with
    scheme := if c.base.scheme = "https" then "wss" else "ws" }

variable {m : Type → Type} [Monad m] [Network m]

/-- Opens the status stream. Its address names no user. -/
def dial (c : Client) (deadline : Deadline) :
    m (Except Error (Network.Stream m)) := do
  if c.base.user.isSome then return .error (.openStream (.failed "malformed ws or wss URL"))
  match ← Network.dial deadline c.streamAddress with
  | .error cause => return .error (.openStream cause)
  | .ok stream => return .ok stream

/-- Waits until a job is over, and tells the news of it on the way. -/
def wait [Console m] (c : Client) (deadline : Deadline) (promptId : String)
    (tell : Update → m Unit) : m (Except Error Unit) := do
  match ← c.dial deadline with
  | .error e => return .error e
  | .ok stream =>
    let record ← c.history deadline promptId
    match record with
    | .ok r =>
      if let some o := r.outcome? promptId then return o.toExcept
    | .error (.unknownJob _) => pure ()
    | .error e =>
      Console.log ⟨.debug, "history check failed",
        [("prompt_id", promptId), ("error", e.message)]⟩
    let note : Note → m Unit
      | .update u => tell u
      | .undecodable =>
        Console.log ⟨.debug, "undecodable status message", [("error", Text.complaint)]⟩
    match ← Network.listen deadline stream (judge promptId) note with
    | .ok o => return o.toExcept
    | .error (.interrupted cause) => return .error (.interrupted cause)
    | .error cause => return .error (.stream cause)

end Client

end PromptGraph.Server

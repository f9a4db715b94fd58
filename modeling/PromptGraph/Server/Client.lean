/-
A client of one server. Every client has a name of its own, by which the server knows whom to tell
about the progress of a job.
-/
import PromptGraph.Files.Basic
import PromptGraph.Server.Fault
import PromptGraph.Text.Infix
import PromptGraph.Web.Request
import PromptGraph.World

namespace PromptGraph.Server

open Web (Address Request Network)

structure Client where
  base : Address
  /-- Proves to the server who asks; empty for nobody. -/
  token : String := ""
  id : String
  deriving Inhabited

/-- Why there is no client for a host. -/
inductive HostError where
  | unreadable (cause : Address.Error)
  | scheme (name : String)
  | empty

def HostError.message : HostError → String
  | unreadable cause => "comfyclient: parse host: " ++ cause.message
  | scheme name => "comfyclient: unsupported scheme " ++ Text.Quoted.encode name
  | empty => "comfyclient: host is empty"

namespace Client

/-- Where a server on this machine listens. -/
def defaultHost : String := "127.0.0.1:8188"

def trimSlashes (s : String) : String :=
  String.ofList (s.toList.reverse.dropWhile (· = '/')).reverse

/-- The address that a host or an address stands for. -/
def hostAddress (host : String) : String :=
  let host := Text.trim host
  let host := if host = "" then defaultHost else host
  trimSlashes (if Text.contains host "://" then host else "http://" ++ host)

/-- A client for a host, given with or without a scheme. -/
def make (host token id : String) : Except HostError Client := do
  let base ← (Address.parse (hostAddress host)).mapError .unreadable
  unless base.scheme = "http" || base.scheme = "https" do throw (.scheme base.scheme)
  if base.host = "" then throw .empty
  return { base, token, id }

/-- The server's name, under which its table is kept. -/
def host (c : Client) : String := c.base.host

/-- A place on the server, with the token among the parameters. -/
def place (c : Client) (path : String) (params : List (String × String)) : Address :=
  c.base.below path (params ++ if c.token = "" then [] else [("token", c.token)])

def request (c : Client) (path : String) (params : List (String × String)) : Request :=
  { address := (c.place path params).withoutEmptyPort, accept := "application/json" }

end Client

-- ==== errors

/-- Why a request brought nothing. -/
inductive RequestError where
  | unsent (method : Web.Method) (address : Address) (cause : Web.SendError)
  | refused (fault : Fault)

def RequestError.message : RequestError → String
  | unsent method address cause =>
    method.title ++ " " ++ Text.Quoted.encode address.publicText ++ ": " ++ cause.message
  | refused fault => fault.text

/-- A failure of a job while the server worked on it. -/
structure ExecutionFailure where
  promptId : String := ""
  nodeId : String := ""
  nodeType : String := ""
  exception : String := ""
  message : String := ""
  deriving DecidableEq, Inhabited

def ExecutionFailure.text (f : ExecutionFailure) : String :=
  if f.nodeId = "" then "comfyui: execution failed: " ++ f.message
  else
    "comfyui: node " ++ f.nodeId ++ " (" ++ f.nodeType ++ ") failed: " ++ f.exception ++ ": "
      ++ f.message

/-- Why something asked of a client was not done. -/
inductive Error where
  | request (task : String) (cause : RequestError)
  | undecodable (what : String)
  /-- The server has no record of the job. -/
  | unknownJob (promptId : String)
  | openImage (cause : FileError)
  | readImage (cause : FileError)
  | openStream (cause : Web.SendError)
  | stream (cause : Web.StreamEnd)
  /-- The wait ended from outside. -/
  | interrupted (cause : Interruption)
  /-- The job was stopped on the server. -/
  | stopped
  | failed (failure : ExecutionFailure)

namespace Error

def message : Error → String
  | request task cause => "comfyclient: " ++ task ++ ": " ++ cause.message
  | undecodable what => "comfyclient: decode " ++ what ++ ": " ++ Text.complaint
  | unknownJob promptId => "prompt " ++ promptId ++ ": comfyclient: not found"
  | openImage cause => "comfyclient: open image: " ++ cause.message
  | readImage cause => "comfyclient: read image: " ++ cause.message
  | openStream cause => "comfyclient: open status stream: " ++ cause.message
  | stream cause => "comfyclient: status stream: " ++ cause.message
  | interrupted cause => cause.message
  | stopped => "comfyclient: execution interrupted"
  | failed failure => failure.text

/-- What the server refused. -/
def fault? : Error → Option Fault
  | request _ (.refused fault) => some fault
  | _ => none

/-- The time that was allowed ran out. -/
def isExpired : Error → Bool
  | request _ (.unsent _ _ (.interrupted .expired)) => true
  | openStream (.interrupted .expired) => true
  | interrupted .expired => true
  | _ => false

end Error

-- ==== requests

namespace Client

variable {m : Type → Type} [Monad m] [Network m]

/-- The body of a successful answer. -/
def perform (deadline : Deadline) (r : Request) : m (Except RequestError ByteArray) := do
  match ← Network.send deadline r with
  | .error cause => return .error (.unsent r.method r.address cause)
  | .ok answer =>
    if Web.isSuccess answer.status then return .ok answer.body
    else return .error (.refused (.ofAnswer answer.status (Text.ofBytes answer.body)))

/-- The body of a successful answer, as text. -/
def ask (deadline : Deadline) (r : Request) : m (Except RequestError String) :=
  return (← perform deadline r).map Text.ofBytes

/-- The raw table of node types. -/
def objectInfo [Clock m] [Console m] (c : Client) (deadline : Deadline) :
    m (Except Error String) := do
  let start ← Clock.now
  match ← ask deadline (c.request "/object_info" []) with
  | .error cause => return .error (.request "object info" cause)
  | .ok body =>
    let elapsed := Duration.between start (← Clock.now)
    Console.log ⟨.debug, "object info fetched",
      [("host", c.host), ("bytes", toString (Text.octetLength body)), ("elapsed", elapsed.text)]⟩
    return .ok body

end Client

end PromptGraph.Server

/-
A world in memory, to rehearse commands in: files, a server that answers from a script, a clock that
goes a little further whenever it is read, and a record of everything that was asked and written.
-/
import PromptGraph.Command.World
import PromptGraph.Files.Tree
import PromptGraph.Server.Wait

namespace PromptGraph

-- ==== script

/-- What a scripted server does with a request. -/
inductive Reply where
  | answer (response : Web.Response)
  | failure (reason : String)
  deriving Inhabited

/-- A scripted status stream. -/
structure StreamScript where
  refused : Bool := false
  frames : List Web.Frame := []
  /-- How the stream ends after its frames; none for silence. -/
  ending : Option Web.StreamEnd := none
  deriving Inhabited

structure ServerScript where
  /-- The replies of every path, used in order, the last one again and again. -/
  routes : Assoc (List Reply) := []
  /-- Nothing listens when there is none. -/
  stream : Option StreamScript := none
  deriving Inhabited

namespace ServerScript

/-- The reply to a path that has none. -/
def notFound : Reply := .answer ⟨404, "404: Not Found".toUTF8⟩

def reply (s : ServerScript) (path : String) : ServerScript × Reply :=
  match s.routes.get? path with
  | some (r :: []) => (s, r)
  | some (r :: rest) => ({ s with routes := s.routes.insert path rest }, r)
  | _ => (s, notFound)

end ServerScript

-- ==== world

/-- What was asked of the server. -/
inductive Contact where
  | sent (request : Web.Request)
  | dialled (address : Web.Address)
  deriving Inhabited

structure Rehearsal where
  disk : Disk := {}
  server : ServerScript := {}
  contacts : List Contact := []
  /-- News of jobs that were told. -/
  updates : List Server.Update := []
  /-- Nanoseconds since 1970. -/
  now : Int := 1700000000000000000
  cancelled : Bool := false
  environment : Assoc String := []
  stores : Assoc Store := []
  least : Log.Level := .debug
  log : List Log.Line := []
  out : String := ""
  err : String := ""
  deriving Inhabited

abbrev Rehearsed := StateM Rehearsal

namespace Rehearsal

/-- How far the clock goes whenever it is read. -/
def tick : Int := 10000

/-- Stands for every fresh id. -/
def someId : String := "5f0c4bd2-9f04-4e7d-8a6b-3f1d2c7e9a10"

/-- Values that differ from run to run are left out of the log. -/
def steady (line : Log.Line) : Log.Line :=
  { line with attributes := line.attributes.filter fun (k, _) => k ≠ "elapsed" && k ≠ "age" }

instance : Files Rehearsed where
  currentDirectory := return (← get).disk.current
  isDirectory p := return (← get).disk.isDirectory p
  listing p := return (← get).disk.listing p
  read p := return (← get).disk.read p
  write p c := modifyGet fun w => let (disk, r) := w.disk.write p c; (r, { w with disk })
  makeDirectories p :=
    modifyGet fun w => let (disk, r) := w.disk.makeDirectories p; (r, { w with disk })

/-- A repetition ends after this many times at the latest. -/
def patience : Nat := 1000

def repeatFrom (step : Nat → Rehearsed Bool) : Nat → Nat → Rehearsed Unit
  | 0, _ => pure ()
  | left + 1, number => do if ← step number then repeatFrom step left (number + 1)

instance : Clock Rehearsed where
  now := modifyGet fun w => (w.now, { w with now := w.now + tick })
  cancelled := return (← get).cancelled
  pause _ := return !(← get).cancelled
  endlessly step := repeatFrom step patience 1

instance : Chance Rehearsed where
  freshId := return someId
  freshBoundary := return "BOUNDARY"

instance : Console Rehearsed where
  out s := modify fun w => { w with out := w.out ++ s }
  err s := modify fun w => { w with err := w.err ++ s }
  openLog least := modify fun w => { w with least }
  log line := modify fun w =>
    if line.passes w.least then
      let line := steady line
      { w with log := w.log ++ [line], err := w.err ++ line.text ++ "\n" }
    else w

instance : Environment Rehearsed where
  valueOf name := return ((← get).environment.get? name).getD ""

instance : Shelf Rehearsed where
  load path := return .ok (((← get).stores.get? path).getD .empty)
  save path store := modify fun w => { w with stores := w.stores.insert path store }

def note (c : Contact) : Rehearsed Unit := modify fun w => { w with contacts := w.contacts ++ [c] }

def send (deadline : Deadline) (r : Web.Request) : Rehearsed (Except Web.SendError Web.Response) := do
  if let some cause ← Clock.interruption deadline then return .error (.interrupted cause)
  note (.sent r)
  let reply ← modifyGet fun w =>
    let (server, reply) := w.server.reply (Text.ofOctets r.address.path)
    (reply, { w with server })
  match reply with
  | .answer response => return .ok response
  | .failure reason => return .error (.failed reason)

def dial (deadline : Deadline) (address : Web.Address) :
    Rehearsed (Except Web.SendError StreamScript) := do
  if let some cause ← Clock.interruption deadline then return .error (.interrupted cause)
  match (← get).server.stream with
  | none => return .error (.failed "connection refused")
  | some script =>
    note (.dialled address)
    if script.refused then return .error (.failed "websocket: bad handshake")
    return .ok script

/-- In silence the clock goes on to the deadline. -/
def listen (deadline : Deadline) (script : StreamScript)
    (judge : Web.Frame → List ν × Option α) (tell : ν → Rehearsed Unit) :
    Rehearsed (Except Web.StreamEnd α) := do
  let (notes, settled) := Web.follow judge script.frames
  notes.forM tell
  match settled, script.ending with
  | some a, _ => return .ok a
  | none, some ending => return .error ending
  | none, none =>
    modify fun w => { w with now := max w.now (deadline.getD w.now) }
    return .error (.interrupted .expired)

instance : Web.Network Rehearsed where
  Stream := StreamScript
  send := send
  dial := dial
  listen := listen

instance : Command.World Rehearsed where

/-- Keeps news of a job. -/
def hear (u : Server.Update) : Rehearsed Unit := modify fun w => { w with updates := w.updates ++ [u] }

end Rehearsal

end PromptGraph

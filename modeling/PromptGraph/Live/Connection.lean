/-
Connections to servers.
-/
import PromptGraph.Live.Basic
import PromptGraph.Web.Framing
import Std.Async.DNS
import Std.Async.TCP

namespace PromptGraph.Live

open Std.Async (AsyncTask)
open Web (SendError StreamEnd)

-- ==== waiting

/-- How long to look away while waiting, in milliseconds. -/
def glance : UInt32 := 5

def reasonOf : IO.Error → String
  | .noSuchThing _ _ details | .timeExpired _ details | .resourceVanished _ details => details
  | e => e.toString

/-- Waits for a task up to a deadline. -/
partial def await (deadline : Deadline) (task : AsyncTask α) : Live (Except SendError α) := do
  if ← IO.hasFinished task then
    match ← task.block.toBaseIO with
    | .ok a => return .ok a
    | .error e => return .error (.failed (reasonOf e))
  else if let some cause ← Clock.interruption deadline then return .error (.interrupted cause)
  else
    IO.sleep glance
    await deadline task

def ask (deadline : Deadline) (action : Std.Async.Async α) : ExceptT SendError Live α := do
  let task ← (action.toIO : IO _)
  ExceptT.mk (await deadline task)

-- ==== connecting

/-- An open connection and what came in on it. -/
structure Connection where
  socket : Std.Async.TCP.Socket.Client
  arrived : IO.Ref ByteArray
  assembly : IO.Ref Web.Assembly

def socketAddress (ip : Std.Net.IPAddr) (port : Nat) : Std.Net.SocketAddress :=
  match ip with
  | .v4 addr => .v4 ⟨addr, UInt16.ofNat port⟩
  | .v6 addr => .v6 ⟨addr, UInt16.ofNat port⟩

def connect (deadline : Deadline) (a : Web.Address) : ExceptT SendError Live Connection := do
  if a.isEncrypted then throw (.failed "encrypted connections are not supported")
  let (name, port) := a.endpoint
  let ips ← ask deadline (Std.Async.DNS.getAddrInfo name (toString port))
  let some ip := ips[0]? | throw (.failed ("lookup " ++ name ++ ": no such host"))
  let socket ← (Std.Async.TCP.Socket.Client.mk : IO _)
  let place := socketAddress ip port
  (ask deadline (socket.connect place)).adapt fun
    | .failed reason => .failed ("dial tcp " ++ toString place ++ ": connect: " ++ reason)
    | e => e
  return ⟨socket, ← IO.mkRef .empty, ← IO.mkRef {}⟩

/-- Adds what comes in next; tells whether anything came. -/
def receive (deadline : Deadline) (c : Connection) : ExceptT SendError Live Bool := do
  match ← ask deadline (c.socket.recv? 65536) with
  | none => return false
  | some bs =>
    c.arrived.modify (· ++ bs)
    return true

/-- Receives until what has arrived is enough. -/
partial def receiveUntil (deadline : Deadline) (c : Connection) (enough? : Bool → ByteArray → Option α) :
    ExceptT SendError Live α := do
  match enough? false (← c.arrived.get) with
  | some a => return a
  | none =>
    if ← receive deadline c then receiveUntil deadline c enough?
    else
      match enough? true (← c.arrived.get) with
      | some a => return a
      | none => throw (.failed "unexpected EOF")

def send (deadline : Deadline) (r : Web.Request) : ExceptT SendError Live Web.Response := do
  let c ← connect deadline r.address
  ask deadline (c.socket.send r.octets)
  receiveUntil deadline c Web.Response.ofOctets?

-- ==== streams

def dial (deadline : Deadline) (a : Web.Address) : ExceptT SendError Live Connection := do
  let c ← connect deadline a
  let key ← (IO.getRandomBytes 16 : IO _)
  ask deadline (c.socket.send (Web.upgradeOctets a key.toList))
  let (head, n) ← receiveUntil deadline c fun _ => Web.takeHead?
  unless head.isUpgrade do throw (.failed "websocket: bad handshake")
  c.arrived.modify fun bs => bs.extract n bs.size
  return c

/-- The next packet; none when the connection ended before one came. -/
partial def nextPacket (deadline : Deadline) (c : Connection) :
    ExceptT SendError Live (Option Web.Packet) := do
  match Web.Packet.take? (← c.arrived.get) with
  | some (p, n) =>
    c.arrived.modify fun bs => bs.extract n bs.size
    return some p
  | none => if ← receive deadline c then nextPacket deadline c else return none

/-- The next frame, or why there is none. Pings are answered on the way. -/
partial def nextFrame (deadline : Deadline) (c : Connection) : Live (Except StreamEnd Web.Frame) := do
  match ← (nextPacket deadline c).run with
  | .error (.interrupted cause) => return .error (.interrupted cause)
  | .error (.failed _) | .ok none => return .error .dropped
  | .ok (some p) =>
    match ← c.assembly.modifyGet fun a => (a.accept p).swap with
    | .frame f => return .ok f
    | .ending cause => return .error cause
    | .nothing => nextFrame deadline c
    | .ping payload =>
      let key ← (IO.getRandomBytes 4 : IO _)
      let pong : Web.Packet := { opcode := Web.Packet.pong, payload }
      let _ ← (ask deadline (c.socket.send (pong.octets key.toList))).run
      nextFrame deadline c

partial def listen (deadline : Deadline) (c : Connection) (judge : Web.Frame → List ν × Option α)
    (tell : ν → Live Unit) : Live (Except StreamEnd α) := do
  match ← nextFrame deadline c with
  | .error cause => return .error cause
  | .ok f =>
    let (notes, settled) := judge f
    notes.forM tell
    match settled with
    | some a => return .ok a
    | none => listen deadline c judge tell

instance : Web.Network Live where
  Stream := Connection
  send deadline r := (send deadline r).run
  dial deadline a := (dial deadline a).run
  listen := listen

end PromptGraph.Live

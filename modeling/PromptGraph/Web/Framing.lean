/-
The frames of a status stream as octets. A frame may come in several packets, and packets of control
may come between them.
-/
import PromptGraph.Web.Wire

namespace PromptGraph.Web

-- ==== opening

/-- Asks a server to go on with a stream. `key` is any sixteen octets. -/
def upgradeOctets (a : Address) (key : List UInt8) : ByteArray :=
  (requestHead .get a ++ headField "Upgrade" "websocket" ++ headField "Connection" "Upgrade"
    ++ headField "Sec-WebSocket-Key" (Text.Radix64.encode key)
    ++ headField "Sec-WebSocket-Version" "13" ++ "\r\n").toUTF8

/-- The server goes on with a stream. -/
def Head.isUpgrade (h : Head) : Bool :=
  h.status = 101 && ((h.fields.get? "upgrade").getD "").toLower = "websocket"

-- ==== packets

structure Packet where
  /-- The last packet of its frame. -/
  final : Bool := true
  /-- What the packet is for. -/
  opcode : Nat
  payload : ByteArray := .empty
  deriving Inhabited

namespace Packet

def continuation : Nat := 0
def text : Nat := 1
def binary : Nat := 2
def close : Nat := 8
def ping : Nat := 9
def pong : Nat := 10

/-- A whole number, highest octet first. -/
def number (bs : List UInt8) : Nat := bs.foldl (fun n b => n * 256 + b.toNat) 0

/-- The lowest `n` octets of a number, highest first. -/
def octetsOf : Nat → Nat → List UInt8
  | 0, _ => []
  | n + 1, value => octetsOf n (value / 256) ++ [UInt8.ofNat (value % 256)]

/-- The packet at the start, and how many octets it takes; none while octets are missing. -/
def take? (bs : ByteArray) : Option (Packet × Nat) :=
  match (bs.extract 0 10).toList with
  | first :: second :: more => do
    let short := second.toNat % 128
    let extra := if short = 126 then 2 else if short = 127 then 8 else 0
    if more.length < extra then none
    let length := if extra = 0 then short else number (more.take extra)
    let start := 2 + extra
    if bs.size < start + length then none
    return (⟨128 ≤ first.toNat, first.toNat % 16, bs.extract start (start + length)⟩, start + length)
  | _ => none

/-- A packet as a client sends it, hidden by a key of four octets. -/
def octets (p : Packet) (key : List UInt8) : ByteArray :=
  let n := p.payload.size
  let length :=
    if n < 126 then [UInt8.ofNat (128 + n)]
    else if n < 65536 then 254 :: octetsOf 2 n
    else 255 :: octetsOf 8 n
  let first := UInt8.ofNat ((if p.final then 128 else 0) + p.opcode)
  let hidden := p.payload.toList.zipIdx.map fun (b, i) => b ^^^ (key[i % 4]?).getD 0
  ⟨(first :: length ++ key.take 4 ++ hidden).toArray⟩

end Packet

-- ==== frames

/-- What a packet brings. -/
inductive Arrival where
  | frame (content : Frame)
  /-- To be answered with the same payload. -/
  | ping (payload : ByteArray)
  | ending (cause : StreamEnd)
  /-- Nothing yet. -/
  | nothing
  deriving Inhabited

/-- The packets of a frame that is not complete. -/
structure Assembly where
  isText : Bool := false
  payload : ByteArray := .empty
  deriving Inhabited

namespace Assembly

def frame (a : Assembly) : Frame := if a.isText then .text (Text.ofBytes a.payload) else .binary

def closing (payload : ByteArray) : StreamEnd :=
  if payload.size < 2 then .ofClosing none
  else
    .ofClosing (some (Packet.number (payload.extract 0 2).toList,
      Text.ofBytes (payload.extract 2 payload.size)))

def accept (a : Assembly) (p : Packet) : Assembly × Arrival :=
  if p.opcode = Packet.close then (a, .ending (closing p.payload))
  else if p.opcode = Packet.ping then (a, .ping p.payload)
  else if p.opcode = Packet.pong then (a, .nothing)
  else
    let a : Assembly :=
      if p.opcode = Packet.continuation then { a with payload := a.payload ++ p.payload }
      else ⟨p.opcode = Packet.text, p.payload⟩
    if p.final then ({}, .frame a.frame) else (a, .nothing)

end Assembly

end PromptGraph.Web

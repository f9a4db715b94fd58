/-
Messages on a connection: a request as octets, and an answer as soon as the octets that came in hold
all of it. The head of an answer decides how far its body goes: a number of octets, chunks up to an
empty one, or all that comes until the connection ends.
-/
import PromptGraph.Assoc
import PromptGraph.Text.Radix64
import PromptGraph.Text.Space
import PromptGraph.Web.Request

namespace PromptGraph.Web

-- ==== requests

def Address.isEncrypted (a : Address) : Bool := a.scheme = "https" || a.scheme = "wss"

/-- The name or number of the machine, and the port it is asked on. -/
def Address.endpoint (a : Address) : String × Nat :=
  let standard := if a.isEncrypted then 443 else 80
  let bare (cs : List Char) : String := String.ofList (cs.filter fun c => c ≠ '[' && c ≠ ']')
  match Address.cutAtLast? ':' a.host.toList with
  | some (name, port) =>
    match Number.numeral? port with
    | some n => (bare name, n)
    | none => (bare a.host.toList, standard)
  | none => (bare a.host.toList, standard)

def headField (name value : String) : String := name ++ ": " ++ value ++ "\r\n"

def credentials (a : Address) : String :=
  match a.user with
  | none => ""
  | some u =>
    let words := u.name ++ ":" ++ u.password.getD ""
    headField "Authorization" ("Basic " ++ Text.Radix64.encode (Text.octets words))

/-- The first line of a request and the fields that every request has. -/
def requestHead (method : Method) (a : Address) : String :=
  let target := if a.path.isEmpty then "/" ++ a.target else a.target
  method.name ++ " " ++ target ++ " HTTP/1.1\r\n" ++ headField "Host" a.host ++ credentials a

/-- One request has a connection of its own. -/
def Request.octets (r : Request) : ByteArray :=
  let optional (name value : String) : String := if value = "" then "" else headField name value
  let length :=
    if r.method = .get && r.body.size = 0 then "" else headField "Content-Length" (toString r.body.size)
  (requestHead r.method r.address ++ optional "Accept" r.accept
    ++ optional "Content-Type" r.contentType ++ length ++ headField "Connection" "close"
    ++ "\r\n").toUTF8 ++ r.body

-- ==== heads

structure Head where
  status : Nat
  /-- Fields by their names in small letters. -/
  fields : Assoc String := []
  deriving DecidableEq, Inhabited

/-- How many octets are before the first blank line. -/
def headLength? : List UInt8 → Option Nat
  | 13 :: 10 :: 13 :: 10 :: _ => some 0
  | _ :: rest => (headLength? rest).map (· + 1)
  | [] => none

def readField? (line : String) : Option (String × String) :=
  match Address.cutAt ':' line.toList with
  | (_, none) => none
  | (name, some value) => some ((String.ofList name).toLower, Text.trim (String.ofList value))

def Head.read? (text : String) : Option Head :=
  match text.splitOn "\r\n" with
  | [] => none
  | first :: lines =>
    match Text.fields first with
    | version :: code :: _ =>
      if version.startsWith "HTTP/" then
        (Number.numeral? code.toList).map fun status =>
          { status, fields := .ofList (lines.filterMap readField?) }
      else none
    | _ => none

/-- A head has at most this many octets. -/
def headLimit : Nat := 65536

/-- The head at the start, and how many octets it takes with its blank line. -/
def takeHead? (bs : ByteArray) : Option (Head × Nat) := do
  let n ← headLength? (bs.extract 0 headLimit).toList
  return (← Head.read? (Text.ofBytes (bs.extract 0 n)), n + 4)

-- ==== bodies

inductive Extent where
  | octets (n : Nat)
  | chunks
  | untilEnd
  deriving DecidableEq, Inhabited

def Head.extent (h : Head) : Extent :=
  if h.status = 204 || h.status = 304 then .octets 0
  else if ((h.fields.get? "transfer-encoding").getD "").toLower.endsWith "chunked" then .chunks
  else
    match (h.fields.get? "content-length").bind (Number.numeral? ·.toList) with
    | some n => .octets n
    | none => .untilEnd

/-- A chunk's size is written in the base sixteen, before a line end or a semicolon. -/
def takeChunkSize? (bs : ByteArray) (start : Nat) : Option (Nat × Nat) := do
  let line := (bs.extract start (start + 1024)).toList.takeWhile (· ≠ 10)
  let next := start + line.length + 1
  if bs.size < next then none
  let digits := (line.map fun b => Char.ofNat b.toNat).takeWhile fun c => c ≠ ';' && c ≠ '\r'
  return (← Text.Quoted.numeral? 16 Text.Quoted.hexValue? (Text.trimChars digits), next)

/-- The chunks from `start` on, put together; `fuel` bounds their number. -/
def joinChunks? (bs : ByteArray) : Nat → Nat → ByteArray → Option ByteArray
  | 0, _, _ => none
  | fuel + 1, start, joined => do
    let (size, start) ← takeChunkSize? bs start
    if size = 0 then return joined
    if bs.size < start + size + 2 then none
    joinChunks? bs fuel (start + size + 2) (joined ++ bs.extract start (start + size))

/-- The body, when it is all there. `ended` says that no more octets will come. -/
def Extent.body? (ended : Bool) (bs : ByteArray) : Extent → Option ByteArray
  | octets n => if n ≤ bs.size then some (bs.extract 0 n) else none
  | chunks => joinChunks? bs (bs.size + 1) 0 .empty
  | .untilEnd => if ended then some bs else none

def Response.ofOctets? (ended : Bool) (bs : ByteArray) : Option Response := do
  let (head, n) ← takeHead? bs
  let body ← head.extent.body? ended (bs.extract n bs.size)
  return ⟨head.status, body⟩

end PromptGraph.Web

/-
Status streams: frames that come in one after another until the stream ends.
-/
import PromptGraph.Text.Complaint
import PromptGraph.World

namespace PromptGraph.Web

inductive Frame where
  | text (content : String)
  | binary
  deriving DecidableEq, Inhabited

-- ==== closing

/-- Why a stream gives no more frames. -/
inductive StreamEnd where
  | closed (code : Nat) (reason : String)
  /-- The connection went away without a word. -/
  | dropped
  /-- The other side closed with a code that is not for sending. -/
  | badCode (code : Nat)
  | interrupted (cause : Interruption)
  deriving DecidableEq, Inhabited

/-- What the codes for closing mean. -/
def closePhrase : Nat → String
  | 1000 => " (normal)"
  | 1001 => " (going away)"
  | 1002 => " (protocol error)"
  | 1003 => " (unsupported data)"
  | 1005 => " (no status)"
  | 1006 => " (abnormal closure)"
  | 1007 => " (invalid payload data)"
  | 1008 => " (policy violation)"
  | 1009 => " (message too big)"
  | 1010 => " (mandatory extension missing)"
  | 1011 => " (internal server error)"
  | 1015 => " (TLS handshake error)"
  | _ => ""

/-- Codes that a peer may send when it closes. -/
def isSendableCode (code : Nat) : Bool :=
  [1000, 1001, 1002, 1003, 1007, 1008, 1009, 1010, 1011, 1012, 1013].contains code
    || (3000 ≤ code && code ≤ 4999)

/-- The end that a closing frame announces; one without a code says nothing. -/
def StreamEnd.ofClosing : Option (Nat × String) → StreamEnd
  | none => closed 1005 ""
  | some (code, reason) => if isSendableCode code then closed code reason else badCode code

def StreamEnd.message : StreamEnd → String
  | closed code reason =>
    "websocket: close " ++ toString code ++ closePhrase code
      ++ (if reason = "" then "" else ": " ++ reason)
  | dropped => "websocket: close 1006" ++ closePhrase 1006 ++ ": " ++ Text.complaint
  | badCode code => "websocket: bad close code " ++ toString code
  | interrupted cause => cause.message

-- ==== following

/-- Follows frames up to the first that settles the matter: all that is noted on the way, and what
was settled. -/
def follow (judge : Frame → List ν × Option α) : List Frame → List ν × Option α
  | [] => ([], none)
  | f :: rest =>
    match judge f with
    | (notes, some a) => (notes, some a)
    | (notes, none) =>
      let (later, a) := follow judge rest
      (notes ++ later, a)

end PromptGraph.Web

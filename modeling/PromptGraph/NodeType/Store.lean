/-
A store keeps the raw table of each server it was asked about, with the time it was fetched.
-/
import PromptGraph.Assoc

namespace PromptGraph

/-- A stored table: its text, and when it was fetched in nanoseconds from the start of 1970. -/
structure Record where
  raw : String
  fetchedAt : Int
  deriving DecidableEq, Inhabited

/-- A store that works, or one of which every call fails for one reason. -/
inductive Store where
  | working (records : Assoc Record)
  | failing (reason : String)
  deriving Inhabited

namespace Store

def empty : Store := working []

inductive Missing where
  | absent
  | failed (reason : String)
  deriving DecidableEq, Inhabited

def Missing.message : Missing → String
  | absent => "objectinfo: not found"
  | failed reason => reason

def get : Store → String → Except Missing Record
  | working records, key =>
    match Assoc.get? records key with
    | some r => .ok r
    | none => .error .absent
  | failing reason, _ => .error (.failed reason)

/-- Puts a record in the place of an earlier one of its key. A store that fails stays as it is. -/
def put : Store → String → Record → Store × Except String Unit
  | working records, key, r => (working (Assoc.insert records key r), .ok ())
  | failing reason, _, _ => (failing reason, .error reason)

end Store

end PromptGraph

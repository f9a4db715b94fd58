/-
What a server says when it does not do what it was asked: a status, a message, and for a rejected
graph what is wrong with each of its nodes.
-/
import PromptGraph.Json.Decode
import PromptGraph.Text.Space
import PromptGraph.Web.Status

namespace PromptGraph.Server

open Json (Source Decode)

/-- One thing that is wrong with a node. -/
structure Complaint where
  type : String := ""
  message : String := ""
  details : String := ""
  deriving DecidableEq, Inhabited

structure NodeFault where
  nodeClass : String := ""
  complaints : Option (List Complaint) := none
  deriving DecidableEq, Inhabited

structure Fault where
  status : Nat
  type : String := ""
  message : String := ""
  details : String := ""
  nodes : Option (Assoc NodeFault) := none
  deriving Inhabited

/-- The message, else the type, else what the status means; and how many nodes are at fault. -/
def Fault.text (f : Fault) : String :=
  let what :=
    if f.message ≠ "" then f.message
    else if f.type ≠ "" then f.type
    else Web.statusPhrase f.status
  let count := (f.nodes.getD []).length
  "comfyui: status " ++ toString f.status ++ ": " ++ what
    ++ (if count = 0 then "" else " (" ++ toString count ++ " node errors)")

-- ==== reading

def readComplaint : Complaint → Source → Decode Empty Complaint :=
  Decode.record .lenient ["type", "message", "details"] fun c field v =>
    match field with
    | "type" => return { c with type := ← Decode.text c.type v }
    | "message" => return { c with message := ← Decode.text c.message v }
    | _ => return { c with details := ← Decode.text c.details v }

def readNodeFault : NodeFault → Source → Decode Empty NodeFault :=
  Decode.record .lenient ["class_type", "errors"] fun n field v =>
    match field with
    | "class_type" => return { n with nodeClass := ← Decode.text n.nodeClass v }
    | _ => return { n with complaints := ← Decode.list {} readComplaint n.complaints v }

/-- The error and the nodes at fault, of an answer that has them. -/
structure Report where
  error : Option Source := none
  nodes : Option (Assoc NodeFault) := none

def readReport : Report → Source → Decode Empty Report :=
  Decode.record .lenient ["error", "node_errors"] fun r field v =>
    match field with
    | "error" => return { r with error := ← Decode.written r.error v }
    | _ => return { r with nodes := ← Decode.table {} readNodeFault r.nodes v }

/-- Texts that are no report are shown up to this many octets. -/
def textLimit : Nat := 500

def shorten (s : String) : String :=
  if Text.octetLength s ≤ textLimit then s else Text.cut textLimit s ++ "..."

/-- What an answer with an error status says. Its error is a text, or an object with a message. -/
def Fault.ofAnswer (status : Nat) (body : String) : Fault :=
  match Decode.ofText? (readReport {}) body with
  | none => { status, message := shorten (Text.trim body) }
  | some report =>
    let fault : Fault := { status, nodes := report.nodes }
    match report.error with
    | none => fault
    | some e =>
      match Decode.ofSource? (Decode.text "") e with
      | some message => { fault with message }
      | none =>
        match Decode.ofSource? (readComplaint {}) e with
        | some c => { fault with type := c.type, message := c.message, details := c.details }
        | none => fault

end PromptGraph.Server

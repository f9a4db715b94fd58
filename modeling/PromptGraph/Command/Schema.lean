/-
The command that fetches the table of a server.
-/
import PromptGraph.Command.Flag
import PromptGraph.Command.Session
import PromptGraph.Text.Columns

namespace PromptGraph.Command.Schema

variable {m : Type → Type} [World m]

def flags : List Flag := [
  toggle "refresh" "Fetch from the server even when the cache is fresh",
  { name := "output", short := some 'o', initial := .text "",
    help := "Also write the raw object-info JSON to this file" },
  toggle "list" "List node types and their input counts"]

/-- Puts a raw table into the store, which may fail without harm. -/
def keep (s : Session) (host raw : String) : Action m Unit := do
  if let some store ← (s.openStore : m _) then
    let (store, kept) := store.put host ⟨raw, ← (Clock.now : m _)⟩
    ExceptT.lift (s.keepStore (some store))
    if let .error reason := kept then
      log ⟨.warn, "failed to store object info", [("error", reason)]⟩

/-- Fetches the raw table from the server and writes it to a file. -/
def save (s : Session) (path : String) : Action m NodeTable := do
  let client ← s.client
  match ← (client.objectInfo none : m _) with
  | .error e =>
    fail (if e.isExpired then .timeout else .server) ("fetching object info: " ++ e.message)
  | .ok raw =>
    match NodeType.parseTable raw with
    | .error e => fail .server ("server returned unreadable object info: " ++ e.message)
    | .ok t =>
      if let .error e ← (Files.writeText path raw : m _) then
        fail .runtime ("writing output file: " ++ e.message)
      keep s client.host raw
      return t

/-- One row a type, below a heading. -/
def table (t : NodeTable) : String :=
  Text.columns (["TYPE", "INPUTS", "OUTPUTS"] ::
    t.map fun (name, type) => [name, toString type.inputs.length, toString type.outputs.length])

def run (s : Session) (i : Invocation) : Action m Unit := do
  let path := i.textOf "output"
  let t ← if path = "" then s.serverTable (i.isOn "refresh") else save s path
  if i.isOn "list" then out (table t)
  else out (toString t.length ++ " node types from " ++ s.settings.host ++ "\n")

end PromptGraph.Command.Schema

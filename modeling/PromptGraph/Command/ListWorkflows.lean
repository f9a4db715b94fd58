/-
The command that lists workflows.
-/
import PromptGraph.Command.Flag
import PromptGraph.Command.Session
import PromptGraph.Text.Columns

namespace PromptGraph.Command.ListWorkflows

variable {m : Type → Type} [World m]

def flags : List Flag := [
  { name := "format", initial := .text "table", help := "Output format: table | json" }]

def entryJson (e : Library.Entry) : Json :=
  .object [("name", .string e.name), ("path", .string e.path), ("rel", .string e.rel),
    ("category", .string e.category)]

/-- One row an entry, numbered from one, below a heading. -/
def table (entries : List Library.Entry) : String :=
  Text.columns (["#", "CATEGORY", "NAME", "PATH"] ::
    entries.zipIdx.map fun (e, i) => [toString (i + 1), e.category, e.name, e.rel])

def run (s : Session) (i : Invocation) : Action m Unit := do
  let directories := s.settings.workflowDirs
  match ← (Library.list directories : m _) with
  | .error e => fail .runtime ("listing workflows: " ++ e.message)
  | .ok entries =>
    match i.textOf "format" with
    | "json" => out ((Json.array (entries.map entryJson)).pretty ++ "\n")
    | "table" =>
      if entries.isEmpty then out ("No workflows found in " ++ Log.list directories ++ "\n")
      else out (table entries)
    | format =>
      fail .input ("unknown format " ++ Text.Quoted.encode format ++ " (use table or json)")

end PromptGraph.Command.ListWorkflows

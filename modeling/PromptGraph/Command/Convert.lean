/-
The command that converts a workflow and writes the execution graph.
-/
import PromptGraph.Command.Flag
import PromptGraph.Command.Report
import PromptGraph.Command.Session

namespace PromptGraph.Command

variable {m : Type → Type} [World m]

/-- Flags of every command that compiles a workflow. -/
def compileFlags : List Flag := [
  textFlag "schema" "Read object info from this file instead of the server",
  toggle "no-preprocess" "Skip bypass, reroute, primitive and virtual-wire rewriting"]

def compileOptions (i : Invocation) : Session.CompileOptions :=
  { schemaFile := i.textOf "schema", asIs := i.isOn "no-preprocess" }

namespace Convert

def flags : List Flag := compileFlags ++ [
  { name := "output", short := some 'o', initial := .text "",
    help := "Output file path (default: stdout)" },
  { name := "pretty", initial := .toggle true, help := "Pretty-print JSON output" },
  toggle "strict" "Fail when the conversion produced warnings"]

def run (s : Session) (i : Invocation) (name : String) : Action m Unit := do
  let c ← s.compile name (compileOptions i)
  let ds := c.result.diagnostics
  if !ds.isEmpty && !s.quiet then err (reportText ds)
  if failsOn (i.isOn "strict") ds then
    fail .validation ("conversion produced " ++ count ds.length "warning")
  let g := c.result.graph
  let text := (if i.isOn "pretty" then g.pretty else g.write) ++ "\n"
  let path := i.textOf "output"
  if path = "" then out text
  else
    match ← (Files.writeText path text : m _) with
    | .error e => fail .runtime ("writing output file: " ++ e.message)
    | .ok () =>
      if !s.quiet then err ("Wrote " ++ count g.length "node" ++ " to " ++ path ++ "\n")

end Convert

end PromptGraph.Command

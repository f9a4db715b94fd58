/-
The command that converts a workflow and checks the result.
-/
import PromptGraph.Command.Convert
import PromptGraph.Execution.Validation

namespace PromptGraph.Command.Validate

variable {m : Type → Type} [World m]

def flags : List Flag := compileFlags ++ [
  { name := "format", initial := .text "text", help := "Output format: text | json" },
  toggle "strict" "Treat warnings as errors"]

/-- What the conversion reported, then what is wrong with the graph. -/
def findings (c : Session.Compiled) : List Diagnostic :=
  c.result.diagnostics ++
    match c.table with
    | some t => c.result.graph.validateWith t
    | none => c.result.graph.validate

/-- The format is checked before anything else is done. -/
def check (i : Invocation) : Except Failure Unit :=
  let format := i.textOf "format"
  if format = "text" || format = "json" then .ok ()
  else
    .error ⟨.input, "unknown format " ++ Text.Quoted.encode format ++ " (use text or json)"⟩

def run (s : Session) (i : Invocation) (name : String) : Action m Unit := do
  check i
  let c ← s.compile name (compileOptions i)
  let ds := findings c
  out (if i.textOf "format" = "json" then reportJson ds else reportText ds)
  if failsOn (i.isOn "strict") ds then fail .validation "validation failed"

end PromptGraph.Command.Validate

/-
Diagnostics as a command shows them: a line for each and a tally, or a JSON list.
-/
import PromptGraph.Command.Exit
import PromptGraph.Diagnostic
import PromptGraph.Json.Printer

namespace PromptGraph.Command

def diagnosticLine (d : Diagnostic) : String :=
  d.code ++ " " ++ d.severity ++ (if d.path = "" then "" else " " ++ d.path) ++ ": " ++ d.message
    ++ "\n"

/-- How many errors and warnings there are. -/
def tally (ds : List Diagnostic) : String :=
  let errors := (ds.filter Diagnostic.isError).length
  let warnings := (ds.filter Diagnostic.isWarning).length
  if errors = 0 && warnings = 0 then "graph ok: no problems found\n"
  else
    (if errors = 0 then "graph ok" else "graph rejected") ++ ": " ++ count errors "error" ++ ", "
      ++ count warnings "warning" ++ "\n"

def reportText (ds : List Diagnostic) : String := String.join (ds.map diagnosticLine) ++ tally ds

def diagnosticJson (d : Diagnostic) : Json :=
  .object ([("code", .string d.code), ("severity", .string d.severity),
    ("message", .string d.message)] ++ if d.path = "" then [] else [("path", .string d.path)])

def reportJson (ds : List Diagnostic) : String :=
  (Json.array (ds.map diagnosticJson)).pretty ++ "\n"

/-- The diagnostics fail a command: errors always, warnings if it is strict. -/
def failsOn (strict : Bool) (ds : List Diagnostic) : Bool :=
  hasErrors ds || (strict && ds.any Diagnostic.isWarning)

end PromptGraph.Command

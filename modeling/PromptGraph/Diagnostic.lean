/-
Diagnostics: what conversion and validation have to say about a graph.
-/

namespace PromptGraph

structure Diagnostic where
  code : String
  severity : String
  message : String
  path : String := ""
  deriving DecidableEq, Inhabited

namespace Diagnostic

def isError (d : Diagnostic) : Bool := d.severity = "error"

def isWarning (d : Diagnostic) : Bool := d.severity = "warning"

def error (code path message : String) : Diagnostic := ⟨code, "error", message, path⟩

def warning (code path message : String) : Diagnostic := ⟨code, "warning", message, path⟩

end Diagnostic

def hasErrors (ds : List Diagnostic) : Bool := ds.any Diagnostic.isError

end PromptGraph

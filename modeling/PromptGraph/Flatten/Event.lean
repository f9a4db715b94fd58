/-
What a conversion reports while it runs.
-/

namespace PromptGraph.Flatten

/-- Why a node is not part of the result. -/
inductive DropReason where
  | disabled
  | uiOnly
  | unknownType
  | recursive
  deriving DecidableEq

def DropReason.name : DropReason → String
  | disabled => "disabled"
  | uiOnly => "ui_only"
  | unknownType => "unknown_type"
  | recursive => "recursive"

inductive Event where
  | started (nodes definitions : Nat) (source : String)
  | dropped (node type : String) (reason : DropReason)
  /-- An instance was inlined at this depth, adding `entries` entries and binding `outputs` ports. -/
  | expanded (node definition name : String) (depth entries outputs : Nat)
  | finished (entries instances diagnostics : Nat)
  deriving DecidableEq

end PromptGraph.Flatten

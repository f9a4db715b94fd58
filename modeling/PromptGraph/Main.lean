/-
The command line.
-/
import PromptGraph.Command.Program
import PromptGraph.Live.Connection
import PromptGraph.Live.Disk

namespace PromptGraph

instance : Command.World Live where

/-- The version that the program tells. -/
def version : String := "dev"

end PromptGraph

def main (words : List String) : IO UInt32 := do
  let least ← IO.mkRef PromptGraph.Log.Level.warn
  match ← (PromptGraph.Command.execute PromptGraph.version words : PromptGraph.Live _).run least with
  | .ok () => return 0
  | .error failure => return UInt32.ofNat failure.kind.code

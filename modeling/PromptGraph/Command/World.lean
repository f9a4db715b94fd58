/-
Everything that a command may ask of the world around it.
-/
import PromptGraph.Command.Exit
import PromptGraph.Files.Basic
import PromptGraph.NodeType.Store
import PromptGraph.Web.Request
import PromptGraph.World

namespace PromptGraph

/-- Stores that outlive a command, each at a path. -/
class Shelf (m : Type → Type) where
  load : String → m (Except String Store)
  save : String → Store → m Unit

namespace Command

class World (m : Type → Type) extends Monad m, Files m, Web.Network m, Clock m, Chance m, Console m,
  Environment m, Shelf m

/-- A part of a command, which may make the command fail. -/
abbrev Action (m : Type → Type) := ExceptT Failure m

variable {m : Type → Type} [World m]

def fail (kind : ExitKind) (message : String) : Action m α := throw ⟨kind, message⟩

def log (line : Log.Line) : Action m Unit := ExceptT.lift (Console.log line)

def out (text : String) : Action m Unit := ExceptT.lift (Console.out text)

def err (text : String) : Action m Unit := ExceptT.lift (Console.err text)

end Command

end PromptGraph

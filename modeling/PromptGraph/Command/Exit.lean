/-
How a command ends when it does not succeed: what to tell the user, and the number that tells the
caller what kind of failure it was.
-/

namespace PromptGraph.Command

inductive ExitKind where
  /-- The command line makes no sense. -/
  | usage
  /-- The graph is not fit to run. -/
  | validation
  | runtime
  | fileNotFound
  /-- An input cannot be read. -/
  | input
  | server
  /-- A file is no workflow. -/
  | wrongFormat
  | timeout
  deriving DecidableEq, Inhabited

def ExitKind.code : ExitKind → Nat
  | usage => 1
  | validation => 1
  | runtime => 2
  | fileNotFound => 3
  | input => 4
  | server => 5
  | wrongFormat => 6
  | timeout => 10

structure Failure where
  kind : ExitKind
  message : String
  deriving DecidableEq, Inhabited

/-- A number of things. -/
def count (n : Nat) (noun : String) : String :=
  toString n ++ " " ++ (if n = 1 then noun else noun ++ "s")

end PromptGraph.Command

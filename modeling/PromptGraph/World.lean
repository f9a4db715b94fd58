/-
What a program asks of the world around it besides files and servers: a clock, names that nobody
else has, and somewhere to write.
-/
import PromptGraph.Duration
import PromptGraph.Log

namespace PromptGraph

/-- What stops a wait from outside. -/
inductive Interruption where
  /-- The time that was allowed is over. -/
  | expired
  | cancelled
  deriving DecidableEq, Inhabited

def Interruption.message : Interruption → String
  | expired => "context deadline exceeded"
  | cancelled => "context canceled"

/-- A time after which a wait is given up, in nanoseconds since 1970. -/
abbrev Deadline := Option Int

class Clock (m : Type → Type) where
  /-- Nanoseconds since 1970. -/
  now : m Int
  /-- Somebody asked the program to stop. -/
  cancelled : m Bool
  /-- Waits, and tells whether nobody asked to stop in the meantime. -/
  pause : Duration → m Bool
  /-- Does something again and again, counting from one, until it says to stop. -/
  endlessly : (Nat → m Bool) → m Unit

/-- What stops a wait at this moment. -/
def Clock.interruption [Monad m] [Clock m] (deadline : Deadline) : m (Option Interruption) := do
  if ← Clock.cancelled then return some .cancelled
  match deadline with
  | none => return none
  | some t => return if t ≤ (← Clock.now) then some .expired else none

class Chance (m : Type → Type) where
  /-- A name that nothing else has. -/
  freshId : m String
  /-- A text that divides the parts of a message and is in none of them. -/
  freshBoundary : m String

class Console (m : Type → Type) where
  out : String → m Unit
  err : String → m Unit
  /-- Opens the log from a level on. -/
  openLog : Log.Level → m Unit
  /-- Writes a line, if the log is open for it. -/
  log : Log.Line → m Unit

class Environment (m : Type → Type) where
  /-- The value of a variable, empty when it is not set. -/
  valueOf : String → m String

end PromptGraph

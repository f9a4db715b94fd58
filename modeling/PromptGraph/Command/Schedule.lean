/-
The command that runs a workflow again and again, at times that recur. A run that fails is reported,
and the next one is waited for.
-/
import PromptGraph.Command.Run
import PromptGraph.Recurrence

namespace PromptGraph.Command.Schedule

variable {m : Type → Type} [World m]

def flags : List Flag := [
  { name := "cron", initial := .text "", required := true,
    help := "Five-field cron expression, evaluated in UTC (required)" },
  { name := "max-runs", initial := .number 0, help := "Stop after this many runs (0 = no limit)" }]
  ++ Run.flags

/-- Times are always those of UTC, so an expression names no zone. -/
def recurrence (text : String) : Except String Recurrence :=
  let text := Text.trim text
  if text = "" then .error "cron expression is required"
  else if Text.contains (Text.upper text) "TZ=" then
    .error "cron expression must be UTC-only (timezone prefixes are not allowed)"
  else
    match Recurrence.parse? text with
    | some r => .ok r
    | none => .error ("invalid cron expression: " ++ Text.complaint)

/-- The start of the calendar stands for a time that never comes. -/
def never : Int := DateTime.toUnix ⟨1, 1, 1, 0, 0, 0⟩

/-- How one run went. -/
inductive Outcome where
  | cancelled
  | failed
  | finished
  deriving DecidableEq

/-- Waits for the next time and runs the workflow. -/
def step (s : Session) (o : Run.Options) (r : Recurrence) (number : Nat) : m Outcome := do
  let now ← Clock.now
  let next := (r.next? (Int.fdiv now Duration.second)).getD never
  if !s.quiet then Console.err ("Next run at " ++ (DateTime.ofUnix next).iso ++ "\n")
  if !(← Clock.pause (Duration.between now (next * Duration.second))) then return .cancelled
  Console.log ⟨.info, "scheduled run starting",
    [("run", toString number), ("workflow", o.workflow)]⟩
  match ← (Run.once s o).run with
  | .error e =>
    Console.log ⟨.error, "scheduled run failed", [("run", toString number), ("error", e.message)]⟩
    return .failed
  | .ok saved =>
    Console.log ⟨.info, "scheduled run finished",
      [("run", toString number), ("outputs", toString saved.length)]⟩
    return .finished

/-- Some runs, the first with the given number: how many failed, or nothing if they were cancelled. -/
def steps (s : Session) (o : Run.Options) (r : Recurrence) : Nat → Nat → Nat → m (Option Nat)
  | 0, _, failed => return some failed
  | left + 1, number, failed => do
    match ← step s o r number with
    | .cancelled => return none
    | .failed => steps s o r left (number + 1) (failed + 1)
    | .finished => steps s o r left (number + 1) failed

def run (s : Session) (i : Invocation) (name : String) : Action m Unit := do
  let limit := i.numberOf "max-runs"
  if limit < 0 then fail .input "--max-runs must not be negative"
  let r ← match recurrence (i.textOf "cron") with
    | .ok r => pure r
    | .error reason => fail .input reason
  let o ← Run.options s i name
  -- A name that leads nowhere fails before the first wait.
  let _ ← s.resolve o.workflow
  if limit = 0 then
    ExceptT.lift <| Clock.endlessly fun number => do
      return (← step s o r number) ≠ .cancelled
  else
    let failed ← (steps s o r limit.toNat 1 0 : m _)
    if let some failed := failed then
      if 0 < failed then
        fail .runtime
          (toString failed ++ " of " ++ count limit.toNat "scheduled run" ++ " failed")

end PromptGraph.Command.Schedule

/-
Times that recur: five fields for the minute, the hour, the day of the month, the month and the day
of the week. A field is a list of ranges with steps. When both days are restricted, one of them has
to fit; else both have to.
-/
import PromptGraph.Calendar
import PromptGraph.Number.Integer
import PromptGraph.Text.Letter
import PromptGraph.Text.Space

namespace PromptGraph

/-- The values that fit a field. -/
structure Recurrence.Field where
  fits : List Nat
  /-- Some part of the field is a star without a step. -/
  starred : Bool := false
  deriving DecidableEq, Inhabited

open Recurrence (Field) in
structure Recurrence where
  minute : Field
  hour : Field
  day : Field
  month : Field
  weekday : Field
  deriving DecidableEq, Inhabited

namespace Recurrence

-- ==== reading

/-- What a field may hold: its least and greatest value, and names for values. -/
structure Bounds where
  least : Nat
  greatest : Nat
  names : List (String × Nat) := []

def minutes : Bounds := ⟨0, 59, []⟩

def hours : Bounds := ⟨0, 23, []⟩

def days : Bounds := ⟨1, 31, []⟩

def months : Bounds :=
  ⟨1, 12, [("jan", 1), ("feb", 2), ("mar", 3), ("apr", 4), ("may", 5), ("jun", 6), ("jul", 7),
    ("aug", 8), ("sep", 9), ("oct", 10), ("nov", 11), ("dec", 12)]⟩

def weekdays : Bounds :=
  ⟨0, 6, [("sun", 0), ("mon", 1), ("tue", 2), ("wed", 3), ("thu", 4), ("fri", 5), ("sat", 6)]⟩

/-- The parts between separators, empty ones too. -/
def split (sep : Char) (cs : List Char) : List (List Char) :=
  match cs with
  | [] => [[]]
  | c :: rest =>
    match split sep rest with
    | [] => [[]]
    | part :: parts => if c = sep then [] :: part :: parts else (c :: part) :: parts

def natural? (cs : List Char) : Option Nat :=
  match Number.int64? (String.ofList cs) with
  | some n => if 0 ≤ n then some n.toNat else none
  | none => none

def valueOf? (b : Bounds) (cs : List Char) : Option Nat :=
  match b.names.find? (·.1 = Text.lower (String.ofList cs)) with
  | some (_, n) => some n
  | none => natural? cs

/-- The ends of a range. A single value has one end only. -/
def ends? (b : Bounds) (cs : List Char) : Option (Nat × Option Nat × Bool) :=
  match split '-' cs with
  | [] => none
  | low :: more =>
    if low = ['*'] || low = ['?'] then some (b.least, some b.greatest, true)
    else
      match more with
      | [] => (valueOf? b low).map fun n => (n, none, false)
      | [high] => do return (← valueOf? b low, some (← valueOf? b high), false)
      | _ => none

/-- A range with a step; a single value with a step runs to the end. -/
def range? (b : Bounds) (cs : List Char) : Option Field := do
  let (span, step) ← match split '/' cs with
    | [span] => some (span, none)
    | [span, step] => do pure (span, some (← natural? step))
    | _ => none
  let (low, high, star) ← ends? b span
  let high := high.getD (if step.isSome then b.greatest else low)
  let width := step.getD 1
  if low < b.least || b.greatest < high || high < low || width = 0 then none
  else
    let fits := (List.range (high + 1)).filter fun n => low ≤ n && (n - low) % width = 0
    some { fits, starred := star && width ≤ 1 }

def field? (b : Bounds) (s : String) : Option Field := do
  let parts ← ((split ',' s.toList).filter (· ≠ [])).mapM (range? b)
  return { fits := parts.flatMap (·.fits), starred := parts.any (·.starred) }

/-- Reads five fields. -/
def parse? (s : String) : Option Recurrence :=
  if s.toList.head? = some '@' then none
  else
    match Text.fields s with
    | [minute, hour, day, month, weekday] => do
      return {
        minute := ← field? minutes minute
        hour := ← field? hours hour
        day := ← field? days day
        month := ← field? months month
        weekday := ← field? weekdays weekday }
    | _ => none

-- ==== next

def Field.has (f : Field) (n : Nat) : Bool := f.fits.contains n

/-- A day, counted from 1 January 1970, is one on which times recur. -/
def onDay (r : Recurrence) (day : Int) : Bool :=
  let (_, month, dayOfMonth) := Calendar.dateOfDay day
  let byDate := r.day.has dayOfMonth
  let byWeekday := r.weekday.has (Calendar.weekdayOfDay day)
  r.month.has month
    && if r.day.starred || r.weekday.starred then byDate && byWeekday else byDate || byWeekday

/-- The first minute of a day, from `start` on, at which times recur. -/
def minuteFrom? (r : Recurrence) (start : Nat) : Option Nat :=
  (List.range 1440).find? fun m =>
    start ≤ m && r.hour.has (m / 60) && r.minute.has (m % 60)

/-- The first time among `count` days, in minutes of the given day and those after it. -/
def search (r : Recurrence) : Nat → Int → Nat → Option Int
  | 0, _, _ => none
  | count + 1, day, start =>
    match if r.onDay day then r.minuteFrom? start else none with
    | some m => some (day * Calendar.secondsPerDay + 60 * (m : Int))
    | none => search r count (day + 1) 0

/-- How many years ahead a time is looked for. -/
def horizon : Int := 5

/-- The first time after `now`, both in seconds since 1970, if there is one before the horizon. -/
def next? (r : Recurrence) (now : Int) : Option Int :=
  let first := now + 1
  let day := Int.fdiv first Calendar.secondsPerDay
  let rest := (first - day * Calendar.secondsPerDay).toNat
  let last := Calendar.dayOfDate ((Calendar.dateOfDay day).1 + horizon) 12 31
  search r (last - day + 1).toNat day ((rest + 59) / 60)

end Recurrence

end PromptGraph

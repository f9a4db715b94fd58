/-
Civil dates and times of day in the Gregorian calendar, counted in seconds from the start of 1970.
-/

namespace PromptGraph

structure DateTime where
  year : Int
  month : Nat
  day : Nat
  hour : Nat
  minute : Nat
  second : Nat
  deriving DecidableEq, Inhabited

namespace Calendar

def secondsPerDay : Int := 86400

/-- The date of a day counted from 1 January 1970. Years are taken to begin in March, so that the leap
day comes last; 400 of them have 146097 days. -/
def dateOfDay (day : Int) : Int × Nat × Nat :=
  let z := day + 719468
  let era := Int.fdiv z 146097
  let dayOfEra := (z - era * 146097).toNat
  let yearOfEra := (dayOfEra - dayOfEra / 1460 + dayOfEra / 36524 - dayOfEra / 146096) / 365
  let dayOfYear := dayOfEra - (365 * yearOfEra + yearOfEra / 4 - yearOfEra / 100)
  let shifted := (5 * dayOfYear + 2) / 153
  let month := if shifted < 10 then shifted + 3 else shifted - 9
  let year : Int := yearOfEra + era * 400 + (if month ≤ 2 then 1 else 0)
  (year, month, dayOfYear - (153 * shifted + 2) / 5 + 1)

/-- The day of a date, counted from 1 January 1970. -/
def dayOfDate (year : Int) (month day : Nat) : Int :=
  let y := if month ≤ 2 then year - 1 else year
  let era := Int.fdiv y 400
  let yearOfEra := (y - era * 400).toNat
  let shifted := if month > 2 then month - 3 else month + 9
  let dayOfYear := (153 * shifted + 2) / 5 + day - 1
  let dayOfEra := yearOfEra * 365 + yearOfEra / 4 - yearOfEra / 100 + dayOfYear
  era * 146097 + dayOfEra - 719468

/-- Sunday is 0. -/
def weekdayOfDay (day : Int) : Nat := (Int.emod (day + 4) 7).toNat

def isLeap (year : Int) : Bool :=
  year % 4 = 0 && (year % 100 ≠ 0 || year % 400 = 0)

def daysInMonth (year : Int) (month : Nat) : Nat :=
  if month = 2 then (if isLeap year then 29 else 28)
  else if month = 4 || month = 6 || month = 9 || month = 11 then 30
  else 31

end Calendar

namespace DateTime

def ofUnix (seconds : Int) : DateTime :=
  let day := Int.fdiv seconds Calendar.secondsPerDay
  let rest := (seconds - day * Calendar.secondsPerDay).toNat
  let (year, month, dayOfMonth) := Calendar.dateOfDay day
  ⟨year, month, dayOfMonth, rest / 3600, rest / 60 % 60, rest % 60⟩

def toUnix (t : DateTime) : Int :=
  Calendar.dayOfDate t.year t.month t.day * Calendar.secondsPerDay
    + (t.hour * 3600 + t.minute * 60 + t.second : Nat)

/-- A number with at least `width` digits. -/
def padded (width n : Nat) : String :=
  let digits := Nat.toDigits 10 n
  String.ofList (List.replicate (width - digits.length) '0' ++ digits)

def year4 (t : DateTime) : String :=
  if t.year < 0 then "-" ++ padded 4 t.year.natAbs else padded 4 t.year.toNat

/-- The form `2006-01-02T15:04:05Z`. -/
def iso (t : DateTime) : String :=
  t.year4 ++ "-" ++ padded 2 t.month ++ "-" ++ padded 2 t.day ++ "T" ++ padded 2 t.hour ++ ":"
    ++ padded 2 t.minute ++ ":" ++ padded 2 t.second ++ "Z"

end DateTime

end PromptGraph

/-
The world that a program really runs in: its clock, its console and its variables.
-/
import PromptGraph.Calendar
import PromptGraph.Text.Quoted
import PromptGraph.World
import Std.Time.DateTime.Timestamp

namespace PromptGraph

/-- Actions in the real world. The log is open from a level on. -/
abbrev Live := ReaderT (IO.Ref Log.Level) IO

namespace Live

/-- Nanoseconds since 1970. -/
def nanoseconds : IO Int :=
  return (← Std.Time.Timestamp.now).toNanosecondsSinceUnixEpoch.val

/-- A time to the millisecond, as log lines begin with it. -/
def stamp (now : Int) : String :=
  let t := DateTime.ofUnix (Int.fdiv now Duration.second)
  let rest := (Int.fmod now Duration.second).toNat / Duration.millisecond
  String.ofList (t.iso.toList.filter (· ≠ 'Z')) ++ "." ++ DateTime.padded 3 rest ++ "Z"

/-- The digits of octets in the base sixteen. -/
def hex (bs : List UInt8) : List Char := bs.flatMap fun b => Text.Quoted.hexDigits 2 b.toNat

/-- Sixteen octets as an id, marked as drawn by lot. -/
def idText (bs : List UInt8) : String :=
  let mark (i : Nat) (b : UInt8) : UInt8 :=
    if i = 6 then b &&& 0x0f ||| 0x40 else if i = 8 then b &&& 0x3f ||| 0x80 else b
  let digits := hex (bs.zipIdx.map fun (b, i) => mark i b)
  let part (start n : Nat) : String := String.ofList ((digits.drop start).take n)
  "-".intercalate [part 0 8, part 8 4, part 12 4, part 16 4, part 20 12]

partial def repeatFrom (step : Nat → Live Bool) (number : Nat) : Live Unit := do
  if ← step number then repeatFrom step (number + 1)

/-- Nobody asks the program to stop: who wants that ends it. -/
instance : Clock Live where
  now := nanoseconds
  cancelled := return false
  pause d := do
    IO.sleep (UInt32.ofNat (d.nanoseconds.toNat / Duration.millisecond))
    return true
  endlessly step := repeatFrom step 1

instance : Chance Live where
  freshId := return idText (← IO.getRandomBytes 16).toList
  freshBoundary := return String.ofList (hex (← IO.getRandomBytes 30).toList)

instance : Console Live where
  out s := do
    (← IO.getStdout).putStr s
    (← IO.getStdout).flush
  err s := do (← IO.getStderr).putStr s
  openLog least := do (← read).set least
  log line := do
    if line.passes (← (← read).get) then
      (← IO.getStderr).putStr ("time=" ++ stamp (← nanoseconds) ++ " " ++ line.text ++ "\n")

instance : Environment Live where
  valueOf name := return (← IO.getEnv name).getD ""

end Live

end PromptGraph

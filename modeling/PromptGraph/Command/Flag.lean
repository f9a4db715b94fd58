/-
Flags on a command line: `--name value`, `--name=value`, `-n value`, `-nvalue`, and several short
ones in one word. A toggle needs no value. What is no flag is an argument, and everything after a
bare `--` is one.
-/
import PromptGraph.Assoc
import PromptGraph.Duration
import PromptGraph.Number.Based
import PromptGraph.Text.Quoted

namespace PromptGraph.Command

-- ==== values

inductive FlagValue where
  | toggle (on : Bool)
  | text (s : String)
  | number (n : Int)
  | duration (d : Duration)
  deriving DecidableEq, Inhabited

def truth? (s : String) : Option Bool :=
  if ["1", "t", "T", "TRUE", "true", "True"].contains s then some true
  else if ["0", "f", "F", "FALSE", "false", "False"].contains s then some false
  else none

/-- A numeral that could not be read, and why. -/
def numeralError (reader s reason : String) : String :=
  "strconv." ++ reader ++ ": parsing " ++ Text.Quoted.encode s ++ ": " ++ reason

/-- A value of the same kind, read from a text. -/
def FlagValue.read (kind : FlagValue) (s : String) : Except String FlagValue :=
  match kind with
  | toggle _ =>
    match truth? s with
    | some b => .ok (toggle b)
    | none => .error (numeralError "ParseBool" s "invalid syntax")
  | text _ => .ok (text s)
  | number _ =>
    match Number.Based.read s with
    | .ok n => .ok (number n)
    | .error .malformed => .error (numeralError "ParseInt" s "invalid syntax")
    | .error .tooLarge => .error (numeralError "ParseInt" s "value out of range")
  | duration _ =>
    match Duration.read s with
    | .ok d => .ok (duration d)
    | .error e => .error e.message

-- ==== flags

structure Flag where
  name : String
  short : Option Char := none
  /-- The value when the flag is not given, which also fixes the kind of its values. -/
  initial : FlagValue
  required : Bool := false
  help : String := ""
  deriving Inhabited

def Flag.isToggle (f : Flag) : Bool :=
  match f.initial with
  | .toggle _ => true
  | _ => false

def toggle (name help : String) : Flag := { name, initial := .toggle false, help }

def textFlag (name help : String) : Flag := { name, initial := .text "", help }

/-- The flag as messages name it. -/
def Flag.title (f : Flag) : String :=
  match f.short with
  | some c => "-" ++ String.singleton c ++ ", --" ++ f.name
  | none => "--" ++ f.name

/-- What is wrong with a command line. -/
inductive UsageError where
  | badSyntax (word : String)
  | unknownFlag (name : String)
  | unknownShort (short : Char) (group : String)
  | noValue (name : String)
  | noShortValue (short : Char) (group : String)
  | badValue (flag : Flag) (value reason : String)

/-- A character in single quotes. -/
def quoteChar (c : Char) : String :=
  let inside := if c = '"' then ['"'] else if c = '\'' then ['\\', '\''] else Text.Quoted.escapeChar c
  "'" ++ String.ofList inside ++ "'"

def UsageError.message : UsageError → String
  | badSyntax word => "bad flag syntax: " ++ word
  | unknownFlag name => "unknown flag: --" ++ name
  | unknownShort c group => "unknown shorthand flag: " ++ quoteChar c ++ " in -" ++ group
  | noValue name => "flag needs an argument: --" ++ name
  | noShortValue c group => "flag needs an argument: " ++ quoteChar c ++ " in -" ++ group
  | badValue flag value reason =>
    "invalid argument " ++ Text.Quoted.encode value ++ " for " ++ Text.Quoted.encode flag.title
      ++ " flag: " ++ reason

-- ==== reading

/-- A command line that has been read: the values of all flags, the names of those that were given,
and the arguments. -/
structure Invocation where
  values : Assoc FlagValue := []
  given : List String := []
  arguments : List String := []
  deriving Inhabited

/-- A flag that waits for its value, and what to say if there is none. -/
structure Waiting where
  flag : Flag
  otherwise : UsageError

namespace Invocation

def put (i : Invocation) (f : Flag) (value : String) : Except UsageError Invocation :=
  match f.initial.read value with
  | .ok v => .ok { i with values := i.values.insert f.name v, given := f.name :: i.given }
  | .error reason => .error (.badValue f value reason)

/-- The first octet of a character, as a character. Applied twice, it gives all characters beyond
ASCII one name. -/
def firstOctet (c : Char) : Char :=
  match Text.octets (String.singleton c) with
  | b :: _ => Char.ofNat b.toNat
  | [] => c

/-- Reads a word of short flags. -/
def readShorts (flags : List Flag) (i : Invocation) :
    List Char → Except UsageError (Invocation × Option Waiting)
  | [] => .ok (i, none)
  | c :: rest =>
    match flags.find? (·.short = some c) with
    | none => .error (.unknownShort (firstOctet (firstOctet c)) (String.ofList (c :: rest)))
    | some f =>
      match rest with
      | '=' :: v :: value => do return (← i.put f (String.ofList (v :: value)), none)
      | _ =>
        if f.isToggle then do readShorts flags (← i.put f "true") rest
        else if rest.isEmpty then .ok (i, some ⟨f, .noShortValue c (String.singleton c)⟩)
        else do return (← i.put f (String.ofList rest), none)

/-- Reads a long flag, without its two dashes. -/
def readLong (flags : List Flag) (i : Invocation) (body : List Char) :
    Except UsageError (Invocation × Option Waiting) :=
  match body with
  | '-' :: _ | '=' :: _ => .error (.badSyntax (String.ofList ('-' :: '-' :: body)))
  | _ =>
    let name := String.ofList (body.takeWhile (· ≠ '='))
    match flags.find? (·.name = name) with
    | none => .error (.unknownFlag name)
    | some f =>
      match body.dropWhile (· ≠ '=') with
      | _ :: value => do return (← i.put f (String.ofList value), none)
      | [] =>
        if f.isToggle then do return (← i.put f "true", none)
        else .ok (i, some ⟨f, .noValue name⟩)

/-- Reads the words of a command line, the first of them as the value of a flag that waits. -/
def readWords (flags : List Flag) (i : Invocation) :
    Option Waiting → List String → Except UsageError Invocation
  | none, [] => .ok i
  | some w, [] => .error w.otherwise
  | some w, value :: rest => do readWords flags (← i.put w.flag value) none rest
  | none, word :: rest =>
    match word.toList with
    | ['-', '-'] => .ok { i with arguments := i.arguments ++ rest }
    | '-' :: '-' :: body => do
      let (i, waiting) ← i.readLong flags body
      readWords flags i waiting rest
    | '-' :: c :: group => do
      let (i, waiting) ← i.readShorts flags (c :: group)
      readWords flags i waiting rest
    | _ => readWords flags { i with arguments := i.arguments ++ [word] } none rest

def read (flags : List Flag) (words : List String) : Except UsageError Invocation :=
  let i : Invocation := { values := Assoc.ofList (flags.map fun f => (f.name, f.initial)) }
  i.readWords flags none words

-- ==== consulting

def isOn (i : Invocation) (name : String) : Bool :=
  match i.values.get? name with
  | some (.toggle b) => b
  | _ => false

def textOf (i : Invocation) (name : String) : String :=
  match i.values.get? name with
  | some (.text s) => s
  | _ => ""

def numberOf (i : Invocation) (name : String) : Int :=
  match i.values.get? name with
  | some (.number n) => n
  | _ => 0

def durationOf (i : Invocation) (name : String) : Duration :=
  match i.values.get? name with
  | some (.duration d) => d
  | _ => ⟨0⟩

/-- The required flags that are not given. -/
def missing (i : Invocation) (flags : List Flag) : List String :=
  (flags.filter fun f => f.required && !i.given.contains f.name).map (·.name)

end Invocation

end PromptGraph.Command

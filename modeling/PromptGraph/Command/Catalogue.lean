/-
The commands there are, and which of them a command line means. The command is the first word that
is neither a flag nor the value of one; a word that is no command is answered with the commands it
may have meant.
-/
import PromptGraph.Command.ListWorkflows
import PromptGraph.Command.Schedule
import PromptGraph.Command.Schema
import PromptGraph.Command.Validate

namespace PromptGraph.Command

/-- The name of the program. -/
def program : String := "promptc"

inductive Name where
  | convert
  | validate
  | run
  | schema
  | list
  | schedule
  | help
  | completion
  deriving DecidableEq, Inhabited

namespace Name

def all : List Name := [convert, validate, run, schema, list, schedule, help, completion]

def text : Name → String
  | convert => "convert"
  | validate => "validate"
  | run => "run"
  | schema => "schema"
  | list => "list"
  | schedule => "schedule"
  | help => "help"
  | completion => "completion"

def ofText? (s : String) : Option Name := all.find? (·.text = s)

def summary : Name → String
  | convert => "Convert an editor workflow to the execution format"
  | validate => "Convert a workflow and check the result without submitting it"
  | run => "Convert a workflow, submit it, and download its outputs"
  | schema => "Fetch and cache the server's object-info table"
  | list => "List workflows in the configured workflow directories"
  | schedule => "Run a workflow repeatedly on a UTC cron schedule"
  | help => "Help about any command"
  | completion => "Generate the autocompletion script for the specified shell"

/-- The command takes a workflow. -/
def takesWorkflow : Name → Bool
  | convert | validate | run | schedule => true
  | _ => false

def flags : Name → List Flag
  | convert => Convert.flags
  | validate => Validate.flags
  | run => Run.flags
  | schema => Schema.flags
  | list => ListWorkflows.flags
  | schedule => Schedule.flags
  | help | completion => []

end Name

/-- Flags of every command. -/
def sharedFlags : List Flag := [
  toggle "verbose" "Enable verbose/debug logging",
  toggle "quiet" "Suppress all output except errors",
  textFlag "config" "Path to promptc.yaml (default: ./promptc.yaml, then ~/.promptc/config.yaml)",
  textFlag "host" "ComfyUI server address (overrides config and COMFY_HOST)",
  textFlag "token" "ComfyUI API token (overrides config and COMFY_TOKEN)",
  textFlag "otlp-endpoint" "Export conversion traces over OTLP/HTTP to this endpoint"]

def helpFlag : Flag := { toggle "help" "help" with short := some 'h' }

def versionFlag : Flag := { toggle "version" "version" with short := some 'v' }

-- ==== finding words

/-- The word is a flag whose value is the next word, as far as the shared flags tell. -/
def takesNext (word : String) : Bool :=
  match word.toList with
  | ['-', '-'] => false
  | '-' :: '-' :: body =>
    !body.contains '=' && !sharedFlags.any fun f => f.isToggle && f.name = String.ofList body
  | ['-', c] => c ≠ '=' && c.toNat < 128
  | _ => false

def isFlag (word : String) : Bool :=
  match word.toList with
  | '-' :: '-' :: _ :: _ => true
  | '-' :: c :: _ => c ≠ '-'
  | _ => false

/-- The words that are neither flags nor values of flags. A flag that would take the last word takes
all that is left. -/
def bareWords : List String → List String
  | [] => []
  | word :: rest =>
    if word = "--" then []
    else if takesNext word then
      match rest with
      | _ :: next :: more => bareWords (next :: more)
      | _ => []
    else if word ≠ "" && !isFlag word then word :: bareWords rest
    else bareWords rest

/-- The words without the first bare one that is `name`. -/
def without (name : String) : List String → List String
  | [] => []
  | word :: rest =>
    if word = "--" then word :: rest
    else if takesNext word then
      match rest with
      | [] => [word]
      | value :: more => word :: value :: without name more
    else if !isFlag word && word = name then rest
    else word :: without name rest

-- ==== suggestions

/-- How many octets have to be put in, left out or changed to turn one text into the other. One row
of the table of distances is kept, for all beginnings of `t`. -/
def editDistance (s t : List UInt8) : Nat :=
  let first := List.range (t.length + 1)
  let last := s.zipIdx.foldl (fun row (a, i) => nextRow a (i + 1) row t) first
  last.getLastD 0
where
  /-- The row after `row`, of which `left` is the entry just made. -/
  nextRow (a : UInt8) (left : Nat) : List Nat → List UInt8 → List Nat
    | corner :: above :: row, b :: bs =>
      let entry := if a = b then corner else min (min left above) corner + 1
      left :: nextRow a entry (above :: row) bs
    | _, _ => [left]

/-- Texts that are this near are suggested. -/
def nearness : Nat := 2

/-- The commands that a word may have meant. -/
def suggestions (word : String) : List String :=
  let word := Text.lower word
  ((Name.all.filter (· ≠ .help)).map Name.text).filter fun name =>
    editDistance (Text.octets word) (Text.octets name) ≤ nearness
      || (Text.dropBeginning? name word).isSome

def unknownCommand (word : String) : String :=
  "unknown command " ++ Text.Quoted.encode word ++ " for " ++ Text.Quoted.encode program
    ++ match suggestions word with
      | [] => ""
      | names => "\n\nDid you mean this?\n" ++ String.join (names.map fun n => "\t" ++ n ++ "\n")

/-- The command that some words mean, and the words for it; none when there is no command among
them. -/
def locate (words : List String) : Except String (Option Name × List String) :=
  match bareWords words with
  | [] => .ok (none, words)
  | word :: _ =>
    match Name.ofText? word with
    | some name => .ok (some name, without word words)
    | none => .error (unknownCommand word)

end PromptGraph.Command

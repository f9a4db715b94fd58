/-
The whole program: it finds the command, reads its flags, loads the settings and runs it.
-/
import PromptGraph.Command.Catalogue

namespace PromptGraph.Command

variable {m : Type → Type} [World m]

-- ==== help

/-- The flags of a command, with those that every command has. -/
def flagsOf : Option Name → List Flag
  | none => versionFlag :: helpFlag :: sharedFlags
  | some name => helpFlag :: (name.flags ++ sharedFlags)

def flagHelp (flags : List Flag) : String :=
  Text.columns (flags.map fun f => ["  " ++ f.title, f.help])

/-- What the program, or one command of it, can do. -/
def helpText : Option Name → String
  | none =>
    "Convert and run ComfyUI workflows\n\nUsage:\n  " ++ program ++ " [command]\n\nCommands:\n"
      ++ Text.columns (Name.all.map fun n => ["  " ++ n.text, n.summary])
      ++ "\nFlags:\n" ++ flagHelp (flagsOf none)
  | some name =>
    name.summary ++ "\n\nUsage:\n  " ++ program ++ " " ++ name.text
      ++ (if name.takesWorkflow then " <workflow>" else "") ++ " [flags]\n\nFlags:\n"
      ++ flagHelp (flagsOf (some name))

-- ==== session

/-- The log is open for warnings, for everything, or for errors alone. -/
def logLevel (i : Invocation) : Log.Level :=
  if i.isOn "quiet" then .error else if i.isOn "verbose" then .debug else .warn

/-- Settings from the command line win over all others. -/
def withFlags (i : Invocation) (s : Settings) : Settings :=
  let pick (flag old : String) : String :=
    let value := Text.trim (i.textOf flag)
    if value = "" then old else value
  { s with
    host := pick "host" s.host
    token := pick "token" s.token
    traceEndpoint := pick "otlp-endpoint" s.traceEndpoint }

def openSession (i : Invocation) : Action m Session := do
  ExceptT.lift (Console.openLog (logLevel i))
  let settings ← match ← (Settings.load (Text.trim (i.textOf "config")) : m _) with
    | .ok s => pure (withFlags i s)
    | .error e => fail .fileNotFound ("loading config: " ++ e.message)
  if settings.path ≠ "" then
    log ⟨.debug, "config loaded", [("path", settings.path), ("host", settings.host)]⟩
  if settings.traceEndpoint ≠ "" then
    if ← (Clock.cancelled : m _) then
      fail .runtime ("otel: create exporter: " ++ Interruption.cancelled.message)
  return {
    settings, registry := settings.registry, quiet := i.isOn "quiet",
    clientId := ← (Chance.freshId : m _) }

-- ==== running

/-- The arguments fit the command. -/
def checkArguments (name : Name) (arguments : List String) : Except Failure Unit :=
  if name.takesWorkflow then
    if arguments.length = 1 then .ok ()
    else .error ⟨.usage, "accepts 1 arg(s), received " ++ toString arguments.length⟩
  else
    match arguments with
    | [] => .ok ()
    | word :: _ =>
      .error ⟨.usage, "unknown command " ++ Text.Quoted.encode word ++ " for "
        ++ Text.Quoted.encode (program ++ " " ++ name.text)⟩

def checkRequired (name : Name) (i : Invocation) : Except Failure Unit :=
  match i.missing name.flags with
  | [] => .ok ()
  | names =>
    .error ⟨.usage, "required flag(s) \"" ++ "\", \"".intercalate names ++ "\" not set"⟩

/-- Runs a command whose flags have been read. -/
def perform (name : Name) (i : Invocation) : Action m Unit := do
  checkArguments name i.arguments
  let s ← openSession i
  checkRequired name i
  let workflow := i.arguments.headD ""
  match name with
  | .convert => Convert.run s i workflow
  | .validate => Validate.run s i workflow
  | .run => Run.run s i workflow
  | .schema => Schema.run s i
  | .list => ListWorkflows.run s i
  | .schedule => Schedule.run s i workflow
  | .help | .completion => pure ()

/-- Runs the command that some words mean. -/
def dispatch (version : String) (command : Option Name) (words : List String) : Action m Unit := do
  let i ← match Invocation.read (flagsOf command) words with
    | .ok i => pure i
    | .error e => fail .usage e.message
  if i.isOn "help" then out (helpText command)
  else
    match command with
    | none =>
      if i.isOn "version" then out (program ++ " version " ++ version ++ "\n")
      else out (helpText none)
    | some .help | some .completion => out (helpText (i.arguments.head?.bind Name.ofText?))
    | some name => perform name i

/-- Runs the program. What goes wrong is told to the user, and to the caller. -/
def execute (version : String) (words : List String) : m (Except Failure Unit) := do
  match locate words with
  | .error message =>
    Console.err ("Error: " ++ message ++ "\nRun '" ++ program ++ " --help' for usage.\n")
    return .error ⟨.usage, message⟩
  | .ok (command, words) =>
    let result ← (dispatch version command words).run
    if let .error failure := result then Console.err ("Error: " ++ failure.message ++ "\n")
    return result

end PromptGraph.Command

/-
Settings of a command: where the server is, where workflows are, where results go. They come from a
file, then from the environment, then from defaults.
-/
import PromptGraph.Duration
import PromptGraph.Files.Basic
import PromptGraph.NodeClass
import PromptGraph.NodeType.Cache
import PromptGraph.Path
import PromptGraph.Settings.Expansion
import PromptGraph.Text.Complaint
import PromptGraph.Text.Letter
import PromptGraph.World
import PromptGraph.Yaml.Value

namespace PromptGraph

structure Settings where
  host : String := ""
  token : String := ""
  workflowDirs : List String := []
  outputDir : String := ""
  /-- Where tables are stored. -/
  cachePath : String := ""
  cacheLifetime : Duration := ⟨0⟩
  /-- Classes that only the editor knows. -/
  uiOnlyTypes : List String := []
  /-- Where traces go; empty for nowhere. -/
  traceEndpoint : String := ""
  /-- The file the settings come from, empty when there is none. -/
  path : String := ""
  deriving Inhabited

namespace Settings

/-- The word that means no store. -/
def isOff (path : String) : Bool := Text.lower path = "off" || path = "-"

def cacheDisabled (s : Settings) : Bool := isOff s.cachePath

-- ==== reading

open Yaml (Node Value)

/-- What a node says about a field that holds a text. The outer option is empty for nonsense, the
inner one for null. -/
def textOf : Node → Option (Option String)
  | .scalar tag text style =>
    match Value.ofScalar? tag text style with
    | none => none
    | some .null => some none
    | some v =>
      match tag, v with
      | "!!binary", .text s => some (some s)
      | _, _ => some (some text)
  | _ => none

/-- Entries that say nothing are left out. -/
def textsOf : Node → Option (Option (List String))
  | .sequence _ items => (items.mapM textOf).map fun texts => some (texts.filterMap fun t => t)
  | .scalar tag text style =>
    match Value.ofScalar? tag text style with
    | some .null => some (some [])
    | _ => none
  | .mapping .. => none

def durationOf : Node → Option (Option Duration)
  | .scalar tag text style =>
    match Value.ofScalar? tag text style with
    | some .null => some none
    | some (.text s) =>
      match Duration.read s with
      | .ok d => some (some d)
      | .error _ => none
    | _ => none
  | _ => none

/-- Fields of a mapping by name. Those that other mappings bring in come after its own. -/
def fieldsOf : Nat → Node → Option (List (String × Node))
  | 0, _ => none
  | fuel + 1, .mapping _ pairs => do
    if Node.hasRepeatedKey pairs then none
    let own ← (pairs.filter fun (k, _) => !k.isMerge).mapM fun (k, v) =>
      (textOf k).map fun name => (name, v)
    let named := own.filterMap fun (name, v) => name.map fun n => (n, v)
    let merged ← (pairs.filter fun (k, _) => k.isMerge).mapM fun (_, v) =>
      match v with
      | .mapping .. => (fieldsOf fuel v).map fun fs => [fs]
      | .sequence _ items =>
        items.mapM fun n => if n.isMapping then fieldsOf fuel n else none
      | .scalar .. => none
    return merged.flatten.foldl (fun acc fs =>
      acc ++ fs.filter fun (n, _) => !acc.any (·.1 = n)) named
  | _ + 1, _ => none

/-- Sets a field when there is something to set. -/
def assign (r : Option (Option α)) (set : α → Settings → Settings) (s : Settings) : Option Settings :=
  r.map fun
    | some v => set v s
    | none => s

/-- The fields of a mapping that may be left out. -/
def structureOf (n : Node) : Option (Option (List (String × Node))) :=
  match n with
  | .scalar tag text style =>
    match Value.ofScalar? tag text style with
    | some .null => some none
    | _ => none
  | .mapping .. => (fieldsOf 100 n).map some
  | .sequence .. => none

def readCacheField (s : Settings) : String × Node → Option Settings
  | ("path", n) => assign (textOf n) (fun v s => { s with cachePath := v }) s
  | ("ttl", n) => assign (durationOf n) (fun v s => { s with cacheLifetime := v }) s
  | _ => some s

def readField (s : Settings) : String × Node → Option Settings
  | ("host", n) => assign (textOf n) (fun v s => { s with host := v }) s
  | ("token", n) => assign (textOf n) (fun v s => { s with token := v }) s
  | ("workflow_dirs", n) => assign (textsOf n) (fun v s => { s with workflowDirs := v }) s
  | ("output_dir", n) => assign (textOf n) (fun v s => { s with outputDir := v }) s
  | ("ui_only_types", n) => assign (textsOf n) (fun v s => { s with uiOnlyTypes := v }) s
  | ("otlp_endpoint", n) => assign (textOf n) (fun v s => { s with traceEndpoint := v }) s
  | ("schema_cache", n) => do
    match ← structureOf n with
    | some fields => fields.foldlM readCacheField s
    | none => return s
  | _ => some s

/-- Reads settings from YAML. Fields that are not known are passed over. -/
def parse? (text : String) : Option Settings := do
  match ← Node.parse? text with
  | none => return {}
  | some n =>
    match ← structureOf n with
    | some fields => fields.foldlM readField {}
    | none => return {}

-- ==== resolving

/-- A tilde stands for the home directory. -/
def expandHome (home p : String) : String :=
  if p = "~" then home
  else
    match p.toList with
    | '~' :: '/' :: rest => if home = "" then p else Path.join [home, String.ofList rest]
    | _ => p

/-- A path of the file, which is relative to the file's directory. -/
def resolve (directory home p : String) : String :=
  let cleaned := Path.clean (expandHome home (Text.trim p))
  if Path.isAbsolute cleaned then cleaned else Path.join [directory, cleaned]

def resolvePaths (s : Settings) (home : String) : Settings :=
  let here := resolve (Path.dir s.path) home
  { s with
    workflowDirs := s.workflowDirs.map here
    outputDir := if s.outputDir = "" then "" else here s.outputDir
    cachePath := if s.cachePath = "" || isOff s.cachePath then s.cachePath else here s.cachePath }

/-- The variables that settings can come from. -/
def overridingNames : List String :=
  ["COMFY_HOST", "COMFY_TOKEN", "COMFY_WORKFLOW_DIRS", "PROMPTC_SCHEMA_CACHE"]

/-- What the environment says wins over the file. -/
def override (s : Settings) (home : String) (lookUp : String → String) : Settings :=
  let given (name : String) : String := Text.trim (lookUp name)
  let pick (name old : String) : String := if given name = "" then old else given name
  { s with
    host := pick "COMFY_HOST" s.host
    token := pick "COMFY_TOKEN" s.token
    workflowDirs :=
      if given "COMFY_WORKFLOW_DIRS" = "" then s.workflowDirs
      else
        let dirs := (Path.splitList (given "COMFY_WORKFLOW_DIRS")).map Text.trim
        (dirs.filter (· ≠ "")).map (expandHome home)
    cachePath :=
      if given "PROMPTC_SCHEMA_CACHE" = "" then s.cachePath
      else expandHome home (given "PROMPTC_SCHEMA_CACHE") }

def fillDefaults (s : Settings) (home : String) : Settings :=
  { s with
    host := if s.host = "" then "127.0.0.1:8188" else s.host
    workflowDirs := if s.workflowDirs.isEmpty then ["workflows", "."] else s.workflowDirs
    outputDir := if s.outputDir = "" then "output" else s.outputDir
    cachePath :=
      if s.cachePath = "" && home ≠ "" then Path.join [home, ".promptc", "schema.db"] else s.cachePath
    cacheLifetime := if s.cacheLifetime.nanoseconds ≤ 0 then Cache.day else s.cacheLifetime }

-- ==== loading

inductive LoadError where
  /-- Nobody's home is known. -/
  | homeless
  | missing (path : String)
  | unchecked (path : String) (cause : FileError)
  | unreadable (path : String) (cause : FileError)
  | malformed (path : String)
  deriving Inhabited

def LoadError.message : LoadError → String
  | homeless => "resolve user home: $HOME is not defined"
  | missing p => "config file " ++ Text.Quoted.encode p ++ " not found"
  | unchecked p cause => "checking config path " ++ Text.Quoted.encode p ++ ": " ++ cause.message
  | unreadable p cause => "reading config " ++ Text.Quoted.encode p ++ ": " ++ cause.message
  | malformed p => "parsing config " ++ Text.Quoted.encode p ++ ": " ++ Text.complaint

/-- The directories that settings are looked for in. -/
structure Surroundings where
  current : String
  home : String
  /-- Variables may set fields, besides being named in the file. -/
  overrides : Bool := true

variable {m : Type → Type} [Monad m] [Files m] [Environment m]

/-- The values of some variables. -/
def look (names : List String) : m (String → String) := do
  let values ← names.mapM fun name => do return (name, ← Environment.valueOf name)
  return fun name => (Assoc.get? values name).getD ""

/-- The first path that is a file. One that was asked for has to be there. -/
def discover (explicit : Bool) : List String → m (Except LoadError (Option String))
  | [] => return .ok none
  | p :: rest => do
    match ← Files.isDirectory p with
    | .ok false => return .ok (some p)
    | .ok true => discover explicit rest
    | .error .missing => if explicit then return .error (.missing p) else discover explicit rest
    | .error cause => return .error (.unchecked p ⟨"stat", p, cause⟩)

def candidates (around : Surroundings) (explicit : String) : List String :=
  if explicit ≠ "" then [Path.clean explicit]
  else
    [Path.join [around.current, "promptc.yaml"], Path.join [around.home, ".promptc", "config.yaml"]]

def readFile (around : Surroundings) (p : String) : m (Except LoadError Settings) := do
  match ← Files.readText p with
  | .error e => return .error (.unreadable p e)
  | .ok text =>
    match parse? (expand (← look (variableNames text)) text) with
    | none => return .error (.malformed p)
    | some s => return .ok ({ s with path := p }.resolvePaths around.home)

/-- Loads the settings, from the file at `explicit` when it is given. -/
def loadFrom (around : Surroundings) (explicit : String) : m (Except LoadError Settings) := do
  let explicit := Text.trim explicit
  let lookUp ← if around.overrides then look overridingNames else pure fun _ => ""
  let finish (s : Settings) : Settings := (s.override around.home lookUp).fillDefaults around.home
  match ← discover (explicit ≠ "") (candidates around explicit) with
  | .error e => return .error e
  | .ok none => return .ok (finish {})
  | .ok (some p) => return (← readFile around p).map finish

/-- Loads the settings of the current directory and user. -/
def load (explicit : String) : m (Except LoadError Settings) := do
  let home ← Environment.valueOf "HOME"
  if home = "" then return .error .homeless
  loadFrom { current := ← Files.currentDirectory, home } explicit

/-- The built-in classes and the configured ones. -/
def registry (s : Settings) : Registry :=
  s.uiOnlyTypes.foldl (fun r name =>
    let name := Text.trim name
    if name = "" || r.has name then r
    else r.register ⟨name, Category.annotated, name, "Configured editor-only class", true⟩) .builtin

end Settings

end PromptGraph

/-
The workflow files below some directories, and finding one by its path, number or name.
-/
import PromptGraph.Files.Basic
import PromptGraph.Library.Format
import PromptGraph.Number.Integer
import PromptGraph.Text.Infix

namespace PromptGraph.Library

structure Entry where
  name : String
  path : String
  /-- The way from the directory it was found in. -/
  rel : String
  /-- The directory below the one it was found in. -/
  category : String
  deriving DecidableEq, Inhabited

-- ==== listing

def isWorkflowFile (name : String) : Bool :=
  let ext := Text.lower (Path.extension name)
  ext = ".json" || ext = ".yaml" || ext = ".yml"

def isHidden (name : String) : Bool := name.toList.head? = some '.'

mutual

/-- The paths and names of the workflow files at a place and below it. -/
def filesAt (path name : String) : Listing → List (String × String)
  | .file => if isWorkflowFile name then [(path, name)] else []
  | .directory entries => filesBelow path entries

/-- The same for what is in a directory. Hidden files and directories are passed over. -/
def filesBelow (path : String) : List (String × Listing) → List (String × String)
  | [] => []
  | (name, l) :: rest =>
    (if isHidden name then [] else filesAt (Path.join [path, name]) name l) ++ filesBelow path rest

end

/-- The entry of a file found below a directory. -/
def entryOf (directory path name : String) : Entry :=
  let rel := (Path.relative? directory path).getD path
  let category := Path.dir rel
  ⟨name, path, rel, if category = "." then "Uncategorized" else category⟩

def absolute (current path : String) : String :=
  if Path.isAbsolute path then Path.clean path else Path.join [current, path]

/-- Adds the files of one directory that are not known by another path. -/
def addFiles (current directory : String) (found : List (String × String)) (entries : List Entry) :
    List Entry :=
  found.foldl (fun entries (path, name) =>
    if entries.any fun e => absolute current e.path = absolute current path then entries
    else entries ++ [entryOf directory path name]) entries

/-- By category, then by name. -/
def precedes (a b : Entry) : Bool :=
  if a.category ≠ b.category then a.category < b.category else a.name ≤ b.name

/-- A directory that could not be listed. -/
structure ListError where
  directory : String
  cause : FileError
  deriving Inhabited

def ListError.message (e : ListError) : String := "listing " ++ e.directory ++ ": " ++ e.cause.message

variable {m : Type → Type} [Monad m] [Files m]

def listFrom (current : String) : List String → List Entry → m (Except ListError (List Entry))
  | [], entries => return .ok entries
  | directory :: rest, entries => do
    match ← Files.listing directory with
    | .error .missing => listFrom current rest entries
    | .error cause => return .error ⟨directory, ⟨"lstat", directory, cause⟩⟩
    | .ok l =>
      listFrom current rest
        (addFiles current directory (filesAt directory (Path.base directory) l) entries)

/-- The workflow files below some directories. Directories that do not exist are passed over. -/
def list (directories : List String) : m (Except ListError (List Entry)) := do
  match ← listFrom (← Files.currentDirectory) directories [] with
  | .ok entries => return .ok (entries.mergeSort precedes)
  | .error e => return .error e

-- ==== finding

inductive FindError where
  | list (cause : ListError)
  | missing (name : String)
  | ambiguous (name : String) (candidates : List String)
  deriving Inhabited

def FindError.message : FindError → String
  | list cause => cause.message
  | missing name => Text.Quoted.encode name ++ ": workflow not found"
  | ambiguous name candidates =>
    "workflow name " ++ Text.Quoted.encode name ++ " is ambiguous: " ++ ", ".intercalate candidates

/-- The entry with a number, counted from one. -/
def numbered? (entries : List Entry) (name : String) : Option Entry := do
  let i ← Number.int64? name
  if 1 ≤ i then entries[i.toNat - 1]? else none

def isNamed (name : String) (e : Entry) : Bool :=
  e.name = name || e.rel = name || Path.trimExtension e.name = name
    || Path.trimExtension e.rel = name

/-- An entry by its number, its name, or a part of its name. -/
def choose (entries : List Entry) (name : String) : Except FindError Entry :=
  match (numbered? entries name).or (entries.find? (isNamed name)) with
  | some e => .ok e
  | none =>
    match entries.filter fun e => Text.contains (Text.lower e.rel) (Text.lower name) with
    | [] => .error (.missing name)
    | [e] => .ok e
    | several => .error (.ambiguous name (several.map (·.rel)))

/-- The path of a workflow: a file that is there, or an entry of the listing. -/
def find (name : String) (directories : List String) : m (Except FindError String) := do
  match ← Files.isDirectory name with
  | .ok false => return .ok name
  | _ =>
    match ← list directories with
    | .error e => return .error (.list e)
    | .ok entries => return (choose entries name).map (·.path)

-- ==== reading

inductive ReadError where
  | missing (path : String)
  | unreadable (path : String) (cause : FileError)
  | format (path : String) (cause : FormatError)
  deriving Inhabited

def ReadError.message : ReadError → String
  | missing path => "reading file " ++ path ++ ": workflow not found"
  | unreadable path cause => "reading file " ++ path ++ ": " ++ cause.message
  | format path cause => path ++ ": " ++ cause.message

/-- The content of a workflow file as JSON, and its kind. -/
def read (path : String) : m (Except ReadError (String × Format)) := do
  match ← Files.readText path with
  | .error e =>
    return .error (if e.cause = .missing then .missing path else .unreadable path e)
  | .ok text =>
    let decoded : Except FormatError (String × Format) := do
      let json ← toJsonText text path
      return (json, ← detectJson json)
    return decoded.mapError (.format path)

end PromptGraph.Library

/-
A tree of files held in memory.
-/
import PromptGraph.Files.Basic
import PromptGraph.Path
import PromptGraph.Text.Octets

namespace PromptGraph

inductive FileTree where
  | file (content : ByteArray)
  | directory (entries : List (String × FileTree))
  deriving Inhabited

namespace FileTree

def empty : FileTree := directory []

/-- One step down. -/
def child (t : FileTree) (name : String) : Except FileCause FileTree :=
  match t with
  | file _ => .error .notDirectory
  | directory entries =>
    if 255 < Text.octetLength name then .error .nameTooLong
    else
      match Assoc.get? entries name with
      | some t => .ok t
      | none => .error .missing

-- ==== resolving

/-- Follows the parts of a path. `above` holds the names of the directories passed, innermost first.
Two dots leave a directory, so what stands before them has to be one. -/
def follow (root : FileTree) : List String → List String → Except FileCause (List String)
  | above, [] => .ok above
  | above, part :: rest => do
    let here ← above.reverse.foldlM child root
    match here with
    | file _ => .error .notDirectory
    | directory _ =>
      if part = "" || part = "." then follow root above rest
      else if part = ".." then follow root (above.drop 1) rest
      else
        let _ ← child here part
        follow root (part :: above) rest

/-- The names from the root to the place a path leads to. -/
def locate (root : FileTree) (current path : String) : Except FileCause (List String) :=
  if path = "" then .error .missing
  else if path.toList.contains '\x00' then .error .invalid
  else do
    let start ← if Path.isAbsolute path then .ok [] else follow root [] (Path.components current)
    return (← follow root start (Path.components path)).reverse

def get (root : FileTree) (names : List String) : Except FileCause FileTree :=
  names.foldlM child root

/-- The tree with something new at a place whose directory is there. -/
def put : FileTree → List String → FileTree → FileTree
  | _, [], new => new
  | file c, _ :: _, _ => file c
  | directory entries, name :: rest, new =>
    let old := (Assoc.get? entries name).getD empty
    directory (Assoc.insert entries name (put old rest new))

mutual

def toListing : FileTree → Listing
  | file _ => .file
  | directory entries => .directory (toListings entries)

def toListings : List (String × FileTree) → List (String × Listing)
  | [] => []
  | (name, t) :: rest => (name, toListing t) :: toListings rest

/-- The contents of all files by their paths. -/
def contents (above : String) : FileTree → List (String × ByteArray)
  | file c => [(above, c)]
  | directory entries => contentsOf above entries

def contentsOf (above : String) : List (String × FileTree) → List (String × ByteArray)
  | [] => []
  | (name, t) :: rest =>
    contents (if above = "" then name else above ++ "/" ++ name) t ++ contentsOf above rest

end

end FileTree

-- ==== the disk

structure Disk where
  root : FileTree := .empty
  current : String := "/"
  deriving Inhabited

namespace Disk

def locate (d : Disk) (path : String) : Except FileCause (List String) := d.root.locate d.current path

def find (d : Disk) (path : String) : Except FileCause FileTree := do d.root.get (← d.locate path)

def isDirectory (d : Disk) (path : String) : Except FileCause Bool := do
  return (← d.find path).toListing.isDirectory

def listing (d : Disk) (path : String) : Except FileCause Listing := do return (← d.find path).toListing

def read (d : Disk) (path : String) : Except FileError ByteArray :=
  match d.find path with
  | .ok (.file c) => .ok c
  | .ok (.directory _) => .error ⟨"read", path, .isDirectory⟩
  | .error e => .error ⟨"open", path, e⟩

/-- The directory a new file would stand in, and its name. -/
def placeFor (d : Disk) (path : String) : Except FileCause (List String × String) := do
  match (Path.components path).reverse with
  | [] => .error .missing
  | name :: before =>
    let parent := "/".intercalate before.reverse ++ (if before.isEmpty then "." else "/")
    let names ← d.locate parent
    let t ← d.root.get names
    if !t.toListing.isDirectory then .error .notDirectory
    else if name = "" || name = "." || name = ".." then .error .isDirectory
    else if 255 < Text.octetLength name then .error .nameTooLong
    else return (names, name)

def write (d : Disk) (path : String) (content : ByteArray) : Disk × Except FileError Unit :=
  let refuse (e : FileCause) : Disk × Except FileError Unit := (d, .error ⟨"open", path, e⟩)
  match d.find path with
  | .ok (.directory _) => refuse .isDirectory
  | .ok (.file _) =>
    match d.locate path with
    | .ok names => ({ d with root := d.root.put names (.file content) }, .ok ())
    | .error e => refuse e
  | .error .missing =>
    if path = "" then refuse .missing
    else
      match d.placeFor path with
      | .ok (names, name) => ({ d with root := d.root.put (names ++ [name]) (.file content) }, .ok ())
      | .error e => refuse e
  | .error e => refuse e

/-- The paths to make, outermost first: each is the path up to the end of one of its parts. -/
def stages (path : String) : List String :=
  let parts := Path.components path
  (List.range parts.length).filterMap fun i =>
    if parts[i]? = some "" then none else some ("/".intercalate (parts.take (i + 1)))

def makeDirectory (d : Disk) (path : String) : Disk × Except FileError Unit :=
  match d.find path with
  | .ok (.directory _) => (d, .ok ())
  | .ok (.file _) => (d, .error ⟨"mkdir", path, .notDirectory⟩)
  | .error _ =>
    match d.placeFor path with
    | .ok (names, name) => ({ d with root := d.root.put (names ++ [name]) .empty }, .ok ())
    | .error e => (d, .error ⟨"mkdir", path, e⟩)

def makeAll : List String → Disk → Disk × Except FileError Unit
  | [], d => (d, .ok ())
  | p :: rest, d =>
    match d.makeDirectory p with
    | (d, .ok ()) => makeAll rest d
    | (d, .error e) => (d, .error e)

def makeDirectories (d : Disk) (path : String) : Disk × Except FileError Unit :=
  match d.find path with
  | .ok (.directory _) => (d, .ok ())
  | .ok (.file _) => (d, .error ⟨"mkdir", path, .notDirectory⟩)
  | .error _ =>
    if path = "" then (d, .error ⟨"mkdir", path, .missing⟩) else makeAll (stages path) d

end Disk

end PromptGraph

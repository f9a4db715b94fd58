/-
The files of the machine.
-/
import PromptGraph.Command.World
import PromptGraph.Live.Basic
import PromptGraph.NodeType.Archive
import PromptGraph.Path

namespace PromptGraph.Live

/-- Why an operation on a path failed. -/
def causeOf : IO.Error → FileCause
  | .noFileOrDirectory _ _ _ => .missing
  | .permissionDenied _ _ _ => .denied
  | .inappropriateType _ _ _ => .notDirectory
  | .invalidArgument _ _ _ => .invalid
  | .resourceExhausted _ _ "file name too long" => .nameTooLong
  | e => .other e.toString

def attempt (action : IO α) : Live (Except FileCause α) := do
  match ← action.toBaseIO with
  | .ok a => return .ok a
  | .error e => return .error (causeOf e)

def isDirectory (path : String) : IO Bool := do
  return (← (← IO.FS.realPath path).metadata).type == .dir

/-- All below a path; links below it are not followed. -/
partial def listing (path : String) : IO Listing := do
  if !(← isDirectory path) then return .file
  let below ← (← (← IO.FS.realPath path).readDir).toList.mapM fun e => do
    let type := (← e.path.symlinkMetadata).type
    return (e.fileName, ← if type == .dir then listing e.path.toString else pure .file)
  return .directory (Assoc.ofList below)

def read (path : String) : Live (Except FileError ByteArray) := do
  match ← attempt (isDirectory path) with
  | .error cause => return .error ⟨"open", path, cause⟩
  | .ok true => return .error ⟨"read", path, .isDirectory⟩
  | .ok false => return (← attempt (IO.FS.readBinFile path)).mapError (⟨"open", path, ·⟩)

def write (path : String) (content : ByteArray) : Live (Except FileError Unit) := do
  match ← attempt (isDirectory path) with
  | .ok true => return .error ⟨"open", path, .isDirectory⟩
  | _ => return (← attempt (IO.FS.writeBinFile path content)).mapError (⟨"open", path, ·⟩)

instance : Files Live where
  currentDirectory := return (← IO.currentDir).toString
  isDirectory path := attempt (isDirectory path)
  listing path := attempt (listing path)
  read := read
  write := write
  makeDirectories path :=
    return (← attempt (IO.FS.createDirAll path)).mapError (⟨"mkdir", path, ·⟩)

/-- A store is kept as text at its path. -/
instance : Shelf Live where
  load path := do
    match ← read path with
    | .error ⟨_, _, .missing⟩ => return .ok .empty
    | .error e => return .error e.message
    | .ok content =>
      match Store.ofText? (Text.ofBytes content) with
      | some store => return .ok store
      | none => return .error ("cannot read " ++ path)
  save path store := do
    if let some text := store.text? then
      let _ ← write path text.toUTF8

end PromptGraph.Live

/-
What a command asks of the files around it.
-/
import PromptGraph.Assoc
import PromptGraph.Text.Octets

namespace PromptGraph

/-- Why a file could not be used. -/
inductive FileCause where
  | missing
  | notDirectory
  | isDirectory
  | nameTooLong
  | invalid
  | denied
  | other (reason : String)
  deriving DecidableEq, Inhabited

def FileCause.message : FileCause → String
  | missing => "no such file or directory"
  | notDirectory => "not a directory"
  | isDirectory => "is a directory"
  | nameTooLong => "file name too long"
  | invalid => "invalid argument"
  | denied => "permission denied"
  | other reason => reason

/-- What was tried, on which path, and why it failed. -/
structure FileError where
  action : String
  path : String
  cause : FileCause
  deriving DecidableEq, Inhabited

def FileError.message (e : FileError) : String := e.action ++ " " ++ e.path ++ ": " ++ e.cause.message

/-- Names below a place, in the order of their octets. -/
inductive Listing where
  | file
  | directory (entries : List (String × Listing))
  deriving Inhabited

def Listing.isDirectory : Listing → Bool
  | directory _ => true
  | file => false

class Files (m : Type → Type) where
  /-- The directory that relative paths start from. -/
  currentDirectory : m String
  /-- Whether a path is a directory. -/
  isDirectory : String → m (Except FileCause Bool)
  /-- All that is below a path. -/
  listing : String → m (Except FileCause Listing)
  read : String → m (Except FileError ByteArray)
  write : String → ByteArray → m (Except FileError Unit)
  /-- Makes a directory, and those above it that are missing. -/
  makeDirectories : String → m (Except FileError Unit)

namespace Files

variable {m : Type → Type} [Monad m] [Files m]

def readText (path : String) : m (Except FileError String) := return (← read path).map Text.ofBytes

def writeText (path text : String) : m (Except FileError Unit) := write path text.toUTF8

end Files

end PromptGraph

/-
Log lines: a level, a message and named values.
-/
import PromptGraph.Text.Octets
import PromptGraph.Text.Printable
import PromptGraph.Text.Quoted
import PromptGraph.Text.Space

namespace PromptGraph.Log

inductive Level where
  | debug
  | info
  | warn
  | error
  deriving DecidableEq, Inhabited

namespace Level

def name : Level → String
  | debug => "DEBUG"
  | info => "INFO"
  | warn => "WARN"
  | error => "ERROR"

def rank : Level → Nat
  | debug => 0
  | info => 1
  | warn => 2
  | error => 3

end Level

structure Line where
  level : Level
  message : String
  attributes : List (String × String) := []
  deriving DecidableEq, Inhabited

/-- The line is written when the log is open from `least` on. -/
def Line.passes (least : Level) (line : Line) : Bool := least.rank ≤ line.level.rank

-- ==== text

def needsQuotes (c : Char) : Bool :=
  if c.toNat < 128 then c.toNat ≤ 32 || c = '=' || c = '"'
  else c = Text.replacement || Text.isSpace c || !Text.isPrintable c

/-- A value as it stands; quoted when it is empty or could be taken for something else. -/
def value (s : String) : String :=
  if s.isEmpty || s.toList.any needsQuotes then Text.Quoted.encode s else s

def field (name v : String) : String := value name ++ "=" ++ value v

/-- One line of `name=value` pairs, the level and the message first. -/
def Line.text (line : Line) : String :=
  " ".intercalate <| field "level" line.level.name :: field "msg" line.message
    :: line.attributes.map fun (k, v) => field k v

/-- A list of texts as one value. -/
def list (xs : List String) : String := "[" ++ " ".intercalate xs ++ "]"

end PromptGraph.Log

/-
Which kind of graph a file holds, and its content as JSON. A path only tells whether the content is
YAML.
-/
import PromptGraph.Json.Printer
import PromptGraph.Json.Source
import PromptGraph.Path
import PromptGraph.Text.Complaint
import PromptGraph.Text.Letter
import PromptGraph.Yaml.Value

namespace PromptGraph.Library

open Json (Source)

inductive Format where
  | editor
  | execution
  deriving DecidableEq, Inhabited

def Format.name : Format → String
  | editor => "editor"
  | execution => "execution"

inductive FormatError where
  | notYaml
  | unwritable
  | notJson
  | unknown
  deriving DecidableEq, Inhabited

def FormatError.message : FormatError → String
  | notYaml => "parsing YAML: " ++ Text.complaint
  | unwritable => Text.complaint
  | notJson => "parsing JSON: " ++ Text.complaint
  | unknown => "not an editor or execution graph"

def isYaml (path : String) : Bool :=
  let ext := Text.lower (Path.extension path)
  ext = ".yaml" || ext = ".yml"

/-- The content as JSON. JSON is taken as it is. -/
def toJsonText (text path : String) : Except FormatError String :=
  if isYaml path then
    match Yaml.toJson text with
    | .ok j => .ok j.write
    | .error .malformed => .error .notYaml
    | .error .unwritable => .error .unwritable
  else .ok text

/-- An object with a class. -/
def hasClass (v : Source) : Bool :=
  match v.fields? with
  | some fields => fields.any (·.1 = "class_type")
  | none => false

/-- A list of nodes makes an editor graph; an execution graph is an object of which every value has a
class. -/
def detectJson (text : String) : Except FormatError Format :=
  match Source.read? .lenient text with
  | some .null => .error .unknown
  | some v =>
    match v.fields? with
    | none => .error .notJson
    | some fields =>
      if fields.any (·.1 = "nodes") then .ok .editor
      else if (Source.lastOfEach fields).all fun (_, v) => hasClass v then .ok .execution
      else .error .unknown
  | none => .error .notJson

def detect (text path : String) : Except FormatError Format := do
  detectJson (← toJsonText text path)

end PromptGraph.Library

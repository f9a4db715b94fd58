/-
Reading the node-type table. A type whose record does not fit fails the whole table; inside an input's
declaration, what does not fit is ignored and the input keeps its tag.
-/
import PromptGraph.Json.Decode
import PromptGraph.Json.Display
import PromptGraph.NodeType.Table
import PromptGraph.Text.Complaint

namespace PromptGraph.NodeType

open Json (Source Decode)

/-- Why a text is no node-type table. -/
inductive TableError where
  | malformed
  | notObject
  deriving DecidableEq

def TableError.message : TableError → String
  | malformed => "objectinfo: decode: " ++ Text.complaint
  | notObject => "objectinfo: decode: payload is not an object"

abbrev Read := Decode Empty

-- ==== ordered tables

/-- Entries in the order of their first mention, with the value of the last. -/
abbrev Ordered (α : Type) := List (String × α)

def Ordered.put {α : Type} (name : String) (v : α) : Ordered α → Ordered α
  | [] => [(name, v)]
  | (k, w) :: rest => if k = name then (k, v) :: rest else (k, w) :: put name v rest

def Ordered.get? {α : Type} (t : Ordered α) (name : String) : Option α :=
  (t.find? (·.1 = name)).map Prod.snd

/-- The fields of an object put into a table. -/
def putFields (t : Ordered Source) : List (String × Source) → Option (Ordered Source)
  | [] => some t
  | (name, v) :: rest => do
    let key ← Source.unescapePaired? name
    putFields (Ordered.put key v t) rest

/-- A table that may be missing. A repeated one is added to; what is no object is refused. -/
def readOrdered (old : Option (Ordered Source)) : Source → Read (Option (Ordered Source))
  | .null => pure none
  | .object _ fields => some <$> Decode.ofOption (putFields (old.getD []) fields)
  | _ => Decode.malformed

-- ==== records

structure Sections where
  required : Option (Ordered Source) := none
  optional : Option (Ordered Source) := none
  hidden : Option (Ordered Source) := none

def Sections.get (s : Sections) : InputSection → Ordered Source
  | .required => s.required.getD []
  | .optional => s.optional.getD []
  | .hidden => s.hidden.getD []

def readSections (rigour : Json.Rigour) : Sections → Source → Read Sections :=
  Decode.record rigour ["required", "optional", "hidden"] fun s field v =>
    match field with
    | "required" => return { s with required := ← readOrdered s.required v }
    | "optional" => return { s with optional := ← readOrdered s.optional v }
    | _ => return { s with hidden := ← readOrdered s.hidden v }

/-- Lists of names by section. -/
def readOrderFields : Assoc (List String) → List (String × Source) → Read (Assoc (List String))
  | t, [] => pure t
  | t, (name, v) :: rest => do
    let key ← Decode.ofOption (Source.unescape? name)
    let names ← Decode.list "" Decode.text none v
    readOrderFields (Assoc.insert t key (names.getD [])) rest

def readOrder (old : Assoc (List String)) : Source → Read (Assoc (List String))
  | .null => pure []
  | .object _ fields => readOrderFields old fields
  | _ => Decode.skip old

structure Record where
  sections : Sections := {}
  order : Assoc (List String) := []
  output : List Source := []
  outputName : List String := []
  outputIsList : List Bool := []
  name : String := ""
  displayName : String := ""
  category : String := ""
  outputNode : Bool := false

def recordFields : List String :=
  ["input", "input_order", "output", "output_name", "output_is_list", "name", "display_name",
   "category", "output_node"]

def readRecord : Record → Source → Read Record :=
  Decode.record .strict recordFields fun r field v =>
    match field with
    | "input" => return { r with sections := ← readSections .strict r.sections v }
    | "input_order" => return { r with order := ← readOrder r.order v }
    | "output" => do
      let list ← Decode.list .null (fun _ x => pure x) (some r.output) v
      return { r with output := list.getD [] }
    | "output_name" => do
      let list ← Decode.list "" Decode.text (some r.outputName) v
      return { r with outputName := list.getD [] }
    | "output_is_list" => do
      let list ← Decode.list false Decode.boolean (some r.outputIsList) v
      return { r with outputIsList := list.getD [] }
    | "name" => return { r with name := ← Decode.text r.name v }
    | "display_name" => return { r with displayName := ← Decode.text r.displayName v }
    | "category" => return { r with category := ← Decode.text r.category v }
    | _ => return { r with outputNode := ← Decode.boolean r.outputNode v }

-- ==== inputs

/-- A tag is a string; a list of values in its place is a choice. -/
def tagOf : Source → String
  | .array .. => Kind.comboTag
  | .string body => (Source.unescape? body).getD ""
  | _ => ""

/-- A value whose numbers are doubles. -/
def declared? (v : Source) : Option Json :=
  match v.value? with
  | some j => if j.inRange then some j else none
  | none => none

/-- The texts of a list of values; none for anything else. -/
def choicesOf? (v : Source) : Option (List String) :=
  match v with
  | .array .. =>
    match declared? v with
    | some (.array items) => some (items.map Json.declaredKey)
    | _ => none
  | .null => some []
  | _ => none

/-- The name at the head of an extra input's declaration. -/
def leadingName? (v : Source) : Option String :=
  match declared? v with
  | some (.array (.string s :: _)) => some s
  | _ => none

/-- Names of extra inputs by selected value; entries that are no lists are left out. -/
def formatsOf (v : Source) : Assoc (List String) :=
  match v with
  | .object _ fields =>
    match putFields [] fields with
    | some table =>
      Assoc.ofList <| table.filterMap fun (key, specs) =>
        match specs with
        | .array _ items => some (key, items.filterMap leadingName?)
        | .null => some (key, [])
        | _ => none
    | none => []
  | _ => []

def truthy : Json → Bool
  | .bool b => b
  | .string s => s ≠ ""
  | .number t =>
    match Json.double? t with
    | some d => d.significand ≠ 0
    | none => false
  | _ => false

/-- What an input's options may say. -/
structure Options where
  control : Json := .null
  formats : Source := .null
  options : Option Source := none

def readDeclared (v : Source) : Read Json := Decode.ofOption (declared? v)

def readOptions (v : Source) : Option Options :=
  let read : Read Options :=
    Decode.record .lenient ["control_after_generate", "formats", "options"]
      (fun o field x =>
        match field with
        | "control_after_generate" => return { o with control := ← readDeclared x }
        | "formats" => return { o with formats := x }
        | _ => return { o with options := some x })
      {} v
  match read.run with
  | .ok o => some o
  | .error _ => none

/-- One option of a dynamic choice: its value and the inputs that come with it. -/
structure DynamicRecord where
  key : Json := .null
  inputs : Sections := {}

def readDynamicRecord : DynamicRecord → Source → Read DynamicRecord :=
  Decode.record .lenient ["key", "inputs"] fun r field v =>
    match field with
    | "key" => return { r with key := ← readDeclared v }
    | _ => return { r with inputs := ← readSections .lenient r.inputs v }

def dynamicRecords? (v : Source) : Option (List DynamicRecord) :=
  let read : Read (Option (List DynamicRecord)) := Decode.list {} readDynamicRecord none v
  match read.run with
  | .ok list => some (list.getD [])
  | .error _ => none

/-- Reads an input's declaration: a list of a tag and perhaps options, or a bare tag. `depth` bounds
how far options of dynamic choices nest. -/
def readInput : Nat → String → InputSection → Source → InputType
  | depth, name, sec, .array _ (t :: rest) =>
    let tag := tagOf t
    let kind := Kind.classify tag
    let choices := match t with
      | .array .. => choicesOf? t
      | _ => none
    let plain := InputType.mk name tag kind sec false choices [] none
    match rest with
    | .object text fields :: _ =>
      match readOptions (.object text fields) with
      | none => plain
      | some o =>
        let options :=
          match depth, kind, o.options with
          | depth + 1, .dynamicCombo, some v =>
            (dynamicRecords? v).map fun records => records.map fun r =>
              (r.key.declaredKey,
                (r.inputs.get .required).map (fun (n, x) => readInput depth n .required x)
                ++ (r.inputs.get .optional).map (fun (n, x) => readInput depth n .optional x))
          | _, _, _ => none
        let choices :=
          match kind, choices, o.options with
          | .combo, none, some v => choicesOf? v
          | _, cs, _ => cs
        InputType.mk name tag kind sec (truthy o.control) choices (formatsOf o.formats) options
    | _ => plain
  | _, name, sec, .array _ [] => InputType.mk name "" .other sec false none [] none
  | _, name, sec, v =>
    let tag := tagOf v
    InputType.mk name tag (Kind.classify tag) sec false none [] none

-- ==== tables

/-- The keys of a section: those the order names, at their first mention, then the others as
declared. -/
def orderedKeys (declaredKeys order : List String) : List String :=
  let named := order.eraseDups.filter declaredKeys.contains
  named ++ declaredKeys.filter fun k => !named.contains k

def sectionInputs (depth : Nat) (r : Record) (sec : InputSection) : List InputType :=
  let table := r.sections.get sec
  let order := (Assoc.get? r.order sec.name).getD []
  (orderedKeys (table.map Prod.fst) order).filterMap fun key =>
    (Ordered.get? table key).map (readInput depth key sec)

def outputsFrom (names : List String) (lists : List Bool) : List Source → List OutputType
  | [] => []
  | v :: rest =>
    let tag := tagOf v
    let name := names.headD ""
    ⟨if name = "" then tag else name, tag, lists.headD false⟩
      :: outputsFrom names.tail lists.tail rest

def ofRecord (depth : Nat) (name : String) (r : Record) : NodeType where
  name := name
  displayName := r.displayName
  category := r.category
  isOutput := r.outputNode
  inputs := sectionInputs depth r .required ++ sectionInputs depth r .optional
    ++ sectionInputs depth r .hidden
  outputs := outputsFrom r.outputName r.outputIsList r.output

/-- A type's record is read strictly, whatever the table around it is. -/
def ofSource? (depth : Nat) (name : String) (v : Source) : Option NodeType := do
  let strict ← Source.read? .strict v.text
  match (readRecord {} strict).run with
  | .ok r => some (ofRecord depth name r)
  | .error _ => none

def typesOf (depth : Nat) : List (String × Source) → Option (List NodeType)
  | [] => some []
  | (name, v) :: rest => do
    let key ← Source.unescapePaired? name
    let t ← ofSource? depth key v
    return t :: (← typesOf depth rest)

/-- Reads a node-type table. -/
def parseTable (text : String) : Except TableError NodeTable :=
  match Source.read? .lenient text with
  | some .null => .error .notObject
  | some (.object _ fields) =>
    match typesOf text.length fields with
    | some types => .ok (NodeTable.ofTypes types)
    | none => .error .malformed
  | _ => .error .malformed

end PromptGraph.NodeType

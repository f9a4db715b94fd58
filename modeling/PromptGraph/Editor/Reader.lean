/-
Reading a workflow. Only input that is no editor graph at all is refused; a link entry that cannot be
read is left out and its position remembered.
-/
import PromptGraph.Editor.Workflow
import PromptGraph.Text.Complaint

namespace PromptGraph.Editor

open Json (Source Decode Fault)

-- ==== what is refused

/-- A rule of the format that a value breaks. -/
inductive Refusal where
  | id (cause : Id.Refusal)
  | widgets (cause : Widgets.Refusal)
  deriving DecidableEq

/-- Why a text is no workflow. -/
inductive StructureError where
  | malformed
  | refused (cause : Refusal)
  | notObject
  | noNodes
  | nodesNotList
  deriving DecidableEq

def Widgets.Refusal.message : Widgets.Refusal → String
  | malformed => "workflow: widgets_values: " ++ Text.complaint
  | shape t => "workflow: widgets_values must be a list or object, got " ++ t

def Refusal.message : Refusal → String
  | id c => c.message
  | widgets c => c.message

/-- Every structure error begins like this. -/
def structurePreamble : String := "invalid workflow structure: "

def StructureError.detail : StructureError → String
  | malformed => Text.complaint
  | refused c => c.message
  | notObject => "expected an object"
  | noNodes => "missing \"nodes\""
  | nodesNotList => "\"nodes\" must be a list"

def StructureError.message (e : StructureError) : String := structurePreamble ++ e.detail

def StructureError.ofFault : Fault Refusal → StructureError
  | .malformed => .malformed
  | .refused c => .refused c

-- ==== the pieces

abbrev Read := Decode Refusal

def readId (v : Source) : Read Id :=
  match Id.read v.text with
  | .ok i => pure i
  | .error e => Decode.refuse (.id e)

def readWidgets (v : Source) : Read Widgets :=
  match Widgets.read v.text with
  | .ok w => pure w
  | .error e => Decode.refuse (.widgets e)

def readWidgetName : String → Source → Read String :=
  Decode.record .lenient ["name"] fun old _ v => Decode.text old v

def readNodeInput : NodeInput → Source → Read NodeInput :=
  Decode.record .lenient ["name", "type", "link", "widget"] fun i field v =>
    match field with
    | "name" => return { i with name := ← Decode.text i.name v }
    | "type" => return { i with type := ← Decode.text i.type v }
    | "link" => return { i with link := ← Decode.optional .empty (fun _ => readId) i.link v }
    | _ => return { i with widget := ← Decode.optional "" readWidgetName i.widget v }

def readNodeOutput : NodeOutput → Source → Read NodeOutput :=
  Decode.record .lenient ["name", "type", "links"] fun o field v =>
    match field with
    | "name" => return { o with name := ← Decode.text o.name v }
    | "type" => return { o with type := ← Decode.text o.type v }
    | _ => return { o with linkList := ← Decode.list .empty (fun _ => readId) o.linkList v }

def readNode : Node → Source → Read Node :=
  Decode.record .lenient ["id", "type", "title", "mode", "inputs", "outputs", "widgets_values"]
    fun n field v =>
      match field with
      | "id" => return { n with id := ← readId v }
      | "type" => return { n with type := ← Decode.text n.type v }
      | "title" => return { n with title := ← Decode.text n.title v }
      | "mode" => return { n with mode := ← Decode.integer n.mode v }
      | "inputs" => do
        let inputs ← Decode.list {} readNodeInput (some n.inputs) v
        return { n with inputs := inputs.getD [] }
      | "outputs" => do
        let outputs ← Decode.list {} readNodeOutput (some n.outputs) v
        return { n with outputs := outputs.getD [] }
      | _ => return { n with widgets := ← readWidgets v }

def readPort : Port → Source → Read Port :=
  Decode.record .lenient ["id", "name", "type", "linkIds"] fun p field v =>
    match field with
    | "id" => return { p with id := ← Decode.text p.id v }
    | "name" => return { p with name := ← Decode.text p.name v }
    | "type" => return { p with type := ← Decode.text p.type v }
    | _ => do
      let links ← Decode.list .empty (fun _ => readId) (some p.links) v
      return { p with links := links.getD [] }

def readSentinel : Id → Source → Read Id :=
  Decode.record .lenient ["id"] fun _ _ v => readId v

-- ==== links

/-- A link's type is a string; anything else leaves the link untyped. -/
def linkType : Source → String
  | .string body => (Source.unescape? body).getD ""
  | _ => ""

def linkFields : List String :=
  ["id", "origin_id", "origin_slot", "target_id", "target_slot", "type"]

def readLinkField (k : Link) (field : String) (v : Source) : Read Link :=
  match field with
  | "id" => return { k with id := ← readId v }
  | "origin_id" => return { k with origin := ← readId v }
  | "origin_slot" => return { k with originSlot := ← Decode.integer k.originSlot v }
  | "target_id" => return { k with target := ← readId v }
  | "target_slot" => return { k with targetSlot := ← Decode.integer k.targetSlot v }
  | _ => return { k with type := linkType v }

/-- A link written as an object. -/
def readLinkFields : Link → Source → Read Link :=
  Decode.record .lenient linkFields readLinkField

/-- A link written as a list: id, origin and its slot, target and its slot, and perhaps a type. -/
def readLinkItems : List Source → Read Link
  | id :: origin :: originSlot :: target :: targetSlot :: rest => do
    let id ← readId id
    let origin ← readId origin
    let originSlot ← Decode.integer 0 originSlot
    let target ← readId target
    let targetSlot ← Decode.integer 0 targetSlot
    return { id, origin, originSlot, target, targetSlot, type := (rest.head?.map linkType).getD "" }
  | _ => Decode.malformed

/-- A link entry in either notation. -/
def readLink? (v : Source) : Option Link :=
  let attempt : Read Link :=
    match v with
    | .object .. => readLinkFields {} v
    | .array _ items => readLinkItems items
    | _ => Decode.malformed
  match attempt.run with
  | .ok k => some k
  | .error _ => none

/-- The links that can be read, and the positions of the entries that cannot; `i` is the position of
the first entry. -/
def readLinksFrom (i : Nat) : List Source → List Link × List Nat
  | [] => ([], [])
  | v :: rest =>
    let (links, skipped) := readLinksFrom (i + 1) rest
    match readLink? v with
    | some k => (k :: links, skipped)
    | none => (links, i :: skipped)

def readLinks (entries : List Source) : List Link × List Nat := readLinksFrom 0 entries

-- ==== documents

/-- A link entry is kept as written until all of them are read. -/
def readEntry (_ : Source) (v : Source) : Read Source := pure v

/-- A document under construction: its links are still entries. -/
structure Draft (α : Type) where
  value : α
  entries : Option (List Source) := none

def definitionFields : List String :=
  ["id", "name", "inputs", "outputs", "nodes", "links", "inputNode", "outputNode"]

def readDefinitionField (r : Draft Definition) (field : String) (v : Source) :
    Read (Draft Definition) := do
  let d := r.value
  match field with
  | "id" => return { r with value := { d with id := ← Decode.text d.id v } }
  | "name" => return { r with value := { d with name := ← Decode.text d.name v } }
  | "inputs" => return { r with value := { d with inputList := ← Decode.list {} readPort d.inputList v } }
  | "outputs" =>
    return { r with value := { d with outputList := ← Decode.list {} readPort d.outputList v } }
  | "nodes" => return { r with value := { d with nodeList := ← Decode.list {} readNode d.nodeList v } }
  | "links" => return { r with entries := ← Decode.list .null readEntry r.entries v }
  | "inputNode" =>
    let node ← Decode.optional .empty readSentinel d.inputNode v
    return { r with value := { d with inputNode := node } }
  | _ =>
    let node ← Decode.optional .empty readSentinel d.outputNode v
    return { r with value := { d with outputNode := node } }

def Draft.definition (r : Draft Definition) : Definition :=
  match r.entries with
  | some entries =>
    let (links, skipped) := readLinks entries
    { r.value with linkList := some links, skipped }
  | none => r.value

/-- A definition is read on its own and replaces what stood in its place. -/
def readDefinition (v : Source) : Read Definition :=
  Decode.sealed do
    let r ← Decode.record .lenient definitionFields readDefinitionField ⟨{}, none⟩ v
    return r.definition

def readDefinitions : List Definition → Source → Read (List Definition) :=
  Decode.record .lenient ["subgraphs"] fun ds _ v => do
    let list ← Decode.list {} (fun _ => readDefinition) (some ds) v
    return list.getD []

def readWorkflowField (r : Draft Workflow) (field : String) (v : Source) : Read (Draft Workflow) := do
  let w := r.value
  match field with
  | "nodes" =>
    let nodes ← Decode.list {} readNode (some w.nodes) v
    return { r with value := { w with nodes := nodes.getD [] } }
  | "links" => return { r with entries := ← Decode.list .null readEntry r.entries v }
  | _ => return { r with value := { w with definitions := ← readDefinitions w.definitions v } }

def Draft.workflow (r : Draft Workflow) : Workflow :=
  match r.entries with
  | some entries =>
    let (links, skipped) := readLinks entries
    { r.value with linkList := some links, skipped }
  | none => r.value

def readWorkflow (v : Source) : Read Workflow := do
  let r ← Decode.record .lenient ["nodes", "links", "definitions"] readWorkflowField ⟨{}, none⟩ v
  return r.workflow

/-- Reads a workflow: an object with a list of nodes. -/
def Workflow.parse (text : String) : Except StructureError Workflow :=
  match Source.read? .lenient text with
  | none => .error .malformed
  | some .null => .error .notObject
  | some v =>
    match v.fields? with
    | none => .error .malformed
    | some fields =>
      match Source.lastField? fields "nodes" with
      | none => .error .noNodes
      | some (.array ..) =>
        match (readWorkflow v).run with
        | .ok w => .ok w
        | .error e => .error (.ofFault e)
      | some _ => .error .nodesNotList

end PromptGraph.Editor

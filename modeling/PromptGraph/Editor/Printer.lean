/-
Writing a workflow. Ids are written in their own notation, so a document is valid JSON exactly when
each of its ids is.
-/
import PromptGraph.Editor.Workflow

namespace PromptGraph.Editor

open Json (Texts)

variable {τ : Type}

/-- An id inside a document: its own notation, with the characters escaped that no document holds. -/
def Id.toJson (i : Id) : Json τ := .number (Json.escapeMarkup i.write)

def listOrNull {α : Type} (f : α → Json τ) : Option (List α) → Json τ
  | some xs => .array (xs.map f)
  | none => .null

variable [Texts τ]

def field (name : String) (value : Json τ) : τ × Json τ := (Texts.ofString name, value)

/-- Fields in the order given. -/
def fieldsOf (fields : List (List (τ × Json τ))) : Json τ := .object fields.flatten

/-- A field that is left out when its text is empty. -/
def textField [DecidableEq τ] (name : String) (value : τ) : List (τ × Json τ) :=
  if value = Texts.ofString "" then [] else [field name (.string value)]

def listField {α : Type} (name : String) (f : α → Json τ) (xs : List α) : List (τ × Json τ) :=
  if xs.isEmpty then [] else [field name (.array (xs.map f))]

def NodeInput.toJson (i : NodeInput τ) : Json τ :=
  fieldsOf [[field "name" (.string i.name), field "type" (.string i.type),
      field "link" ((i.link.map Id.toJson).getD .null)],
    match i.widget with
    | some w => [field "widget" (.object [field "name" (.string w)])]
    | none => []]

def NodeOutput.toJson (o : NodeOutput τ) : Json τ :=
  .object [field "name" (.string o.name), field "type" (.string o.type),
    field "links" (listOrNull Id.toJson o.linkList)]

/-- Links are written in the list notation. -/
def Link.toJson (k : Link τ) : Json τ :=
  .array [k.id.toJson, k.origin.toJson, .int k.originSlot, k.target.toJson, .int k.targetSlot,
    .string k.type]

def sentinelField (name : String) : Option Id → List (τ × Json τ)
  | some i => [field name (.object [field "id" i.toJson])]
  | none => []

variable [DecidableEq τ]

def Node.toJson (n : Node τ) : Json τ :=
  fieldsOf [[field "id" n.id.toJson, field "type" (.string n.type)], textField "title" n.title,
    [field "mode" (.int n.mode)], listField "inputs" NodeInput.toJson n.inputs,
    listField "outputs" NodeOutput.toJson n.outputs, [field "widgets_values" n.widgets.toJson]]

def Port.toJson (p : Port τ) : Json τ :=
  fieldsOf [textField "id" p.id, [field "name" (.string p.name), field "type" (.string p.type)],
    listField "linkIds" Id.toJson p.links]

def Definition.toJson (d : Definition τ) : Json τ :=
  fieldsOf [[field "id" (.string d.id)], textField "name" d.name,
    [field "inputs" (listOrNull Port.toJson d.inputList),
     field "outputs" (listOrNull Port.toJson d.outputList),
     field "nodes" (listOrNull Node.toJson d.nodeList),
     field "links" (listOrNull Link.toJson d.linkList)],
    sentinelField "inputNode" d.inputNode, sentinelField "outputNode" d.outputNode]

def Workflow.toJson (w : Workflow τ) : Json τ :=
  .object [field "nodes" (.array (w.nodes.map Node.toJson)),
    field "links" (listOrNull Link.toJson w.linkList),
    field "definitions" (fieldsOf [listField "subgraphs" Definition.toJson w.definitions])]

/-- The document's text, unless an id in it is no JSON value. -/
def Workflow.write? (w : Workflow τ) : Option String :=
  let text := w.toJson.write
  if (Json.Source.read? .strict text).isSome then some text else none

end PromptGraph.Editor

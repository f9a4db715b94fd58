/-
Node classes that need special treatment: notes and reroutes that never execute, primitives whose
value the editor writes into their consumers, virtual wires, and the loaders, encoders and outputs
that a run looks for.
-/

namespace PromptGraph

namespace Category

def annotated : String := "annotation"

def reroute : String := "reroute"

def inlinePrimitive : String := "inline_primitive"

def primitiveValue : String := "primitive_value"

def virtualSet : String := "virtual_set"

def virtualGet : String := "virtual_get"

def textEncoder : String := "text_encoder"

def imageLoader : String := "image_loader"

def output : String := "output"

end Category

structure NodeClass where
  type : String := ""
  category : String := ""
  displayName : String := ""
  description : String := ""
  /-- Exists only in the editor and is never submitted. -/
  uiOnly : Bool := false
  deriving DecidableEq, Inhabited

/-- Known classes, in the order they were registered. -/
structure Registry where
  classes : List NodeClass := []

namespace Registry

/-- Replaces the class of the same name in its place, or adds a new one at the end. -/
def put (c : NodeClass) : List NodeClass → List NodeClass
  | [] => [c]
  | d :: rest => if d.type = c.type then c :: rest else d :: put c rest

def register (r : Registry) (c : NodeClass) : Registry := ⟨put c r.classes⟩

def get? (r : Registry) (type : String) : Option NodeClass := r.classes.find? (·.type = type)

def has (r : Registry) (type : String) : Bool := (r.get? type).isSome

def isUiOnly (r : Registry) (type : String) : Bool :=
  match r.get? type with
  | some c => c.uiOnly
  | none => false

def inCategory (r : Registry) (type category : String) : Bool :=
  match r.get? type with
  | some c => c.category = category
  | none => false

/-- The classes of a category, sorted by name. -/
def typesIn (r : Registry) (category : String) : List String :=
  ((r.classes.filter (·.category = category)).map (·.type)).mergeSort fun a b => !(b < a)

def size (r : Registry) : Nat := r.classes.length

-- ==== built in

def editorNotes : List NodeClass :=
  ["Note", "MarkdownNote", "NoteNode", "Note (Multiline)", "Label (rgthree)"].map fun name =>
    ⟨name, Category.annotated, name, "Editor annotation with no inputs or outputs", true⟩

def reroutes : List NodeClass :=
  [⟨"Reroute", Category.reroute, "Reroute", "Passes its single input through to every consumer",
    true⟩]

def inlinePrimitives : List NodeClass :=
  [⟨"PrimitiveStringMultiline", Category.inlinePrimitive, "String (Multiline)",
    "Multiline text the editor writes into the consuming widget", true⟩]

def primitiveValues : List NodeClass :=
  ["PrimitiveBoolean", "PrimitiveInt", "PrimitiveFloat", "PrimitiveString"].map fun name =>
    ⟨name, Category.primitiveValue, name, "Executable primitive value node", false⟩

def virtualWires : List NodeClass :=
  (["easy setNode", "SetNode"].map fun name =>
    ⟨name, Category.virtualSet, name, "Publishes its input under the name in its first widget", true⟩)
  ++ ["easy getNode", "GetNode"].map fun name =>
    ⟨name, Category.virtualGet, name, "Reads the input published by the matching set node", true⟩

def plain (category : String) (names : List String) : List NodeClass :=
  names.map fun name => ⟨name, category, name, "", false⟩

/-- The classes every registry knows. -/
def builtin : Registry where
  classes := editorNotes ++ reroutes ++ inlinePrimitives ++ primitiveValues ++ virtualWires
    ++ plain Category.textEncoder ["CLIPTextEncode", "TextEncodeQwenImageEditPlus",
      "TextEncodeQwenImage", "WanTextEncode", "HunyuanVideoTextEncode", "LTXVConditioning",
      "HunyuanDiTTextEncode", "PixArtTextEncode", "SDXLPromptStyler", "Text Multiline",
      "ShowText|pysssss"]
    ++ plain Category.imageLoader ["LoadImage", "LoadImageMask"]
    ++ plain Category.output ["SaveImage", "VHS_VideoCombine", "SaveAnimatedWEBP", "SaveVideo",
      "SaveAudio", "VHS_SaveAudio"]

end Registry

end PromptGraph

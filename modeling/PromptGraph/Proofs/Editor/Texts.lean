/-
The texts of an editor graph: names, types, titles and the strings among
its widget values. What stands in them plays no part in how a graph is
built, so another type of texts can be put in the place of one (`map`).

A document holds Unicode. Octets that are put into one come back as the
text they are read as, so a graph comes back as it was exactly when all
of its texts are octets of some text: `Workflow.mended_iff`, with one
lemma for each kind of record below it.
-/
import PromptGraph.Proofs.Editor.Clone
import PromptGraph.Proofs.Json.RoundTrip
import PromptGraph.Proofs.Text.Octets

namespace PromptGraph

open Text (Octets WellFormed octets ofOctets octets_ofOctets_iff)

-- ==== values

namespace Json

/-- The names of an object keep their order where they are read as they
were. -/
theorem Canonical.map_ofOctets {j : Json Octets} (hj : j.Canonical)
    (h : ∀ t ∈ j.texts, WellFormed t) : (j.map ofOctets).Canonical := by
  induction hj with
  | null => exact .null
  | bool b => exact .bool b
  | number hn => exact .number hn
  | string t => exact .string _
  | array _ ih =>
      rw [map_array]
      refine .array fun v hv => ?_
      obtain ⟨v, hmem, rfl⟩ := List.mem_map.1 hv
      exact ih v hmem fun t ht => h t (mem_texts_array.2 ⟨v, hmem, ht⟩)
  | @object fs ordered _ ih =>
      have hname : ∀ f ∈ fs, octets (ofOctets f.1) = f.1 := fun f hf =>
        (octets_ofOctets_iff f.1).2 (h f.1 (mem_texts_object.2 ⟨f, hf, .inl rfl⟩))
      rw [map_object]
      refine .object (List.pairwise_map.2 (ordered.imp_of_mem ?_)) fun f hf => ?_
      · intro a b ha hb hlt
        rw [Prod.map_fst, Prod.map_fst, ← Text.octets_lt_iff, hname a ha, hname b hb]
        exact hlt
      · obtain ⟨f, hmem, rfl⟩ := List.mem_map.1 hf
        exact ih f hmem fun t ht => h t (mem_texts_object.2 ⟨f, hmem, .inr ht⟩)

/-- Only well-formed texts come back. -/
theorem Canonical.mended_iff {j : Json Octets} (hj : j.Canonical) :
    (j.map ofOctets).settled.map octets = j ↔ ∀ t ∈ j.texts, WellFormed t := by
  constructor
  · intro h t ht
    rw [← h, texts_map] at ht
    obtain ⟨s, -, hs⟩ := List.mem_map.1 ht
    exact ⟨s, hs⟩
  · intro h
    rw [(hj.map_ofOctets h).settled_eq, map_map]
    exact map_eq_self fun t ht => (octets_ofOctets_iff t).2 (h t ht)

end Json

namespace Editor

variable {τ σ : Type}

namespace Widgets

def map (f : τ → σ) : Widgets τ → Widgets σ
  | positional vs => .positional (vs.map (Json.map f))
  | keyed vs => .keyed (vs.map (Prod.map f (Json.map f)))

/-- The widget values with each object as the table of its fields. -/
def settled : Widgets → Widgets
  | positional vs => positional (vs.map Json.settled)
  | keyed vs => keyed (Assoc.ofList (Assoc.mapValues Json.settled vs))

/-- Values are changed as they are written. -/
theorem toJson_map (f : τ → σ) (w : Widgets τ) :
    (w.map f).toJson = w.toJson.map f := by
  cases w with
  | positional vs => exact (Json.map_array f vs).symm
  | keyed vs => exact (Json.map_object f vs).symm

/-- They are settled as they are written. -/
theorem toJson_settled (w : Widgets) : w.settled.toJson = w.toJson.settled := by
  cases w with
  | positional vs => rw [settled, toJson, toJson, Json.settled, Json.settledItems_eq]
  | keyed vs => rw [settled, toJson, toJson, Json.settled, Json.settledFields_eq]

theorem toJson_inj {v w : Widgets τ} : v.toJson = w.toJson ↔ v = w := by
  refine ⟨fun h => ?_, congrArg toJson⟩
  cases v with
  | positional vs =>
      cases w with
      | positional ws =>
          cases h
          rfl
      | keyed ws => cases h
  | keyed vs =>
      cases w with
      | positional ws => cases h
      | keyed ws =>
          cases h
          rfl

/-- Widget values come back if all their texts are UTF-8. -/
theorem mended_iff {w : Widgets Octets} (hw : w.toJson.Canonical) :
    (w.map ofOctets).settled.map octets = w
      ↔ ∀ t ∈ w.toJson.texts, WellFormed t := by
  rw [← hw.mended_iff, ← toJson_inj, toJson_map, toJson_settled, toJson_map]

end Widgets

-- ==== replacing

def NodeInput.map (f : τ → σ) (i : NodeInput τ) : NodeInput σ :=
  ⟨f i.name, f i.type, i.link, i.widget.map f⟩

def NodeOutput.map (f : τ → σ) (o : NodeOutput τ) : NodeOutput σ :=
  ⟨f o.name, f o.type, o.linkList⟩

def Node.map (f : τ → σ) (n : Node τ) : Node σ :=
  ⟨n.id, f n.type, f n.title, n.mode, n.inputs.map (NodeInput.map f),
    n.outputs.map (NodeOutput.map f), n.widgets.map f⟩

def Link.map (f : τ → σ) (k : Link τ) : Link σ :=
  ⟨k.id, k.origin, k.originSlot, k.target, k.targetSlot, f k.type⟩

def Port.map (f : τ → σ) (p : Port τ) : Port σ :=
  ⟨f p.id, f p.name, f p.type, p.links⟩

def Definition.map (f : τ → σ) (d : Definition τ) : Definition σ :=
  ⟨f d.id, f d.name, d.inputList.map (List.map (Port.map f)),
    d.outputList.map (List.map (Port.map f)), d.nodeList.map (List.map (Node.map f)),
    d.linkList.map (List.map (Link.map f)), d.inputNode, d.outputNode, d.skipped⟩

/-- The workflow with each text replaced. -/
def Workflow.map (f : τ → σ) (w : Workflow τ) : Workflow σ :=
  ⟨w.nodes.map (Node.map f), w.linkList.map (List.map (Link.map f)),
    w.definitions.map (Definition.map f), w.skipped⟩

-- ==== listing

def NodeInput.texts (i : NodeInput τ) : List τ := i.name :: i.type :: i.widget.toList

def NodeOutput.texts (o : NodeOutput τ) : List τ := [o.name, o.type]

def Node.texts (n : Node τ) : List τ :=
  n.type :: n.title :: (n.inputs.flatMap NodeInput.texts
    ++ n.outputs.flatMap NodeOutput.texts ++ n.widgets.toJson.texts)

def Link.texts (k : Link τ) : List τ := [k.type]

def Port.texts (p : Port τ) : List τ := [p.id, p.name, p.type]

def Definition.texts (d : Definition τ) : List τ :=
  d.id :: d.name :: (d.inputs.flatMap Port.texts ++ d.outputs.flatMap Port.texts
    ++ d.nodes.flatMap Node.texts ++ d.links.flatMap Link.texts)

/-- Every text of the workflow, its definitions included. -/
def Workflow.texts (w : Workflow τ) : List τ :=
  w.nodes.flatMap Node.texts ++ w.links.flatMap Link.texts
    ++ w.definitions.flatMap Definition.texts

-- ==== mending

/-- What a document of the node says: widget values are tables in it. -/
def Node.settled (n : Node) : Node := { n with widgets := n.widgets.settled }

def Definition.settled (d : Definition) : Definition :=
  { d with nodeList := d.nodeList.map (List.map Node.settled) }

def Workflow.settled (w : Workflow) : Workflow :=
  { w with
    nodes := w.nodes.map Node.settled
    definitions := w.definitions.map Definition.settled }

/-- An input slot comes back if its texts are UTF-8. -/
theorem NodeInput.mended_iff (i : NodeInput Octets) :
    (i.map ofOctets).map octets = i ↔ ∀ t ∈ i.texts, WellFormed t := by
  obtain ⟨name, type, link, widget⟩ := i
  cases widget with
  | none => simp [map, texts, octets_ofOctets_iff]
  | some w => simp [map, texts, octets_ofOctets_iff]

/-- So does an output slot. -/
theorem NodeOutput.mended_iff (o : NodeOutput Octets) :
    (o.map ofOctets).map octets = o ↔ ∀ t ∈ o.texts, WellFormed t := by
  obtain ⟨name, type, links⟩ := o
  simp [map, texts, octets_ofOctets_iff]

/-- So does a link. -/
theorem Link.mended_iff (k : Link Octets) :
    (k.map ofOctets).map octets = k ↔ ∀ t ∈ k.texts, WellFormed t := by
  obtain ⟨id, origin, originSlot, target, targetSlot, type⟩ := k
  simp [map, texts, octets_ofOctets_iff]

/-- So does a port. -/
theorem Port.mended_iff (p : Port Octets) :
    (p.map ofOctets).map octets = p ↔ ∀ t ∈ p.texts, WellFormed t := by
  obtain ⟨id, name, type, links⟩ := p
  simp [map, texts, octets_ofOctets_iff]

/-- So does a node. -/
theorem Node.mended_iff {n : Node Octets} (hn : n.widgets.toJson.Canonical) :
    (n.map ofOctets).settled.map octets = n ↔ ∀ t ∈ n.texts, WellFormed t := by
  obtain ⟨id, type, title, mode, inputs, outputs, widgets⟩ := n
  simp only [map, settled, mk.injEq, List.map_map, map_eq_self_iff, Function.comp_apply,
    NodeInput.mended_iff, NodeOutput.mended_iff, Widgets.mended_iff hn,
    octets_ofOctets_iff, texts, List.forall_mem_cons, List.forall_mem_append,
    List.forall_mem_flatMap, true_and, and_assoc]

/-- The definition with no link entry skipped. -/
def Definition.unskipped (d : Definition τ) : Definition τ := { d with skipped := [] }

/-- The workflow with no link entry skipped. -/
def Workflow.unskipped (w : Workflow τ) : Workflow τ :=
  { w with definitions := w.definitions.map Definition.unskipped, skipped := [] }

/-- A list of nodes comes back if each node does. -/
theorem Node.all_mended_iff {ns : List (Node Octets)}
    (hns : ∀ n ∈ ns, n.widgets.toJson.Canonical) :
    (∀ n ∈ ns, (n.map ofOctets).settled.map octets = n)
      ↔ ∀ n ∈ ns, ∀ t ∈ n.texts, WellFormed t :=
  forall₂_congr fun n hn => Node.mended_iff (hns n hn)

/-- A definition comes back if its texts are UTF-8. -/
theorem Definition.mended_iff {d : Definition Octets}
    (hd : ∀ n ∈ d.nodes, n.widgets.toJson.Canonical) :
    (d.map ofOctets).settled.unskipped.map octets = d.unskipped
      ↔ ∀ t ∈ d.texts, WellFormed t := by
  have hnodes := Node.all_mended_iff hd
  obtain ⟨id, name, inputs, outputs, nodes, links, inputNode, outputNode, skipped⟩ := d
  simp only [Definition.nodes] at hnodes
  simp only [map, settled, unskipped, mk.injEq, Option.map_map, List.map_comp_map,
    optionMap_eq_self_iff, Function.comp_apply, Port.mended_iff, Link.mended_iff,
    hnodes, octets_ofOctets_iff, texts, Definition.inputs, Definition.outputs,
    Definition.nodes, Definition.links, List.forall_mem_cons, List.forall_mem_append,
    List.forall_mem_flatMap, and_true, and_assoc]

/-- A workflow comes back from its document exactly when all of its texts
are well-formed. -/
theorem Workflow.mended_iff {w : Workflow Octets}
    (hw : ∀ n ∈ w.nodes, n.widgets.toJson.Canonical)
    (hds : ∀ d ∈ w.definitions, ∀ n ∈ d.nodes, n.widgets.toJson.Canonical) :
    (w.map ofOctets).settled.unskipped.map octets = w.unskipped
      ↔ ∀ t ∈ w.texts, WellFormed t := by
  have hnodes := Node.all_mended_iff hw
  have hdefinitions : w.definitions.map (fun d =>
      (d.map ofOctets).settled.unskipped.map octets)
        = w.definitions.map Definition.unskipped
      ↔ ∀ d ∈ w.definitions, ∀ t ∈ d.texts, WellFormed t := by
    rw [List.map_inj_left]
    exact forall₂_congr fun d hd => Definition.mended_iff (hds d hd)
  obtain ⟨nodes, links, definitions, skipped⟩ := w
  simp only [map, settled, unskipped, mk.injEq, Option.map_map, List.map_map,
    map_eq_self_iff, optionMap_eq_self_iff, Function.comp_def, Link.mended_iff, hnodes,
    hdefinitions, texts, Workflow.links, List.forall_mem_append,
    List.forall_mem_flatMap, and_true, and_assoc]

end Editor

end PromptGraph

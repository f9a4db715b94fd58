/-
Workflows are read as they were written. Each piece of a workflow prints
a value; the value is legible, and the reader of the piece yields the
piece again from what the value is read as (`Reads`). A record is
followed field by field in the order they are printed (`Fills`). A field
that is left out leaves the record as it is, so what is printed without
it has to be what the record starts from.

All this is said of any texts that a document can hold, and each text
comes back as what it is read as (`Workflow.reread`). Octets come back
as they were if they are those of some text.

Main statement: `Workflow.written_octets_mended`.
-/
import PromptGraph.Editor.Printer
import PromptGraph.Editor.Reader
import PromptGraph.Proofs.Editor.Id
import PromptGraph.Proofs.Editor.Texts
import PromptGraph.Proofs.Json.Decode

namespace PromptGraph.Editor

open Json (Source Decode Layout Legible Texts Readable)
open Json.Decode (Yields)

variable {τ : Type} [Readable τ] {l : Layout} {depth : Nat}

-- ==== reading

section Reads

variable {α β : Type} {read : Source → Read α} {j : Json τ} {a : α}

/-- The value is legible, and where it is printed at this depth it is
read as `a`. -/
structure Reads (l : Layout) (depth : Nat) (read : Source → Read α) (j : Json τ)
    (a : α) : Prop where
  legible : j.Legible
  yields : Yields (read (l.source depth j)) a

/-- What is read is handed on. -/
theorem Reads.bind {f : α → Read β} {b : β} (h : Reads l depth read j a)
    (hf : Yields (f a) b) : Reads l depth (fun v => read v >>= f) j b :=
  ⟨h.legible, h.yields.bind hf⟩

/-- A string is read as its text. -/
theorem reads_text (old : String) (t : τ) :
    Reads l depth (Decode.text old) (.string t) (Readable.read t) :=
  ⟨.string t, .ofOption (Json.unescape?_quoted t)⟩

/-- An integer that fits is read as it was written. -/
theorem reads_integer (old : Int) {n : Int} (h : Number.inInt64 n = true) :
    Reads l depth (Decode.integer old) (.int n : Json τ) n := by
  refine ⟨.number (Json.numeral_toString n), ?_⟩
  rw [Json.int, Layout.source, Layout.literal_numeral (Json.numeral_toString n)]
  unfold Decode.integer
  dsimp only
  rw [Json.int64?_toString h]
  exact .pure n

/-- So is a plain id. -/
theorem reads_id {i : Id} (h : i.Plain) :
    Reads l depth readId (i.toJson : Json τ) i := by
  refine ⟨h.legible_toJson, ?_⟩
  unfold readId
  rw [h.read_toJson]
  exact .pure i

variable {zero : α} {item : α → Source → Read α}

/-- A value that may be missing, where it is there. -/
theorem reads_optional {old : Option α} (hj : j ≠ .null)
    (h : Reads l depth (item (old.getD zero)) j a) :
    Reads l depth (Decode.optional zero item old) j (some a) := by
  refine ⟨h.legible, ?_⟩
  unfold Decode.optional
  split
  · next heq => exact absurd heq (l.source_ne_null depth hj)
  · exact h.yields.map some

variable {f : β → Json τ} {g : β → α} {bs : List β}

/-- Items are read one by one. -/
theorem yields_items (h : ∀ b ∈ bs, Reads l depth (item zero) (f b) (g b)) :
    Yields (Decode.items zero item [] (l.sources depth (bs.map f))) (bs.map g) := by
  induction bs with
  | nil => exact .pure []
  | cons b bs ih =>
      rw [List.map_cons, List.map_cons, Layout.sources]
      unfold Decode.items
      refine (h b List.mem_cons_self).yields.bind ?_
      refine (ih fun c hc => h c (List.mem_cons_of_mem _ hc)).bind ?_
      exact .pure _

/-- A list of legible values is legible. -/
theorem legible_array {σ : Type} {f : β → Json σ} (h : ∀ b ∈ bs, (f b).Legible) :
    Json.Legible (.array (bs.map f)) := by
  refine .array fun v hv => ?_
  obtain ⟨b, hb, rfl⟩ := List.mem_map.1 hv
  exact h b hb

/-- A list is read item by item. -/
theorem reads_list {old : Option (List α)} (hold : old.getD [] = [])
    (h : ∀ b ∈ bs, Reads l (depth + 1) (item zero) (f b) (g b)) :
    Reads l depth (Decode.list zero item old) (.array (bs.map f))
      (some (bs.map g)) := by
  refine ⟨legible_array fun b hb => (h b hb).legible, ?_⟩
  rw [Layout.source]
  unfold Decode.list
  rw [hold]
  exact (yields_items h).map some

/-- A list that may be absent is read as one. -/
theorem reads_listOrNull {bs : Option (List β)}
    (h : ∀ b ∈ bs.getD [], Reads l (depth + 1) (item zero) (f b) (g b)) :
    Reads l depth (Decode.list zero item none) (listOrNull f bs)
      (bs.map (List.map g)) := by
  cases bs with
  | none => exact ⟨.null, .pure none⟩
  | some bs => exact reads_list rfl h

end Reads

-- ==== filling

section Fills

variable {ρ : Type} {names : List String} {put : ρ → String → Source → Read ρ}
  {r r' r'' : ρ} {fs gs : List (τ × Json τ)}

/-- The fields are legible, and reading them where they are printed at
this depth takes a record from `r` to `r'`. -/
structure Fills (l : Layout) (depth : Nat) (names : List String)
    (put : ρ → String → Source → Read ρ) (r : ρ) (fs : List (τ × Json τ))
    (r' : ρ) : Prop where
  legible : ∀ f ∈ fs, f.2.Legible
  yields : Yields (Decode.fields .lenient names put r (l.fieldSources depth fs)) r'

namespace Fills

/-- No field fills nothing. -/
theorem nil : Fills (τ := τ) l depth names put r [] r :=
  ⟨fun _ hf => absurd hf List.not_mem_nil, .pure r⟩

variable {k n : String}

/-- A field fills its part, and the others the rest. -/
theorem cons {v : Json τ} (hfield : Json.fieldFor? .lenient names k = some n)
    (hput : Reads l depth (put r n) v r')
    (hrest : Fills l depth names put r' fs r'') :
    Fills l depth names put r (field k v :: fs) r'' := by
  have hname := Json.unescape?_quoted (Texts.ofString k : τ)
  rw [Readable.read_ofString] at hname
  constructor
  · exact List.forall_mem_cons.2 ⟨hput.legible, hrest.legible⟩
  · exact .fields_cons hname hfield hput.yields hrest.yields

/-- One group of fields after another. -/
theorem append (h : Fills l depth names put r fs r')
    (h' : Fills l depth names put r' gs r'') :
    Fills l depth names put r (fs ++ gs) r'' := by
  constructor
  · exact List.forall_mem_append.2 ⟨h.legible, h'.legible⟩
  · rw [l.fieldSources_append, Decode.fields_append]
    exact h.yields.bind h'.yields

/-- A text that is left out when it is empty. -/
theorem textField [DecidableEq τ] {value : τ}
    (hfield : Json.fieldFor? .lenient names k = some n)
    (hput : Reads l depth (put r n) (.string value) r')
    (hempty : Readable.read value = "" → r' = r) :
    Fills l depth names put r (textField k value) r' := by
  unfold Editor.textField
  split
  · next h =>
    rw [hempty (by rw [h, Readable.read_ofString])]
    exact nil
  · exact cons hfield hput nil

/-- A list that is left out when it is empty. -/
theorem listField {α : Type} {f : α → Json τ} {as : List α}
    (hfield : Json.fieldFor? .lenient names k = some n)
    (hput : Reads l depth (put r n) (.array (as.map f)) r')
    (hempty : as = [] → r' = r) :
    Fills l depth names put r (listField k f as) r' := by
  unfold Editor.listField
  split
  · next h =>
    rw [hempty (List.isEmpty_iff.1 h)]
    exact nil
  · exact cons hfield hput nil

/-- Fields that fill a record are read as it. -/
theorem record (h : Fills l (depth + 1) names put r fs r') :
    Reads l depth (Decode.record .lenient names put r) (.object fs) r' :=
  ⟨.object h.legible, h.yields⟩

/-- A sentinel that is left out when there is none. -/
theorem sentinelField {i : Option Id} {s : Option Id → ρ}
    (hi : ∀ k, i = some k → k.Plain)
    (hfield : Json.fieldFor? .lenient names k = some n)
    (hput : ∀ v, put r n v
      = Decode.optional .empty readSentinel none v >>= fun o => pure (s o))
    (hnone : s none = r) :
    Fills (τ := τ) l depth names put r (sentinelField k i) (s i) := by
  cases i with
  | none =>
      rw [hnone]
      exact nil
  | some i =>
      have hid : Reads l depth (readSentinel .empty)
          (.object [field "id" (i.toJson : Json τ)]) i :=
        record (cons (n := "id") (by decide) (reads_id (hi i rfl)) nil)
      have hsentinel : Reads l depth (Decode.optional .empty readSentinel none)
          (.object [field "id" (i.toJson : Json τ)]) (some i) :=
        reads_optional (fun h => by cases h) hid
      have hfill : Reads l depth (put r n) (.object [field "id" (i.toJson : Json τ)])
          (s (some i)) := by
        rw [funext hput]
        exact hsentinel.bind (.pure _)
      exact cons hfield hfill nil

end Fills

end Fills

-- ==== widgets

/-- What is read from the document of widget values. -/
def Widgets.reread (w : Widgets τ) : Widgets := (w.map Readable.read).settled

/-- Widget values are read from the text that was printed for them. -/
theorem Widgets.read_chars {w : Widgets τ} (h : w.toJson.Spelled) :
    Widgets.read (String.ofList (l.chars depth w.toJson)) = .ok w.reread := by
  have hvalue : (Source.read? .lenient (String.ofList (l.chars depth w.toJson))).bind
      Source.value? = some w.reread.toJson := by
    rw [l.read?_legible .lenient depth h.legible, Option.bind_some,
      (l.writes_source h depth).value?, reread, toJson_settled, toJson_map]
  -- the opening bracket tells lists from objects
  cases w with
  | positional vs =>
      obtain ⟨cs, hcs⟩ := l.chars_array depth vs
      rw [Widgets.toJson, hcs] at hvalue ⊢
      unfold Widgets.read
      dsimp only
      rw [Text.trim_enclosed (by decide) (by decide),
        if_neg (Text.not_null_of_head (by decide) _), hvalue, String.toList_ofList]
      rfl
  | keyed t =>
      obtain ⟨cs, hcs⟩ := l.chars_object depth t
      rw [Widgets.toJson, hcs] at hvalue ⊢
      unfold Widgets.read
      dsimp only
      rw [Text.trim_enclosed (by decide) (by decide),
        if_neg (Text.not_null_of_head (by decide) _), hvalue, String.toList_ofList]
      rfl

/-- Widget values are read as settled values. -/
theorem reads_widgets {w : Widgets τ} (h : w.toJson.Spelled) :
    Reads l depth readWidgets w.toJson w.reread := by
  refine ⟨h.legible, ?_⟩
  unfold readWidgets
  rw [l.text_source depth h.legible, Widgets.read_chars h]
  exact .pure w.reread

-- ==== nodes

/-- A node whose ids are plain, whose mode fits in 64 bits and whose
widget values are JSON. -/
structure Node.Plain {τ : Type} [LT τ] (n : Node τ) : Prop where
  id : n.id.Plain
  mode : Number.inInt64 n.mode = true
  inputs : ∀ i ∈ n.inputs, ∀ k, i.link = some k → k.Plain
  outputs : ∀ o ∈ n.outputs, ∀ k ∈ o.links, k.Plain
  widgets : n.widgets.toJson.Canonical

/-- An id that may be absent is read as one. -/
theorem reads_optionalId {i : Option Id} (h : ∀ k, i = some k → k.Plain) :
    Reads l depth (Decode.optional .empty (fun _ => readId) none)
      ((i.map Id.toJson).getD .null : Json τ) i := by
  cases i with
  | none => exact ⟨.null, .pure none⟩
  | some k => exact reads_optional (fun h => by cases h) (reads_id (h k rfl))

/-- The name of a widget is read from its record. -/
theorem reads_widgetName (w : τ) :
    Reads l depth (readWidgetName "") (.object [field "name" (.string w)])
      (Readable.read w) :=
  Fills.record (.cons (n := "name") (by decide) (reads_text _ w) .nil)

/-- An input slot is read with its text mended. -/
theorem reads_nodeInput {i : NodeInput τ} (h : ∀ k, i.link = some k → k.Plain) :
    Reads l depth (readNodeInput {}) i.toJson (i.map Readable.read) := by
  obtain ⟨name, type, link, widget⟩ := i
  refine Fills.record <|
    .append (.cons (n := "name") (by decide) ((reads_text _ name).bind (.pure _)) <|
      .cons (n := "type") (by decide) ((reads_text _ type).bind (.pure _)) <|
      .cons (n := "link") (by decide) ((reads_optionalId h).bind (.pure _)) .nil) <|
    .append ?_ .nil
  cases widget with
  | none => exact .nil
  | some w =>
      have hwidget : Reads l (depth + 1) (Decode.optional "" readWidgetName none)
          (.object [field "name" (.string w)]) (some (Readable.read w)) :=
        reads_optional (fun h => by cases h) (reads_widgetName w)
      exact .cons (n := "widget") (by decide) (hwidget.bind (.pure _)) .nil

/-- A list of plain ids. -/
theorem reads_ids {is : Option (List Id)} (h : ∀ i ∈ is.getD [], i.Plain) :
    Reads l depth (Decode.list .empty (fun _ => readId) none)
      (listOrNull Id.toJson is : Json τ) is := by
  have hids : Reads l depth (Decode.list .empty (fun _ => readId) none)
      (listOrNull Id.toJson is : Json τ) (is.map (List.map id)) :=
    reads_listOrNull fun i hi => reads_id (h i hi)
  rwa [List.map_id_fun, Option.map_id_fun] at hids

/-- An output slot is read with its text mended. -/
theorem reads_nodeOutput {o : NodeOutput τ} (h : ∀ k ∈ o.links, k.Plain) :
    Reads l depth (readNodeOutput {}) o.toJson (o.map Readable.read) :=
  Fills.record <|
    .cons (n := "name") (by decide) ((reads_text _ o.name).bind (.pure _)) <|
    .cons (n := "type") (by decide) ((reads_text _ o.type).bind (.pure _)) <|
    .cons (n := "links") (by decide) ((reads_ids h).bind (.pure _)) .nil

/-- What is read from the document of a node. -/
def Node.reread (n : Node τ) : Node := (n.map Readable.read).settled

/-- A node is read as its rereading. -/
theorem reads_node [LT τ] [DecidableEq τ] {n : Node τ} (h : n.Plain) :
    Reads l depth (readNode {}) n.toJson n.reread := by
  have hinputs : Reads l (depth + 1) (Decode.list {} readNodeInput (some []))
      (.array (n.inputs.map NodeInput.toJson))
      (some (n.inputs.map (NodeInput.map Readable.read))) :=
    reads_list rfl fun i hi => reads_nodeInput (h.inputs i hi)
  have houtputs : Reads l (depth + 1) (Decode.list {} readNodeOutput (some []))
      (.array (n.outputs.map NodeOutput.toJson))
      (some (n.outputs.map (NodeOutput.map Readable.read))) :=
    reads_list rfl fun o ho => reads_nodeOutput (h.outputs o ho)
  refine Fills.record <|
    .append (.cons (n := "id") (by decide) ((reads_id h.id).bind (.pure _)) <|
      .cons (n := "type") (by decide) ((reads_text _ n.type).bind (.pure _)) .nil) <|
    .append (.textField (n := "title") (by decide)
      ((reads_text _ n.title).bind (.pure _)) ?_) <|
    .append (.cons (n := "mode") (by decide)
      ((reads_integer _ h.mode).bind (.pure _)) .nil) <|
    .append (.listField (n := "inputs") (by decide) (hinputs.bind (.pure _)) ?_) <|
    .append (.listField (n := "outputs") (by decide) (houtputs.bind (.pure _)) ?_) <|
    .append (.cons (n := "widgets_values") (by decide)
      ((reads_widgets h.widgets.spelled).bind (.pure _)) .nil) .nil
  · intro hempty
    rw [hempty]
  · intro hempty
    rw [hempty]
    rfl
  · intro hempty
    rw [hempty]
    rfl

-- ==== links

/-- A link whose ids are plain and whose slots fit in 64 bits. -/
structure Link.Plain {τ : Type} (k : Link τ) : Prop where
  id : k.id.Plain
  origin : k.origin.Plain
  originSlot : Number.inInt64 k.originSlot = true
  target : k.target.Plain
  targetSlot : Number.inInt64 k.targetSlot = true

/-- A plain link is legible. -/
theorem Link.Plain.legible_toJson {σ : Type} {k : Link σ} (h : k.Plain) :
    k.toJson.Legible := by
  refine .array ?_
  simp only [List.forall_mem_cons, List.not_mem_nil, false_imp_iff, implies_true,
    and_true]
  exact ⟨h.id.legible_toJson, h.origin.legible_toJson,
    .number (Json.numeral_toString _), h.target.legible_toJson,
    .number (Json.numeral_toString _), .string _⟩

/-- It is read as a link, its type mended. -/
theorem Link.Plain.readLink? {k : Link τ} (h : k.Plain) :
    readLink? (l.source depth k.toJson) = some (k.map Readable.read) := by
  have htype : linkType (l.source (depth + 1) (.string k.type))
      = Readable.read k.type := by
    rw [Layout.source, linkType, Json.unescape?_quoted]
    rfl
  have hitems : Yields (readLinkItems (l.sources (depth + 1)
      [k.id.toJson, k.origin.toJson, .int k.originSlot, k.target.toJson,
        .int k.targetSlot, .string k.type])) (k.map Readable.read) := by
    refine (reads_id h.id).yields.bind ?_
    refine (reads_id h.origin).yields.bind ?_
    refine (reads_integer 0 h.originSlot).yields.bind ?_
    refine (reads_id h.target).yields.bind ?_
    refine (reads_integer 0 h.targetSlot).yields.bind ?_
    dsimp only [Layout.sources, List.head?_cons, Option.map_some, Option.getD_some]
    rw [htype]
    exact .pure _
  unfold Editor.readLink? Link.toJson
  rw [Layout.source]
  dsimp only
  rw [hitems.run]

/-- None of the plain links is skipped. -/
theorem readLinksFrom_sources {ks : List (Link τ)} (h : ∀ k ∈ ks, k.Plain) (i : Nat) :
    readLinksFrom i (l.sources depth (ks.map Link.toJson))
      = (ks.map (Link.map Readable.read), []) := by
  induction ks generalizing i with
  | nil => rfl
  | cons k ks ih =>
      rw [List.map_cons, List.map_cons, Layout.sources, readLinksFrom,
        (h k List.mem_cons_self).readLink?,
        ih fun k hk => h k (List.mem_cons_of_mem _ hk)]

/-- The entries of a list of links are taken as they are. -/
theorem yields_entries (vs : List Source) :
    Yields (Decode.items .null readEntry [] vs) vs := by
  induction vs with
  | nil => exact .pure []
  | cons v vs ih => exact (Yields.pure v).bind (ih.bind (.pure _))

/-- Link entries are kept as written. -/
theorem reads_entries {ks : Option (List (Link τ))}
    (h : ∀ k ∈ ks.getD [], k.Plain) :
    Reads l depth (Decode.list .null readEntry none) (listOrNull Link.toJson ks)
      (ks.map fun ks => l.sources (depth + 1) (ks.map Link.toJson)) := by
  cases ks with
  | none => exact ⟨.null, .pure none⟩
  | some ks =>
      exact ⟨legible_array fun k hk => (h k hk).legible_toJson,
        (yields_entries _).map some⟩

-- ==== definitions

/-- A definition whose ids are plain, its nodes and links with them. -/
structure Definition.Plain {τ : Type} [LT τ] (d : Definition τ) : Prop where
  inputs : ∀ p ∈ d.inputs, ∀ k ∈ p.links, k.Plain
  outputs : ∀ p ∈ d.outputs, ∀ k ∈ p.links, k.Plain
  nodes : ∀ n ∈ d.nodes, n.Plain
  links : ∀ k ∈ d.links, k.Plain
  inputNode : ∀ i, d.inputNode = some i → i.Plain
  outputNode : ∀ i, d.outputNode = some i → i.Plain

/-- A port is read with its text mended. -/
theorem reads_port [DecidableEq τ] {p : Port τ} (h : ∀ k ∈ p.links, k.Plain) :
    Reads l depth (readPort {}) p.toJson (p.map Readable.read) := by
  have hlinks : Reads l (depth + 1) (Decode.list .empty (fun _ => readId) (some []))
      (.array (p.links.map (Id.toJson : Id → Json τ))) (some (p.links.map id)) :=
    reads_list rfl fun k hk => reads_id (h k hk)
  rw [List.map_id] at hlinks
  refine Fills.record <|
    .append (.textField (n := "id") (by decide)
      ((reads_text _ p.id).bind (.pure _)) ?_) <|
    .append (.cons (n := "name") (by decide) ((reads_text _ p.name).bind (.pure _)) <|
      .cons (n := "type") (by decide) ((reads_text _ p.type).bind (.pure _)) .nil) <|
    .append (.listField (n := "linkIds") (by decide) (hlinks.bind (.pure _)) ?_) .nil
  · intro hempty
    rw [hempty]
  · intro hempty
    rw [hempty]
    rfl

/-- What is read from the document of a definition. -/
def Definition.reread (d : Definition τ) : Definition :=
  (d.map Readable.read).settled.unskipped

/-- The links of a draft are those whose entries it holds. -/
theorem Draft.definition_entries {d : Definition τ} (h : ∀ k ∈ d.links, k.Plain) :
    Draft.definition ⟨{ d.reread with linkList := none },
      d.linkList.map fun ks => l.sources depth (ks.map Link.toJson)⟩ = d.reread := by
  obtain ⟨id, name, inputs, outputs, nodes, links, inputNode, outputNode, skipped⟩ := d
  cases links with
  | none => rfl
  | some ks =>
      have hlinks : readLinks (l.sources depth (ks.map Link.toJson))
          = (ks.map (Link.map Readable.read), []) := readLinksFrom_sources h 0
      unfold Draft.definition
      dsimp only [Option.map_some]
      rw [hlinks]
      rfl

/-- Ports are read one by one. -/
theorem reads_ports [DecidableEq τ] {ps : Option (List (Port τ))}
    (h : ∀ p ∈ ps.getD [], ∀ k ∈ p.links, k.Plain) :
    Reads l depth (Decode.list {} readPort none) (listOrNull Port.toJson ps)
      (ps.map (List.map (Port.map Readable.read))) :=
  reads_listOrNull fun p hp => reads_port (h p hp)

theorem Definition.reread_nodeList (d : Definition τ) :
    d.reread.nodeList = d.nodeList.map (List.map Node.reread) := by
  unfold reread unskipped settled map
  dsimp only
  rw [Option.map_map, List.map_comp_map]
  rfl

/-- A definition is read as its rereading. -/
theorem reads_definition [LT τ] [DecidableEq τ] {d : Definition τ} (h : d.Plain) :
    Reads l depth readDefinition d.toJson d.reread := by
  have hnodes : Reads l (depth + 1) (Decode.list {} readNode none)
      (listOrNull Node.toJson d.nodeList) d.reread.nodeList := by
    rw [d.reread_nodeList]
    exact reads_listOrNull fun n hn => reads_node (h.nodes n hn)
  have hfills : Reads l depth
      (Decode.record .lenient definitionFields readDefinitionField ⟨{}, none⟩) d.toJson
      ⟨{ d.reread with linkList := none },
        d.linkList.map fun ks => l.sources (depth + 2) (ks.map Link.toJson)⟩ := by
    refine Fills.record <|
      .append (.cons (n := "id") (by decide) ((reads_text _ d.id).bind (.pure _)) .nil) <|
      .append (.textField (n := "name") (by decide)
        ((reads_text _ d.name).bind (.pure _)) ?_) <|
      .append (.cons (n := "inputs") (by decide)
          ((reads_ports h.inputs).bind (.pure _)) <|
        .cons (n := "outputs") (by decide) ((reads_ports h.outputs).bind (.pure _)) <|
        .cons (n := "nodes") (by decide) (hnodes.bind (.pure _)) <|
        .cons (n := "links") (by decide)
          ((reads_entries h.links).bind (.pure _)) .nil) <|
      .append (.sentinelField h.inputNode (n := "inputNode") (by decide)
        (fun _ => rfl) rfl) <|
      .append (.sentinelField h.outputNode (n := "outputNode") (by decide)
        (fun _ => rfl) rfl) .nil
    intro hempty
    rw [hempty]
  refine ⟨hfills.legible, .sealed ?_⟩
  rw [← Draft.definition_entries (l := l) h.links]
  exact hfills.yields.bind (.pure _)

/-- So are the definitions of a workflow. -/
theorem reads_definitions [LT τ] [DecidableEq τ] {ds : List (Definition τ)}
    (h : ∀ d ∈ ds, d.Plain) :
    Reads l depth (readDefinitions [])
      (fieldsOf [listField "subgraphs" Definition.toJson ds])
      (ds.map Definition.reread) := by
  have hlist : Reads l (depth + 1)
      (Decode.list {} (fun _ => readDefinition) (some []))
      (.array (ds.map Definition.toJson)) (some (ds.map Definition.reread)) :=
    reads_list rfl fun d hd => reads_definition (h d hd)
  refine Fills.record <|
    .append (.listField (n := "subgraphs") (by decide) (hlist.bind (.pure _)) ?_) .nil
  intro hempty
  rw [hempty]
  rfl

-- ==== workflows

/-- A workflow whose nodes, links and definitions are plain. -/
structure Workflow.Plain {τ : Type} [LT τ] (w : Workflow τ) : Prop where
  nodes : ∀ n ∈ w.nodes, n.Plain
  links : ∀ k ∈ w.links, k.Plain
  definitions : ∀ d ∈ w.definitions, d.Plain

/-- What is read from the document of a workflow: each text as it is
read, and no link entry skipped. -/
def Workflow.reread (w : Workflow τ) : Workflow :=
  (w.map Readable.read).settled.unskipped

variable {w : Workflow τ}

/-- The links of a draft are those of its entries. -/
theorem Draft.workflow_entries (h : ∀ k ∈ w.links, k.Plain) :
    Draft.workflow ⟨{ w.reread with linkList := none },
      w.linkList.map fun ks => l.sources depth (ks.map Link.toJson)⟩ = w.reread := by
  obtain ⟨nodes, links, definitions, skipped⟩ := w
  cases links with
  | none => rfl
  | some ks =>
      have hlinks : readLinks (l.sources depth (ks.map Link.toJson))
          = (ks.map (Link.map Readable.read), []) := readLinksFrom_sources h 0
      unfold Draft.workflow
      dsimp only [Option.map_some]
      rw [hlinks]
      rfl

theorem Workflow.reread_nodes (w : Workflow τ) :
    w.reread.nodes = w.nodes.map Node.reread := List.map_map

theorem Workflow.reread_definitions (w : Workflow τ) :
    w.reread.definitions = w.definitions.map Definition.reread := by
  unfold reread unskipped settled map
  dsimp only
  rw [List.map_map, List.map_map]
  rfl

/-- A workflow is read as its rereading. -/
theorem reads_workflow [LT τ] [DecidableEq τ] (h : w.Plain) :
    Reads l depth readWorkflow w.toJson w.reread := by
  have hnodes : Reads l (depth + 1) (Decode.list {} readNode (some []))
      (.array (w.nodes.map Node.toJson)) (some w.reread.nodes) := by
    rw [w.reread_nodes]
    exact reads_list rfl fun n hn => reads_node (h.nodes n hn)
  have hdefinitions : Reads l (depth + 1) (readDefinitions [])
      (fieldsOf [listField "subgraphs" Definition.toJson w.definitions])
      w.reread.definitions := by
    rw [w.reread_definitions]
    exact reads_definitions h.definitions
  have hfills : Reads l depth
      (Decode.record .lenient ["nodes", "links", "definitions"] readWorkflowField ⟨{}, none⟩)
      w.toJson ⟨{ w.reread with linkList := none },
        w.linkList.map fun ks => l.sources (depth + 2) (ks.map Link.toJson)⟩ :=
    Fills.record <|
      .cons (n := "nodes") (by decide) (hnodes.bind (.pure _)) <|
      .cons (n := "links") (by decide) ((reads_entries h.links).bind (.pure _)) <|
      .cons (n := "definitions") (by decide) (hdefinitions.bind (.pure _)) .nil
  refine ⟨hfills.legible, ?_⟩
  rw [← Draft.workflow_entries (l := l) h.links]
  exact hfills.yields.bind (.pure _)

/-- A printed document is an object with a list of nodes, so parsing it
comes down to reading it. -/
theorem Workflow.parse_print [DecidableEq τ] {w' : Workflow}
    (h : Reads l 0 readWorkflow w.toJson w') :
    Workflow.parse (l.print w.toJson) = .ok w' := by
  obtain ⟨fs, hfs, hnodes⟩ : ∃ fs, w.toJson = .object fs
      ∧ Source.lastField? (fs.map fun f => (Readable.read f.1, l.source 1 f.2)) "nodes"
        = some (l.source 1 (.array (w.nodes.map Node.toJson))) := by
    refine ⟨_, rfl, ?_⟩
    simp only [field, List.map_cons, List.map_nil, Readable.read_ofString]
    rfl
  have hsource := l.read?_legible .lenient 0 h.legible
  have hfields := l.fields?_source 0 fs
  have hrun := h.yields.run
  rw [hfs] at hsource hrun ⊢
  unfold parse Layout.print
  rw [hsource]
  rw [Layout.source] at hrun hfields ⊢
  dsimp only
  rw [hfields]
  dsimp only
  rw [hnodes, Layout.source]
  dsimp only
  rw [hrun]

/-- The document of a plain workflow is valid, and is read as what its
texts are read as. -/
theorem Workflow.Plain.written [LT τ] [DecidableEq τ] (h : w.Plain) :
    w.write? = some w.toJson.write ∧ Workflow.parse w.toJson.write = .ok w.reread := by
  have hreads : Reads .compact 0 readWorkflow w.toJson w.reread := reads_workflow h
  have hvalid : Source.read? .strict w.toJson.write
      = some (Layout.compact.source 0 w.toJson) :=
    Layout.compact.read?_legible .strict 0 hreads.legible
  refine ⟨?_, Workflow.parse_print hreads⟩
  unfold write?
  dsimp only
  rw [hvalid]
  rfl

open Text (Octets WellFormed octets ofOctets octets_ofOctets_iff)

/-- A plain workflow, whatever octets its texts are, is written, and its
text is read: each text as the Unicode it holds, with the replacement
character for every octet that belongs to none, and no link skipped. This
is the same workflow exactly when all of its texts are well-formed. -/
theorem Workflow.written_octets_mended {w : Workflow Octets} (h : w.Plain) :
    ∃ text back, w.write? = some text ∧ Workflow.parse text = .ok back
      ∧ back = (w.map ofOctets).settled.unskipped
      ∧ (back.map octets = w.unskipped ↔ ∀ t ∈ w.texts, WellFormed t) := by
  refine ⟨w.toJson.write, w.reread, h.written.1, h.written.2, rfl, ?_⟩
  exact Workflow.mended_iff (fun n hn => (h.nodes n hn).widgets)
    fun d hd n hn => ((h.definitions d hd).nodes n hn).widgets

-- ==== a braid

/-- A bypassed node with quotes in its title, linked by an id that has
quotes and markup in it, and with named widget values. -/
def mixer : Node Octets where
  id := ⟨"7"⟩
  type := octets "Mix"
  title := octets "a \"b\""
  mode := Mode.bypass
  inputs := [⟨octets "in", octets "IMAGE", some ⟨"a\"<b>"⟩, some (octets "ω")⟩]
  outputs := [⟨octets "out", octets "", some []⟩]
  widgets := .keyed [(octets "seed", .number "1e3"), (octets "text", .string (octets "<&>"))]

def blurInstance : Node Octets where
  id := ⟨"sub&way"⟩
  type := octets "blur"
  title := octets ""
  widgets := .positional [.null, .number "-0.10"]

def braidLink : Link Octets where
  id := ⟨"a\"<b>"⟩
  origin := ⟨"sub&way"⟩
  target := ⟨"7"⟩
  targetSlot := -1
  type := octets "IMAGE"

/-- A definition with one sentinel, the greatest id of a port, a node
without an id and a link that was skipped. -/
def blurDefinition : Definition Octets where
  id := octets "blur"
  name := octets ""
  inputList := some [⟨octets "", octets "p", octets "", [⟨"9007199254740992"⟩]⟩]
  outputList := some []
  nodeList := some [{ type := octets "", title := octets "" }]
  inputNode := some ⟨"-10"⟩
  skipped := [3]

def braid : Workflow Octets where
  nodes := [mixer, blurInstance]
  linkList := some [braidLink]
  definitions := [blurDefinition]

/-- The first node of the braid is plain. -/
theorem plain_mixer : mixer.Plain where
  id := .inl ⟨7, by decide, by decide⟩
  mode := by decide
  inputs := by
    have hlink : Id.Plain ⟨"a\"<b>"⟩ := .text (by decide) (by decide)
    simp [mixer, hlink]
  outputs := by simp [mixer, NodeOutput.links]
  widgets := by
    have hseed : Source.readNumber? "1e3".toList = some ("1e3", []) := by decide
    have hlt : octets "seed" < octets "text" := (Text.octets_lt_iff _ _).2 (by decide)
    refine .object (by simp [hlt]) ?_
    simp [Json.Canonical.number (Json.numeral_of_readNumber? hseed), Json.Canonical.string]

theorem plain_blurInstance : blurInstance.Plain where
  id := .text (by decide) (by decide)
  mode := by decide
  inputs := by simp [blurInstance]
  outputs := by simp [blurInstance]
  widgets := by
    have hradius : Source.readNumber? "-0.10".toList = some ("-0.10", []) := by decide
    refine .array ?_
    simp [Json.Canonical.null, Json.Canonical.number (Json.numeral_of_readNumber? hradius)]

theorem plain_braidLink : braidLink.Plain where
  id := .text (by decide) (by decide)
  origin := .text (by decide) (by decide)
  originSlot := by decide
  target := .inl ⟨7, by decide, by decide⟩
  targetSlot := by decide

/-- The definition of the braid is plain. -/
theorem plain_blurDefinition : blurDefinition.Plain where
  inputs := by
    have hport : Id.Plain ⟨"9007199254740992"⟩ := .inl ⟨2 ^ 53, by decide, by decide⟩
    simp [blurDefinition, Definition.inputs, hport]
  outputs := by simp [blurDefinition, Definition.outputs]
  nodes := by
    intro n hn
    rw [List.mem_singleton.1 hn]
    exact { id := .text (by decide) (by decide), mode := by decide, inputs := by simp
            outputs := by simp, widgets := .array (by simp) }
  links := by simp [blurDefinition, Definition.links]
  inputNode := by
    have hsentinel : Id.Plain ⟨"-10"⟩ := .inl ⟨-10, by decide, by decide⟩
    simp [blurDefinition, hsentinel]
  outputNode := by simp [blurDefinition]

/-- The braid meets the conditions. -/
theorem plain_braid : braid.Plain where
  nodes := by simp [braid, plain_mixer, plain_blurInstance]
  links := by simp [braid, Workflow.links, plain_braidLink]
  definitions := by simp [braid, plain_blurDefinition]

/-- All of its texts are UTF-8. -/
theorem wellFormed_braid : ∀ t ∈ braid.texts, WellFormed t := by
  have htexts : braid.texts = ["Mix", "a \"b\"", "in", "IMAGE", "ω", "out", "", "seed",
      "text", "<&>", "blur", "", "IMAGE", "blur", "", "", "p", "", "", ""].map octets := rfl
  rw [htexts]
  intro t ht
  obtain ⟨s, -, hs⟩ := List.mem_map.1 ht
  exact ⟨s, hs⟩

/-- The braid comes back as it was. -/
theorem Workflow.written_octets_mended_braid : braid.Plain
    ∧ ∃ text back, braid.write? = some text ∧ Workflow.parse text = .ok back
      ∧ back.map octets = braid.unskipped := by
  obtain ⟨text, back, hwrite, hparse, -, hsame⟩ :=
    Workflow.written_octets_mended plain_braid
  exact ⟨plain_braid, text, back, hwrite, hparse, hsame.2 wellFormed_braid⟩

/-- A node whose title is an octet that begins no character. -/
def smudged : Workflow Octets where
  nodes := [{ id := ⟨"1"⟩, type := octets "A", title := [0xff] }]

theorem plain_smudged : smudged.Plain where
  nodes := by
    intro n hn
    rw [List.mem_singleton.1 hn]
    exact { id := .inl ⟨1, by decide, by decide⟩, mode := by decide, inputs := by simp
            outputs := by simp, widgets := .array (by simp) }
  links := by simp [smudged, Workflow.links]
  definitions := by simp [smudged]

def smudgedText : String :=
  "\x7b\"nodes\":[\x7b\"id\":1,\"type\":\"A\",\"title\":\"\\ufffd\",\"mode\":0,"
    ++ "\"widgets_values\":[]\x7d],\"links\":null,\"definitions\":\x7b\x7d\x7d"

/-- What is written for the smudged title. -/
theorem write_smudged : smudged.toJson.write = smudgedText := by decide +kernel

/-- Its title is no UTF-8. -/
theorem not_wellFormed_smudged : ¬ ∀ t ∈ smudged.texts, WellFormed t := by
  intro h
  have htitle := (octets_ofOctets_iff [0xff]).2
    (h [0xff] (List.mem_cons_of_mem _ List.mem_cons_self))
  rw [Text.octets_eq] at htitle
  exact absurd htitle (by decide)

/-- The title is written as the replacement character, and read as it. -/
theorem Workflow.parse_written_smudged : smudged.Plain
    ∧ ∃ back, smudged.write? = some smudgedText
      ∧ Workflow.parse smudgedText = .ok back
      ∧ back.map octets ≠ smudged.unskipped := by
  have hwritten := plain_smudged.written
  rw [write_smudged] at hwritten
  refine ⟨plain_smudged, smudged.reread, hwritten.1, hwritten.2, fun hsame => ?_⟩
  exact not_wellFormed_smudged <| (Workflow.mended_iff
    (fun n hn => (plain_smudged.nodes n hn).widgets)
    fun d hd => absurd hd List.not_mem_nil).1 hsame

end PromptGraph.Editor

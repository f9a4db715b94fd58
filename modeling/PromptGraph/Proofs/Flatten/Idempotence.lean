/-
Converting what was converted. A converted graph is printed and given to
the converter again, now without node types. The converter tells the two
kinds of graph apart by a field called `nodes` at the top, and entries
carry the ids of nodes: a graph with an entry of that id is taken for an
editor graph and refused. Every other converted graph is recognised and
passed through, its inputs read anew. That leaves the text as it is, up
to one case: a widget value that is a pair of a string and minus zero is
read as a reference, and a reference to slot zero has no sign.

Main statement: `convert_printed`.
-/
import PromptGraph.Proofs.Editor.Reader
import PromptGraph.Proofs.Execution.Codec
import PromptGraph.Proofs.Flatten.Dangling

namespace PromptGraph.Flatten

open Editor
open Execution (Graph Entry Input Ref)
open Json (Decode Layout)
open Json.Decode (Yields)

-- ==== converted graphs

variable {w : Workflow}

/-- What was converted from canonical nodes can be printed. -/
theorem printable_convertWorkflow (registry : Registry) (table : NodeTable)
    (source : String) (hw : w.Canonical) :
    (convertWorkflow registry table source w).graph.Printable := by
  have horder := ascending_graph registry table source w
  have hsettled : ∀ e ∈ (convertWorkflow registry table source w).graph,
      Assoc.get? (convertWorkflow registry table source w).graph e.1 = some e.2 :=
    fun e he => horder.mem_iff.1 he
  refine ⟨⟨horder, fun e he => (settled_entry (hsettled e he)).1⟩, ?_⟩
  rintro e he ⟨name, v⟩ hi
  cases v with
  | ref r => trivial
  | literal v =>
      have hget : e.2.input? name = some (.literal v) :=
        (settled_entry (hsettled e he)).1.mem_iff.1 hi
      obtain ⟨l, hl, n, hn, hv⟩ := literal_fromWidgets (hsettled e he) hget
      have hnode : n.Canonical := by
        rcases List.mem_cons.1 hl with rfl | hl
        · exact hw.nodes n hn
        · obtain ⟨d, hd, rfl⟩ := List.mem_map.1 hl
          exact hw.definitions d hd n hn
      unfold Node.Canonical Widgets.Canonical at hnode
      unfold WidgetValue at hv
      split at hv
      · next vs hvs =>
        rw [hvs] at hnode
        exact hnode v hv
      · next t ht =>
        rw [ht] at hnode
        obtain ⟨key, hkey⟩ := hv
        exact hnode _ (Assoc.mem_of_get? hkey)

/-- What is converted can be printed. -/
theorem printable_of_convert {registry : Registry} {types : TableSource}
    {source text : String} {r : Result}
    (h : convert registry types source text = .ok r) : r.graph.Printable := by
  unfold convert at h
  split at h
  · cases h
  · split at h
    · split at h
      · cases h
      · next w hw =>
        split at h
        · cases h
        · cases h
          exact printable_convertWorkflow _ _ _ (Workflow.canonical_of_parse hw)
    · split at h
      · split at h
        · next g hg =>
          cases h
          exact (Execution.Graph.asRead_of_parse hg).printable
        · cases h
      · cases h

-- ==== printed graphs

/-- A field of the object that a graph is printed as. -/
def WritesEntry (f : String × Json.Source) (e : String × Entry) : Prop :=
  f.1 = e.1 ∧ Json.Source.Writes f.2 e.2.toJson

variable {fields : List (String × Json.Source)} {g : Graph}

/-- The ids of a printed graph are read back. -/
theorem mapM_unescape_of_writes
    (hw : List.Forall₂ Json.Source.WritesField fields (Assoc.mapValues Entry.toJson g)) :
    ∃ named, fields.mapM (fun f => (Json.Source.unescape? f.1).map (·, f.2)) = some named
      ∧ List.Forall₂ WritesEntry named g := by
  induction g generalizing fields with
  | nil =>
      cases hw
      exact ⟨[], rfl, .nil⟩
  | cons e g ih =>
      obtain ⟨f, rest, hf, hrest, rfl⟩ := List.forall₂_cons_right_iff.1 hw
      obtain @⟨_, _, v, _, hname, hv⟩ := hf
      obtain ⟨named, hnamed, hentries⟩ := ih hrest
      refine ⟨(e.1, v) :: named, ?_, .cons ⟨rfl, hv⟩ hentries⟩
      rw [List.mapM_cons, hname, hnamed]
      rfl

/-- The fields at the top of a printed graph are its entries. -/
theorem read?_print_graph (l : Layout) (h : g.Printable) :
    ∃ text members fields,
      Json.Source.read? .lenient (l.print g.toJson) = some (.object text members)
      ∧ Json.Source.fields? (.object text members) = some fields
      ∧ List.Forall₂ WritesEntry fields g := by
  obtain ⟨s, hs, hw⟩ := l.read?_print .lenient h.spelled_toJson
  cases hw with
  | object text hw =>
      obtain ⟨named, hnamed, hentries⟩ := mapM_unescape_of_writes hw
      exact ⟨text, _, named, hs, hnamed, hentries⟩

/-- The other fields of an entry are not taken for its class. -/
theorem fieldFor?_inputs :
    Json.fieldFor? .lenient ["class_type"] "inputs" = none := by
  decide +kernel

theorem fieldFor?_meta :
    Json.fieldFor? .lenient ["class_type"] "_meta" = none := by
  decide +kernel

/-- A printed entry names its class. -/
theorem isEntryShaped_of_writes {e : Entry} {s : Json.Source}
    (h : Json.Source.Writes s e.toJson) : isEntryShaped s = true := by
  obtain ⟨classType, inputs, title⟩ := e
  cases h with
  | object text h =>
      obtain ⟨f, rest, hf, h₁, rfl⟩ := List.forall₂_cons_right_iff.1 h
      obtain ⟨g, rest, hg, h₂, rfl⟩ := List.forall₂_cons_right_iff.1 h₁
      obtain @⟨_, _, v, _, hclass, hv⟩ := hf
      obtain @⟨_, _, u, _, hinputs, -⟩ := hg
      have hread : Yields (Decode.optional "" Decode.text none v
          : Decode Empty (Option String)) (some classType) := by
        cases hv with
        | string hv => exact (Yields.ofOption hv).map some
      have hrest : Yields (Decode.fields .lenient ["class_type"]
          (fun old _ x => Decode.optional "" Decode.text old x) (some classType)
          rest : Decode Empty (Option String)) (some classType) := by
        cases title with
        | none =>
            cases h₂
            exact .pure _
        | some t =>
            obtain ⟨f, rest, hf, h₃, rfl⟩ := List.forall₂_cons_right_iff.1 h₂
            cases h₃
            obtain @⟨_, _, _, _, hmeta, -⟩ := hf
            exact .fields_cons_other hmeta fieldFor?_meta (.pure _)
      have hall := Yields.fields_cons (n := "class_type") hclass (by decide) hread
        (.fields_cons_other (v := u) hinputs fieldFor?_inputs hrest)
      unfold isEntryShaped classOf?
      simp only [Decode.record, hall.run, Option.isSome_some]

theorem lastOfEach_subset {f : String × Json.Source}
    (h : f ∈ Json.Source.lastOfEach fields) : f ∈ fields := by
  induction fields with
  | nil => cases h
  | cons g rest ih =>
      unfold Json.Source.lastOfEach at h
      split at h
      · exact List.mem_cons_of_mem _ (ih h)
      · rcases List.mem_cons.1 h with rfl | h
        · exact List.mem_cons_self
        · exact List.mem_cons_of_mem _ (ih h)

/-- Every field at the top of a printed graph belongs to an entry. -/
theorem exists_of_writesEntry (h : List.Forall₂ WritesEntry fields g)
    {f : String × Json.Source} (hf : f ∈ fields) :
    ∃ e ∈ g, WritesEntry f e := by
  induction h with
  | nil => cases hf
  | cons hfe _ ih =>
      rcases List.mem_cons.1 hf with rfl | hf
      · exact ⟨_, List.mem_cons_self, hfe⟩
      · obtain ⟨e, he, hw⟩ := ih hf
        exact ⟨e, List.mem_cons_of_mem _ he, hw⟩

/-- A printed graph looks like one. -/
theorem isExecutionShaped_of_writes (h : List.Forall₂ WritesEntry fields g) :
    isExecutionShaped fields = true := by
  unfold isExecutionShaped
  refine List.all_eq_true.2 fun f hf => ?_
  obtain ⟨e, -, hw⟩ := exists_of_writesEntry h (lastOfEach_subset hf)
  exact isEntryShaped_of_writes hw.2

/-- The names at the top of a printed graph are its ids. -/
theorem map_fst_of_writes (h : List.Forall₂ WritesEntry fields g) :
    fields.map Prod.fst = Assoc.keys g := by
  induction h with
  | nil => rfl
  | cons hfe _ ih => rw [List.map_cons, hfe.1, ih]; rfl

/-- A field is there if its id is. -/
theorem any_name_of_writes (h : List.Forall₂ WritesEntry fields g)
    (name : String) :
    fields.any (·.1 = name) = Assoc.contains g name := by
  rw [Bool.eq_iff_iff, Assoc.contains_iff_mem_keys, ← map_fst_of_writes h]
  simp

-- ==== converting again

/-- A field of the name holds an object, so it is no list of nodes. -/
theorem parse_workflow_print (l : Layout) (h : g.Printable)
    (hnodes : Assoc.contains g "nodes" = true) :
    Workflow.parse (l.print g.toJson) = .error .nodesNotList := by
  obtain ⟨text, members, fields, hread, hfields, hw⟩ := read?_print_graph l h
  have hname := any_name_of_writes hw "nodes"
  rw [hnodes, List.any_eq_true] at hname
  obtain ⟨f, hf, hfn⟩ := hname
  have hlast : ∃ t vs, Json.Source.lastField? fields "nodes" = some (.object t vs) := by
    unfold Json.Source.lastField?
    cases hfind : fields.reverse.find? (·.1 = "nodes") with
    | none =>
        have := List.find?_eq_none.1 hfind f (List.mem_reverse.2 hf)
        exact absurd hfn this
    | some d =>
        obtain ⟨e, -, he⟩ := exists_of_writesEntry hw
          (List.mem_reverse.1 (List.mem_of_find?_eq_some hfind))
        obtain ⟨name, v⟩ := d
        obtain ⟨-, hv⟩ := he
        cases hv with
        | object t hv => exact ⟨t, _, rfl⟩
  obtain ⟨t, vs, hlast⟩ := hlast
  unfold Workflow.parse
  simp only [hread, hfields, hlast]

/-- A printed graph is refused if it has an entry called `nodes`, and
otherwise passed through with its inputs read anew. -/
theorem convert_print (l : Layout) (h : g.Printable) (registry : Registry)
    (types : TableSource) (source : String) :
    convert registry types source (l.print g.toJson)
      = if Assoc.contains g "nodes" then .error (.workflow .nodesNotList)
        else .ok { graph := g.reread, passThrough := true } := by
  obtain ⟨text, members, fields, hread, hfields, hw⟩ := read?_print_graph l h
  have htop : objectFields? (l.print g.toJson) = some fields := by
    unfold objectFields?
    rw [hread]
    exact hfields
  unfold convert
  simp only [htop, any_name_of_writes hw]
  split
  · next hnodes => simp only [parse_workflow_print l h hnodes]
  · simp only [isExecutionShaped_of_writes hw, Execution.Graph.parse_print l h,
      if_true]

-- ==== the same text

/-- The input is a literal pair whose number is minus zero. -/
def losesSign : Input → Bool
  | .literal (.array [.string _, .number t]) => t = "-0"
  | _ => false

/-- Some input of the graph is such a pair. -/
def anyLosesSign (g : Graph) : Bool :=
  g.any fun e => e.2.inputTable.any fun i => losesSign i.2

/-- A canonical value is written as it was after it is read as an input,
unless it is a pair with minus zero. -/
theorem toJson_ofJson {v : Json} (hv : v.Canonical) :
    (Input.ofJson v).toJson = v ↔ losesSign (.literal v) = false := by
  unfold Input.ofJson
  split
  · next r hr =>
    unfold Ref.ofPair? at hr
    split at hr
    · next node t =>
      obtain ⟨n, hn, rfl⟩ := Option.map_eq_some_iff.1 hr
      have ht : Json.Numeral t.toList := by
        cases hv with
        | array hitems =>
            cases hitems (.number t) (by simp) with
            | number ht => exact ht
      have hwritten := Json.toString_of_int64? ht hn
      simp only [Input.toJson, Ref.toJson, Json.int, losesSign, hwritten]
      split
      · next hzero => simp [hzero]
      · next hzero => simp [hzero]
    · cases hr
  · next hnone =>
    refine ⟨fun _ => ?_, fun _ => rfl⟩
    unfold losesSign
    split
    · next node t heq =>
      cases heq
      rw [decide_eq_false_iff_not]
      rintro rfl
      have : Ref.ofPair? Number.int64? (.array [.string node, .number "-0"])
          = some ⟨node, 0⟩ := rfl
      rw [this] at hnone
      cases hnone
    · rfl

/-- No integer is written as minus zero. -/
theorem toString_ne_minusZero (n : Int) : toString n ≠ "-0" := by
  intro h
  have hlist := Json.toList_toString n
  rw [h] at hlist
  split at hlist
  · next hneg =>
    have hdigits : Nat.toDigits 10 n.natAbs = ['0'] := (List.cons.inj hlist).2.symm
    have := Json.ofDigits_toDigits n.natAbs
    rw [hdigits] at this
    have hzero : n.natAbs = 0 := this.symm
    omega
  · have hwhole := Json.whole_toDigits n.natAbs
    rw [← hlist] at hwhole
    exact absurd hwhole.1.head_isDigit (by decide)

/-- A reference loses no sign. -/
theorem losesSign_toJson (r : Ref) : losesSign (.literal r.toJson) = false := by
  unfold Ref.toJson Json.int losesSign
  rw [decide_eq_false_iff_not]
  exact toString_ne_minusZero r.slot

/-- An input is printed alike unless it loses a sign. -/
theorem toJson_reread {i : Input} (h : i.Printable) :
    i.reread.toJson = i.toJson ↔ losesSign i = false := by
  cases i with
  | ref r =>
      have hiff := toJson_ofJson r.canonical_toJson
      rw [losesSign_toJson] at hiff
      exact hiff
  | literal v => exact toJson_ofJson h

/-- So is an entry. -/
theorem toJson_reread_entry {e : Entry} (h : e.Printable) :
    e.reread.toJson = e.toJson
      ↔ ∀ i ∈ e.inputTable, losesSign i.2 = false := by
  obtain ⟨classType, inputs, title⟩ := e
  cases inputs with
  | none => exact ⟨fun _ i hi => absurd hi List.not_mem_nil, fun _ => rfl⟩
  | some t =>
      have hpoint : Assoc.mapValues Input.toJson (Assoc.mapValues Input.reread t)
          = Assoc.mapValues Input.toJson t ↔ ∀ i ∈ t, losesSign i.2 = false := by
        rw [Assoc.mapValues_mapValues, Assoc.mapValues_inj_left]
        exact forall₂_congr fun i hi => toJson_reread (h i hi)
      unfold Entry.toJson Entry.reread Entry.inputTable
      simpa using hpoint

/-- So is a graph. -/
theorem toJson_reread_graph (h : g.Printable) :
    g.reread.toJson = g.toJson ↔ anyLosesSign g = false := by
  have hpoint : Assoc.mapValues Entry.toJson (Assoc.mapValues Entry.reread g)
      = Assoc.mapValues Entry.toJson g
      ↔ ∀ e ∈ g, ∀ i ∈ e.2.inputTable, losesSign i.2 = false := by
    rw [Assoc.mapValues_mapValues, Assoc.mapValues_inj_left]
    exact forall₂_congr fun e he => toJson_reread_entry (h.literals e he)
  have hany : anyLosesSign g = false
      ↔ ∀ e ∈ g, ∀ i ∈ e.2.inputTable, losesSign i.2 = false := by
    unfold anyLosesSign
    simp only [List.any_eq_false, Bool.not_eq_true]
  rw [hany, ← hpoint]
  unfold Graph.toJson Graph.reread
  exact ⟨fun h => Json.object.inj h, fun h => congrArg Json.object h⟩

/-- Reading a printed graph changes its text exactly if a sign is lost. -/
theorem print_reread (l : Layout) (h : g.Printable) :
    l.print g.reread.toJson = l.print g.toJson ↔ anyLosesSign g = false := by
  rw [← toJson_reread_graph h]
  have hspelled := h.asRead_reread.printable.spelled_toJson
  exact ⟨fun heq => l.print_injective hspelled h.spelled_toJson heq,
    fun heq => by rw [heq]⟩

-- ==== main results

/-- A converted graph, printed and converted again without node types.
An entry called `nodes` makes the converter refuse it. Any other graph is
passed through without a report, and its text stays the same in both
forms exactly if no input is a literal pair with minus zero. -/
theorem convert_printed {registry : Registry} {types : TableSource}
    {source text : String} {r : Result}
    (h : convert registry types source text = .ok r)
    (registry' : Registry) (source' : String) :
    ∀ printed ∈ [r.graph.write, r.graph.pretty],
      if Assoc.contains r.graph "nodes" then
        convert registry' .missing source' printed
          = .error (.workflow .nodesNotList)
      else ∃ again, convert registry' .missing source' printed = .ok again
        ∧ again.passThrough = true ∧ again.diagnostics = [] ∧ again.events = []
        ∧ again.graph = r.graph.reread
        ∧ (again.graph.write = r.graph.write ↔ anyLosesSign r.graph = false)
        ∧ (again.graph.pretty = r.graph.pretty ↔ anyLosesSign r.graph = false) := by
  have hprint := printable_of_convert h
  have hlayout : ∀ printed ∈ [r.graph.write, r.graph.pretty],
      ∃ l : Layout, printed = l.print r.graph.toJson := by
    intro printed hp
    rcases List.mem_cons.1 hp with rfl | hp
    · exact ⟨.compact, rfl⟩
    · rw [List.mem_singleton.1 hp]
      exact ⟨.indented, rfl⟩
  intro printed hp
  obtain ⟨l, rfl⟩ := hlayout printed hp
  rw [convert_print l hprint]
  split
  · rfl
  · exact ⟨_, rfl, rfl, rfl, rfl, rfl, print_reread .compact hprint,
      print_reread .indented hprint⟩

-- ==== two texts

/-- A text that reads as a workflow is converted as one. -/
theorem convert_of_parse {text : String} (h : Workflow.parse text = .ok w)
    (registry : Registry) (table : NodeTable) (source : String) :
    convert registry (.table table) source text
      = .ok (convertWorkflow registry table source w) := by
  have htop : ∃ fields, objectFields? text = some fields
      ∧ fields.any (·.1 = "nodes") = true := by
    have h' := h
    unfold Workflow.parse at h'
    split at h'
    · cases h'
    · cases h'
    · next v _ hread =>
      split at h'
      · cases h'
      · next fields hfields =>
        refine ⟨fields, by unfold objectFields?; rw [hread]; exact hfields, ?_⟩
        split at h'
        · cases h'
        all_goals
          next hlast =>
          obtain ⟨f, hf, -⟩ := Option.map_eq_some_iff.1 hlast
          have hname := List.find?_some hf
          exact List.any_eq_true.2
            ⟨f, List.mem_reverse.1 (List.mem_of_find?_eq_some hf), hname⟩
  obtain ⟨fields, hfields, hnodes⟩ := htop
  unfold convert
  simp only [hfields, hnodes, h, TableSource.get, if_true]

/-- A node called `nodes`. -/
def nodesText : String :=
  "\x7b\"nodes\": [\x7b\"id\": \"nodes\", \"type\": \"Text\"\x7d]\x7d"

/-- It is converted, and what was converted is refused in both forms. -/
theorem converted_graph_refused :
    ∃ r, convert {} (.table [("Text", textType)]) "" nodesText = .ok r
      ∧ ∀ printed ∈ [r.graph.write, r.graph.pretty],
        convert {} .missing "" printed = .error (.workflow .nodesNotList) := by
  have hrun : (Workflow.parse nodesText).toOption.any (fun w => decide
      (UniqueNodeIds w ∧ ∃ n ∈ w.nodes,
        Ordinary (contextOf {} [("Text", textType)] w) n
          ∧ "nodes" = flatId [] n.id)) = true := by
    decide +kernel
  obtain ⟨w, hw, htest⟩ := Execution.exists_ok_of_any hrun
  obtain ⟨hu, n, hn, ho, hid⟩ := of_decide_eq_true htest
  have hconvert := convert_of_parse hw {} [("Text", textType)] ""
  have hprint := printable_of_convert hconvert
  have hnodes : Assoc.contains
      (convertWorkflow {} [("Text", textType)] "" w).graph "nodes" = true :=
    (contains_graph_iff hu "nodes").2 ⟨[], n, .nil, hn, ho, hid⟩
  have hlayout : ∀ l : Layout, convert {} .missing ""
      (l.print (convertWorkflow {} [("Text", textType)] "" w).graph.toJson)
      = .error (.workflow .nodesNotList) := by
    intro l
    rw [convert_print l hprint, if_pos hnodes]
  refine ⟨_, hconvert, fun printed hp => ?_⟩
  rcases List.mem_cons.1 hp with rfl | hp
  · exact hlayout .compact
  · rw [List.mem_singleton.1 hp]
    exact hlayout .indented

/-- A node with a text for its only input. -/
def greetingText : String :=
  "\x7b\"nodes\": [\x7b\"id\": 7, \"type\": \"Text\", \"widgets_values\": [\"<hi>\"]\x7d]\x7d"

/-- No widget value of the node is a pair with minus zero. -/
def keepsSigns (n : Node) : Bool :=
  match n.widgets with
  | .positional vs => vs.all fun v => !losesSign (.literal v)
  | .keyed t => t.all fun f => !losesSign (.literal f.2)

/-- Widget values without such zeros lose none. -/
theorem losesSign_of_keepsSigns {n : Node} (h : keepsSigns n = true) {v : Json}
    (hv : WidgetValue n.widgets v) : losesSign (.literal v) = false := by
  unfold keepsSigns at h
  unfold WidgetValue at hv
  split at hv
  · next vs hvs =>
    rw [hvs] at h
    simpa using List.all_eq_true.1 h v hv
  · next t ht =>
    obtain ⟨name, hname⟩ := hv
    rw [ht] at h
    simpa using List.all_eq_true.1 h _ (Assoc.mem_of_get? hname)

/-- Literals are widget values, so the nodes decide whether a sign can be
lost. -/
theorem anyLosesSign_of_nodes (registry : Registry) (table : NodeTable)
    (source : String)
    (h : ∀ l ∈ levelsOf w, ∀ n ∈ l.nodes, keepsSigns n = true) :
    anyLosesSign (convertWorkflow registry table source w).graph = false := by
  unfold anyLosesSign
  rw [List.any_eq_false]
  intro e he
  rw [Bool.not_eq_true, List.any_eq_false]
  rintro ⟨name, x⟩ hx
  have hget := (ascending_graph registry table source w).mem_iff.1 he
  rw [Bool.not_eq_true]
  cases x with
  | ref r => rfl
  | literal v =>
      obtain ⟨l, hl, n, hn, hv⟩ := literal_fromWidgets hget
        ((settled_entry hget).1.mem_iff.1 hx)
      exact losesSign_of_keepsSigns (h l hl n hn) hv

/-- It is converted, and converting the result again changes nothing. -/
theorem convert_printed_greeting :
    ∃ r, convert {} (.table [("Text", textType)]) "" greetingText = .ok r
      ∧ ∃ again, convert {} .missing "" r.graph.pretty = .ok again
        ∧ again.passThrough = true ∧ again.graph.pretty = r.graph.pretty := by
  have hrun : (Workflow.parse greetingText).toOption.any (fun w => decide
      (UniqueNodeIds w ∧ w.definitions.length = 0
        ∧ ∀ n ∈ w.nodes, "nodes" ≠ flatId [] n.id ∧ keepsSigns n = true))
      = true := by
    decide +kernel
  obtain ⟨w, hw, htest⟩ := Execution.exists_ok_of_any hrun
  obtain ⟨hu, hno, hnodes⟩ := of_decide_eq_true htest
  have hdefs : w.definitions = [] := List.length_eq_zero_iff.1 hno
  have hconvert := convert_of_parse hw {} [("Text", textType)] ""
  have hfree : Assoc.contains
      (convertWorkflow {} [("Text", textType)] "" w).graph "nodes" ≠ true := by
    intro hin
    obtain ⟨p, n, hp, hn, -, hid⟩ := (contains_graph_iff hu "nodes").1 hin
    cases hp with
    | nil => exact (hnodes n hn).1 hid
    | cons _ _ isInstance _ =>
        have hmem := distinctDefinitions_subset w.definitions isInstance.2.1
        rw [hdefs] at hmem
        exact List.not_mem_nil hmem
  have hsigns : anyLosesSign
      (convertWorkflow {} [("Text", textType)] "" w).graph = false := by
    refine anyLosesSign_of_nodes _ _ _ fun l hl n hn => ?_
    unfold levelsOf at hl
    rw [hdefs] at hl
    obtain rfl := List.mem_singleton.1 hl
    exact (hnodes n hn).2
  have hall := convert_printed hconvert {} "" _ (List.mem_cons_of_mem _ (.head _))
  rw [if_neg hfree] at hall
  obtain ⟨again, hagain, hpass, -, -, -, -, hpretty⟩ := hall
  exact ⟨_, hconvert, again, hagain, hpass, hpretty.2 hsigns⟩

end PromptGraph.Flatten

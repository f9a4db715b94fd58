/-
Execution graphs as text. A graph is printed as a JSON object of its
entries and read back entry by entry. What comes back is the graph with
each input read anew (`Graph.reread`): a literal that is written like a
reference comes back as one. A graph that was itself read has no such
literal, so for it printing and reading is the identity.

Main statements: `Graph.parse_print` for every graph that can be
printed, and `Graph.asRead_of_parse` for what a reading guarantees.
-/
import PromptGraph.Execution.Reader
import PromptGraph.Proofs.Execution.Validation
import PromptGraph.Proofs.Json.Decode
import PromptGraph.Proofs.Json.RoundTrip

namespace PromptGraph.Execution

open Json (Source Decode Layout)
open Json.Decode (Ensures Yields)

-- ==== inputs

/-- A literal that can be printed and read: its numbers are numerals and
its objects tables. -/
def Input.Printable : Input → Prop
  | .ref _ => True
  | .literal v => v.Canonical

/-- An input as reading leaves it: a slot fits 64 bits, and no literal is
written like a reference. -/
def Input.AsRead : Input → Prop
  | .ref r => Number.inInt64 r.slot = true
  | .literal v => v.Canonical ∧ Ref.ofPair? Number.int64? v = none

variable {i : Input}

theorem Input.AsRead.printable (h : i.AsRead) : i.Printable := by
  cases i with
  | ref r => trivial
  | literal v => exact h.1

/-- An input, printed and read. -/
def Input.reread (i : Input) : Input := .ofJson i.toJson

/-- What is read is as reading leaves it. -/
theorem Input.asRead_ofJson {v : Json} (hv : v.Canonical) :
    (Input.ofJson v).AsRead := by
  unfold Input.ofJson
  split
  · next r hr =>
    unfold Ref.ofPair? at hr
    split at hr
    · obtain ⟨n, hn, rfl⟩ := Option.map_eq_some_iff.1 hr
      exact Json.inInt64_of_int64? hn
    · cases hr
  · next hnone => exact ⟨hv, hnone⟩

/-- Reading it again changes nothing. -/
theorem Input.AsRead.reread (h : i.AsRead) : i.reread = i := by
  cases i with
  | ref r =>
      have hslot : Number.int64? (toString r.slot) = some r.slot :=
        Json.int64?_toString h
      unfold Input.reread Input.toJson Ref.toJson Json.int Input.ofJson
      simp only [Ref.ofPair?, hslot, Option.map_some]
  | literal v =>
      unfold Input.reread Input.toJson Input.ofJson
      simp only [h.2]

/-- A reference is written canonically. -/
theorem Ref.canonical_toJson (r : Ref) : r.toJson.Canonical := by
  refine .array fun v hv => ?_
  rcases List.mem_cons.1 hv with rfl | hv
  · exact .string r.node
  · rw [List.mem_singleton.1 hv]
    exact .number (Json.numeral_toString r.slot)

/-- So is an input. -/
theorem Input.Printable.canonical_toJson (h : i.Printable) :
    i.toJson.Canonical := by
  cases i with
  | ref r => exact r.canonical_toJson
  | literal v => exact h

-- ==== entries

/-- Every literal of the entry can be printed. -/
def Entry.Printable (e : Entry) : Prop := ∀ i ∈ e.inputTable, i.2.Printable

/-- An entry, printed and read. -/
def Entry.reread (e : Entry) : Entry :=
  { e with inputs := e.inputs.map (Assoc.mapValues Input.reread) }

variable {s : Source}

/-- The inputs of a printed entry. -/
theorem readInputs_of_writes {t : Assoc Input} (ht : t.Ascending)
    (hprint : ∀ i ∈ t, i.2.Printable)
    (h : Source.Writes s (.object (Assoc.mapValues Input.toJson t))) :
    Yields (readInputs none s) (some (Assoc.mapValues Input.reread t)) := by
  cases h with
  | object text h =>
      rename_i fields
      have hmembers : Source.members? fields
          = some (Assoc.mapValues Input.toJson t) := by
        refine (Source.members?_of_writes (f := id) h fun f hf _ hw => ?_).trans
          (congrArg some (List.map_id' _))
        obtain ⟨v, hv, hfv⟩ := Assoc.mem_mapValues.1 hf
        rw [hfv] at hw ⊢
        exact (hprint _ hv).canonical_toJson.value?_of_writes hw
      have hfold : (Assoc.mapValues Input.toJson t).foldl
          (fun t f => Assoc.insert t f.1 (Input.ofJson f.2)) []
          = Assoc.mapValues Input.reread t := by
        have hlist := Assoc.ofList_of_ascending
          (Assoc.ascending_mapValues (f := Input.reread).2 ht)
        unfold Assoc.ofList Assoc.mapValues at hlist
        unfold Assoc.mapValues
        rw [List.foldl_map] at hlist ⊢
        exact hlist
      refine (Yields.ofOption hmembers).bind ?_
      rw [← hfold]
      exact .pure _

/-- A string is read as its text. -/
theorem text_of_writes {old t : String} (h : Source.Writes s (.string t)) :
    Yields (Decode.text old s : Read String) t := by
  cases h with
  | string h => exact .ofOption h

/-- The editor information of a printed entry. -/
theorem readTitle_of_writes {t : String}
    (h : Source.Writes s (.object (titleFields t))) :
    Yields (readTitle "" s) t := by
  cases h with
  | object text h =>
      rw [readTitle, Decode.record]
      unfold titleFields at h
      split at h
      · next ht =>
        cases h
        rw [ht]
        exact .pure ""
      · obtain ⟨f, rest, hf, hrest, rfl⟩ := List.forall₂_cons_right_iff.1 h
        cases hrest
        cases hf with
        | mk hname hv =>
            refine .fields_cons hname (n := "title") (by decide) (text_of_writes hv) ?_
            exact .pure t

/-- A title is read back. -/
theorem readMeta_of_writes {t : String}
    (h : Source.Writes s (.object (titleFields t))) :
    Yields (Decode.optional "" readTitle none s : Read (Option String))
      (some t) := by
  have hs := readTitle_of_writes h
  cases h with
  | object text h => exact hs.map some

variable {e : Entry}

/-- An entry is read as its rereading. -/
theorem readEntry_of_writes (horder : e.inputTable.Ascending)
    (hprint : e.Printable) (h : Source.Writes s e.toJson) :
    Yields (readEntry {} s) e.reread := by
  obtain ⟨classType, inputs, title⟩ := e
  cases h with
  | object text h =>
      obtain ⟨f, rest, hf, h₁, rfl⟩ := List.forall₂_cons_right_iff.1 h
      obtain ⟨g, rest, hg, h₂, rfl⟩ := List.forall₂_cons_right_iff.1 h₁
      rw [readEntry, Decode.record]
      obtain @⟨_, _, _, _, hname, hv⟩ := hf
      refine .fields_cons hname (n := "class_type") (by decide)
        ((text_of_writes hv).bind (.pure _)) ?_
      obtain @⟨_, _, v, _, hname, hv⟩ := hg
      have hinputs : Yields (readInputs none v)
          (inputs.map (Assoc.mapValues Input.reread)) := by
        cases inputs with
        | none =>
            cases hv
            exact .pure _
        | some t => exact readInputs_of_writes horder hprint hv
      refine .fields_cons hname (n := "inputs") (by decide)
        (hinputs.bind (.pure _)) ?_
      cases title with
      | none =>
          cases h₂
          exact .pure _
      | some t =>
          obtain ⟨f, rest, hf, h₃, rfl⟩ := List.forall₂_cons_right_iff.1 h₂
          cases h₃
          obtain @⟨_, _, _, _, hname, hv⟩ := hf
          exact .fields_cons hname (n := "_meta") (by decide)
            ((readMeta_of_writes hv).bind (.pure _)) (.pure _)

-- ==== graphs

/-- A graph that can be printed: a table of tables of printable inputs. -/
structure Graph.Printable (g : Graph) : Prop extends g.Canonical where
  literals : ∀ e ∈ g, e.2.Printable

/-- A graph as reading leaves it. -/
structure Graph.AsRead (g : Graph) : Prop extends g.Canonical where
  settled : ∀ e ∈ g, ∀ i ∈ e.2.inputTable, i.2.AsRead

variable {g : Graph}

theorem Graph.AsRead.printable (h : g.AsRead) : g.Printable :=
  ⟨h.toCanonical, fun e he i hi => (h.settled e he i hi).printable⟩

/-- A graph, printed and read. -/
def Graph.reread (g : Graph) : Graph := Assoc.mapValues Entry.reread g

/-- An entry as read is not changed. -/
theorem Entry.reread_eq_self (h : ∀ i ∈ e.inputTable, i.2.AsRead) :
    e.reread = e := by
  obtain ⟨classType, inputs, title⟩ := e
  cases inputs with
  | none => rfl
  | some t =>
      have ht : Assoc.mapValues Input.reread t = t :=
        Assoc.mapValues_eq_self fun i hi => (h i hi).reread
      unfold Entry.reread
      simp only [Option.map_some, ht]

/-- Nor is a graph. -/
theorem Graph.AsRead.reread (h : g.AsRead) : g.reread = g :=
  Assoc.mapValues_eq_self fun e he => Entry.reread_eq_self (h.settled e he)

theorem Entry.inputTable_reread (e : Entry) :
    e.reread.inputTable = Assoc.mapValues Input.reread e.inputTable := by
  obtain ⟨classType, inputs, title⟩ := e
  cases inputs with
  | none => rfl
  | some t => rfl

/-- Reading anew gives a graph as reading leaves it. -/
theorem Graph.Printable.asRead_reread (h : g.Printable) :
    g.reread.AsRead := by
  refine ⟨⟨Assoc.ascending_mapValues.2 h.entries, fun d hd => ?_⟩, fun d hd i hi => ?_⟩
  · obtain ⟨e, he, hde⟩ := Assoc.mem_mapValues.1 hd
    rw [hde, Entry.inputTable_reread]
    exact Assoc.ascending_mapValues.2 (h.inputs _ he)
  · obtain ⟨e, he, hde⟩ := Assoc.mem_mapValues.1 hd
    rw [hde, Entry.inputTable_reread] at hi
    obtain ⟨j, hj, hij⟩ := Assoc.mem_mapValues.1 hi
    rw [hij]
    exact Input.asRead_ofJson (h.literals _ he _ hj).canonical_toJson

/-- A printable entry is spelled out. -/
theorem Entry.Printable.spelled_toJson (h : e.Printable) :
    e.toJson.Spelled := by
  obtain ⟨classType, inputs, title⟩ := e
  refine .object fun f hf => ?_
  rcases List.mem_append.1 hf with hf | hf
  · rcases List.mem_cons.1 hf with rfl | hf
    · exact .string classType
    · rw [List.mem_singleton.1 hf]
      cases inputs with
      | none => exact .null
      | some t =>
          refine .object fun i hi => ?_
          obtain ⟨v, hv, hiv⟩ := Assoc.mem_mapValues.1 hi
          rw [hiv]
          exact (h _ hv).canonical_toJson.spelled
  · cases title with
    | none => cases hf
    | some t =>
        rw [List.mem_singleton.1 hf]
        refine .object fun f hf => ?_
        unfold titleFields at hf
        split at hf
        · cases hf
        · rw [List.mem_singleton.1 hf]
          exact .string t

/-- So is a printable graph. -/
theorem Graph.Printable.spelled_toJson (h : g.Printable) :
    g.toJson.Spelled := by
  refine .object fun f hf => ?_
  obtain ⟨e, he, hfe⟩ := Assoc.mem_mapValues.1 hf
  rw [hfe]
  exact (h.literals _ he).spelled_toJson

-- ==== reading

/-- Printed entries are read one after another into the table. -/
theorem readEntries_of_writes (horder : ∀ e ∈ g, e.2.inputTable.Ascending)
    (hprint : ∀ e ∈ g, e.2.Printable) {fields : List (String × Source)}
    (hw : List.Forall₂ Source.WritesField fields (Assoc.mapValues Entry.toJson g))
    (t : Assoc (Option Entry)) :
    Yields (readEntries t fields)
      ((Assoc.mapValues some g.reread).foldl
        (fun acc e => Assoc.insert acc e.1 e.2) t) := by
  induction g generalizing fields t with
  | nil =>
      cases hw
      exact .pure t
  | cons e g ih =>
      obtain ⟨f, rest, hf, hrest, rfl⟩ := List.forall₂_cons_right_iff.1 hw
      obtain @⟨_, _, v, _, hname, hv⟩ := hf
      have hentry : Yields (Decode.optional {} readEntry none v)
          (some e.2.reread) := by
        have := readEntry_of_writes (horder e List.mem_cons_self)
          (hprint e List.mem_cons_self) hv
        cases hv with
        | object text h => exact this.map some
      unfold readEntries
      refine (Yields.ofOption hname).bind (hentry.bind ?_)
      exact ih (fun d hd => horder d (List.mem_cons_of_mem _ hd))
        (fun d hd => hprint d (List.mem_cons_of_mem _ hd)) hrest _

/-- All entries are there exactly if none of them is null. -/
theorem requireEntries_eq_ok {t : Assoc (Option Entry)} :
    requireEntries t = .ok g ↔ t = Assoc.mapValues some g := by
  induction t generalizing g with
  | nil =>
      cases g with
      | nil => exact ⟨fun _ => rfl, fun _ => rfl⟩
      | cons e g => exact ⟨nofun, nofun⟩
  | cons e t ih =>
      obtain ⟨id, o⟩ := e
      cases o with
      | none =>
          cases g with
          | nil => exact ⟨nofun, nofun⟩
          | cons e g => exact ⟨nofun, nofun⟩
      | some x =>
          rw [requireEntries]
          constructor
          · intro h
            split at h
            · next g' hg' =>
              cases h
              rw [ih.1 hg']
              rfl
            · cases h
          · intro h
            cases g with
            | nil => cases h
            | cons e g =>
                obtain ⟨hhead, htail⟩ := List.cons.inj h
                cases hhead
                rw [ih.2 htail]

/-- A printed graph is read back, its inputs read anew. -/
theorem Graph.parse_print (l : Layout) (h : g.Printable) :
    Graph.parse (l.print g.toJson) = .ok g.reread := by
  obtain ⟨s, hs, hw⟩ := l.readFirst?_print .strict h.spelled_toJson
  unfold Graph.parse
  rw [hs]
  cases hw with
  | object text hw =>
      have hread := readEntries_of_writes h.inputs h.literals hw []
      have htable : (Assoc.mapValues some g.reread).foldl
          (fun acc e => Assoc.insert acc e.1 e.2) []
          = Assoc.mapValues some g.reread :=
        Assoc.foldl_insert_ascending [] _
          (Assoc.ascending_mapValues.2 (Assoc.ascending_mapValues.2 h.entries))
      rw [htable] at hread
      simp only [Graph.ofSource, hread.run]
      exact requireEntries_eq_ok.2 rfl

-- ==== what was read

/-- The inputs of an entry as reading leaves them. -/
def Entry.AsRead (e : Entry) : Prop :=
  e.inputTable.Ascending ∧ ∀ i ∈ e.inputTable, i.2.AsRead

/-- Reading adds to the inputs that are there. -/
theorem Entry.AsRead.add (he : e.AsRead) {fs : List (String × Json)}
    (hfs : ∀ f ∈ fs, f.2.Canonical) :
    Entry.AsRead { e with inputs := some (fs.foldl
      (fun t f => Assoc.insert t f.1 (Input.ofJson f.2)) e.inputTable) } := by
  have hfold : fs.foldl (fun t f => Assoc.insert t f.1 (Input.ofJson f.2))
      e.inputTable
      = (Assoc.mapValues Input.ofJson fs).foldl
        (fun t d => Assoc.insert t d.1 d.2) e.inputTable := by
    unfold Assoc.mapValues
    rw [List.foldl_map]
  unfold Entry.AsRead Entry.inputTable at *
  rw [hfold]
  refine ⟨he.1.foldl_insert _, fun i hi => ?_⟩
  rcases Assoc.mem_foldl_insert hi with hi | hi
  · exact he.2 i hi
  · obtain ⟨v, hv, hiv⟩ := Assoc.mem_mapValues.1 hi
    rw [hiv]
    exact Input.asRead_ofJson (hfs _ hv)

/-- Inputs are read as reading leaves them. -/
theorem ensures_readInputs (he : e.AsRead) {v : Source} (hv : v.Spelled) :
    Ensures (readInputs e.inputs v) fun t => Entry.AsRead { e with inputs := t } := by
  cases v with
  | null => exact .pure ⟨Assoc.ascending_nil, fun i hi => by cases hi⟩
  | object text fields =>
      unfold readInputs
      refine .bind (P := fun fs => ∀ f ∈ fs, f.2.Canonical) ?_ ?_
      · exact .ofOption fun fs hfs => Source.Spelled.canonical_members hv.fields hfs
      · intro fs hfs
        exact .pure (he.add hfs)
  | bool b => exact .skip he
  | number t => exact .skip he
  | string t => exact .skip he
  | array text vs => exact .skip he

/-- So are entries. -/
theorem ensures_readEntry (he : e.AsRead) {v : Source} (hv : v.Spelled) :
    Ensures (readEntry e v) Entry.AsRead := by
  refine .record (S := Source.Spelled) (fun r name x hr hx => ?_)
    (fun text fs heq f hf => ?_) he
  · split
    · exact .bind (.of_forall fun _ => trivial) fun c _ => .pure hr
    · exact (ensures_readInputs hr hx).bind fun t ht => .pure ht
    · exact .bind (.of_forall fun _ => trivial) fun c _ => .pure hr
  · rw [heq] at hv
    exact hv.fields f hf

/-- Every entry that is there is as reading leaves it. -/
theorem ensures_readEntries {fields : List (String × Source)}
    (hfields : ∀ f ∈ fields, f.2.Spelled) {t : Assoc (Option Entry)}
    (ht : t.Ascending ∧ ∀ d ∈ t, ∀ e, d.2 = some e → e.AsRead) :
    Ensures (readEntries t fields)
      fun t => t.Ascending ∧ ∀ d ∈ t, ∀ e, d.2 = some e → e.AsRead := by
  induction fields generalizing t with
  | nil => exact .pure ht
  | cons f rest ih =>
      obtain ⟨name, v⟩ := f
      have hv : v.Spelled := hfields _ List.mem_cons_self
      have hentry : Ensures (Decode.optional {} readEntry none v : Read _)
          fun o => ∀ e, o = some e → e.AsRead := by
        have hnew := ensures_readEntry (e := {})
          ⟨Assoc.ascending_nil, fun i hi => by cases hi⟩ hv
        unfold Decode.optional
        split
        · exact .pure nofun
        · refine hnew.map fun e he d hd => ?_
          cases hd
          exact he
      unfold readEntries
      refine .bind (.of_forall fun _ => trivial) fun id _ => ?_
      refine hentry.bind fun o ho => ih (fun f hf =>
        hfields f (List.mem_cons_of_mem _ hf)) ⟨ht.1.insert id o, fun d hd e he => ?_⟩
      rcases Assoc.mem_insert hd with rfl | hd
      · exact ho e he
      · exact ht.2 d hd e he

/-- A parsed graph is as reading leaves it. -/
theorem Graph.asRead_of_parse {text : String} (h : Graph.parse text = .ok g) :
    g.AsRead := by
  unfold Graph.parse at h
  split at h
  · next v hv =>
    have hspelled := Source.spelled_of_readFirst? hv
    cases v with
    | object text fields =>
        unfold Graph.ofSource at h
        dsimp only at h
        split at h
        · next t ht =>
          have hall := (ensures_readEntries hspelled.fields
            ⟨Assoc.ascending_nil, fun d hd => by cases hd⟩).run ht
          rw [requireEntries_eq_ok.1 h] at hall
          have hread : ∀ e ∈ g, e.2.AsRead := fun e he =>
            hall.2 (e.1, some e.2) (Assoc.mem_mapValues.2 ⟨e.2, he, rfl⟩) e.2 rfl
          exact ⟨⟨Assoc.ascending_mapValues.1 hall.1, fun e he => (hread e he).1⟩,
            fun e he => (hread e he).2⟩
        · cases h
    | null => cases h
    | bool b => cases h
    | number t => cases h
    | string t => cases h
    | array text vs => cases h
  · cases h

-- ==== round trip

/-- A graph that was read from a text comes back unchanged from either
printed form: its ids, classes, titles and inputs, absent and empty
parts told apart, references as references and literals with every digit
and every nested pair as they were. -/
theorem Graph.parse_printed {text : String} {g : Graph}
    (h : Graph.parse text = .ok g) :
    Graph.parse g.write = .ok g ∧ Graph.parse g.pretty = .ok g := by
  have hread := Graph.asRead_of_parse h
  have hprint := hread.printable
  have hlayout : ∀ l : Layout, Graph.parse (l.print g.toJson) = .ok g := by
    intro l
    rw [Graph.parse_print l hprint, hread.reread]
  exact ⟨hlayout .compact, hlayout .indented⟩

/-- A text with what a printer could lose: escapes, digits that carry no
value, a pair at the top of an input and one inside a literal, a missing
table of inputs and empty editor information. -/
def tangled : String :=
  "\x7b\"b\":\x7b\"class_type\":\"A\\u003c\\n\",\"inputs\":null,\"_meta\":\x7b\x7d\x7d,"
    ++ "\"a\":\x7b\"class_type\":\"B\",\"inputs\":\x7b"
    ++ "\"x\":[\"b\",-0],\"v\":[[\"b\",0],1.50E+3,\x7b\x7d]\x7d\x7d\x7d"

/-- What `tangled` says, printed compactly. -/
def untangled : String :=
  "\x7b\"a\":\x7b\"class_type\":\"B\",\"inputs\":\x7b"
    ++ "\"v\":[[\"b\",0],1.50E+3,\x7b\x7d],\"x\":[\"b\",0]\x7d\x7d,"
    ++ "\"b\":\x7b\"class_type\":\"A\\u003c\\n\",\"inputs\":null,\"_meta\":\x7b\x7d\x7d\x7d"

/-- A result that passes a test, found by running it. -/
theorem exists_ok_of_any {ε α : Type} {x : Except ε α} {test : α → Bool}
    (h : x.toOption.any test = true) : ∃ a, x = .ok a ∧ test a = true := by
  cases x with
  | error e => cases h
  | ok a => exact ⟨a, rfl, h⟩

/-- A graph that comes back in order. -/
theorem parse_printed_untangled :
    ∃ g, Graph.parse tangled = .ok g ∧ g.write = untangled
      ∧ Graph.parse g.write = .ok g ∧ Graph.parse g.pretty = .ok g := by
  have hrun : (Graph.parse tangled).toOption.any
      (fun g => g.write = untangled) = true := by
    decide +kernel
  obtain ⟨g, hg, hwrite⟩ := exists_ok_of_any hrun
  exact ⟨g, hg, of_decide_eq_true hwrite, Graph.parse_printed hg⟩

end PromptGraph.Execution

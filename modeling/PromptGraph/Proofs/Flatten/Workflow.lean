/-
A whole workflow. Its conversion inlines the root level at the empty
chain (`inlined`) and then settles references, which changes no key and
no class. So what is known of conversions along chains holds of the
graph that comes out: `expansion_complete` says which keys it has, of
which class each entry is, which instances were expanded and how deep
they nest.

Only the last definition with a given id counts; the others are as if
they were not there (`distinctDefinitions`).
-/
import Mathlib.Data.List.Dedup
import PromptGraph.Proofs.Flatten.Coverage
import PromptGraph.Proofs.Flatten.Provenance
import PromptGraph.Proofs.Flatten.Settle

namespace PromptGraph.Flatten

open Editor
open Execution (Input Ref Entry Graph)

-- ==== definitions

theorem mem_putDefinition {ds : List Definition} {d e : Definition}
    (h : e ∈ putDefinition ds d) : e = d ∨ e ∈ ds := by
  induction ds with
  | nil => exact Or.inl (List.mem_singleton.1 h)
  | cons c rest ih =>
      unfold putDefinition at h
      split at h
      · exact (List.mem_cons.1 h).imp_right (List.mem_cons_of_mem _)
      · rcases List.mem_cons.1 h with rfl | h
        · exact Or.inr List.mem_cons_self
        · exact (ih h).imp_right (List.mem_cons_of_mem _)

theorem ids_putDefinition (ds : List Definition) (d : Definition)
    (id : String) :
    id ∈ (putDefinition ds d).map (·.id)
      ↔ id = d.id ∨ id ∈ ds.map (·.id) := by
  induction ds with
  | nil => simp [putDefinition]
  | cons c rest ih =>
      unfold putDefinition
      split
      · next hid => simp [hid]
      · rw [List.map_cons, List.map_cons, List.mem_cons, List.mem_cons, ih]
        exact or_left_comm

theorem nodup_putDefinition {ds : List Definition}
    (h : (ds.map (·.id)).Nodup) (d : Definition) :
    ((putDefinition ds d).map (·.id)).Nodup := by
  induction ds with
  | nil => exact List.nodup_singleton _
  | cons c rest ih =>
      rw [List.map_cons, List.nodup_cons] at h
      unfold putDefinition
      split
      · next hid =>
        rw [List.map_cons, List.nodup_cons, ← hid]
        exact h
      · next hid =>
        rw [List.map_cons, List.nodup_cons, ids_putDefinition]
        refine ⟨fun hor => ?_, ih h.2⟩
        exact hor.elim hid h.1

/-- Definitions that count have ids of their own. -/
theorem nodup_distinctDefinitions (ds : List Definition) :
    ((distinctDefinitions ds).map (·.id)).Nodup := by
  unfold distinctDefinitions
  refine List.foldlRecOn
    (motive := fun acc : List Definition => (acc.map Definition.id).Nodup)
    _ _
    List.nodup_nil ?_
  intro acc hacc d _
  exact nodup_putDefinition hacc d

theorem distinctDefinitions_subset (ds : List Definition) :
    distinctDefinitions ds ⊆ ds := by
  unfold distinctDefinitions
  refine List.foldlRecOn (motive := fun acc : List Definition => acc ⊆ ds)
    _ _ (List.nil_subset _) ?_
  intro acc hacc d hd e he
  rcases mem_putDefinition he with rfl | he
  · exact hd
  · exact hacc he

-- ==== the whole conversion

/-- What the conversion of a workflow looks at throughout. -/
def contextOf (registry : Registry) (table : NodeTable) (w : Workflow) :
    Context :=
  { registry, table, definitions := distinctDefinitions w.definitions }

/-- No two nodes of the root, and no two of a definition, have the same
id. -/
def UniqueNodeIds (w : Workflow) : Prop :=
  UniqueIds w.root ∧ ∀ d ∈ w.definitions, UniqueIds d.level

instance (w : Workflow) : Decidable (UniqueNodeIds w) :=
  inferInstanceAs (Decidable
    (List.Nodup _ ∧ ∀ d ∈ w.definitions, List.Nodup (d.level.nodes.map _)))

/-- The root of a workflow and the insides of its definitions. -/
def levelsOf (w : Workflow) : List Level :=
  w.root :: w.definitions.map Definition.level

variable (registry : Registry) (table : NodeTable) (source : String)
  (w : Workflow)

theorem UniqueNodeIds.wellNamed {w : Workflow} (h : UniqueNodeIds w) :
    WellNamed (contextOf registry table w) w.root :=
  ⟨nodup_distinctDefinitions _, h.1,
    fun d hd => h.2 d (distinctDefinitions_subset _ hd)⟩

/-- The build before the first level. -/
def firstBuild : Build :=
  (({} : Build).emit (.started w.nodes.length
    (distinctDefinitions w.definitions).length source)).warn (skippedLinks w)

/-- The build once everything is inlined and no reference is settled. -/
def inlined : Build :=
  (convertAt (contextOf registry table w) w.root [] []
    (firstBuild source w)).2

theorem convertWorkflow_graph :
    (convertWorkflow registry table source w).graph
      = settledEntries (inlined registry table source w) := by
  unfold inlined convertAt
  rw [remaining_nil]
  rfl

/-- A conversion ends by settling what was inlined and reporting the
counts. -/
theorem convertWorkflow_eq :
    convertWorkflow registry table source w
      = let b := sweepDangling (patchReferences
          (inlined registry table source w))
        { graph := b.entries, diagnostics := b.diagnostics
          events := b.events ++ [.finished b.entries.length
            b.instances.length b.diagnostics.length] } := by
  unfold inlined convertAt
  rw [remaining_nil]
  rfl

/-- The reports of expansions are those of inlining. -/
theorem convertWorkflow_expansions :
    (convertWorkflow registry table source w).events.filter
        Event.isExpansion
      = (inlined registry table source w).expansions := by
  unfold inlined convertAt
  rw [remaining_nil]
  refine (List.filter_append _ _).trans ?_
  exact List.append_nil _

variable {registry table source w}

/-- The level at the end of a chain is one of the workflow's. -/
theorem levelAt_mem {p : List Frame}
    (hp : Chain (contextOf registry table w) w.root p) :
    levelAt w.root p ∈ levelsOf w := by
  cases hp with
  | nil => exact List.mem_cons_self
  | cons _ _ isInstance _ =>
      refine List.mem_cons_of_mem _ (List.mem_map_of_mem ?_)
      exact distinctDefinitions_subset _ isInstance.2.1

theorem inlined_covers (hw : UniqueNodeIds w) :
    Covers (contextOf registry table w) w.root []
      (inlined registry table source w) :=
  convertAt_covers (hw.wellNamed registry table) .nil _ _

/-- A discipline that assumes nothing of the root's ports holds of the
inlined build. -/
theorem inlined_holds (hw : UniqueNodeIds w)
    {D : Discipline (contextOf registry table w) w.root}
    (hports : D.ports [] []) :
    D.Holds (inlined registry table source w) := by
  refine (convertAt_holds (hw.wellNamed registry table) .nil hports
    ⟨?_, ?_, ?_⟩).1
  · intro key e he
    cases he
  · intro key out hout
    cases hout
  · intro ev hev
    cases hev

/-- The discipline that asks for nothing. -/
def anything (ctx : Context) (root : Level) : Discipline ctx root where
  ports _ _ := True
  scope _ _ := True
  outputs _ _ := True
  opened _ _ _ := trivial
  bound _ _ _ := trivial
  closed _ _ _ := trivial
  extended _ _ _ := trivial

-- ==== complete expansion

/-- The inlined entries: those of ordinary nodes at chains, under their
flat ids, each converted from its node. -/
theorem inlined_entry (hw : UniqueNodeIds w) {key : String} {e : Entry}
    (he : Assoc.get? (inlined registry table source w).entries key
      = some e) :
    ∃ p n s, Chain (contextOf registry table w) w.root p
      ∧ n ∈ (levelAt w.root p).nodes
      ∧ Ordinary (contextOf registry table w) n
      ∧ key = flatId p n.id
      ∧ e = entryOf (contextOf registry table w) s n := by
  have hholds : (anything (contextOf registry table w) w.root).Holds
      (inlined registry table source w) := inlined_holds hw trivial
  obtain ⟨p, n, s, hp, hn, ho, hkey, -, rfl⟩ := hholds.entries key e he
  exact ⟨p, n, s, hp, hn, ho, hkey, rfl⟩

/-- The keys of the graph are the flat ids of the ordinary nodes. -/
theorem contains_graph_iff (hw : UniqueNodeIds w) (key : String) :
    Assoc.contains (convertWorkflow registry table source w).graph key
        = true
      ↔ ∃ p n, Chain (contextOf registry table w) w.root p
          ∧ n ∈ (levelAt w.root p).nodes
          ∧ Ordinary (contextOf registry table w) n
          ∧ key = flatId p n.id := by
  rw [convertWorkflow_graph, contains_settledEntries]
  constructor
  · intro h
    obtain ⟨e, he⟩ := Assoc.contains_iff.1 h
    obtain ⟨p, n, -, hp, hn, ho, hkey, -⟩ := inlined_entry hw he
    exact ⟨p, n, hp, hn, ho, hkey⟩
  · rintro ⟨p, n, hp, hn, ho, rfl⟩
    exact (inlined_covers hw).entries p n hp List.nil_suffix hn ho

/-- The class of an entry is the type of an ordinary node with its flat
id. -/
theorem classType_graph (hw : UniqueNodeIds w) {key : String} {e : Entry}
    (he : Assoc.get? (convertWorkflow registry table source w).graph key
      = some e) :
    ∃ p n, Chain (contextOf registry table w) w.root p
      ∧ n ∈ (levelAt w.root p).nodes
      ∧ Ordinary (contextOf registry table w) n
      ∧ key = flatId p n.id ∧ e.classType = n.type := by
  rw [convertWorkflow_graph] at he
  have hin : Assoc.contains (inlined registry table source w).entries key
      = true :=
    (contains_settledEntries _ key).1 (Assoc.contains_iff.2 ⟨e, he⟩)
  obtain ⟨e₀, he₀⟩ := Assoc.contains_iff.1 hin
  obtain ⟨e', he', hclass, -⟩ := settledEntries_spec _ he₀
  rw [he] at he'
  cases he'
  obtain ⟨p, n, s, hp, hn, ho, hkey, rfl⟩ := inlined_entry hw he₀
  exact ⟨p, n, hp, hn, ho, hkey, hclass⟩

/-- An expansion is reported exactly if it is that of an instance at the
end of a chain. -/
theorem expansion_reported_iff (hw : UniqueNodeIds w)
    (node definition : String) (depth : Nat) :
    (∃ name entries outputs,
        Event.expanded node definition name depth entries outputs
          ∈ (convertWorkflow registry table source w).events)
      ↔ ∃ f p, Chain (contextOf registry table w) w.root (f :: p)
          ∧ node = flatId p f.node.id ∧ definition = f.definition.id
          ∧ depth = (f :: p).length := by
  have hmem : ∀ ev, Event.isExpansion ev = true →
      (ev ∈ (convertWorkflow registry table source w).events
        ↔ ev ∈ (inlined registry table source w).expansions) := by
    intro ev hev
    rw [← convertWorkflow_expansions, List.mem_filter]
    exact ⟨fun h => ⟨h, hev⟩, fun h => h.1⟩
  constructor
  · rintro ⟨name, entries, outputs, hev⟩
    have hholds : (anything (contextOf registry table w) w.root).Holds
        (inlined registry table source w) := inlined_holds hw trivial
    obtain ⟨p, f, _, _, hf, heq⟩ := hholds.expansions _ ((hmem _ rfl).1 hev)
    cases heq
    exact ⟨f, p, hf, rfl, rfl, rfl⟩
  · rintro ⟨f, p, hf, rfl, rfl, rfl⟩
    obtain ⟨-, entries, outputs, hev⟩ :=
      (inlined_covers hw).instances p f hf List.nil_suffix
    exact ⟨_, entries, outputs, (hmem _ rfl).2 hev⟩

/-- There are no more definitions that count than different ids. -/
theorem length_distinctDefinitions_le (ds : List Definition) :
    (distinctDefinitions ds).length ≤ (ds.map (·.id)).dedup.length := by
  have hsub : (distinctDefinitions ds).map (·.id)
      ⊆ (ds.map (·.id)).dedup := by
    intro id hid
    rw [List.mem_dedup]
    exact List.map_subset _ (distinctDefinitions_subset ds) hid
  have hle := List.Nodup.length_le_of_subset
    (nodup_distinctDefinitions ds) hsub
  rwa [List.length_map] at hle

variable (registry table source) in
/-- Expansion is complete and goes no deeper than it must. The keys of
the graph are the flat ids of the ordinary nodes at all chains, and each
entry has the class of such a node. Instances are expanded exactly along
chains, at the depth of their chain; the definitions being expanded at
any time are those of a chain, so none of them is there twice and there
are at most as many as there are different definition ids. -/
theorem expansion_complete (hw : UniqueNodeIds w) :
    let ctx := contextOf registry table w
    let r := convertWorkflow registry table source w
    (∀ key, Assoc.contains r.graph key = true
      ↔ ∃ p n, Chain ctx w.root p ∧ n ∈ (levelAt w.root p).nodes
          ∧ Ordinary ctx n ∧ key = flatId p n.id)
    ∧ (∀ key e, Assoc.get? r.graph key = some e →
        ∃ p n, Chain ctx w.root p ∧ n ∈ (levelAt w.root p).nodes
          ∧ Ordinary ctx n ∧ key = flatId p n.id ∧ e.classType = n.type)
    ∧ (∀ node definition depth,
        (∃ name entries outputs,
          Event.expanded node definition name depth entries outputs
            ∈ r.events)
        ↔ ∃ f p, Chain ctx w.root (f :: p) ∧ node = flatId p f.node.id
            ∧ definition = f.definition.id ∧ depth = (f :: p).length)
    ∧ ∀ p, Chain ctx w.root p →
        (p.map (·.definition.id)).Nodup
          ∧ p.length ≤ (w.definitions.map (·.id)).dedup.length := by
  refine ⟨contains_graph_iff hw, fun key e => classType_graph hw,
    expansion_reported_iff hw, fun p hp => ⟨hp.nodup_definitions, ?_⟩⟩
  exact hp.length_le.trans (length_distinctDefinitions_le _)

/-- Holds an instance of `nestInner`. -/
def nestOuter : Definition :=
  { id := "outer", nodeList := some [{ id := ⟨"2"⟩, type := "inner" }] }

/-- Holds an instance of `nestOuter`, and an ordinary node. -/
def nestInner : Definition :=
  { id := "inner",
    nodeList := some [{ id := ⟨"3"⟩, type := "outer" },
      { id := ⟨"4"⟩, type := "Leaf" }] }

/-- Two definitions that hold an instance of each other. -/
def mutualNest : Workflow :=
  { nodes := [{ id := ⟨"1"⟩, type := "outer" }],
    definitions := [nestOuter, nestInner] }

/-- The instance of the outer definition inside the inner one is not
expanded again, and the node beside it comes out. -/
theorem expansion_complete_mutualNest :
    UniqueNodeIds mutualNest
      ∧ Assoc.contains (convertWorkflow {} [("Leaf", default)] ""
          mutualNest).graph "sg1_sg2_4" = true
      ∧ ¬ ∃ name entries outputs,
          Event.expanded "sg1_sg2_3" "outer" name 3 entries outputs
            ∈ (convertWorkflow {} [("Leaf", default)] ""
              mutualNest).events := by
  have hu : UniqueNodeIds mutualNest := by decide
  obtain ⟨hkeys, -, hevents, hdepth⟩ :=
    expansion_complete {} [("Leaf", default)] "" hu
  have houter : Chain (contextOf {} [("Leaf", default)] mutualNest)
      mutualNest.root [⟨{ id := ⟨"1"⟩, type := "outer" }, nestOuter⟩] :=
    .cons .nil (.head _) ⟨⟨rfl, rfl⟩, .head _, rfl⟩ (by simp)
  have hinner : Chain (contextOf {} [("Leaf", default)] mutualNest)
      mutualNest.root [⟨{ id := ⟨"2"⟩, type := "inner" }, nestInner⟩,
        ⟨{ id := ⟨"1"⟩, type := "outer" }, nestOuter⟩] := by
    refine .cons houter (.head _) ⟨⟨rfl, rfl⟩, .tail _ (.head _), rfl⟩ ?_
    simp [nestInner, nestOuter]
  refine ⟨hu, (hkeys _).2 ?_, fun h => ?_⟩
  · exact ⟨_, { id := ⟨"4"⟩, type := "Leaf" }, hinner, .tail _ (.head _),
      by decide, by decide⟩
  · obtain ⟨f, p, hc, -, -, hlen⟩ := (hevents _ _ _).1 h
    have hle := (hdepth _ hc).2
    rw [← hlen] at hle
    exact absurd hle (by decide)

end PromptGraph.Flatten

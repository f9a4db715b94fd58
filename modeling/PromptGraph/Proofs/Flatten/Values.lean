/-
What holds throughout a conversion, whatever ids its nodes have.

Along chains of instances a conversion is understood only if ids are
unique within a level. Some facts need no such understanding: that
entries stand in ascending order, or that no literal is made up. They
concern values, and values come from few places: references to nodes,
literals that instances hold for their ports, and what ports and outputs
are bound to. An `Invariant` is a property of values and one of graphs
that fit these places; `Invariant.convertLevel` carries it through a
conversion, by induction on the definitions that are left.
-/
import PromptGraph.Proofs.Flatten.Inputs
import PromptGraph.Proofs.Flatten.Workflow

namespace PromptGraph.Flatten

open Editor
open Execution (Input Ref Entry Graph)

-- ==== invariants

/-- All bound values have the property. -/
def AllBound (value : Input → Prop) (b : Bindings) : Prop :=
  ∀ e ∈ b, value e.2

/-- So do all values that a level's links can be resolved to by way of
ports and outputs. -/
structure ScopeBound (value : Input → Prop) (s : Scope) : Prop where
  ports : AllBound value s.ports
  expanded : ∀ e ∈ s.expanded, AllBound value e.2

variable {s : Scope}

/-- What is resolved for a link has a property that references have. -/
theorem ScopeBound.resolve {value : Input → Prop} (named : ∀ r, value (.ref r))
    (hs : ScopeBound value s) {k : Link} {consumer : String} {v : Input}
    (h : (s.resolve k consumer).1 = some v) : value v := by
  cases horigin : s.level.origin k with
  | outputPort slot => exact absurd horigin (origin_ne_outputPort _ _ _)
  | inputPort slot =>
      unfold Scope.resolve at h
      rw [horigin] at h
      obtain ⟨e, he, rfl⟩ := Bindings.mem_of_get? h
      exact hs.ports e he
  | node id slot =>
      rcases resolve_node horigin consumer with hr | ⟨e, he, -, hr⟩
      · rw [hr] at h
        cases h
        exact named _
      · rw [hr] at h
        obtain ⟨x, hx, rfl⟩ := Bindings.mem_of_get? h
        exact hs.expanded e he x hx

/-- A property of values and a property of graphs that converting a node
keeps, provided that the nodes are as required. -/
structure Invariant (ctx : Context) where
  node : Node → Prop
  value : Input → Prop
  graph : Graph → Prop
  named : ∀ r, value (.ref r)
  promoted : ∀ {n : Node} {slot : Nat} {v : Json}, node n →
    promotedWidget n slot = some v → value (.literal v)
  converted : ∀ {s : Scope} {n : Node} {g : Graph}, node n →
    ScopeBound value s → graph g →
    graph (Assoc.insert g (s.path ++ n.id.text) (entryOf ctx s n))

namespace Invariant

variable {ctx : Context} (I : Invariant ctx)

/-- The build under way is as the invariant says. -/
structure Holds (b : Build) : Prop where
  entries : I.graph b.entries
  instances : ∀ e ∈ b.instances, AllBound I.value e.2

/-- All nodes of the level are as required. -/
def Admits (l : Level) : Prop := ∀ n ∈ l.nodes, I.node n

variable {I}

theorem Holds.onlyReports {b b' : Build} (h : I.Holds b)
    (r : OnlyReports b b') : I.Holds b' := by
  refine ⟨?_, ?_⟩
  · rw [r.entries]
    exact h.entries
  · rw [r.instances]
    exact h.instances

theorem Holds.convertNode {b : Build} (h : I.Holds b)
    (hs : ScopeBound I.value s) {n : Node} (hn : I.node n) :
    I.Holds (convertNode ctx s b n) := by
  refine ⟨?_, ?_⟩
  · rw [convertNode_entries]
    exact I.converted hn hs h.entries
  · rw [convertNode_instances]
    exact h.instances

-- ==== values of a level

theorem promotedWidget_blank (slot : Nat) :
    promotedWidget {} slot = none := rfl

/-- The ports of an instance are bound to values with the property. -/
theorem allBound_bindPorts (hs : ScopeBound I.value s)
    (hlevel : I.Admits s.level) (id : Id) (d : Definition) (b : Build) :
    AllBound I.value
      (bindPorts s ((s.level.node? id).getD {}) id d b).1 := by
  rw [bindPorts_eq]
  intro e he
  obtain ⟨slot, -, hslot⟩ := List.mem_filterMap.1 he
  obtain ⟨v, hv, rfl⟩ := Option.map_eq_some_iff.1 hslot
  unfold portValue at hv
  split at hv
  · exact hs.resolve I.named hv
  · obtain ⟨j, hj, rfl⟩ := Option.map_eq_some_iff.1 hv
    cases hnode : s.level.node? id with
    | none =>
        rw [hnode, Option.getD_none, promotedWidget_blank] at hj
        cases hj
    | some n =>
        rw [hnode, Option.getD_some] at hj
        refine I.promoted (hlevel n ?_) hj
        exact List.mem_reverse.1 (List.mem_of_find?_eq_some hnode)

theorem allBound_outputBindings (hs : ScopeBound I.value s) (d : Definition)
    (b : Build) :
    AllBound I.value (outputBindings s d b).1 := by
  rw [outputBindings_eq]
  intro e he
  obtain ⟨c, -, hc⟩ := List.mem_filterMap.1 he
  obtain ⟨v, hv, rfl⟩ := Option.map_eq_some_iff.1 hc
  exact hs.resolve I.named hv

-- ==== a whole conversion

variable (I) in
/-- What is known of a level and of the build between two expansions. -/
structure Loop (level : Level) (x : Scope × Build) : Prop where
  level : x.1.level = level
  scope : ScopeBound I.value x.1
  build : I.Holds x.2

variable (I) in
/-- Converting any level with these definitions available keeps the
invariant, and binds the outputs to values with the property. -/
def Converts (available : List Definition) : Prop :=
  ∀ (depth : Nat) (level : Level) (path : String) (ports : Bindings)
    (inside : Option Definition) (b : Build),
    I.Admits level → AllBound I.value ports → I.Holds b →
    AllBound I.value
        (convertLevel ctx available depth level path ports inside b).1
      ∧ I.Holds
        (convertLevel ctx available depth level path ports inside b).2

variable {available : List Definition} {level : Level}

theorem Loop.openScope {b : Build} (hb : I.Holds b) {ports : Bindings}
    (hports : AllBound I.value ports) (path : String)
    (pl : Plan available) :
    I.Loop level (openScope level path ports pl, b) :=
  ⟨rfl, ⟨hports, fun _ he => absurd he List.not_mem_nil⟩, hb⟩

/-- Expanding one instance, if converting its inside keeps the
invariant. -/
theorem Loop.expandSite (hlevel : I.Admits level)
    (hinside : ∀ d ∈ available, I.Admits d.level)
    (ih : ∀ d ∈ available, I.Converts (without available d))
    (depth : Nat) (path : String) (pl : Plan available)
    {x : Scope × Build} (hx : I.Loop level x) (id : Id) :
    I.Loop level
      (expandSite ctx available depth level path pl x id) := by
  unfold Flatten.expandSite
  split
  · exact hx
  · next site _ =>
    have hports := allBound_bindPorts hx.scope
      (by rw [hx.level]; exact hlevel) id site.definition x.2
    rw [hx.level] at hports
    obtain ⟨hout, hin⟩ := ih site.definition site.mem (depth + 1)
      site.definition.level (instancePath path id) _ (some site.definition)
      _ (hinside _ site.mem) hports
      (hx.build.onlyReports (bindPorts_onlyReports _ _ _ _ _))
    refine ⟨hx.level, ⟨hx.scope.ports, fun e he => ?_⟩, hin.entries,
      fun e he => ?_⟩
    · rcases List.mem_append.1 he with he | he
      · exact hx.scope.expanded e he
      · cases List.mem_singleton.1 he
        exact hout
    · rcases Assoc.mem_insert he with rfl | he
      · exact hout
      · exact hin.instances e he

/-- Converting the ordinary nodes after that. -/
theorem Loop.convertNodes {x : Scope × Build} (hx : I.Loop level x)
    {nodes : List Node} (hnodes : ∀ n ∈ nodes, I.node n) :
    I.Holds (nodes.foldl (convertNode ctx x.1) x.2) := by
  refine List.foldlRecOn (motive := I.Holds) _ _ hx.build ?_
  intro c hc n hn
  exact hc.convertNode hx.scope (hnodes n hn)

theorem converts_of_without (hinside : ∀ d ∈ available, I.Admits d.level)
    (ih : ∀ d ∈ available, I.Converts (without available d)) :
    I.Converts available := by
  intro depth level path ports inside b hlevel hports hb
  have hplan : I.Holds (plan ctx available path level.nodes b).2 :=
    hb.onlyReports (plan_onlyReports _ _ _)
  have hordinary : ∀ n ∈ (plan ctx available path level.nodes b).1.ordinary,
      I.node n := fun n hn => hlevel n (mem_plan_ordinary.1 hn).1
  rw [convertLevel_eq]
  generalize plan ctx available path level.nodes b = pl
    at hplan hordinary ⊢
  have hstart : I.Loop level (openScope level path ports pl.1,
      pl.2.warn (cycleWarning path (expansionOrder level pl.1).2)) :=
    .openScope (hplan.onlyReports (onlyReports_warn _ _)) hports path pl.1
  have hloop := List.foldlRecOn (motive := I.Loop level)
    (expansionOrder level pl.1).1 _ hstart fun x hx id _ =>
      hx.expandSite hlevel hinside ih depth path pl.1 id
  have hnodes := hloop.convertNodes hordinary
  cases inside with
  | none => exact ⟨fun _ he => absurd he List.not_mem_nil, hnodes⟩
  | some d =>
      exact ⟨allBound_outputBindings hloop.scope d _,
        hnodes.onlyReports (outputBindings_onlyReports _ _ _)⟩

/-- An invariant is kept by every conversion. -/
theorem converts (hinside : ∀ d ∈ available, I.Admits d.level) :
    I.Converts available := by
  induction hlen : available.length using Nat.strong_induction_on
    generalizing available with
  | _ size ih =>
      refine converts_of_without hinside fun d hd => ?_
      refine ih _ (hlen ▸ length_without_lt hd) (fun e he => ?_) rfl
      exact hinside e (List.mem_of_mem_filter he)

variable {registry : Registry} {table : NodeTable} {source : String}
  {w : Workflow}

/-- An invariant holds of a whole workflow once it is inlined. -/
theorem inlined_holds {I : Invariant (contextOf registry table w)}
    (hlevels : ∀ l ∈ levelsOf w, I.Admits l) (start : I.graph []) :
    I.Holds (inlined registry table source w) := by
  have hinside : ∀ d ∈ (contextOf registry table w).definitions,
      I.Admits d.level := by
    intro d hd
    refine hlevels _ (List.mem_cons_of_mem _ (List.mem_map_of_mem ?_))
    exact distinctDefinitions_subset _ hd
  unfold inlined convertAt
  rw [remaining_nil]
  refine (converts hinside _ _ _ _ _ _ (hlevels _ List.mem_cons_self)
    ?_ ⟨start, ?_⟩).2
  · exact fun _ he => absurd he List.not_mem_nil
  · exact fun _ he => absurd he List.not_mem_nil

end Invariant

-- ==== ascending order

/-- Entries and their inputs stand in ascending order. -/
def inOrder (ctx : Context) : Invariant ctx where
  node _ := True
  value _ := True
  graph g := g.Ascending ∧ ∀ e ∈ g, e.2.inputTable.Ascending
  named _ := trivial
  promoted _ _ := trivial
  converted := by
    rintro s n g - - ⟨hg, hinputs⟩
    refine ⟨hg.insert _ _, fun e he => ?_⟩
    rcases Assoc.mem_insert he with rfl | he
    · exact ascending_entryOf s n
    · exact hinputs e he

variable (registry : Registry) (table : NodeTable) (source : String)
  (w : Workflow)

theorem inlined_inOrder :
    (inOrder (contextOf registry table w)).graph
      (inlined registry table source w).entries :=
  (Invariant.inlined_holds (I := inOrder (contextOf registry table w))
    (fun _ _ _ _ => trivial)
    ⟨Assoc.ascending_nil, fun _ he => absurd he List.not_mem_nil⟩).entries

theorem ascending_iff_keys {α : Type} {t : Assoc α} :
    t.Ascending ↔ t.keys.Pairwise (· < ·) :=
  List.pairwise_map.symm

/-- The entries of the graph stand in ascending order. -/
theorem ascending_graph :
    (convertWorkflow registry table source w).graph.Ascending := by
  rw [convertWorkflow_graph, ascending_iff_keys, keys_settledEntries,
    ← ascending_iff_keys]
  exact (inlined_inOrder registry table source w).1

variable {registry table source w}

/-- An entry of the graph, and the inlined entry that it is made from by
settling its inputs. -/
theorem settled_entry {key : String} {e : Entry}
    (he : Assoc.get? (convertWorkflow registry table source w).graph key
      = some e) :
    e.inputTable.Ascending
      ∧ ∃ e₀, Assoc.get? (inlined registry table source w).entries key
          = some e₀
        ∧ ∀ name u, e.input? name = some u
            ↔ ∃ v, (name, v) ∈ e₀.inputTable
              ∧ Settles (inlined registry table source w) v u := by
  rw [convertWorkflow_graph] at he
  have hin := (contains_settledEntries _ key).1 (Assoc.contains_iff.2 ⟨e, he⟩)
  obtain ⟨e₀, he₀⟩ := Assoc.contains_iff.1 hin
  obtain ⟨e', he', -, hasc, hinputs⟩ := settledEntries_spec _ he₀
  cases he.symm.trans he'
  have horder := hasc ((inlined_inOrder registry table source w).2 _
    (Assoc.mem_of_get? he₀))
  refine ⟨horder, e₀, he₀, fun name u => ?_⟩
  rw [Execution.Entry.input?, ← horder.mem_iff, hinputs]

-- ==== literals are not made

/-- The value is a literal among the widget values of some node. -/
def FromWidgets (w : Workflow) (x : Input) : Prop :=
  ∀ v, x = .literal v →
    ∃ l ∈ levelsOf w, ∃ n ∈ l.nodes, WidgetValue n.widgets v

/-- All literals are widget values of nodes of the workflow. -/
def literalsFromWidgets (ctx : Context) (w : Workflow) : Invariant ctx where
  node n := ∃ l ∈ levelsOf w, n ∈ l.nodes
  value := FromWidgets w
  graph g := ∀ e ∈ g, ∀ i ∈ e.2.inputTable, FromWidgets w i.2
  named r v h := by cases h
  promoted := by
    rintro n slot v ⟨l, hl, hn⟩ hv u hu
    cases hu
    exact ⟨l, hl, n, hn, widgetValue_promoted hv⟩
  converted := by
    rintro s n g ⟨l, hl, hn⟩ hs hg e he
    rcases Assoc.mem_insert he with rfl | he
    · intro i hi
      rcases mem_fillInputs hi with ⟨x, hx, heq⟩ | ⟨v, hv, hwidget⟩
      · obtain ⟨slot, -, hslot⟩ := mem_wiresOf hx
        obtain ⟨k, -, hk⟩ := Option.bind_eq_some_iff.1 hslot
        rw [heq]
        exact hs.resolve (fun r v h => by cases h) hk
      · intro u hu
        cases hu.symm.trans hv
        exact ⟨l, hl, n, hn, hwidget⟩
    · exact hg e he

variable (registry table source w) in
theorem inlined_literals :
    (literalsFromWidgets (contextOf registry table w) w).Holds
      (inlined registry table source w) :=
  Invariant.inlined_holds (fun l hl _ hn => ⟨l, hl, hn⟩)
    fun _ he => absurd he List.not_mem_nil

/-- A walk through recorded outputs that ends at a literal ends at one
that is bound there. -/
theorem Ends.bound {instances : Assoc Bindings} {r : Ref} {v : Json}
    (h : Ends instances r (.literal v)) :
    ∃ e ∈ instances, ∃ o ∈ e.2, o.2 = .literal v := by
  generalize hu : Input.literal v = u at h
  induction h with
  | producer free => cases hu
  | literal named bound =>
      obtain ⟨o, ho, hv⟩ := Bindings.mem_of_get? bound
      exact ⟨_, Assoc.mem_of_get? named, o, ho, hv⟩
  | next named bound _ ih => exact ih hu

/-- Every literal of the graph is a widget value of some node of the
workflow. -/
theorem literal_fromWidgets {key name : String} {e : Entry} {v : Json}
    (he : Assoc.get? (convertWorkflow registry table source w).graph key
      = some e) (hv : e.input? name = some (.literal v)) :
    ∃ l ∈ levelsOf w, ∃ n ∈ l.nodes, WidgetValue n.widgets v := by
  obtain ⟨-, e₀, he₀, hinputs⟩ := settled_entry he
  obtain ⟨x, hx, hsettles⟩ := (hinputs name _).1 hv
  have hlit := inlined_literals registry table source w
  cases x with
  | literal j =>
      cases hsettles
      exact hlit.entries _ (Assoc.mem_of_get? he₀) _ hx v rfl
  | ref r =>
      obtain ⟨i, hi, o, ho, hov⟩ := hsettles.1.bound
      exact hlit.instances i hi o ho v hov

end PromptGraph.Flatten

/-
The events of a conversion add up.

Along the chains of a workflow, ordinary nodes become entries, excluded
ones are reported as dropped and instances are reported as expanded.
Reports count entries by the size of the build under way, so they are
right only if no entry takes another's place. What a conversion at the
end of a chain adds to the build (`tallyAt`) is therefore stated for
builds that hold none of it yet (`Fresh`); `convertAt_adds` carries this
through the run. With plain ids nothing is written twice
(`fresh_firstBuild`), and what is written along a chain is what begins
with its text (`countP_startsWith`).
-/
import Mathlib.Data.List.Perm.Basic
import PromptGraph.Proofs.Flatten.Occurrences

namespace PromptGraph.Flatten

open Editor
open Execution (Input Ref Entry Graph)

variable {ctx : Context} {root : Level}

-- ==== tallies

/-- The event without the number of output ports that were bound. -/
def Event.bare : Event → Event
  | .expanded node definition name depth entries _ =>
      .expanded node definition name depth entries 0
  | e => e

/-- What is added to a build under way: keys of entries, keys of
instances and reports, each in any order. -/
structure Tally where
  keys : List String := []
  instances : List String := []
  reports : List Event := []

namespace Tally

def append (t u : Tally) : Tally where
  keys := t.keys ++ u.keys
  instances := t.instances ++ u.instances
  reports := t.reports ++ u.reports

/-- What is added for each instance of a list. -/
def forEach (fs : List Frame) (t : Frame → Tally) : Tally where
  keys := fs.flatMap fun f => (t f).keys
  instances := fs.flatMap fun f => (t f).instances
  reports := fs.flatMap fun f => (t f).reports

/-- The same in another order. -/
structure Same (t u : Tally) : Prop where
  keys : t.keys.Perm u.keys
  instances : t.instances.Perm u.instances
  reports : t.reports.Perm u.reports

theorem Same.refl (t : Tally) : t.Same t := ⟨.refl _, .refl _, .refl _⟩

theorem Same.symm {t u : Tally} (h : t.Same u) : u.Same t :=
  ⟨h.keys.symm, h.instances.symm, h.reports.symm⟩

theorem Same.trans {t u v : Tally} (h : t.Same u) (k : u.Same v) :
    t.Same v :=
  ⟨h.keys.trans k.keys, h.instances.trans k.instances,
    h.reports.trans k.reports⟩

/-- Same tallies add up to the same. -/
theorem Same.append {t u t' u' : Tally} (h : t.Same t') (k : u.Same u') :
    (t.append u).Same (t'.append u') :=
  ⟨h.keys.append k.keys, h.instances.append k.instances,
    h.reports.append k.reports⟩

/-- The order of the frames does not matter. -/
theorem forEach_perm {fs gs : List Frame} (h : fs.Perm gs)
    (t : Frame → Tally) : (forEach fs t).Same (forEach gs t) :=
  ⟨h.flatMap_right _, h.flatMap_right _, h.flatMap_right _⟩

end Tally

/-- The second build is the first with the tally added, and its reports
come after those of the first. -/
structure Adds (b b' : Build) (t : Tally) : Prop where
  keys : (Assoc.keys b'.entries).Perm (Assoc.keys b.entries ++ t.keys)
  instances : (Assoc.keys b'.instances).Perm
    (Assoc.keys b.instances ++ t.instances)
  events : ∃ more, b'.events = b.events ++ more
    ∧ (more.map Event.bare).Perm t.reports

/-- The build has none of the keys of the tally, which has none twice. -/
structure Fresh (b : Build) (t : Tally) : Prop where
  keys : (Assoc.keys b.entries ++ t.keys).Nodup
  instances : (Assoc.keys b.instances ++ t.instances).Nodup

variable {b b' : Build} {t u : Tally}

/-- What is added may be listed in another order. -/
theorem Adds.same (h : Adds b b' t) (k : t.Same u) : Adds b b' u := by
  obtain ⟨more, hmore, hperm⟩ := h.events
  exact ⟨h.keys.trans (k.keys.append_left _),
    h.instances.trans (k.instances.append_left _),
    more, hmore, hperm.trans k.reports⟩

/-- What is added twice adds up. -/
theorem Adds.trans {b c d : Build} (h : Adds b c t) (k : Adds c d u) :
    Adds b d (t.append u) := by
  obtain ⟨more, hmore, hperm⟩ := h.events
  obtain ⟨most, hmost, hperm'⟩ := k.events
  refine ⟨?_, ?_, more ++ most, ?_, ?_⟩
  · refine k.keys.trans ((h.keys.append_right _).trans ?_)
    rw [List.append_assoc]
    exact List.Perm.refl _
  · refine k.instances.trans ((h.instances.append_right _).trans ?_)
    rw [List.append_assoc]
    exact List.Perm.refl _
  · rw [hmost, hmore, List.append_assoc]
  · rw [List.map_append]
    exact hperm.append hperm'

/-- Nothing is added by what leaves entries, instances and events as they
are. -/
theorem adds_nothing (hentries : b'.entries = b.entries)
    (hinstances : b'.instances = b.instances) (hevents : b'.events = b.events) :
    Adds b b' {} := by
  refine ⟨?_, ?_, [], ?_, List.Perm.refl _⟩
  · rw [hentries, List.append_nil]
  · rw [hinstances, List.append_nil]
  · rw [hevents, List.append_nil]

theorem Fresh.same {b : Build} (h : Fresh b t) (k : t.Same u) : Fresh b u :=
  ⟨(k.keys.append_left _).nodup_iff.1 h.keys,
    (k.instances.append_left _).nodup_iff.1 h.instances⟩

/-- Part of what is new is new. -/
theorem Fresh.left {b : Build} (h : Fresh b (t.append u)) :
    Fresh b t := by
  refine ⟨h.keys.sublist ?_, h.instances.sublist ?_⟩
  · exact (List.sublist_append_left _ _).append_left _
  · exact (List.sublist_append_left _ _).append_left _

/-- Once a part is added, the build is still fresh for the rest. -/
theorem Fresh.right (h : Fresh b (t.append u)) (k : Adds b b' t) :
    Fresh b' u := by
  refine ⟨(k.keys.append_right _).nodup_iff.2 ?_,
    (k.instances.append_right _).nodup_iff.2 ?_⟩
  · rw [List.append_assoc]
    exact h.keys
  · rw [List.append_assoc]
    exact h.instances

/-- As many entries are added as there are keys. -/
theorem Adds.length_entries {t : Tally} (h : Adds b b' t) :
    b'.entries.length = b.entries.length + t.keys.length := by
  have hlen := h.keys.length_eq
  unfold Assoc.keys at hlen
  rwa [List.length_append, List.length_map, List.length_map] at hlen

/-- So are instances. -/
theorem Adds.length_instances {t : Tally} (h : Adds b b' t) :
    b'.instances.length = b.instances.length + t.instances.length := by
  have hlen := h.instances.length_eq
  unfold Assoc.keys at hlen
  rwa [List.length_append, List.length_map, List.length_map] at hlen

-- ==== what steps add

/-- A warning adds nothing. -/
theorem adds_warn (b : Build) (ds : List Diagnostic) :
    Adds b (b.warn ds) {} :=
  adds_nothing rfl rfl rfl

/-- Binding ports adds nothing. -/
theorem bindPorts_adds (s : Scope) (n : Node) (id : Id) (d : Definition)
    (b : Build) : Adds b (bindPorts s n id d b).2 {} := by
  rw [bindPorts_eq]
  exact adds_warn b _

/-- After the nodes nothing is added. -/
theorem convertAt_adds_nothing (p : List Frame) (ports : Bindings)
    (b : Build) :
    Adds (convertNodes ctx root p ports b)
      (convertAt ctx root p ports b).2 {} := by
  cases p with
  | nil =>
      rw [convertAt_nil]
      exact adds_nothing rfl rfl rfl
  | cons f p =>
      rw [convertAt_cons, outputBindings_eq]
      exact (adds_warn _ _).trans (adds_warn _ _)

/-- The report of an excluded node. -/
def dropReport (x : List Frame × Node × DropReason) : Event :=
  .dropped (flatId x.1 x.2.1.id) x.2.1.type x.2.2

variable {p : List Frame}

/-- Planning tells nothing. -/
theorem foldl_planNode_events (l : List Node)
    (x : Plan (remaining ctx p) × Build) :
    (l.foldl (planNode ctx (remaining ctx p) (pathText p)) x).2.events
      = x.2.events
        ++ (l.filterMap (dropped? ctx p)).map fun y => dropReport (p, y) := by
  induction l generalizing x with
  | nil => exact (List.append_nil _).symm
  | cons n l ih =>
      rw [List.foldl_cons, ih, List.filterMap_cons]
      unfold planNode dropped?
      cases role ctx (remaining ctx p) n with
      | ordinary => rfl
      | occurrence d mem => rfl
      | dropped reason => exact List.append_assoc _ _ _

/-- What the excluded nodes of the level at the end of a chain add. -/
def dropsTally (ctx : Context) (root : Level) (p : List Frame) : Tally where
  reports := (droppedAt ctx root p).map fun y => dropReport (p, y)

/-- Sorting the nodes of a level reports those that are left out. -/
theorem openAt_adds (p : List Frame) (ports : Bindings) (b : Build) :
    Adds b (openAt ctx root p ports b).2 (dropsTally ctx root p) := by
  have honly : OnlyReports b (openAt ctx root p ports b).2 :=
    openAt_onlyReports p ports b
  refine ⟨?_, ?_, _, foldl_planNode_events _ _, ?_⟩
  · exact .of_eq ((congrArg _ honly.entries).trans (List.append_nil _).symm)
  · exact .of_eq ((congrArg _ honly.instances).trans (List.append_nil _).symm)
  · rw [List.map_map]
    exact ((List.mergeSort_perm _ _).filterMap _).map _

/-- Converting a node tells nothing. -/
theorem convertNode_events (s : Scope) (b : Build) (n : Node) :
    (convertNode ctx s b n).events = b.events := by
  show (nodeWires s n b).2.events = b.events
  unfold nodeWires
  refine List.foldlRecOn
    (motive := fun x : List (String × Input) × Build =>
      x.2.events = b.events) _ _ rfl ?_
  intro x hx i _
  dsimp only
  split
  · exact hx
  · exact hx

/-- What ordinary nodes of that level add. -/
def nodesTally (p : List Frame) (l : List Node) : Tally where
  keys := l.map fun n => flatId p n.id

/-- The order of the nodes does not matter. -/
theorem nodesTally_perm {l m : List Node} (h : l.Perm m) :
    (nodesTally p l).Same (nodesTally p m) :=
  ⟨h.map _, .refl _, .refl _⟩

/-- Converting nodes whose keys are new adds their keys. -/
theorem foldl_convertNode_adds {s : Scope} (hpath : s.path = pathText p)
    {l : List Node} {b : Build} (hfresh : Fresh b (nodesTally p l)) :
    Adds b (l.foldl (convertNode ctx s) b) (nodesTally p l) := by
  induction l generalizing b with
  | nil => exact adds_nothing rfl rfl rfl
  | cons n l ih =>
      have hhead : Adds b (convertNode ctx s b n) (nodesTally p [n]) := by
        refine ⟨?_, ?_, [], ?_, List.Perm.refl _⟩
        · have hnew : flatId p n.id ∉ Assoc.keys b.entries := by
            intro h
            exact List.disjoint_of_nodup_append hfresh.keys h
              List.mem_cons_self
          rw [convertNode_entries, hpath]
          exact Assoc.keys_insert_perm hnew _
        · rw [convertNode_instances]
          exact .of_eq (List.append_nil _).symm
        · rw [convertNode_events, List.append_nil]
      have hrest : Fresh b ((nodesTally p [n]).append (nodesTally p l)) :=
        hfresh
      exact hhead.trans (ih (hrest.right hhead))

-- ==== what a conversion adds

/-- The report of an expansion, but for the ports that it bound. -/
def expansionReport (ctx : Context) (root : Level)
    (x : List Frame × Frame) : Event :=
  expansionOf x.1 x.2
    (along ctx root (x.2 :: x.1) (ordinaryAt ctx root)).length 0

/-- The id under which an instance is on record. -/
def siteId (x : List Frame × Frame) : String := flatId x.1 x.2.node.id

/-- What converting the level at the end of a chain adds. -/
def tallyAt (ctx : Context) (root : Level) (p : List Frame) : Tally where
  keys := (along ctx root p (ordinaryAt ctx root)).map flatIdOf
  instances := (along ctx root p (framesAt ctx root)).map siteId
  reports := (along ctx root p (droppedAt ctx root)).map dropReport
    ++ (along ctx root p (framesAt ctx root)).map
      (expansionReport ctx root)

/-- What expanding an instance of that level adds. -/
def siteTally (ctx : Context) (root : Level) (p : List Frame) (f : Frame) :
    Tally :=
  (tallyAt ctx root (f :: p)).append
    { instances := [siteId (p, f)]
      reports := [expansionReport ctx root (p, f)] }

/-- The report or record of each instance of a level may stand after what
its inside adds. -/
theorem map_append_flatMap_perm {β : Type} (fs : List Frame) (g : Frame → β)
    (h : Frame → List β) :
    (fs.map g ++ fs.flatMap h).Perm (fs.flatMap fun f => h f ++ [g f]) := by
  rw [List.map_eq_flatMap]
  exact List.perm_append_comm.trans (List.flatMap_append_perm fs h _)

/-- What a level adds is what its excluded nodes, its instances and its
ordinary nodes add. -/
theorem tallyAt_same (p : List Frame) :
    (tallyAt ctx root p).Same
      ((dropsTally ctx root p).append
        ((Tally.forEach (framesAt ctx root p) (siteTally ctx root p)).append
          (nodesTally p (ordinaryAt ctx root p)))) := by
  simp only [tallyAt, siteTally, dropsTally, nodesTally, Tally.append,
    Tally.forEach, map_along p, List.append_nil, List.nil_append,
    List.append_assoc]
  refine ⟨List.perm_append_comm, map_append_flatMap_perm _ _ _, ?_⟩
  refine List.Perm.append_left _ ?_
  exact ((map_append_flatMap_perm _ _ _).append_left _).trans
    (List.flatMap_append_perm _ _ _)

/-- Expanding an instance whose keys are all new adds what its inside
adds, its record and its report. -/
theorem enter_adds {f : Frame}
    (ih : ∀ ports b, Fresh b (tallyAt ctx root (f :: p)) →
      Adds b (convertAt ctx root (f :: p) ports b).2
        (tallyAt ctx root (f :: p))) {x : Scope × Build}
    (hfresh : Fresh x.2 (siteTally ctx root p f)) :
    Adds x.2 (enter ctx root p x f).2 (siteTally ctx root p f) := by
  let bound := bindPorts x.1 f.node f.node.id f.definition x.2
  have hports : Adds x.2 bound.2 {} := bindPorts_adds _ _ _ _ _
  have hleft : Fresh x.2 (Tally.append {} (tallyAt ctx root (f :: p))) :=
    hfresh.left
  have hinside : Adds bound.2 (convertInside ctx root p x f).2
      (tallyAt ctx root (f :: p)) := ih _ _ (hleft.right hports)
  have hsum : Adds x.2 (convertInside ctx root p x f).2
      (tallyAt ctx root (f :: p)) := hports.trans hinside
  have hlast : Fresh (convertInside ctx root p x f).2
      { instances := [siteId (p, f)]
        reports := [expansionReport ctx root (p, f)] } := hfresh.right hsum
  have hnew : flatId p f.node.id
      ∉ Assoc.keys (convertInside ctx root p x f).2.instances := fun h =>
    List.disjoint_of_nodup_append hlast.instances h List.mem_cons_self
  -- the report counts what the inside has added since the ports were bound
  have hcount : (convertInside ctx root p x f).2.entries.length
      - bound.2.entries.length
      = (along ctx root (f :: p) (ordinaryAt ctx root)).length := by
    rw [hinside.length_entries]
    simp [tallyAt]
  refine hsum.trans ⟨?_, ?_, [_], rfl, ?_⟩
  · rw [List.append_nil]
    exact List.Perm.refl _
  · rw [enter_instances]
    exact Assoc.keys_insert_perm hnew _
  · have hreport : expansionReport ctx root (p, f)
        = Event.bare (expansionOf p f
            ((convertInside ctx root p x f).2.entries.length
              - bound.2.entries.length)
            (convertInside ctx root p x f).1.length) := by
      rw [hcount]
      rfl
    rw [hreport]
    exact List.Perm.refl _

/-- The loop over instances adds what each of them adds. -/
theorem foldl_enter_adds {fs : List Frame}
    (ih : ∀ f ∈ fs, ∀ ports b, Fresh b (tallyAt ctx root (f :: p)) →
      Adds b (convertAt ctx root (f :: p) ports b).2
        (tallyAt ctx root (f :: p))) {x : Scope × Build}
    (hfresh : Fresh x.2 (Tally.forEach fs (siteTally ctx root p))) :
    Adds x.2 (fs.foldl (enter ctx root p) x).2
      (Tally.forEach fs (siteTally ctx root p)) := by
  induction fs generalizing x with
  | nil => exact adds_nothing rfl rfl rfl
  | cons f fs ihfs =>
      have hsplit : Fresh x.2 ((siteTally ctx root p f).append
          (Tally.forEach fs (siteTally ctx root p))) := hfresh
      have hhead := enter_adds (ih f List.mem_cons_self) hsplit.left
      exact hhead.trans (ihfs
        (fun g hg => ih g (List.mem_cons_of_mem _ hg))
        (hsplit.right hhead))

theorem planAt_ordinary_perm (p : List Frame) (b : Build) :
    (planAt ctx root p b).1.ordinary.Perm (ordinaryAt ctx root p) := by
  unfold planAt plan
  rw [foldl_planNode_ordinary, List.nil_append]
  exact (List.mergeSort_perm _ _).filter _

/-- Converting the level at the end of a chain, with all its keys new,
adds the tally of the chain. -/
theorem convertAt_adds (hw : WellNamed ctx root) (hp : Chain ctx root p)
    (ports : Bindings) {b : Build} (hfresh : Fresh b (tallyAt ctx root p)) :
    Adds b (convertAt ctx root p ports b).2 (tallyAt ctx root p) := by
  refine Chain.descend (motive := fun p => ∀ ports b,
    Fresh b (tallyAt ctx root p) →
      Adds b (convertAt ctx root p ports b).2 (tallyAt ctx root p))
    (fun p hp ih => ?_) hp ports b hfresh
  intro ports b hfresh
  obtain ⟨fs, hfs, hloop⟩ := expandAll_eq_foldl hw hp ports b
  have hsame : (tallyAt ctx root p).Same
      ((dropsTally ctx root p).append
        ((Tally.forEach fs (siteTally ctx root p)).append
          (nodesTally p (planAt ctx root p b).1.ordinary))) := by
    refine (tallyAt_same p).trans (Tally.Same.append (.refl _) ?_)
    exact Tally.Same.append (Tally.forEach_perm hfs _).symm
      (nodesTally_perm (planAt_ordinary_perm p b)).symm
  have hall := hfresh.same hsame
  have hopen : Adds b (openAt ctx root p ports b).2
      (dropsTally ctx root p) := openAt_adds p ports b
  have hsites : Adds (openAt ctx root p ports b).2
      (expandAll ctx root p ports b).2
      (Tally.forEach fs (siteTally ctx root p)) := by
    rw [hloop]
    refine foldl_enter_adds (fun f hf ports b => ?_) (hall.right hopen).left
    exact ih f ((mem_framesAt hw hp).1 (hfs.mem_iff.1 hf)) ports b
  have hnodes : Adds (expandAll ctx root p ports b).2
      (convertNodes ctx root p ports b)
      (nodesTally p (planAt ctx root p b).1.ordinary) :=
    foldl_convertNode_adds (expandAll_path hw hp ports b)
      ((hall.right hopen).right hsites)
  have hdone := (hnodes.trans (convertAt_adds_nothing p ports b)).same
    ⟨.of_eq (List.append_nil _), .refl _, .refl _⟩
  exact (hopen.trans (hsites.trans hdone)).same hsame.symm

-- ==== a whole workflow

variable {registry : Registry} {table : NodeTable} {source : String}
  {w : Workflow}

theorem PlainNodeIds.plainNodes (h : PlainNodeIds w) :
    PlainNodes (contextOf registry table w) w.root :=
  fun _ hp => h _ (levelAt_mem hp)

/-- With plain ids nothing that a workflow is converted to is written
twice. -/
theorem fresh_firstBuild (hu : UniqueNodeIds w) (hplain : PlainNodeIds w) :
    Fresh (firstBuild source w)
      (tallyAt (contextOf registry table w) w.root []) := by
  have hw := hu.wellNamed registry table
  have hnodes : PlainNodes (contextOf registry table w) w.root :=
    hplain.plainNodes
  refine ⟨?_, ?_⟩
  · show ((along _ _ _ _).map flatIdOf).Nodup
    rw [← placements_eq]
    refine List.Nodup.map_on ?_ (nodup_placements hw)
    intro x hx y hy h
    exact hplain.flatIdOf_inj hu hx hy h
  · show ((along _ _ _ _).map siteId).Nodup
    refine List.Nodup.map_on ?_
      (nodup_along hw .nil fun q hq => nodup_framesAt hw hq)
    intro x hx y hy h
    obtain ⟨p, f⟩ := x
    obtain ⟨q, g⟩ := y
    obtain ⟨⟨hp, -⟩, hf⟩ := (mem_along hw .nil).1 hx
    obtain ⟨⟨hq, -⟩, hg⟩ := (mem_along hw .nil).1 hy
    have hf := (mem_framesAt hw hp).1 hf
    have hg := (mem_framesAt hw hq).1 hg
    obtain ⟨hpq, hid⟩ := flatId_inj hw hnodes hp hq
      (hnodes p hp _ hf.head_mem) (hnodes q hq _ hg.head_mem) h
    subst hpq
    rw [hf.head_eq hw hg hid]

/-- Inlining adds what the tally of the root says. -/
theorem inlined_adds (hu : UniqueNodeIds w) (hplain : PlainNodeIds w) :
    Adds (firstBuild source w) (inlined registry table source w)
      (tallyAt (contextOf registry table w) w.root []) :=
  convertAt_adds (hu.wellNamed registry table) .nil []
    (fresh_firstBuild hu hplain)

variable (registry table source) in
/-- The keys of the graph are the flat ids of the places. -/
theorem keys_graph_perm (hu : UniqueNodeIds w) (hplain : PlainNodeIds w) :
    (Assoc.keys (convertWorkflow registry table source w).graph).Perm
      ((placements (contextOf registry table w) w.root).map flatIdOf) := by
  rw [convertWorkflow_graph, keys_settledEntries, placements_eq]
  exact (inlined_adds hu hplain).keys

/-- As many keys of the graph begin with the text of a chain as there are
ordinary nodes along it. -/
theorem countP_startsWith (hu : UniqueNodeIds w) (hplain : PlainNodeIds w)
    {q : List Frame} (hq : Chain (contextOf registry table w) w.root q) :
    (Assoc.keys (convertWorkflow registry table source w).graph).countP
        (·.startsWith (pathText q))
      = (along (contextOf registry table w) w.root q
          (ordinaryAt (contextOf registry table w) w.root)).length := by
  have hw := hu.wellNamed registry table
  have hnodes : PlainNodes (contextOf registry table w) w.root :=
    hplain.plainNodes
  have hordinary : ∀ r, Chain (contextOf registry table w) w.root r →
      (ordinaryAt (contextOf registry table w) w.root r).Nodup :=
    fun r hr => (hr.uniqueIds hw).nodup_ordinaryNodes
  rw [(keys_graph_perm registry table source hu hplain).countP_eq,
    List.countP_map, List.countP_eq_length_filter]
  refine List.Perm.length_eq ?_
  refine (List.perm_ext_iff_of_nodup ((nodup_placements hw).filter _)
    (nodup_along hw hq hordinary)).2 ?_
  intro x
  obtain ⟨p, n⟩ := x
  rw [List.mem_filter, mem_placements hw, mem_along hw hq]
  show _ ∧ (flatId p n.id).startsWith (pathText q) = true ↔ _
  rw [String.startsWith_string_iff]
  unfold ordinaryAt
  rw [mem_ordinaryNodes]
  constructor
  · intro h
    obtain ⟨⟨hp, hn, ho⟩, hstart⟩ := h
    have hsuf := (pathText_prefix_flatId_iff hw hnodes hp hq
      (hnodes p hp n hn)).1 hstart
    exact ⟨⟨hp, hsuf⟩, hn, ho⟩
  · intro h
    obtain ⟨⟨hp, hsuf⟩, hn, ho⟩ := h
    exact ⟨⟨hp, hn, ho⟩, (pathText_prefix_flatId_iff hw hnodes hp hq
      (hnodes p hp n hn)).2 hsuf⟩

/-- The event tells of a node that was left out. -/
def Event.isDrop : Event → Bool
  | .dropped .. => true
  | _ => false

variable (registry table source) in
/-- Between the first event and the last stand the reports of the tally. -/
theorem convertWorkflow_events (hu : UniqueNodeIds w)
    (hplain : PlainNodeIds w) :
    ∃ middle,
      (convertWorkflow registry table source w).events
        = .started w.nodes.length
            (distinctDefinitions w.definitions).length source
          :: middle
          ++ [.finished
            (convertWorkflow registry table source w).graph.length
            (along (contextOf registry table w) w.root []
              (framesAt (contextOf registry table w) w.root)).length
            (convertWorkflow registry table source w).diagnostics.length]
      ∧ (middle.map Event.bare).Perm
          (tallyAt (contextOf registry table w) w.root []).reports := by
  have hadds : Adds (firstBuild source w) (inlined registry table source w)
      (tallyAt (contextOf registry table w) w.root []) :=
    inlined_adds hu hplain
  obtain ⟨middle, hevents, hperm⟩ := hadds.events
  have hinstances : (inlined registry table source w).instances.length
      = (along (contextOf registry table w) w.root []
          (framesAt (contextOf registry table w) w.root)).length := by
    rw [hadds.length_instances]
    simp [tallyAt, firstBuild, Build.warn, Build.emit]
  refine ⟨middle, ?_, hperm⟩
  rw [← hinstances, convertWorkflow_eq]
  show (inlined registry table source w).events ++ _ = _
  rw [hevents]
  rfl

/-- How many of the reports of a tally are of either kind. -/
theorem countP_reports (ctx : Context) (root : Level) (p : List Frame) :
    (tallyAt ctx root p).reports.countP Event.isDrop
        = (along ctx root p (droppedAt ctx root)).length
      ∧ (tallyAt ctx root p).reports.countP Event.isExpansion
        = (along ctx root p (framesAt ctx root)).length := by
  unfold tallyAt
  simp only [List.countP_append, List.countP_map]
  have hdrop : Event.isDrop ∘ dropReport = fun _ => true := rfl
  have hdrop' : Event.isExpansion ∘ dropReport = fun _ => false := rfl
  have hsite : Event.isExpansion ∘ expansionReport ctx root
      = fun _ => true := rfl
  have hsite' : Event.isDrop ∘ expansionReport ctx root
      = fun _ => false := rfl
  rw [hdrop, hdrop', hsite, hsite']
  simp

/-- An event is of the same kind without its ports. -/
theorem kind_bare (e : Event) :
    e.bare.isDrop = e.isDrop ∧ e.bare.isExpansion = e.isExpansion := by
  cases e <;> exact ⟨rfl, rfl⟩

variable (registry table source) in
/-- As many nodes are reported as dropped as there are excluded
occurrences, and as many instances as expanded as there are of these. -/
theorem countP_events (hu : UniqueNodeIds w) (hplain : PlainNodeIds w) :
    (convertWorkflow registry table source w).events.countP Event.isDrop
        = (along (contextOf registry table w) w.root []
            (droppedAt (contextOf registry table w) w.root)).length
      ∧ (convertWorkflow registry table source w).events.countP
          Event.isExpansion
        = (along (contextOf registry table w) w.root []
            (framesAt (contextOf registry table w) w.root)).length := by
  obtain ⟨middle, hevents, hperm⟩ :=
    convertWorkflow_events registry table source hu hplain
  obtain ⟨hdrops, hsites⟩ :=
    countP_reports (contextOf registry table w) w.root []
  have hdrop : Event.isDrop ∘ Event.bare = Event.isDrop :=
    funext fun e => (kind_bare e).1
  have hsite : Event.isExpansion ∘ Event.bare = Event.isExpansion :=
    funext fun e => (kind_bare e).2
  rw [← hdrops, ← hsites, ← hperm.countP_eq, ← hperm.countP_eq,
    List.countP_map, List.countP_map, hdrop, hsite, hevents]
  simp [List.countP_append, Event.isDrop, Event.isExpansion]

variable (registry table source) in
/-- The events of a conversion account for every node, if ids are unique
within each level and plain. The excluded occurrences are the nodes at
the ends of chains that are excluded there, and the expanded ones are the
instances that make a chain longer. Between the first event and the last
there is one report for each of them and nothing else; that of an
expansion gives the length of its chain and the number of keys that begin
with its text. The last event counts the keys of the graph and the
reported expansions. Together with the dropped nodes they are the nodes
of the root and, for each expanded occurrence, those of its definition. -/
theorem events_account_for_nodes (hu : UniqueNodeIds w)
    (hplain : PlainNodeIds w) :
    let ctx := contextOf registry table w
    let r := convertWorkflow registry table source w
    let excluded := along ctx w.root [] (droppedAt ctx w.root)
    let expanded := along ctx w.root [] (framesAt ctx w.root)
    (excluded.Nodup
      ∧ ∀ p n reason, (p, n, reason) ∈ excluded
          ↔ Chain ctx w.root p ∧ n ∈ (levelAt w.root p).nodes
            ∧ Excluded ctx p n reason)
    ∧ (expanded.Nodup
      ∧ ∀ p f, (p, f) ∈ expanded ↔ Chain ctx w.root (f :: p))
    ∧ (∃ middle,
        r.events
          = .started w.nodes.length
              (distinctDefinitions w.definitions).length source
            :: middle
            ++ [.finished r.graph.length (r.events.countP Event.isExpansion)
              r.diagnostics.length]
        ∧ (middle.map Event.bare).Perm
          ((excluded.map fun x =>
              .dropped (flatId x.1 x.2.1.id) x.2.1.type x.2.2)
            ++ expanded.map fun x =>
              .expanded (flatId x.1 x.2.node.id) x.2.definition.id
                x.2.definition.name (x.2 :: x.1).length
                ((Assoc.keys r.graph).countP
                  (·.startsWith (pathText (x.2 :: x.1)))) 0))
    ∧ r.graph.length + r.events.countP Event.isDrop
        + r.events.countP Event.isExpansion
      = w.nodes.length
        + (expanded.map fun x => x.2.definition.level.nodes.length).sum := by
  intro ctx r excluded expanded
  have hw : WellNamed ctx w.root := hu.wellNamed registry table
  have hexpanded : ∀ p f, (p, f) ∈ expanded ↔ Chain ctx w.root (f :: p) := by
    intro p f
    rw [mem_along hw .nil]
    constructor
    · intro h
      exact (mem_framesAt hw h.1.1).1 h.2
    · intro h
      exact ⟨⟨h.tail, List.nil_suffix⟩, (mem_framesAt hw h.tail).2 h⟩
  obtain ⟨hdrops, hsites⟩ :=
    countP_events registry table source hu hplain
  refine ⟨⟨?_, fun p n reason => ?_⟩, ⟨?_, hexpanded⟩, ?_, ?_⟩
  · exact nodup_along hw .nil fun q hq => nodup_droppedAt hw hq
  · rw [mem_along hw .nil]
    constructor
    · intro h
      exact ⟨h.1.1, (mem_droppedAt h.1.1).1 h.2⟩
    · intro h
      exact ⟨⟨h.1, List.nil_suffix⟩, (mem_droppedAt h.1).2 h.2⟩
  · exact nodup_along hw .nil fun q hq => nodup_framesAt hw hq
  · obtain ⟨middle, hevents, hperm⟩ :=
      convertWorkflow_events registry table source hu hplain
    refine ⟨middle, ?_, hperm.trans (.append (.refl _) (.of_eq ?_))⟩
    · rw [hsites]
      exact hevents
    · refine List.map_congr_left fun x hx => ?_
      have hchain := (hexpanded x.1 x.2).1 hx
      rw [countP_startsWith hu hplain hchain]
      rfl
  · rw [hdrops, hsites]
    have hgraph : r.graph.length
        = (along ctx w.root [] (ordinaryAt ctx w.root)).length := by
      have hlen :=
        (keys_graph_perm registry table source hu hplain).length_eq
      rw [placements_eq, List.length_map] at hlen
      exact (List.length_map _).symm.trans hlen
    rw [hgraph]
    exact length_occurrences hw

/-- Of the nine nodes that are met, three become entries, the instance
inside itself is dropped on both ways to it, and four are expanded. -/
theorem events_account_for_nodes_twoNests :
    UniqueNodeIds twoNests ∧ PlainNodeIds twoNests
      ∧ (let r := convertWorkflow {} [("Leaf", default)] "" twoNests
        r.graph.length + r.events.countP Event.isDrop
            + r.events.countP Event.isExpansion = 9
          ∧ Event.dropped "sg1_sg3_2" "inner" .recursive ∈ r.events) := by
  have hu : UniqueNodeIds twoNests := by decide
  have hplain : PlainNodeIds twoNests := by decide
  obtain ⟨-, -, ⟨middle, hevents, hperm⟩, hsum⟩ :=
    events_account_for_nodes {} [("Leaf", default)] "" hu hplain
  refine ⟨hu, hplain, hsum.trans (by decide +kernel), ?_⟩
  have hmem : Event.dropped "sg1_sg3_2" "inner" .recursive
      ∈ middle.map Event.bare := by
    refine hperm.mem_iff.2 (List.mem_append_left _ ?_)
    decide +kernel
  obtain ⟨e, he, hbare⟩ := List.mem_map.1 hmem
  rw [hevents]
  refine List.mem_append_left _ (List.mem_cons_of_mem _ ?_)
  cases e <;> cases hbare
  exact he

end PromptGraph.Flatten

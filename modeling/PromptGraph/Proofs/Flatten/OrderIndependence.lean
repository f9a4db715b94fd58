/-
The order in which a document lists nodes and links. Two arrangements of
one workflow are converted side by side. After each step the two builds
are the same but for the order of what follows the links: the outputs
bound for an instance, and the diagnostics (`SameBuild`). Outputs are
looked up by slot, so no entry depends on that order, and neither does
the graph.

Each step has its lemma (`bindPorts_same`, `convertNode_same`,
`outputBindings_same`), and so two arrangements are a likeness of two
conversions (`arrangement`). Main statement:
`conversion_order_independent`.
-/
import PromptGraph.Proofs.Flatten.Arrangement
import PromptGraph.Proofs.Flatten.DataFlow
import PromptGraph.Proofs.Flatten.SideBySide

namespace PromptGraph.Flatten

open Editor
open Execution (Input Ref Entry Graph)

variable {kept : Prop}

-- ==== bindings

/-- The same slots with the same values. -/
structure SameBindings (kept : Prop) (b b' : Bindings) : Prop where
  slots : (b.map Prod.fst).Nodup
  reordered : Reordered kept b b'

theorem SameBindings.nil : SameBindings kept [] [] :=
  ⟨List.nodup_nil, .refl []⟩

/-- Same bindings bind the same. -/
theorem SameBindings.get?_eq {b b' : Bindings} (h : SameBindings kept b b')
    (slot : Int) : b'.get? slot = b.get? slot := by
  unfold Bindings.get?
  rw [find?_eq_of_perm h.reordered.perm]
  intro e he f hf heslot hfslot
  refine List.inj_on_of_nodup_map h.slots he hf ?_
  rw [of_decide_eq_true heslot, of_decide_eq_true hfslot]

theorem SameBindings.length_eq {b b' : Bindings}
    (h : SameBindings kept b b') : b'.length = b.length :=
  h.reordered.perm.length_eq.symm

/-- The same bindings under the same name. -/
abbrev SameOutputs {ι : Type} (kept : Prop) : ι × Bindings → ι × Bindings → Prop :=
  Under (SameBindings kept)

-- ==== tables of outputs

section
variable {t t' : Assoc Bindings}

/-- Outputs are looked up alike. -/
theorem get?_same (h : List.Forall₂ (SameOutputs kept) t t')
    (name : String) :
    (Assoc.get? t' name).map Bindings.get?
      = (Assoc.get? t name).map Bindings.get? := by
  induction h with
  | nil => rfl
  | cons he _ ih =>
      rw [Assoc.get?_cons, Assoc.get?_cons, he.key]
      split
      · exact congrArg some (funext he.value.get?_eq)
      · exact ih

/-- A walk through outputs sees no more of them than their look-ups. -/
theorem Ends.of_get?_eq
    (h : ∀ name, (Assoc.get? t name).map Bindings.get?
      = (Assoc.get? t' name).map Bindings.get?)
    {r : Ref} {u : Input} (hr : Ends t r u) : Ends t' r u := by
  induction hr with
  | @producer r free =>
      have hname := h r.node
      rw [free] at hname
      exact .producer (Option.map_eq_none_iff.1 hname.symm)
  | @literal r outputs v named bound =>
      have hname := h r.node
      rw [named] at hname
      obtain ⟨out, hout, heq⟩ := Option.map_eq_some_iff.1 hname.symm
      exact .literal hout (by rw [heq, bound])
  | @next r s outputs u named bound _ ih =>
      have hname := h r.node
      rw [named] at hname
      obtain ⟨out, hout, heq⟩ := Option.map_eq_some_iff.1 hname.symm
      exact .next hout (by rw [heq, bound]) ih

/-- References are followed the same way. -/
theorem follow_same (h : List.Forall₂ (SameOutputs kept) t t') :
    follow t' = follow t := by
  funext r
  refine Option.ext fun u => ?_
  rw [follow_eq_some_iff, follow_eq_some_iff]
  exact ⟨Ends.of_get?_eq (get?_same h),
    Ends.of_get?_eq fun name => (get?_same h name).symm⟩

end

-- ==== builds

/-- Builds that are the same but for the order of outputs and
diagnostics. -/
structure SameBuild (kept : Prop) (b b' : Build) : Prop where
  entries : b'.entries = b.entries
  instances : List.Forall₂ (SameOutputs kept) b.instances b'.instances
  diagnostics : Reordered kept b.diagnostics b'.diagnostics
  events : b'.events = b.events

namespace SameBuild

variable {b b' : Build}

/-- Reports may come in another order. -/
theorem warn_reordered (h : SameBuild kept b b') {ds ds' : List Diagnostic}
    (hds : Reordered kept ds ds') : SameBuild kept (b.warn ds) (b'.warn ds') :=
  ⟨h.entries, h.instances, h.diagnostics.append hds, h.events⟩

theorem warn (h : SameBuild kept b b') (ds : List Diagnostic) :
    SameBuild kept (b.warn ds) (b'.warn ds) := h.warn_reordered (.refl ds)

theorem emit (h : SameBuild kept b b') {e e' : Event} (he : e' = e) :
    SameBuild kept (b.emit e) (b'.emit e') :=
  ⟨h.entries, h.instances, h.diagnostics,
    congrArg₂ (· ++ [·]) h.events he⟩

/-- The outputs of an instance are recorded on both sides. -/
theorem record (h : SameBuild kept b b') (pid : String) {out out' : Bindings}
    (hout : SameBindings kept out out') :
    SameBuild kept
      { b with instances := Assoc.insert b.instances pid out }
      { b' with instances := Assoc.insert b'.instances pid out' } :=
  ⟨h.entries, insert_rel h.instances pid hout, h.diagnostics, h.events⟩

/-- Settling keeps builds the same. -/
theorem settle (h : SameBuild kept b b')
    (f : String → String → Ref → Input ⊕ Diagnostic) :
    SameBuild kept
      { b.warn (settleGraph f b.entries).2 with
        entries := (settleGraph f b.entries).1 }
      { b'.warn (settleGraph f b'.entries).2 with
        entries := (settleGraph f b'.entries).1 } := by
  rw [h.entries]
  exact ⟨rfl, h.instances, (h.warn _).diagnostics, h.events⟩

/-- So does patching. -/
theorem patchReferences (h : SameBuild kept b b') :
    SameBuild kept (patchReferences b) (patchReferences b') := by
  unfold Flatten.patchReferences
  rw [follow_same h.instances]
  exact h.settle (patchRef b.instances)

/-- So does the sweep. -/
theorem sweepDangling (h : SameBuild kept b b') :
    SameBuild kept (sweepDangling b) (sweepDangling b') := by
  have hsettle := h.settle (sweepRef b.entries)
  unfold Flatten.sweepDangling
  rw [h.entries] at hsettle ⊢
  exact hsettle

end SameBuild

-- ==== scopes

/-- Two arrangements of a level as its links are resolved. -/
structure SameScope (kept : Prop) (s s' : Scope) : Prop where
  level : Arranged kept s.level s'.level
  path : s'.path = s.path
  ports : s'.ports = s.ports
  isSite : s'.isSite = s.isSite
  expanded : List.Forall₂ (SameOutputs kept) s.expanded s'.expanded

namespace SameScope

variable {s s' : Scope}

/-- The outputs of an instance are the same. -/
theorem outputsOf? (h : SameScope kept s s') (id : Id) :
    Option.Rel (SameBindings kept) (s.outputsOf? id) (s'.outputsOf? id) := by
  have hfind := find?_rel (p := fun e => e.1 = id) (q := fun e => e.1 = id)
    h.expanded fun e e' he => by rw [he.key]
  unfold Scope.outputsOf?
  generalize s.expanded.find? _ = o, s'.expanded.find? _ = o' at hfind ⊢
  cases hfind with
  | none => exact .none
  | some he => exact .some he.value

/-- A link carries the same value, and the same is reported. -/
theorem resolve_eq (h : SameScope kept s s') : s'.resolve = s.resolve := by
  funext k consumer
  unfold Scope.resolve
  rw [h.level.origin_eq, h.ports, h.path, h.isSite]
  split
  · rfl
  · rfl
  · next id slot _ =>
    cases s.isSite id with
    | false => rfl
    | true =>
        have hout := h.outputsOf? id
        rw [if_pos rfl, if_pos rfl]
        generalize s.outputsOf? id = o, s'.outputsOf? id = o' at hout ⊢
        cases hout with
        | none => rfl
        | some hout =>
            dsimp only
            rw [hout.get?_eq]

/-- A port gets the same value. -/
theorem portValue_eq (h : SameScope kept s s') (n : Node) (id : Id) :
    portValue s' n id = portValue s n id := by
  funext slot
  have hincoming : s'.incoming? id slot = s.incoming? id slot :=
    h.level.lastLinkInto_eq id slot
  unfold portValue
  rw [hincoming, h.resolve_eq, h.path]

end SameScope

/-- The ports of an instance are bound to the same values. -/
theorem bindPorts_same {s s' : Scope} (hs : SameScope kept s s') (n : Node)
    (id : Id) {d d' : Definition} (hd : d'.inputs = d.inputs) {b b' : Build}
    (hb : SameBuild kept b b') :
    (bindPorts s' n id d' b').1 = (bindPorts s n id d b).1
      ∧ SameBuild kept (bindPorts s n id d b).2 (bindPorts s' n id d' b').2 := by
  rw [bindPorts_eq, bindPorts_eq, hd, hs.portValue_eq]
  exact ⟨rfl, hb.warn _⟩

/-- A node gets the same wires. -/
theorem nodeWires_same {s s' : Scope} (hs : SameScope kept s s') (n : Node)
    {b b' : Build} (hb : SameBuild kept b b') :
    (nodeWires s' n b').1 = (nodeWires s n b).1
      ∧ SameBuild kept (nodeWires s n b).2 (nodeWires s' n b').2 := by
  unfold nodeWires
  rw [hs.level.link?_eq, hs.resolve_eq, hs.path]
  refine List.foldl_rel (r := fun x x' : List (String × Input) × Build =>
    x'.1 = x.1 ∧ SameBuild kept x.2 x'.2) ⟨rfl, hb⟩ ?_
  rintro i - ⟨wires, c⟩ ⟨wires', c'⟩ ⟨rfl, hc⟩
  dsimp only
  split
  · exact ⟨rfl, hc⟩
  · exact ⟨rfl, hc.warn _⟩

/-- A node gets the same entry. -/
theorem convertNode_same {ctx ctx' : Context} (htable : ctx'.table = ctx.table)
    {s s' : Scope} (hs : SameScope kept s s') (n : Node) {b b' : Build}
    (hb : SameBuild kept b b') :
    SameBuild kept (convertNode ctx s b n) (convertNode ctx' s' b' n) := by
  obtain ⟨hwires, hbuild⟩ := nodeWires_same hs n hb
  unfold convertNode
  dsimp only
  rw [hwires, htable, hs.path]
  have hwarned := hbuild.warn (fillInputs (s.path ++ n.id.text)
    (((Assoc.get? ctx.table n.type).map (·.inputs)).getD []) n.widgets
    (nodeWires s n b).1).2
  refine ⟨?_, hwarned.instances, hwarned.diagnostics, hwarned.events⟩
  show Assoc.insert _ _ _ = Assoc.insert _ _ _
  rw [hbuild.entries]

/-- Output ports get the same values, one port after the other in the
order of the links. -/
theorem outputBindings_same {s s' : Scope} (hs : SameScope kept s s')
    (d d' : Definition) {b b' : Build} (hb : SameBuild kept b b') :
    SameBindings kept (outputBindings s d b).1 (outputBindings s' d' b').1
      ∧ SameBuild kept (outputBindings s d b).2 (outputBindings s' d' b').2 := by
  have hlinks := hs.level.links.filterMap (portLink? s.level)
  have hclear' := hs.level.clear'
  rw [outputBindings_eq, outputBindings_eq,
    chooseOutputs_eq_ports hs.level.clear, chooseOutputs_eq_ports hclear',
    hs.resolve_eq, hs.path, hs.level.portLink?_eq]
  refine ⟨⟨?_, hlinks.filterMap _⟩,
    (hb.warn []).warn_reordered (hlinks.flatMap _)⟩
  -- a port's own slot stands before its value, and no slot comes twice
  refine List.pairwise_map.2 (List.pairwise_filterMap.2 ?_)
  refine (List.pairwise_map.1 hs.level.clear.nodup_portLinks).imp ?_
  intro c e hne v hv u hu
  obtain ⟨_, -, rfl⟩ := Option.map_eq_some_iff.1 hv
  obtain ⟨_, -, rfl⟩ := Option.map_eq_some_iff.1 hu
  exact hne

-- ==== definitions

/-- Two arrangements of the inside of one definition. -/
structure SameDefinition (kept : Prop) (d d' : Definition) : Prop where
  level : Arranged kept d.level d'.level
  id : d'.id = d.id
  name : d'.name = d.name
  inputs : d'.inputs = d.inputs
  skipped : d'.skipped = d.skipped

/-- Definitions one by one in two arrangements. -/
abbrev SameDefinitions (kept : Prop) : List Definition → List Definition → Prop :=
  List.Forall₂ (SameDefinition kept)

section
variable {ds ds' : List Definition}

/-- The first definition of each id is the same. -/
theorem distinctDefinitions_same (hds : SameDefinitions kept ds ds') :
    SameDefinitions kept (distinctDefinitions ds)
      (distinctDefinitions ds') :=
  distinctDefinitions_rel (fun _ _ hd => hd.id) hds

/-- The same links are skipped. -/
theorem skippedLinksOf_same (hds : SameDefinitions kept ds ds') :
    (ds'.flatMap fun d => d.skipped.map (skippedLinkOf d))
      = ds.flatMap fun d => d.skipped.map (skippedLinkOf d) := by
  induction hds with
  | nil => rfl
  | cons hd _ ih =>
      rw [List.flatMap_cons, List.flatMap_cons, ih, hd.skipped]
      unfold skippedLinkOf
      rw [hd.id]

end

-- ==== likeness

/-- The ids of a level's instances are told apart by their keys. -/
theorem distinct_instances {ctx : Context} {level : Level}
    (hl : Unambiguous level) {ids : List Id}
    (hids : ∀ id ∈ ids, HasInstance ctx level id) : Distinct Id.key ids := by
  intro i hi j hj hkey
  obtain ⟨m, hm, rfl, -⟩ := hids i hi
  obtain ⟨n, hn, rfl, -⟩ := hids j hj
  rw [hl.distinct m hm n hn hkey]

/-- Levels in two arrangements are converted to the same build. -/
def arrangement {ctx ctx' : Context} (hregistry : ctx'.registry = ctx.registry)
    (htable : ctx'.table = ctx.table)
    (hds : SameDefinitions kept ctx.definitions ctx'.definitions) :
    Likeness ctx ctx' where
  node := Eq
  level := Arranged kept
  definition := SameDefinition kept
  outputs := SameBindings kept
  build := SameBuild kept
  registry := hregistry
  table := htable
  definitions := hds
  same_id hd := hd.id
  inside hd := hd.level
  same_role hn := by
    rw [hn]
    exact ⟨rfl, rfl, rfl⟩
  sorted hl := by
    rw [hl.sortNodes_eq, List.forall₂_eq_eq_eq]
  order hl _ hids := hl.instanceOrder_eq (distinct_instances hl.clear hids)
  no_outputs := .nil
  report hb ds events := ⟨hb.entries, hb.instances, (hb.warn ds).diagnostics,
    congrArg (· ++ events) hb.events⟩
  bindPorts hs hd hb id _ := by
    rw [hs.level.node?_eq]
    exact bindPorts_same ⟨hs.level, hs.path, hs.ports, hs.isSite, hs.expanded⟩
      _ id hd.inputs hb
  convertNode hs hn hb := by
    subst hn
    exact convertNode_same htable
      ⟨hs.level, hs.path, hs.ports, hs.isSite, hs.expanded⟩ _ hb
  outputBindings hs _ hb :=
    outputBindings_same ⟨hs.level, hs.path, hs.ports, hs.isSite, hs.expanded⟩
      _ _ hb
  expanded hd hout hb hc pid depth := by
    refine (hc.record pid hout).emit ?_
    rw [hd.id, hd.name, hout.length_eq, hb.entries, hc.entries]

-- ==== workflows

/-- The same definition, its nodes and its links perhaps listed in
another order. -/
structure ShuffledDefinition (d d' : Definition) : Prop where
  nodes : d.nodes.Perm d'.nodes
  links : d.links.Perm d'.links
  rest : d' = { d with nodeList := d'.nodeList, linkList := d'.linkList }

/-- The same workflow, the nodes and the links of its root and of its
definitions perhaps listed in another order. -/
structure Shuffled (w w' : Workflow) : Prop where
  nodes : w.nodes.Perm w'.nodes
  links : w.links.Perm w'.links
  definitions : List.Forall₂ ShuffledDefinition w.definitions w'.definitions
  skipped : w'.skipped = w.skipped

/-- Every level lists its links in the same order. -/
def SameLinks (w w' : Workflow) : Prop :=
  (levelsOf w).map Level.links = (levelsOf w').map Level.links

/-- A shuffled definition is the same. -/
theorem ShuffledDefinition.same {d d' : Definition}
    (h : ShuffledDefinition d d') (hclear : Unambiguous d.level)
    (hkept : kept → d.links = d'.links) : SameDefinition kept d d' where
  level := ⟨hclear, h.nodes, ⟨h.links, hkept⟩, by rw [h.rest]; rfl⟩
  id := by rw [h.rest]
  name := by rw [h.rest]
  inputs := by rw [h.rest]; rfl
  skipped := by rw [h.rest]

/-- So are all of them. -/
theorem sameDefinitions_of_shuffled {ds ds' : List Definition}
    (h : List.Forall₂ ShuffledDefinition ds ds')
    (hclear : ∀ d ∈ ds, Unambiguous d.level)
    (hkept : kept → ds.map (·.links) = ds'.map (·.links)) :
    SameDefinitions kept ds ds' := by
  induction h with
  | nil => exact .nil
  | cons hd _ ih =>
      rw [List.forall_mem_cons] at hclear
      simp only [List.map_cons, List.cons.injEq] at hkept
      exact .cons (hd.same hclear.1 fun hk => (hkept hk).1)
        (ih hclear.2 fun hk => (hkept hk).2)

namespace Shuffled

variable {w w' : Workflow}

/-- The root is arranged. -/
theorem arranged_root (h : Shuffled w w')
    (hclear : ∀ l ∈ levelsOf w, Unambiguous l) :
    Arranged (SameLinks w w') w.root w'.root where
  clear := hclear _ List.mem_cons_self
  nodes := h.nodes
  links := ⟨h.links, fun hk => (List.cons.inj hk).1⟩
  sentinels := rfl

/-- The definitions are the same. -/
theorem sameDefinitions (h : Shuffled w w')
    (hclear : ∀ l ∈ levelsOf w, Unambiguous l) :
    SameDefinitions (SameLinks w w') w.definitions w'.definitions := by
  refine sameDefinitions_of_shuffled h.definitions (fun d hd => ?_) fun hk => ?_
  · exact hclear _ (List.mem_cons_of_mem _ (List.mem_map_of_mem hd))
  · have htail := (List.cons.inj hk).2
    rw [List.map_map, List.map_map] at htail
    exact htail

/-- Nothing that is reported before the first level depends on an
order. -/
theorem sameBuild_firstBuild (h : Shuffled w w')
    (hclear : ∀ l ∈ levelsOf w, Unambiguous l) (source : String) :
    SameBuild (SameLinks w w') (firstBuild source w) (firstBuild source w') := by
  have hds := h.sameDefinitions hclear
  have hskipped : skippedLinks w' = skippedLinks w := by
    unfold skippedLinks
    rw [h.skipped, skippedLinksOf_same hds]
  unfold firstBuild
  rw [hskipped, h.nodes.length_eq, (distinctDefinitions_same hds).length_eq]
  exact ⟨rfl, .nil, .refl _, rfl⟩

/-- Inlining gives the same build. -/
theorem sameBuild_inlined (h : Shuffled w w')
    (hclear : ∀ l ∈ levelsOf w, Unambiguous l) (registry : Registry)
    (table : NodeTable) (source : String) :
    SameBuild (SameLinks w w') (inlined registry table source w)
      (inlined registry table source w') := by
  have hds := distinctDefinitions_same (h.sameDefinitions hclear)
  exact @Likeness.inlined registry table source w w' (arrangement rfl rfl hds)
    (h.arranged_root hclear) (h.sameBuild_firstBuild hclear source)

end Shuffled

/-- The order in which nodes and links are listed does not matter where
ids and ends tell them apart: the graph and the events are the same, and
so are the diagnostics, up to their order. Only the order of links can
be seen in that one. -/
theorem conversion_order_independent (registry : Registry)
    (table : NodeTable) (source : String) {w w' : Workflow}
    (hclear : ∀ l ∈ levelsOf w, Unambiguous l) (h : Shuffled w w') :
    (convertWorkflow registry table source w').graph
        = (convertWorkflow registry table source w).graph
      ∧ (convertWorkflow registry table source w').diagnostics.Perm
          (convertWorkflow registry table source w).diagnostics
      ∧ (SameLinks w w' →
          (convertWorkflow registry table source w').diagnostics
            = (convertWorkflow registry table source w).diagnostics)
      ∧ (convertWorkflow registry table source w').events
        = (convertWorkflow registry table source w).events := by
  have hsame := (h.sameBuild_inlined hclear registry table
    source).patchReferences.sweepDangling
  rw [convertWorkflow_eq, convertWorkflow_eq]
  refine ⟨hsame.entries, hsame.diagnostics.perm.symm,
    fun hlinks => (hsame.diagnostics.eq hlinks).symm, ?_⟩
  dsimp only
  rw [hsame.events, hsame.entries, hsame.instances.length_eq,
    hsame.diagnostics.perm.length_eq]

/-- The two instances that read each other, every list read from its
end. -/
def blurCircleBackwards : Workflow :=
  { nodes := blurCircle.nodes.reverse
    linkList := some blurCircle.links.reverse
    definitions := [{ blurDefinition with
      linkList := some blurDefinition.links.reverse }] }

/-- Which of two instances in a circle is expanded first is not a matter
of the order in which the document lists them. If only the nodes are
listed backwards, the complaint about the circle reads the same too. -/
theorem conversion_order_independent_blurCircle :
    (∀ l ∈ levelsOf blurCircle, Unambiguous l)
      ∧ Shuffled blurCircle blurCircleBackwards
      ∧ (convertWorkflow {} [("Blur", blurType)] "" blurCircleBackwards).graph
        = (convertWorkflow {} [("Blur", blurType)] "" blurCircle).graph
      ∧ (convertWorkflow {} [("Blur", blurType)] ""
          { blurCircle with nodes := blurCircle.nodes.reverse }).diagnostics
        = (convertWorkflow {} [("Blur", blurType)] ""
          blurCircle).diagnostics := by
  have hclear : ∀ l ∈ levelsOf blurCircle, Unambiguous l := by decide +kernel
  have h : Shuffled blurCircle blurCircleBackwards :=
    ⟨(List.reverse_perm _).symm, (List.reverse_perm _).symm,
      .cons ⟨.refl _, (List.reverse_perm _).symm, rfl⟩ .nil, rfl⟩
  have hnodes : Shuffled blurCircle
      { blurCircle with nodes := blurCircle.nodes.reverse } :=
    ⟨(List.reverse_perm _).symm, .refl _, .cons ⟨.refl _, .refl _, rfl⟩ .nil,
      rfl⟩
  exact ⟨hclear, h,
    (conversion_order_independent {} [("Blur", blurType)] "" hclear h).1,
    (conversion_order_independent {} [("Blur", blurType)] "" hclear
      hnodes).2.2.1 rfl⟩

end PromptGraph.Flatten

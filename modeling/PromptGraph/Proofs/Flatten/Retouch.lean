/-
Nodes with other widget values.

Where a node stands in the graph, what it is called and what it is wired
to has nothing to do with its widget values, unless it is an instance,
whose widget values may be bound to ports. So if other nodes are given
other widget values, and nothing else is changed, the two conversions
build the same instances and make the same entries of each pair of nodes
but for what is filled in from the values (`retouch`, a likeness of two
conversions). What is settled in the end is settled alike: an input that
is filled in alike is the same in both graphs (`graph_retouched`).
-/
import PromptGraph.Proofs.Flatten.SideBySide
import PromptGraph.Proofs.Flatten.Values

namespace PromptGraph.Flatten

open Editor
open Execution (Input Ref Entry Graph)

variable {T : Node → Node → Prop} {ctx ctx₀ : Context}

-- ==== nodes

/-- The same node, or one with other widget values. `T` says which nodes
may have others. -/
def Retouched (T : Node → Node → Prop) (n n₀ : Node) : Prop :=
  n = n₀ ∨ n = { n₀ with widgets := n.widgets } ∧ T n n₀

/-- Only widget values are retouched. -/
theorem Retouched.rest {n n₀ : Node} (h : Retouched T n n₀) :
    n = { n₀ with widgets := n.widgets } := by
  rcases h with rfl | h
  · rfl
  · exact h.1

/-- A retouched node has its id. -/
theorem Retouched.id_eq {n n₀ : Node} (h : Retouched T n n₀) :
    n₀.id = n.id := by
  rw [h.rest]

/-- A level with other widget values, but not for instances. -/
structure RetouchedLevel (T : Node → Node → Prop) (ctx : Context)
    (l l₀ : Level) : Prop where
  nodes : List.Forall₂ (Retouched T) l.nodes l₀.nodes
  rest : l₀ = { l with nodes := l₀.nodes }
  instances : ∀ id, HasInstance ctx l id → l₀.node? id = l.node? id

structure RetouchedDefinition (T : Node → Node → Prop) (ctx : Context)
    (d d₀ : Definition) : Prop where
  level : RetouchedLevel T ctx d.level d₀.level
  rest : d₀ = { d with nodeList := d₀.nodeList, linkList := d₀.linkList }

/-- A level may be left as it is. -/
theorem RetouchedLevel.refl (l : Level) : RetouchedLevel T ctx l l :=
  ⟨List.forall₂_same.2 fun _ _ => .inl rfl, rfl, fun _ _ => rfl⟩

theorem RetouchedDefinition.refl (d : Definition) :
    RetouchedDefinition T ctx d d := ⟨.refl _, rfl⟩

/-- Lists that are related member by member are sorted alike. -/
theorem mergeSort_rel {α : Type} {R : α → α → Prop} {le : α → α → Bool}
    (hle : ∀ a a' b b', R a a' → R b b' → le a' b' = le a b) {l l' : List α}
    (h : List.Forall₂ R l l') :
    List.Forall₂ R (l.mergeSort le) (l'.mergeSort le) := by
  -- the pairs are sorted, by their first or by their second members
  have hfst := List.map_fst_zip (Nat.le_of_eq h.length_eq)
  have hsnd := List.map_snd_zip (Nat.le_of_eq h.length_eq.symm)
  have hpairs : ∀ x ∈ l.zip l', R x.1 x.2 := fun _ hx => List.forall₂_zip h hx
  generalize l.zip l' = pairs at hfst hsnd hpairs
  have hsort : (pairs.mergeSort fun x y => le x.1 y.1).map Prod.fst
      = l.mergeSort le := by
    rw [← hfst]
    exact List.map_mergeSort fun _ _ _ _ => rfl
  have hsort' : (pairs.mergeSort fun x y => le x.1 y.1).map Prod.snd
      = l'.mergeSort le := by
    rw [← hsnd]
    refine List.map_mergeSort fun x hx y hy => ?_
    exact (hle _ _ _ _ (hpairs x hx) (hpairs y hy)).symm
  rw [← hsort, ← hsort', List.forall₂_map_left_iff, List.forall₂_map_right_iff,
    List.forall₂_same]
  exact fun x hx => hpairs x (List.mem_mergeSort.1 hx)

-- ==== scopes

namespace RetouchedLevel

variable {l l₀ : Level}

/-- A retouched level has the same links. -/
theorem links (h : RetouchedLevel T ctx l l₀) : l₀.links = l.links := by
  rw [h.rest]

/-- It has the same ports. -/
theorem sentinels (h : RetouchedLevel T ctx l l₀) :
    l₀.sentinels = l.sentinels := by
  rw [h.rest]

/-- Its links start where they did. -/
theorem origin (h : RetouchedLevel T ctx l l₀) : l₀.origin = l.origin := by
  funext k
  unfold Level.origin
  rw [h.sentinels]

/-- They end where they did. -/
theorem target (h : RetouchedLevel T ctx l l₀) : l₀.target = l.target := by
  funext k
  unfold Level.target
  rw [h.sentinels]

/-- Each is found under its id. -/
theorem link? (h : RetouchedLevel T ctx l l₀) : l₀.link? = l.link? := by
  funext id
  unfold Level.link?
  rw [h.links]

/-- Its instances are expanded in the same order. -/
theorem instanceOrder (h : RetouchedLevel T ctx l l₀) (ids : List Id) :
    instanceOrder l₀ ids = instanceOrder l ids := by
  unfold Flatten.instanceOrder wiresAmong
  rw [h.links, h.origin, h.target]

/-- Its outputs are chosen alike. -/
theorem chooseOutputs (h : RetouchedLevel T ctx l l₀) {d d₀ : Definition}
    (hd : RetouchedDefinition T ctx d d₀) (path : String) :
    chooseOutputs l₀ path d₀ = chooseOutputs l path d := by
  unfold Flatten.chooseOutputs
  rw [h.links, h.target, hd.rest]
  rfl

end RetouchedLevel

/-- The same scope, over a level with other widget values. -/
structure RetouchedScope (T : Node → Node → Prop) (ctx : Context)
    (s s₀ : Scope) : Prop where
  level : RetouchedLevel T ctx s.level s₀.level
  rest : s₀ = { s with level := s₀.level }

namespace RetouchedScope

variable {s s₀ : Scope}

/-- References are resolved alike. -/
theorem resolve (h : RetouchedScope T ctx s s₀) : s₀.resolve = s.resolve := by
  funext k consumer
  unfold Scope.resolve
  rw [h.level.origin, h.rest]
  rfl

/-- A port gets the same value. -/
theorem portValue (h : RetouchedScope T ctx s s₀) (n : Node) (id : Id) :
    portValue s₀ n id = portValue s n id := by
  funext slot
  have hincoming : s₀.incoming? id slot = s.incoming? id slot := by
    unfold Scope.incoming?
    rw [h.level.links, h.level.target]
  unfold Flatten.portValue
  rw [hincoming, h.resolve, h.rest]

/-- A node gets the same wires. -/
theorem wiresOf (h : RetouchedScope T ctx s s₀) (n : Node) :
    wiresOf s₀ n = wiresOf s n := by
  unfold Flatten.wiresOf
  rw [h.level.link?, h.resolve, h.rest]

/-- An untouched node gets the same entry. -/
theorem entryOf (h : RetouchedScope T ctx s s₀) (htable : ctx₀.table = ctx.table)
    (n : Node) : entryOf ctx₀ s₀ n = entryOf ctx s n := by
  unfold Flatten.entryOf declaredInputs
  rw [h.wiresOf, htable, h.rest]

end RetouchedScope

-- ==== likeness

/-- What two nodes become that differ in their widget values. -/
def RetouchedEntry (T : Node → Node → Prop) (ctx : Context) (e e₀ : Entry) :
    Prop :=
  ∃ s n n₀, Retouched T n n₀ ∧ e = entryOf ctx s n ∧ e₀ = entryOf ctx s n₀

/-- The same instances, and entries of which each pair is made alike. -/
structure RetouchedBuild (T : Node → Node → Prop) (ctx : Context)
    (b b₀ : Build) : Prop where
  instances : b₀.instances = b.instances
  entries : List.Forall₂ (Under (RetouchedEntry T ctx)) b.entries b₀.entries

/-- Reports on either side leave builds alike. -/
theorem RetouchedBuild.onlyReports {b b₀ c c₀ : Build}
    (h : RetouchedBuild T ctx b b₀) (hc : OnlyReports b c)
    (hc₀ : OnlyReports b₀ c₀) : RetouchedBuild T ctx c c₀ :=
  ⟨by rw [hc.instances, hc₀.instances, h.instances],
    by rw [hc.entries, hc₀.entries]; exact h.entries⟩

/-- What is alike if only widget values are others. -/
def retouching (T : Node → Node → Prop) (ctx : Context) : Relations where
  node := Retouched T
  level := RetouchedLevel T ctx
  definition := RetouchedDefinition T ctx
  outputs := Eq
  build := RetouchedBuild T ctx

/-- Scopes that run side by side are retouched. -/
theorem RetouchedScope.of_scopes {s s₀ : Scope}
    (h : (retouching T ctx).Scopes s s₀) : RetouchedScope T ctx s s₀ := by
  have hexpanded : s₀.expanded = s.expanded := by
    have hall := h.expanded
    generalize s.expanded = l, s₀.expanded = l₀ at hall ⊢
    induction hall with
    | nil => rfl
    | cons he _ ih => rw [ih, Prod.ext he.key he.value.symm]
  refine ⟨h.level, ?_⟩
  obtain ⟨level, path, ports, isSite, expanded⟩ := s₀
  cases h.path
  cases h.ports
  cases h.isSite
  cases hexpanded
  rfl

/-- Levels with other widget values are converted alike. -/
def retouch (hregistry : ctx₀.registry = ctx.registry)
    (htable : ctx₀.table = ctx.table)
    (hds : List.Forall₂ (RetouchedDefinition T ctx) ctx.definitions
      ctx₀.definitions) : Likeness ctx ctx₀ where
  toRelations := retouching T ctx
  registry := hregistry
  table := htable
  definitions := hds
  same_id hd := by rw [hd.rest]
  inside hd := hd.level
  same_role hn := by
    rw [hn.rest]
    exact ⟨rfl, rfl, rfl⟩
  sorted hl := by
    refine mergeSort_rel (fun m m₀ n n₀ hm hn => ?_) hl.nodes
    rw [hm.rest, hn.rest]
  order hl ids _ := hl.instanceOrder ids
  no_outputs := rfl
  report hb ds events := ⟨hb.instances, hb.entries⟩
  bindPorts hs hd hb id hid := by
    have hs' := RetouchedScope.of_scopes hs
    refine ⟨?_, hb.onlyReports (bindPorts_onlyReports ..)
      (bindPorts_onlyReports ..)⟩
    rw [bindPorts_eq, bindPorts_eq, hs'.portValue, hs.level.instances id hid,
      hd.rest]
    rfl
  convertNode hs hn hb := by
    have hs' := RetouchedScope.of_scopes hs
    refine ⟨?_, ?_⟩
    · rw [convertNode_instances, convertNode_instances, hb.instances]
    · rw [convertNode_entries, convertNode_entries, hs.path, hs'.entryOf htable]
      rw [Retouched.id_eq hn]
      exact insert_rel hb.entries _ ⟨_, _, _, hn, rfl, rfl⟩
  outputBindings hs hd hb := by
    have hs' := RetouchedScope.of_scopes hs
    refine ⟨?_, hb.onlyReports (outputBindings_onlyReports ..)
      (outputBindings_onlyReports ..)⟩
    rw [outputBindings_eq, outputBindings_eq, hs'.resolve, hs.path,
      hs'.level.chooseOutputs hd]
    rfl
  expanded hd hout hb hc pid depth := by
    refine ⟨?_, hc.entries⟩
    show Assoc.insert _ _ _ = Assoc.insert _ _ _
    rw [hc.instances, hout]

-- ==== workflows

/-- Inputs settle to the same. -/
theorem RetouchedBuild.settles_iff {b b₀ : Build}
    (h : RetouchedBuild T ctx b b₀) {v u : Input} :
    Settles b₀ v u ↔ Settles b v u := by
  cases v with
  | literal j => exact Iff.rfl
  | ref r =>
      unfold Settles
      rw [h.instances]
      refine and_congr_right fun _ => forall_congr' fun s => imp_congr_right ?_
      intro _
      rw [Assoc.contains_iff_mem_keys, Assoc.contains_iff_mem_keys,
        keys_rel h.entries]

section
variable {registry : Registry} {table : NodeTable} {source : String}
  {w w₀ : Workflow}

/-- Inlining a retouched workflow. -/
theorem inlined_retouched
    (hroot : RetouchedLevel T (contextOf registry table w) w.root w₀.root)
    (hds : List.Forall₂ (RetouchedDefinition T (contextOf registry table w))
      w.definitions w₀.definitions) :
    RetouchedBuild T (contextOf registry table w)
      (inlined registry table source w) (inlined registry table source w₀) := by
  have hdistinct := distinctDefinitions_rel (fun d d₀ hd => by rw [hd.rest]) hds
  exact @Likeness.inlined registry table source w w₀
    (retouch rfl rfl hdistinct) hroot ⟨rfl, .nil⟩

/-- The graph has the same keys, and each pair of entries is made from a
pair of nodes: inputs that these fill in alike are the same. -/
theorem graph_retouched
    (h : RetouchedBuild T ctx (inlined registry table source w)
      (inlined registry table source w₀)) :
    Assoc.keys (convertWorkflow registry table source w₀).graph
        = Assoc.keys (convertWorkflow registry table source w).graph
      ∧ ∀ key e e₀,
        Assoc.get? (convertWorkflow registry table source w).graph key
            = some e →
        Assoc.get? (convertWorkflow registry table source w₀).graph key
            = some e₀ →
        ∃ s n n₀, Retouched T n n₀
          ∧ ∀ name,
            (entryOf ctx s n₀).input? name = (entryOf ctx s n).input? name →
            e₀.input? name = e.input? name := by
  refine ⟨?_, fun key e e₀ he he₀ => ?_⟩
  · rw [convertWorkflow_graph, convertWorkflow_graph, keys_settledEntries,
      keys_settledEntries, keys_rel h.entries]
  obtain ⟨-, f, hf, hinputs⟩ := settled_entry he
  obtain ⟨-, f₀, hf₀, hinputs₀⟩ := settled_entry he₀
  have hrel := get?_rel h.entries key
  rw [hf, hf₀] at hrel
  cases hrel with
  | some hmade =>
      obtain ⟨s, n, n₀, hnode, rfl, rfl⟩ := hmade
      refine ⟨s, n, n₀, hnode, fun name hname => Option.ext fun u => ?_⟩
      rw [hinputs, hinputs₀]
      refine exists_congr fun v => and_congr ?_ h.settles_iff
      rw [(ascending_entryOf s n).mem_iff, (ascending_entryOf s n₀).mem_iff]
      exact Eq.congr hname rfl

end

end PromptGraph.Flatten

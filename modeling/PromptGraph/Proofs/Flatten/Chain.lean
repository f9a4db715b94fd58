/-
Where inlining can go. A level is reached through a chain of instances:
the first stands in the root, each further one in the definition of the
one before, and no definition occurs twice. This file says what a chain
is without a word about how levels are converted, and derives what the
conversion relies on:

- the definitions still to be expanded at the end of a chain
  (`remaining`) shrink with every instance, so chains are no longer than
  there are definitions (`Chain.length_le`), and a fact may be proved of
  a chain from the same fact about the chains one instance longer
  (`Chain.descend`), which is the induction of every proof about a run;
- the role that a node plays at the end of a chain is ordinary, an
  instance that makes the chain longer, or none (`role_ordinary_iff`,
  `role_occurrence_iff`);
- all chains can be listed, each once (`mem_chains`, `nodup_chainsAt`).

Chains are lists with the innermost instance first: the level at the end
of a chain is the inside of its head.
-/
import Mathlib.Data.List.Nodup
import PromptGraph.Flatten.Convert

namespace PromptGraph.Flatten

open Editor

-- ==== frames and levels

/-- An instance that is being expanded: a node and the definition that
it is an instance of. -/
structure Frame where
  node : Node
  definition : Definition

/-- What the ids of a level's nodes begin with once they are inlined. -/
def pathText : List Frame → String
  | [] => ""
  | f :: p => instancePath (pathText p) f.node.id

/-- The id that a node of the level at the end of a chain is inlined
under. -/
def flatId (p : List Frame) (id : Id) : String := pathText p ++ id.text

/-- The level at the end of a chain. -/
def levelAt (root : Level) : List Frame → Level
  | [] => root
  | f :: _ => f.definition.level

-- ==== kinds of nodes

/-- Neither switched off nor there for the editor only. -/
def Active (ctx : Context) (n : Node) : Prop :=
  n.disabled = false ∧ ctx.registry.isUiOnly n.type = false

/-- An active node of a known type that is no definition's id. -/
def Ordinary (ctx : Context) (n : Node) : Prop :=
  Active ctx n ∧ (∀ d ∈ ctx.definitions, d.id ≠ n.type)
    ∧ Assoc.contains ctx.table n.type = true

/-- An active node whose type is the definition's id. -/
def InstanceOf (ctx : Context) (n : Node) (d : Definition) : Prop :=
  Active ctx n ∧ d ∈ ctx.definitions ∧ d.id = n.type

instance (ctx : Context) (n : Node) : Decidable (Ordinary ctx n) :=
  inferInstanceAs (Decidable ((_ ∧ _) ∧ _ ∧ _))

/-- No two nodes of the level have the same id. -/
def UniqueIds (l : Level) : Prop := (l.nodes.map (·.id)).Nodup

/-- What a conversion can rely on: definitions have ids of their own,
and so have the nodes of each level. -/
structure WellNamed (ctx : Context) (root : Level) : Prop where
  definitions : (ctx.definitions.map (·.id)).Nodup
  root : UniqueIds root
  inside : ∀ d ∈ ctx.definitions, UniqueIds d.level

-- ==== chains

/-- A chain of instances, each found in the definition of the one
before, with pairwise different definitions. -/
inductive Chain (ctx : Context) (root : Level) : List Frame → Prop where
  | nil : Chain ctx root []
  | cons {f : Frame} {p : List Frame} (rest : Chain ctx root p)
      (found : f.node ∈ (levelAt root p).nodes)
      (isInstance : InstanceOf ctx f.node f.definition)
      (fresh : ∀ g ∈ p, f.definition.id ≠ g.definition.id) :
      Chain ctx root (f :: p)

variable {ctx : Context} {root : Level} {p : List Frame} {f : Frame}

theorem Chain.tail (h : Chain ctx root (f :: p)) : Chain ctx root p := by
  cases h with
  | cons rest _ _ _ => exact rest

theorem Chain.head_mem (h : Chain ctx root (f :: p)) :
    f.node ∈ (levelAt root p).nodes := by
  cases h with
  | cons _ found _ _ => exact found

theorem Chain.head_instance (h : Chain ctx root (f :: p)) :
    InstanceOf ctx f.node f.definition := by
  cases h with
  | cons _ _ isInstance _ => exact isInstance

/-- The beginning of a chain is a chain. -/
theorem Chain.of_suffix {p q : List Frame} (hq : Chain ctx root q)
    (h : p <:+ q) : Chain ctx root p := by
  induction hq with
  | nil =>
      rw [List.suffix_nil.1 h]
      exact .nil
  | cons rest found isInstance fresh ih =>
      rcases List.suffix_cons_iff.1 h with rfl | h
      · exact .cons rest found isInstance fresh
      · exact ih h

/-- The level at the end of a chain has unique ids. -/
theorem Chain.uniqueIds (hw : WellNamed ctx root) (hp : Chain ctx root p) :
    UniqueIds (levelAt root p) := by
  cases hp with
  | nil => exact hw.root
  | cons _ _ isInstance _ => exact hw.inside _ isInstance.2.1

/-- The definitions along a chain have different ids. -/
theorem Chain.nodup_definitions (hp : Chain ctx root p) :
    (p.map (·.definition.id)).Nodup := by
  induction hp with
  | nil => exact List.nodup_nil
  | @cons f p _ _ _ fresh ih =>
      refine List.nodup_cons.2 ⟨fun h => ?_, ih⟩
      obtain ⟨g, hg, heq⟩ := List.mem_map.1 h
      exact fresh g hg heq.symm

theorem Chain.definitions_subset (hp : Chain ctx root p) :
    p.map (·.definition.id) ⊆ ctx.definitions.map (·.id) := by
  induction hp with
  | nil => exact List.nil_subset _
  | @cons f p _ _ isInstance _ ih =>
      refine List.cons_subset.2 ⟨?_, ih⟩
      exact List.mem_map.2 ⟨_, isInstance.2.1, rfl⟩

/-- Nesting is no deeper than there are definitions. -/
theorem Chain.length_le (hp : Chain ctx root p) :
    p.length ≤ ctx.definitions.length := by
  have h := List.Nodup.length_le_of_subset hp.nodup_definitions
    hp.definitions_subset
  rwa [List.length_map, List.length_map] at h

/-- Induction from the longest chains back to a chain: what holds of a
chain whenever it holds of all chains one instance longer holds of every
chain. -/
theorem Chain.descend {motive : List Frame → Prop}
    (step : ∀ p, Chain ctx root p →
      (∀ f, Chain ctx root (f :: p) → motive (f :: p)) → motive p)
    (hp : Chain ctx root p) : motive p := by
  -- the room left for further instances bounds the induction
  suffices h : ∀ room p, Chain ctx root p →
      ctx.definitions.length ≤ p.length + room → motive p from
    h ctx.definitions.length p hp (Nat.le_add_left _ _)
  intro room
  induction room with
  | zero =>
      intro p hp hroom
      refine step p hp fun f hf => ?_
      have hlen := hf.length_le
      rw [List.length_cons] at hlen
      omega
  | succ room ih =>
      intro p hp hroom
      refine step p hp fun f hf => ih (f :: p) hf ?_
      rw [List.length_cons]
      omega

/-- A chain that is not the whole of a longer one goes on with some
instance. -/
theorem suffix_cons_of_ne {p q : List Frame} (h : p <:+ q) (hne : p ≠ q) :
    ∃ f, f :: p <:+ q := by
  obtain ⟨r, rfl⟩ := h
  rcases List.eq_nil_or_concat r with rfl | ⟨s, f, rfl⟩
  · exact absurd rfl hne
  · refine ⟨f, s, ?_⟩
    rw [List.concat_eq_append, List.append_assoc]
    rfl

-- ==== frames by id

/-- Of the nodes of a level with unique ids, one has a given id. -/
theorem UniqueIds.eq_of_id {l : Level} (h : UniqueIds l) {m n : Node}
    (hm : m ∈ l.nodes) (hn : n ∈ l.nodes) (hid : m.id = n.id) : m = n :=
  List.inj_on_of_nodup_map h hm hn hid

/-- An id names one definition. -/
theorem WellNamed.definition_eq (hw : WellNamed ctx root)
    {d e : Definition} (hd : d ∈ ctx.definitions)
    (he : e ∈ ctx.definitions) (hid : d.id = e.id) : d = e :=
  List.inj_on_of_nodup_map hw.definitions hd he hid

/-- Two instances of one level with the same id are the same. -/
theorem Chain.head_eq (hw : WellNamed ctx root) {f g : Frame}
    (hf : Chain ctx root (f :: p)) (hg : Chain ctx root (g :: p))
    (hid : f.node.id = g.node.id) :
    f = g := by
  have hnode : f.node = g.node :=
    (hf.tail.uniqueIds hw).eq_of_id hf.head_mem hg.head_mem hid
  have hdef : f.definition = g.definition := by
    refine hw.definition_eq hf.head_instance.2.1 hg.head_instance.2.1 ?_
    rw [hf.head_instance.2.2, hg.head_instance.2.2, hnode]
  obtain ⟨fn, fd⟩ := f
  obtain ⟨gn, gd⟩ := g
  cases hnode
  cases hdef
  rfl

variable {n : Node}

/-- An ordinary node is no instance. -/
theorem Ordinary.not_instanceOf (h : Ordinary ctx n) (d : Definition) :
    ¬ InstanceOf ctx n d :=
  fun hi => h.2.1 d hi.2.1 hi.2.2

-- ==== definitions still to come

/-- The definitions that no instance of the chain stands for. -/
def remaining (ctx : Context) (p : List Frame) : List Definition :=
  ctx.definitions.filter fun d => p.all fun g => d.id ≠ g.definition.id

theorem remaining_nil : remaining ctx [] = ctx.definitions := by
  unfold remaining
  exact List.filter_eq_self.2 fun d _ => rfl

/-- Expanding one more instance takes its definition away. -/
theorem without_remaining (f : Frame) (p : List Frame) :
    without (remaining ctx p) f.definition = remaining ctx (f :: p) := by
  unfold without remaining
  rw [List.filter_filter]
  rfl

variable {d : Definition}

/-- The definitions that are not on the chain. -/
theorem mem_remaining :
    d ∈ remaining ctx p
      ↔ d ∈ ctx.definitions ∧ ∀ g ∈ p, d.id ≠ g.definition.id := by
  unfold remaining
  rw [List.mem_filter, List.all_eq_true]
  simp only [decide_eq_true_eq]

-- ==== roles

/-- A node has the role of an ordinary one exactly if it is one. -/
theorem role_ordinary_iff {available : List Definition} :
    role ctx available n = .ordinary ↔ Ordinary ctx n := by
  unfold role Ordinary Active
  split
  · next h => simp [h]
  · next hdis =>
    split
    · next h => simp [h]
    · next hui =>
      split
      · next hany =>
        obtain ⟨d, hd, hid⟩ := List.any_eq_true.1 hany
        have hid' : d.id = n.type := by simpa using hid
        constructor
        · intro h
          split at h
          · cases h
          · cases h
        · intro h
          exact absurd hid' (h.2.1 d hd)
      · next hany =>
        have hno : ∀ d ∈ ctx.definitions, d.id ≠ n.type := by
          intro d hd hid
          exact hany (List.any_eq_true.2 ⟨d, hd, by simpa using hid⟩)
        split
        · next htable =>
          refine ⟨fun _ => ⟨⟨?_, ?_⟩, hno, htable⟩, fun _ => rfl⟩
          · simpa using hdis
          · simpa using hui
        · next htable =>
          refine ⟨fun h => ?_, fun h => absurd h.2.2 htable⟩
          cases h

/-- A node that is to be expanded is an instance of that definition,
which is still available. -/
theorem instanceOf_of_role {available : List Definition}
    (hsub : available ⊆ ctx.definitions) {mem : d ∈ available}
    (h : role ctx available n = .occurrence d mem) :
    InstanceOf ctx n d := by
  unfold role at h
  split at h
  · cases h
  · next hdis =>
    split at h
    · cases h
    · next hui =>
      split at h
      · split at h
        · next e he =>
          cases h
          have hid := List.find?_some he
          refine ⟨⟨?_, ?_⟩, hsub mem, ?_⟩
          · simpa using hdis
          · simpa using hui
          · simpa using hid
        · cases h
      · split at h
        · cases h
        · cases h

/-- A node of the level at the end of a chain is to be expanded exactly
if it makes the chain longer. -/
theorem role_occurrence_iff (hw : WellNamed ctx root) (hp : Chain ctx root p)
    (hn : n ∈ (levelAt root p).nodes) :
    (∃ mem, role ctx (remaining ctx p) n = .occurrence d mem)
      ↔ Chain ctx root (⟨n, d⟩ :: p) := by
  constructor
  · rintro ⟨mem, h⟩
    have hi := instanceOf_of_role (List.filter_subset_self _) h
    exact .cons hp hn hi (mem_remaining.1 mem).2
  · intro hc
    obtain ⟨⟨hdis, hui⟩, hd, hid⟩ := hc.head_instance
    have hfresh : ∀ g ∈ p, d.id ≠ g.definition.id := by
      cases hc with
      | cons _ _ _ fresh => exact fresh
    have hmem : d ∈ remaining ctx p := mem_remaining.2 ⟨hd, hfresh⟩
    refine ⟨hmem, ?_⟩
    have hany : ctx.definitions.any (·.id = n.type) = true :=
      List.any_eq_true.2 ⟨d, hd, by simpa using hid⟩
    unfold role
    rw [if_neg (by simp [hdis]), if_neg (by simp [hui]), if_pos hany]
    split
    · next e he =>
      have heid : e.id = n.type := by simpa using List.find?_some he
      have hemem := List.mem_of_find?_eq_some he
      have hed : e = d :=
        hw.definition_eq (mem_remaining.1 hemem).1 hd (heid.trans hid.symm)
      subst hed
      rfl
    · next hnone =>
      have hcon := List.find?_eq_none.1 hnone d hmem
      exact absurd hid (by simpa using hcon)

-- ==== all chains

/-- The chains that go on from a level at the end of `p`, `p` itself
first. -/
def chainsFrom (ctx : Context) (available : List Definition) (level : Level)
    (p : List Frame) : List (List Frame) :=
  p :: level.nodes.flatMap fun n =>
    match role ctx available n with
    | .occurrence d _ =>
      chainsFrom ctx (without available d) d.level (⟨n, d⟩ :: p)
    | _ => []
termination_by available.length
decreasing_by exact length_without_lt ‹_›

/-- Every chain of a conversion. -/
def chains (ctx : Context) (root : Level) : List (List Frame) :=
  chainsFrom ctx ctx.definitions root []

/-- The chains from the end of a chain `p` on, with the level and the
definitions read off `p`. -/
def chainsAt (ctx : Context) (root : Level) (p : List Frame) :
    List (List Frame) :=
  chainsFrom ctx (remaining ctx p) (levelAt root p) p

theorem chains_eq : chains ctx root = chainsAt ctx root [] := by
  unfold chains chainsAt
  rw [remaining_nil]
  rfl

/-- One node's share of the chains from the end of `p` on. -/
def chainsThrough (ctx : Context) (root : Level) (p : List Frame)
    (n : Node) : List (List Frame) :=
  match role ctx (remaining ctx p) n with
  | .occurrence d _ => chainsAt ctx root (⟨n, d⟩ :: p)
  | _ => []

/-- Chains go on through the nodes of a level. -/
theorem chainsAt_eq (p : List Frame) :
    chainsAt ctx root p
      = p :: (levelAt root p).nodes.flatMap (chainsThrough ctx root p) := by
  unfold chainsAt
  rw [chainsFrom]
  congr 2
  funext n
  unfold chainsThrough
  cases role ctx (remaining ctx p) n with
  | dropped reason => rfl
  | ordinary => rfl
  | occurrence d mem =>
      show chainsFrom ctx (without (remaining ctx p) d) d.level _ = _
      rw [without_remaining ⟨n, d⟩ p]
      rfl

/-- A node's share is that of the chain it makes longer, if it does. -/
theorem mem_chainsThrough (hw : WellNamed ctx root) {p q : List Frame}
    (hp : Chain ctx root p) (hn : n ∈ (levelAt root p).nodes) :
    q ∈ chainsThrough ctx root p n
      ↔ ∃ d, Chain ctx root (⟨n, d⟩ :: p)
          ∧ q ∈ chainsAt ctx root (⟨n, d⟩ :: p) := by
  unfold chainsThrough
  split
  · next d mem h =>
    refine ⟨fun hq => ⟨d, (role_occurrence_iff hw hp hn).1 ⟨mem, h⟩, hq⟩, ?_⟩
    rintro ⟨e, hc, hq⟩
    obtain ⟨mem', h'⟩ := (role_occurrence_iff hw hp hn).2 hc
    rw [h] at h'
    cases h'
    exact hq
  · next hno =>
    refine ⟨fun hq => absurd hq List.not_mem_nil, ?_⟩
    rintro ⟨e, hc, hq⟩
    obtain ⟨mem', h'⟩ := (role_occurrence_iff hw hp hn).2 hc
    exact absurd h' (hno e mem')

/-- What is listed from the end of a chain on are the chains that it
begins. -/
theorem mem_chainsAt (hw : WellNamed ctx root) (hp : Chain ctx root p)
    (q : List Frame) :
    q ∈ chainsAt ctx root p ↔ Chain ctx root q ∧ p <:+ q := by
  refine Chain.descend (motive := fun p =>
    q ∈ chainsAt ctx root p ↔ Chain ctx root q ∧ p <:+ q)
    (fun p hp ih => ?_) hp
  rw [chainsAt_eq, List.mem_cons, List.mem_flatMap]
  constructor
  · rintro (rfl | ⟨n, hn, hq⟩)
    · exact ⟨hp, List.suffix_refl _⟩
    · obtain ⟨d, hc, hq⟩ := (mem_chainsThrough hw hp hn).1 hq
      obtain ⟨hcq, hsuf⟩ := (ih _ hc).1 hq
      exact ⟨hcq, (List.suffix_cons _ _).trans hsuf⟩
  · rintro ⟨hcq, hsuf⟩
    by_cases hpq : p = q
    · exact Or.inl hpq.symm
    · obtain ⟨f, hf⟩ := suffix_cons_of_ne hsuf hpq
      have hc : Chain ctx root (f :: p) := hcq.of_suffix hf
      refine Or.inr ⟨f.node, hc.head_mem, ?_⟩
      exact (mem_chainsThrough hw hp hc.head_mem).2
        ⟨f.definition, hc, (ih f hc).2 ⟨hcq, hf⟩⟩

/-- The chains are all listed. -/
theorem mem_chains (hw : WellNamed ctx root) (q : List Frame) :
    q ∈ chains ctx root ↔ Chain ctx root q := by
  rw [chains_eq, mem_chainsAt hw .nil]
  exact ⟨fun h => h.1, fun h => ⟨h, List.nil_suffix⟩⟩

/-- Every chain is listed once. -/
theorem nodup_chainsAt (hw : WellNamed ctx root) (hp : Chain ctx root p) :
    (chainsAt ctx root p).Nodup := by
  refine Chain.descend (motive := fun p => (chainsAt ctx root p).Nodup)
    (fun p hp ih => ?_) hp
  rw [chainsAt_eq, List.nodup_cons, List.nodup_flatMap]
  refine ⟨fun hmem => ?_, fun n hn => ?_, ?_⟩
  · obtain ⟨n, hn, hq⟩ := List.mem_flatMap.1 hmem
    obtain ⟨d, hc, hq⟩ := (mem_chainsThrough hw hp hn).1 hq
    have hlen := ((mem_chainsAt hw hc p).1 hq).2.length_le
    rw [List.length_cons] at hlen
    omega
  · unfold chainsThrough
    split
    · next d mem h =>
      exact ih _ ((role_occurrence_iff hw hp hn).1 ⟨mem, h⟩)
    · exact List.nodup_nil
  · -- two nodes' shares differ in the instance that follows `p`
    have hnodes : (levelAt root p).nodes.Nodup :=
      List.Nodup.of_map _ (hp.uniqueIds hw)
    refine List.Pairwise.imp_of_mem ?_ hnodes
    intro m n hm hn hne q hqm hqn
    obtain ⟨d, hcm, hqm⟩ := (mem_chainsThrough hw hp hm).1 hqm
    obtain ⟨e, hcn, hqn⟩ := (mem_chainsThrough hw hp hn).1 hqn
    obtain ⟨r, hr⟩ := ((mem_chainsAt hw hcm q).1 hqm).2
    obtain ⟨s, hs⟩ := ((mem_chainsAt hw hcn q).1 hqn).2
    have happ := List.append_inj' (hr.trans hs.symm) rfl
    cases happ.2
    exact hne rfl

end PromptGraph.Flatten

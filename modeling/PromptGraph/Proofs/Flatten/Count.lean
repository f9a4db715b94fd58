/-
How many entries a conversion makes. There is one place for each chain of
instances and each ordinary node of the level at its end (`placements`).
Entries are found by flat id, so there are as many as there are different
flat ids among the places (`length_graph`): one for each place exactly if
flat ids tell places apart (`length_graph_eq_iff`), and fewer otherwise,
since the entry that is written later takes the place of the other
without a word.

Places of one chain never collide. Places of different chains do not if
ids are plain; an id with the character that ends an instance's beginning
can be that of a node elsewhere (`flat_ids_collide`).
-/
import PromptGraph.Proofs.Flatten.FlatId
import PromptGraph.Proofs.Flatten.Values

namespace PromptGraph.Flatten

open Editor
open Execution (Input Ref Entry Graph)

variable {ctx : Context} {root : Level}

-- ==== places

/-- The ordinary nodes of a level. -/
def ordinaryNodes (ctx : Context) (l : Level) : List Node :=
  l.nodes.filter fun n => Ordinary ctx n

/-- Every chain with every ordinary node of the level at its end. -/
def placements (ctx : Context) (root : Level) : List (List Frame × Node) :=
  (chains ctx root).flatMap fun p =>
    (ordinaryNodes ctx (levelAt root p)).map fun n => (p, n)

/-- The flat id of a place. -/
def flatIdOf (x : List Frame × Node) : String := flatId x.1 x.2.id

theorem mem_ordinaryNodes {l : Level} {n : Node} :
    n ∈ ordinaryNodes ctx l ↔ n ∈ l.nodes ∧ Ordinary ctx n := by
  unfold ordinaryNodes
  rw [List.mem_filter, decide_eq_true_eq]

variable {p : List Frame}

theorem mem_placements (hw : WellNamed ctx root) {n : Node} :
    (p, n) ∈ placements ctx root
      ↔ Chain ctx root p ∧ n ∈ (levelAt root p).nodes
        ∧ Ordinary ctx n := by
  unfold placements
  rw [List.mem_flatMap]
  constructor
  · rintro ⟨q, hq, hmem⟩
    obtain ⟨m, hm, heq⟩ := List.mem_map.1 hmem
    cases heq
    exact ⟨(mem_chains hw p).1 hq, mem_ordinaryNodes.1 hm⟩
  · rintro ⟨hp, hn⟩
    exact ⟨p, (mem_chains hw p).2 hp,
      List.mem_map_of_mem (mem_ordinaryNodes.2 hn)⟩

theorem UniqueIds.nodup_ordinaryNodes {l : Level} (h : UniqueIds l) :
    (ordinaryNodes ctx l).Nodup :=
  (List.Nodup.of_map _ h).filter _

/-- Every place is listed once. -/
theorem nodup_placements (hw : WellNamed ctx root) :
    (placements ctx root).Nodup := by
  unfold placements
  rw [List.nodup_flatMap]
  refine ⟨fun p hp => ?_, ?_⟩
  · have hu := ((mem_chains hw p).1 hp).uniqueIds hw
    refine hu.nodup_ordinaryNodes.map fun m n h => ?_
    exact congrArg Prod.snd h
  · rw [chains_eq]
    refine (nodup_chainsAt hw .nil).imp fun {p q} hne x hp hq => hne ?_
    obtain ⟨m, -, rfl⟩ := List.mem_map.1 hp
    obtain ⟨n, -, heq⟩ := List.mem_map.1 hq
    exact (congrArg Prod.fst heq).symm

-- ==== places of one chain

/-- Flat ids of one chain differ as the ids do. -/
theorem flatId_left_cancel {i j : Id} (h : flatId p i = flatId p j) :
    i = j := by
  have hlist := congrArg String.toList h
  unfold flatId at hlist
  rw [String.toList_append, String.toList_append] at hlist
  exact congrArg Id.mk
    (String.toList_injective (List.append_cancel_left hlist))

/-- Places of one chain never collide. -/
theorem placement_eq_of_flatId (hw : WellNamed ctx root)
    (hp : Chain ctx root p) {m n : Node} (hm : m ∈ (levelAt root p).nodes)
    (hn : n ∈ (levelAt root p).nodes) (h : flatId p m.id = flatId p n.id) :
    m = n :=
  (hp.uniqueIds hw).eq_of_id hm hn (flatId_left_cancel h)

-- ==== counting entries

variable {registry : Registry} {table : NodeTable} {source : String}
  {w : Workflow}

/-- There are as many entries as different flat ids. -/
theorem length_graph (hu : UniqueNodeIds w) :
    (convertWorkflow registry table source w).graph.length
      = ((placements (contextOf registry table w) w.root).map
          flatIdOf).dedup.length := by
  refine (ascending_graph registry table source w).length_eq fun key => ?_
  rw [contains_graph_iff hu, List.mem_map]
  constructor
  · rintro ⟨p, n, hp, hn, ho, rfl⟩
    exact ⟨(p, n), (mem_placements (hu.wellNamed registry table)).2
      ⟨hp, hn, ho⟩, rfl⟩
  · rintro ⟨⟨p, n⟩, hmem, rfl⟩
    obtain ⟨hp, hn, ho⟩ :=
      (mem_placements (hu.wellNamed registry table)).1 hmem
    exact ⟨p, n, hp, hn, ho, rfl⟩

/-- One entry for each place is the same as different flat ids for
different places. -/
theorem length_graph_eq_iff (hu : UniqueNodeIds w) :
    (convertWorkflow registry table source w).graph.length
        = (placements (contextOf registry table w) w.root).length
      ↔ ∀ x ∈ placements (contextOf registry table w) w.root,
          ∀ y ∈ placements (contextOf registry table w) w.root,
          flatIdOf x = flatIdOf y → x = y := by
  have hnodup : (placements (contextOf registry table w) w.root).Nodup :=
    nodup_placements (hu.wellNamed registry table)
  rw [length_graph hu, ← List.nodup_map_iff_inj_on hnodup,
    ← List.dedup_eq_self, ← List.length_map flatIdOf]
  constructor
  · intro hlen
    exact (List.dedup_sublist _).eq_of_length hlen
  · intro heq
    rw [heq]

/-- No more entries than places, however their ids are. -/
theorem length_graph_le (hu : UniqueNodeIds w) :
    (convertWorkflow registry table source w).graph.length
      ≤ (placements (contextOf registry table w) w.root).length := by
  rw [length_graph hu, ← List.length_map flatIdOf]
  exact (List.dedup_sublist _).length_le

-- ==== plain ids

/-- No node has an id that could be mistaken for the beginning of a flat
id. -/
def PlainNodeIds (w : Workflow) : Prop :=
  ∀ l ∈ levelsOf w, ∀ n ∈ l.nodes, Plain n.id

instance (w : Workflow) : Decidable (PlainNodeIds w) :=
  inferInstanceAs (Decidable (∀ l ∈ levelsOf w, ∀ n ∈ l.nodes, Plain n.id))

/-- With plain ids, different places have different flat ids. -/
theorem PlainNodeIds.flatIdOf_inj (hplain : PlainNodeIds w)
    (hu : UniqueNodeIds w) {x y : List Frame × Node}
    (hx : x ∈ placements (contextOf registry table w) w.root)
    (hy : y ∈ placements (contextOf registry table w) w.root)
    (h : flatIdOf x = flatIdOf y) : x = y := by
  obtain ⟨p, m⟩ := x
  obtain ⟨q, n⟩ := y
  have hw := hu.wellNamed registry table
  obtain ⟨hp, hm, -⟩ := (mem_placements hw).1 hx
  obtain ⟨hq, hn, -⟩ := (mem_placements hw).1 hy
  have hnodes : PlainNodes (contextOf registry table w) w.root :=
    fun r hr => hplain _ (levelAt_mem hr)
  obtain ⟨rfl, -⟩ := flatId_inj hw hnodes hp hq (hnodes p hp m hm)
    (hnodes q hq n hn) h
  rw [placement_eq_of_flatId hw hp hm hn h]

-- ==== no instance, or just one

/-- If the chains are these, the places are as many as ordinary nodes in
their levels. -/
theorem length_placements_of_chains (hw : WellNamed ctx root)
    {ps : List (List Frame)} (hps : ps.Nodup)
    (h : ∀ p, Chain ctx root p ↔ p ∈ ps) :
    (placements ctx root).length
      = (ps.flatMap fun p => ordinaryNodes ctx (levelAt root p)).length := by
  have hchains : (chains ctx root).Nodup := by
    rw [chains_eq]
    exact nodup_chainsAt hw .nil
  have hperm : (chains ctx root).Perm ps := by
    refine (List.perm_ext_iff_of_nodup hchains hps).2 fun p => ?_
    rw [mem_chains hw, h]
  unfold placements
  rw [(hperm.flatMap_right _).length_eq, List.length_flatMap,
    List.length_flatMap]
  simp only [List.length_map]

theorem chain_iff_of_no_instance (h : ∀ f, ¬ Chain ctx root [f])
    (p : List Frame) : Chain ctx root p ↔ p ∈ [[]] := by
  rw [List.mem_singleton]
  constructor
  · intro hp
    by_contra hne
    obtain ⟨f, hf⟩ := suffix_cons_of_ne List.nil_suffix (Ne.symm hne)
    exact h f (hp.of_suffix hf)
  · rintro rfl
    exact .nil

variable {f : Frame}

theorem chain_iff_of_one_instance (hf : Chain ctx root [f])
    (honly : ∀ g, Chain ctx root [g] → g = f)
    (hflat : ∀ g, ¬ Chain ctx root [g, f]) (p : List Frame) :
    Chain ctx root p ↔ p ∈ [[], [f]] := by
  rw [List.mem_cons, List.mem_singleton]
  constructor
  · intro hp
    by_contra hne
    rw [not_or] at hne
    obtain ⟨g, hg⟩ := suffix_cons_of_ne List.nil_suffix (Ne.symm hne.1)
    obtain rfl := honly g (hp.of_suffix hg)
    obtain ⟨g', hg'⟩ := suffix_cons_of_ne hg (Ne.symm hne.2)
    exact hflat g' (hp.of_suffix hg')
  · rintro (rfl | rfl)
    · exact .nil
    · exact hf

/-- With one instance, and none inside it, places collide exactly if a
node of the root has the flat id of a node inside. -/
theorem flatIdOf_inj_iff_of_one_instance (hw : WellNamed ctx root)
    (hchains : ∀ p, Chain ctx root p ↔ p ∈ [[], [f]]) :
    (∀ x ∈ placements ctx root, ∀ y ∈ placements ctx root,
        flatIdOf x = flatIdOf y → x = y)
      ↔ ∀ m ∈ ordinaryNodes ctx root,
          ∀ n ∈ ordinaryNodes ctx f.definition.level,
          flatId [] m.id ≠ flatId [f] n.id := by
  have hnil : Chain ctx root [] := .nil
  have hone : Chain ctx root [f] := (hchains _).2 (by simp)
  constructor
  · intro h m hm n hn heq
    have hm' := mem_ordinaryNodes.1 hm
    have hn' := mem_ordinaryNodes.1 hn
    have hpair := h ([], m) ((mem_placements hw).2 ⟨hnil, hm'⟩) ([f], n)
      ((mem_placements hw).2 ⟨hone, hn'⟩) heq
    cases hpair
  · rintro h ⟨p, m⟩ hx ⟨q, n⟩ hy heq
    obtain ⟨hp, hm, hmo⟩ := (mem_placements hw).1 hx
    obtain ⟨hq, hn, hno⟩ := (mem_placements hw).1 hy
    have hpq : p = q := by
      have hp' := (hchains p).1 hp
      have hq' := (hchains q).1 hq
      rw [List.mem_cons, List.mem_singleton] at hp' hq'
      rcases hp' with rfl | rfl
      · rcases hq' with rfl | rfl
        · rfl
        · exact absurd heq (h m (mem_ordinaryNodes.2 ⟨hm, hmo⟩) n
            (mem_ordinaryNodes.2 ⟨hn, hno⟩))
      · rcases hq' with rfl | rfl
        · exact absurd heq.symm (h n (mem_ordinaryNodes.2 ⟨hn, hno⟩) m
            (mem_ordinaryNodes.2 ⟨hm, hmo⟩))
        · rfl
    subst hpq
    rw [placement_eq_of_flatId hw hp hm hn heq]

theorem length_graph_of_no_instance (hu : UniqueNodeIds w)
    (hno : ∀ n ∈ w.root.nodes, ∀ d,
      ¬ InstanceOf (contextOf registry table w) n d) :
    (convertWorkflow registry table source w).graph.length
      = (ordinaryNodes (contextOf registry table w) w.root).length := by
  have hw := hu.wellNamed registry table
  have hchains : ∀ p, Chain (contextOf registry table w) w.root p
      ↔ p ∈ [[]] :=
    chain_iff_of_no_instance fun f hf => hno _ hf.head_mem _ hf.head_instance
  have hlen := length_placements_of_chains hw (List.nodup_singleton _)
    hchains
  rw [List.flatMap_singleton] at hlen
  refine ((length_graph_eq_iff hu).2 ?_).trans hlen
  rintro ⟨p, m⟩ hx ⟨q, n⟩ hy heq
  obtain ⟨hp, hm, -⟩ := (mem_placements hw).1 hx
  obtain ⟨hq, hn, -⟩ := (mem_placements hw).1 hy
  obtain rfl := List.mem_singleton.1 ((hchains p).1 hp)
  obtain rfl := List.mem_singleton.1 ((hchains q).1 hq)
  rw [placement_eq_of_flatId hw hp hm hn heq]

theorem length_graph_of_one_instance (hu : UniqueNodeIds w)
    (hf : Chain (contextOf registry table w) w.root [f])
    (honly : ∀ g, Chain (contextOf registry table w) w.root [g] → g = f)
    (hflat : ∀ g, ¬ Chain (contextOf registry table w) w.root [g, f]) :
    let ctx := contextOf registry table w
    let size := (convertWorkflow registry table source w).graph.length
    let both := (ordinaryNodes ctx w.root).length
      + (ordinaryNodes ctx f.definition.level).length
    size ≤ both
      ∧ (size = both
        ↔ ∀ m ∈ ordinaryNodes ctx w.root,
            ∀ n ∈ ordinaryNodes ctx f.definition.level,
            flatId [] m.id ≠ flatId [f] n.id) := by
  have hw := hu.wellNamed registry table
  have hchains := chain_iff_of_one_instance hf honly hflat
  have hlen := length_placements_of_chains hw
    (by simp : [[], [f]].Nodup) hchains
  have hboth : (placements (contextOf registry table w) w.root).length
      = (ordinaryNodes (contextOf registry table w) w.root).length
        + (ordinaryNodes (contextOf registry table w)
            f.definition.level).length := by
    rw [hlen]
    simp [levelAt]
  dsimp only
  rw [← hboth, ← flatIdOf_inj_iff_of_one_instance hw hchains]
  exact ⟨length_graph_le hu, length_graph_eq_iff hu⟩

-- ==== what is counted

variable (registry table source) in
/-- How many entries a workflow has. The places are the chains with the
ordinary nodes at their ends, and there are as many entries as different
flat ids among them. So every place has an entry of its own exactly if no
two places share a flat id. This is so if no id holds the character that
ends an instance's beginning. It is so without instances, where the
entries are as many as ordinary nodes in the root. With one instance and
none inside it, they are as many as ordinary nodes in the root and in the
definition exactly if no node of the former has the flat id of one of the
latter, and fewer otherwise. -/
theorem graph_length_counts_flat_ids (hu : UniqueNodeIds w) :
    let ctx := contextOf registry table w
    let places := placements ctx w.root
    let size := (convertWorkflow registry table source w).graph.length
    (places.Nodup
      ∧ ∀ p n, (p, n) ∈ places ↔ Chain ctx w.root p
          ∧ n ∈ (levelAt w.root p).nodes ∧ Ordinary ctx n)
    ∧ size = (places.map flatIdOf).dedup.length
    ∧ (size = places.length
        ↔ ∀ x ∈ places, ∀ y ∈ places, flatIdOf x = flatIdOf y → x = y)
    ∧ (PlainNodeIds w → size = places.length)
    ∧ ((∀ n ∈ w.root.nodes, ∀ d, ¬ InstanceOf ctx n d) →
        size = (ordinaryNodes ctx w.root).length)
    ∧ ∀ f, Chain ctx w.root [f] → (∀ g, Chain ctx w.root [g] → g = f) →
        (∀ g, ¬ Chain ctx w.root [g, f]) →
        let both := (ordinaryNodes ctx w.root).length
          + (ordinaryNodes ctx f.definition.level).length
        size ≤ both
          ∧ (size = both
            ↔ ∀ m ∈ ordinaryNodes ctx w.root,
                ∀ n ∈ ordinaryNodes ctx f.definition.level,
                flatId [] m.id ≠ flatId [f] n.id) := by
  have hw := hu.wellNamed registry table
  refine ⟨⟨nodup_placements hw, fun p n => mem_placements hw⟩,
    length_graph hu, length_graph_eq_iff hu, fun hplain => ?_, fun hno => ?_,
    fun f hf honly hflat => ?_⟩
  · refine (length_graph_eq_iff hu).2 fun x hx y hy h => ?_
    exact hplain.flatIdOf_inj hu hx hy h
  · exact length_graph_of_no_instance hu hno
  · exact length_graph_of_one_instance hu hf honly hflat

/-- Two instances of a definition that is recursive by way of another. -/
def twoNests : Workflow :=
  { nodes := [{ id := ⟨"1"⟩, type := "inner" },
      { id := ⟨"2"⟩, type := "inner" }, { id := ⟨"4"⟩, type := "Leaf" }],
    definitions := [nestOuter, nestInner] }

/-- The same node of the definition is there for each instance, beside a
node of the root with the same id. -/
theorem graph_length_counts_flat_ids_twoNests :
    UniqueNodeIds twoNests ∧ PlainNodeIds twoNests
      ∧ (convertWorkflow {} [("Leaf", default)] "" twoNests).graph.length
        = 3 := by
  have hu : UniqueNodeIds twoNests := by decide
  have hplain : PlainNodeIds twoNests := by decide
  have hall := graph_length_counts_flat_ids {} [("Leaf", default)] "" hu
  refine ⟨hu, hplain, (hall.2.2.2.1 hplain).trans ?_⟩
  decide +kernel

/-- Holds a node of a class of its own. -/
def oneInside : Definition :=
  { id := "D", nodeList := some [{ id := ⟨"2"⟩, type := "B" }] }

/-- A node of the root, with the flat id of a node inside an instance. -/
def collidingIds : Workflow :=
  { nodes := [{ id := ⟨"sg1_2"⟩, type := "A" }, { id := ⟨"1"⟩, type := "D" }],
    definitions := [oneInside] }

/-- Ids unique within each level are not enough: two places, of different
classes, and one entry. -/
theorem flat_ids_collide :
    UniqueNodeIds collidingIds
      ∧ (placements (contextOf {} [("A", default), ("B", default)]
          collidingIds) collidingIds.root).map
          (fun x => (flatIdOf x, x.2.type))
        = [("sg1_2", "A"), ("sg1_2", "B")]
      ∧ (convertWorkflow {} [("A", default), ("B", default)] ""
          collidingIds).graph.length = 1 := by
  have hu : UniqueNodeIds collidingIds := by decide
  refine ⟨hu, by decide +kernel, ?_⟩
  rw [length_graph hu]
  decide +kernel

end PromptGraph.Flatten

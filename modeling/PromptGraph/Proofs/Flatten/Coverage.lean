/-
Nothing is left out: every chain of instances leaves its ordinary nodes
as entries, its instances on record and their expansions reported
(`Covers`, `convertAt_covers`). What is there once stays there to the
end (`Grows`, `convertAt_grows`), so it is enough that each of these is
put there at some time.
-/
import PromptGraph.Proofs.Flatten.Run

namespace PromptGraph.Flatten

open Editor
open Execution (Input Ref Entry Graph)

variable {ctx : Context} {root : Level}

-- ==== nothing lost

/-- Entries, instances and reported expansions are still there. -/
structure Grows (b b' : Build) : Prop where
  entries : ∀ key, Assoc.contains b.entries key = true →
    Assoc.contains b'.entries key = true
  instances : ∀ key, Assoc.contains b.instances key = true →
    Assoc.contains b'.instances key = true
  expansions : b.expansions ⊆ b'.expansions

theorem Grows.refl (b : Build) : Grows b b :=
  ⟨fun _ h => h, fun _ h => h, fun _ h => h⟩

/-- A build grows on. -/
theorem Grows.trans {b c d : Build} (h : Grows b c) (k : Grows c d) :
    Grows b d :=
  ⟨fun key hb => k.entries key (h.entries key hb),
    fun key hb => k.instances key (h.instances key hb),
    fun _ hb => k.expansions (h.expansions hb)⟩

theorem OnlyReports.grows {b b' : Build} (h : OnlyReports b b') :
    Grows b b' := by
  refine ⟨?_, ?_, ?_⟩
  · rw [h.entries]
    exact fun _ hb => hb
  · rw [h.instances]
    exact fun _ hb => hb
  · rw [h.expansions]
    exact fun _ hb => hb

/-- A node makes it grow. -/
theorem convertNode_grows (s : Scope) (b : Build) (n : Node) :
    Grows b (convertNode ctx s b n) := by
  refine ⟨fun key hb => ?_, ?_, ?_⟩
  · rw [convertNode_entries, Assoc.contains_insert]
    exact Or.inr hb
  · rw [convertNode_instances]
    exact fun _ hb => hb
  · rw [convertNode_expansions]
    exact fun _ hb => hb

/-- The expansion of `f` has been reported. -/
def Expanded (b : Build) (p : List Frame) (f : Frame) : Prop :=
  ∃ entries outputs, expansionOf p f entries outputs ∈ b.expansions

/-- Expanding an instance adds its record and its report to what the
conversion of its inside leaves. -/
theorem convertInside_grows (p : List Frame) (x : Scope × Build)
    (f : Frame) :
    Grows (convertInside ctx root p x f).2 (enter ctx root p x f).2 := by
  obtain ⟨entries, outputs, hexp⟩ := enter_expansions p x f
  refine ⟨fun _ h => h, fun key h => ?_, ?_⟩
  · rw [enter_instances, Assoc.contains_insert]
    exact Or.inr h
  · rw [hexp]
    exact List.subset_append_left _ _

/-- An instance is recorded. -/
theorem enter_contains (p : List Frame) (x : Scope × Build) (f : Frame) :
    Assoc.contains (enter ctx root p x f).2.instances (flatId p f.node.id)
      = true := by
  rw [enter_instances, Assoc.contains_insert]
  exact Or.inl rfl

/-- Its expansion is told. -/
theorem enter_expanded (p : List Frame) (x : Scope × Build) (f : Frame) :
    Expanded (enter ctx root p x f).2 p f := by
  obtain ⟨entries, outputs, hexp⟩ := enter_expansions p x f
  refine ⟨entries, outputs, ?_⟩
  rw [hexp]
  exact List.mem_append_right _ (List.mem_singleton.2 rfl)

theorem convertNodes_grows (p : List Frame) (ports : Bindings) (b : Build) :
    Grows (expandAll ctx root p ports b).2
      (convertNodes ctx root p ports b) := by
  unfold convertNodes
  refine List.foldlRecOn
    (motive := Grows (expandAll ctx root p ports b).2) _ _
    (Grows.refl _) ?_
  intro c hc n _
  exact hc.trans (convertNode_grows _ c n)

variable {p : List Frame}

/-- A level makes the build grow. -/
theorem convertAt_grows (hw : WellNamed ctx root) (hp : Chain ctx root p)
    (ports : Bindings) (b : Build) :
    Grows b (convertAt ctx root p ports b).2 := by
  refine Chain.descend (motive := fun p => ∀ ports b,
    Grows b (convertAt ctx root p ports b).2) (fun p hp ih => ?_) hp ports b
  intro ports b
  have hloop : Grows b (expandAll ctx root p ports b).2 := by
    refine expandAll_keeps hw hp (motive := fun x => Grows b x.2)
      (openAt_onlyReports p ports b).grows fun x f hf hx => ?_
    have hports := (bindPorts_onlyReports x.1 f.node f.node.id
      f.definition x.2).grows
    exact ((hx.trans hports).trans (ih f hf _ _)).trans
      (convertInside_grows p x f)
  exact (hloop.trans (convertNodes_grows p ports b)).trans
    (convertAt_onlyReports p ports b).grows

theorem enter_grows (hw : WellNamed ctx root) {f : Frame}
    (hf : Chain ctx root (f :: p)) (x : Scope × Build) :
    Grows x.2 (enter ctx root p x f).2 :=
  ((bindPorts_onlyReports x.1 f.node f.node.id f.definition x.2).grows.trans
    (convertAt_grows hw hf _ _)).trans (convertInside_grows p x f)

-- ==== every chain is covered

/-- The chains from `p` on have left their ordinary nodes, their
instances and their reports. -/
structure Covers (ctx : Context) (root : Level) (p : List Frame)
    (b : Build) : Prop where
  entries : ∀ q n, Chain ctx root q → p <:+ q →
    n ∈ (levelAt root q).nodes → Ordinary ctx n →
    Assoc.contains b.entries (flatId q n.id) = true
  instances : ∀ q f, Chain ctx root (f :: q) → p <:+ q →
    Assoc.contains b.instances (flatId q f.node.id) = true
      ∧ Expanded b q f

/-- What is covered stays so. -/
theorem Covers.grows {b b' : Build} (h : Covers ctx root p b) (g : Grows b b') :
    Covers ctx root p b' := by
  refine ⟨fun q n hq hsuf hn ho => ?_, fun q f hf hsuf => ?_⟩
  · exact g.entries _ (h.entries q n hq hsuf hn ho)
  · obtain ⟨hmem, entries, outputs, hev⟩ := h.instances q f hf hsuf
    exact ⟨g.instances _ hmem, entries, outputs, g.expansions hev⟩

/-- After the loop over instances, each of them is recorded and all
chains through it are covered. -/
theorem expandAll_covers (hw : WellNamed ctx root)
    (ih : ∀ f, Chain ctx root (f :: p) → ∀ ports b,
      Covers ctx root (f :: p) (convertAt ctx root (f :: p) ports b).2)
    (ports : Bindings) (b : Build) {f : Frame} (hf : Chain ctx root (f :: p)) :
    Covers ctx root (f :: p) (expandAll ctx root p ports b).2
      ∧ Assoc.contains (expandAll ctx root p ports b).2.instances
          (flatId p f.node.id) = true
      ∧ Expanded (expandAll ctx root p ports b).2 p f := by
  refine expandAll_reaches hw hf (motive := fun x =>
    Covers ctx root (f :: p) x.2
      ∧ Assoc.contains x.2.instances (flatId p f.node.id) = true
      ∧ Expanded x.2 p f) (fun x => ?_) fun x g hg hx => ?_
  · exact ⟨(ih f hf _ _).grows (convertInside_grows p x f),
      enter_contains p x f, enter_expanded p x f⟩
  · have hgrows := enter_grows hw hg x
    obtain ⟨hcov, hmem, entries, outputs, hev⟩ := hx
    exact ⟨hcov.grows hgrows, hgrows.instances _ hmem, entries, outputs,
      hgrows.expansions hev⟩

/-- The ordinary nodes of the level itself become entries. -/
theorem convertNodes_contains (ports : Bindings) (b : Build) {n : Node}
    (hn : n ∈ (levelAt root p).nodes) (ho : Ordinary ctx n)
    (hpath : (expandAll ctx root p ports b).1.path = pathText p) :
    Assoc.contains (convertNodes ctx root p ports b).entries
      (flatId p n.id) = true := by
  have hmem : n ∈ (planAt ctx root p b).1.ordinary :=
    mem_plan_ordinary.2 ⟨hn, ho⟩
  obtain ⟨before, after, hcut⟩ := List.append_of_mem hmem
  unfold convertNodes
  dsimp only
  rw [hcut, List.foldl_append, List.foldl_cons]
  refine List.foldlRecOn (motive := fun c : Build =>
    Assoc.contains c.entries (flatId p n.id) = true) _ _ ?_ ?_
  · rw [convertNode_entries, Assoc.contains_insert, hpath]
    exact Or.inl rfl
  · intro c hc m _
    exact (convertNode_grows _ c m).entries _ hc

/-- Every chain from `p` on is covered by converting at `p`. -/
theorem convertAt_covers (hw : WellNamed ctx root) (hp : Chain ctx root p)
    (ports : Bindings) (b : Build) :
    Covers ctx root p (convertAt ctx root p ports b).2 := by
  refine Chain.descend (motive := fun p => ∀ ports b,
    Covers ctx root p (convertAt ctx root p ports b).2)
    (fun p hp ih => ?_) hp ports b
  intro ports b
  have hlast : Grows (convertNodes ctx root p ports b)
      (convertAt ctx root p ports b).2 :=
    (convertAt_onlyReports p ports b).grows
  have hrest := (convertNodes_grows p ports b).trans hlast
  refine ⟨fun q n hq hsuf hn ho => ?_, fun q f hf hsuf => ?_⟩
  · by_cases hpq : p = q
    · subst hpq
      refine hlast.entries _ (convertNodes_contains ports b hn ho ?_)
      exact expandAll_path hw hp ports b
    · obtain ⟨f, hf⟩ := suffix_cons_of_ne hsuf hpq
      have hcov := expandAll_covers hw ih ports b (hq.of_suffix hf)
      exact (hcov.1.grows hrest).entries q n hq hf hn ho
  · by_cases hpq : p = q
    · subst hpq
      obtain ⟨-, hmem, entries, outputs, hev⟩ :=
        expandAll_covers hw ih ports b hf
      exact ⟨hrest.instances _ hmem, entries, outputs,
        hrest.expansions hev⟩
    · obtain ⟨g, hg⟩ := suffix_cons_of_ne hsuf hpq
      have hcov := expandAll_covers hw ih ports b (hf.tail.of_suffix hg)
      exact (hcov.1.grows hrest).instances q f hf hg

end PromptGraph.Flatten

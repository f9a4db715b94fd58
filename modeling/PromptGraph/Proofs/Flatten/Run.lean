/-
A level's conversion put together from its steps, and read along a
chain of instances.

`convertLevel` passes on the definitions it may still expand, its depth,
the level and the beginning of its ids. Along a chain `p` all four are
read off `p` (`convertAt`), and expanding an instance `f` of the level is
converting at `f :: p` (`enter`). The loop over instances then has two
rules:

- what the expansion of each instance keeps still holds after the loop
  (`expandAll_keeps`);
- what the expansion of one instance brings about, and that of the
  others keeps, holds after the loop (`expandAll_reaches`): no instance
  is left out.

With `Chain.descend` for the recursion, a fact about whole conversions
needs one case for each step and no look into the definitions.
-/
import PromptGraph.Proofs.Flatten.Level

namespace PromptGraph.Flatten

open Editor
open Execution (Input Ref Entry Graph)

variable {ctx : Context} {root : Level}

-- ==== the loop over instances

/-- One round of the loop over a level's instances. -/
def expandSite (ctx : Context) (available : List Definition) (depth : Nat)
    (level : Level) (path : String) (pl : Plan available)
    (x : Scope × Build) (id : Id) : Scope × Build :=
  match pl.sites.find? (·.id = id) with
  | none => x
  | some site =>
    let d := site.definition
    let bound := bindPorts x.1 ((level.node? id).getD {}) id d x.2
    let inner := convertLevel ctx (without available d) (depth + 1) d.level
      (instancePath path id) bound.1 (some d) bound.2
    let b : Build := { inner.2 with
      instances := Assoc.insert inner.2.instances (path ++ id.text) inner.1 }
    ({ x.1 with expanded := x.1.expanded ++ [(id, inner.1)] },
      b.emit (.expanded (path ++ id.text) d.id d.name (depth + 1)
        (b.entries.length - bound.2.entries.length) inner.1.length))

/-- The instances of a level, in the order in which they are expanded. -/
def expansionOrder (level : Level) {available : List Definition}
    (pl : Plan available) : List Id × List Id :=
  instanceOrder level (pl.sites.map (·.id))

/-- A level as it is seen before any of its instances is expanded. -/
def openScope (level : Level) (path : String) (ports : Bindings)
    {available : List Definition} (pl : Plan available) : Scope :=
  { level, path, ports, isSite := pl.isSite }

/-- Conversion of a level, by steps. -/
theorem convertLevel_eq (available : List Definition) (depth : Nat)
    (level : Level) (path : String) (ports : Bindings)
    (inside : Option Definition) (b : Build) :
    convertLevel ctx available depth level path ports inside b
      = let pl := plan ctx available path level.nodes b
        let order := expansionOrder level pl.1
        let x := order.1.foldl
          (expandSite ctx available depth level path pl.1)
          (openScope level path ports pl.1,
            pl.2.warn (cycleWarning path order.2))
        let b := pl.1.ordinary.foldl (convertNode ctx x.1) x.2
        match inside with
        | some d => outputBindings x.1 d b
        | none => ([], b) := by
  rw [convertLevel]
  rfl

/-- Every instance is expanded, in whatever order. -/
theorem mem_instanceOrder {level : Level} {ids : List Id} {id : Id}
    (h : id ∈ ids) : id ∈ (instanceOrder level ids).1 := by
  unfold instanceOrder
  dsimp only
  rw [List.mem_append]
  by_cases hplaced : id ∈ (countdown (wiresAmong level ids) ids).run
      (wiresAmong level ids) ids.length []
  · exact Or.inl hplaced
  · refine Or.inr (List.mem_filter.2 ⟨h, ?_⟩)
    rw [Bool.not_eq_true', List.contains_eq_mem, decide_eq_false_iff_not]
    exact hplaced

-- ==== along a chain

/-- The sorted nodes of the level at the end of a chain. -/
def planAt (ctx : Context) (root : Level) (p : List Frame) (b : Build) :
    Plan (remaining ctx p) × Build :=
  plan ctx (remaining ctx p) (pathText p) (levelAt root p).nodes b

/-- Conversion of the level at the end of a chain. -/
def convertAt (ctx : Context) (root : Level) (p : List Frame)
    (ports : Bindings) (b : Build) : Bindings × Build :=
  convertLevel ctx (remaining ctx p) p.length (levelAt root p) (pathText p)
    ports (p.head?.map Frame.definition) b

/-- Conversion of the inside of the instance `f` of the level at the end
of `p`, its ports bound. -/
def convertInside (ctx : Context) (root : Level) (p : List Frame)
    (x : Scope × Build) (f : Frame) : Bindings × Build :=
  let bound := bindPorts x.1 f.node f.node.id f.definition x.2
  convertAt ctx root (f :: p) bound.1 bound.2

/-- The report of the expansion of `f`. -/
def expansionOf (p : List Frame) (f : Frame) (entries outputs : Nat) :
    Event :=
  .expanded (flatId p f.node.id) f.definition.id f.definition.name
    (p.length + 1) entries outputs

/-- Expanding the instance `f` of the level at the end of `p`. -/
def enter (ctx : Context) (root : Level) (p : List Frame)
    (x : Scope × Build) (f : Frame) : Scope × Build :=
  let inner := convertInside ctx root p x f
  let before := (bindPorts x.1 f.node f.node.id f.definition x.2).2
  let b : Build := { inner.2 with
    instances :=
      Assoc.insert inner.2.instances (flatId p f.node.id) inner.1 }
  ({ x.1 with expanded := x.1.expanded ++ [(f.node.id, inner.1)] },
    b.emit (expansionOf p f (b.entries.length - before.entries.length)
      inner.1.length))

theorem enter_instances (p : List Frame) (x : Scope × Build) (f : Frame) :
    (enter ctx root p x f).2.instances
      = Assoc.insert (convertInside ctx root p x f).2.instances
          (flatId p f.node.id) (convertInside ctx root p x f).1 := rfl

theorem enter_expansions (p : List Frame) (x : Scope × Build) (f : Frame) :
    ∃ entries outputs, (enter ctx root p x f).2.expansions
      = (convertInside ctx root p x f).2.expansions
          ++ [expansionOf p f entries outputs] :=
  ⟨_, _, List.filter_append _ _⟩

/-- The level at the end of a chain and the build under way before any
instance is expanded. -/
def openAt (ctx : Context) (root : Level) (p : List Frame)
    (ports : Bindings) (b : Build) : Scope × Build :=
  let pl := planAt ctx root p b
  (openScope (levelAt root p) (pathText p) ports pl.1,
    pl.2.warn (cycleWarning (pathText p)
      (expansionOrder (levelAt root p) pl.1).2))

/-- The same after all of them are. -/
def expandAll (ctx : Context) (root : Level) (p : List Frame)
    (ports : Bindings) (b : Build) : Scope × Build :=
  let pl := (planAt ctx root p b).1
  (expansionOrder (levelAt root p) pl).1.foldl
    (expandSite ctx (remaining ctx p) p.length (levelAt root p)
      (pathText p) pl)
    (openAt ctx root p ports b)

/-- The build under way after the ordinary nodes too. -/
def convertNodes (ctx : Context) (root : Level) (p : List Frame)
    (ports : Bindings) (b : Build) : Build :=
  let x := expandAll ctx root p ports b
  (planAt ctx root p b).1.ordinary.foldl (convertNode ctx x.1) x.2

theorem convertAt_nil (ports : Bindings) (b : Build) :
    convertAt ctx root [] ports b
      = ([], convertNodes ctx root [] ports b) := by
  unfold convertAt
  rw [convertLevel_eq]
  rfl

theorem convertAt_cons (f : Frame) (p : List Frame) (ports : Bindings)
    (b : Build) :
    convertAt ctx root (f :: p) ports b
      = outputBindings (expandAll ctx root (f :: p) ports b).1 f.definition
          (convertNodes ctx root (f :: p) ports b) := by
  unfold convertAt
  rw [convertLevel_eq]
  rfl

/-- Binding the output ports adds nothing but reports. -/
theorem convertAt_onlyReports (p : List Frame) (ports : Bindings)
    (b : Build) :
    OnlyReports (convertNodes ctx root p ports b)
      (convertAt ctx root p ports b).2 := by
  cases p with
  | nil =>
      rw [convertAt_nil]
      exact ⟨rfl, rfl, rfl⟩
  | cons f p =>
      rw [convertAt_cons]
      exact outputBindings_onlyReports _ _ _

/-- Nothing but reports is added before the first expansion. -/
theorem openAt_onlyReports (p : List Frame) (ports : Bindings) (b : Build) :
    OnlyReports b (openAt ctx root p ports b).2 :=
  (plan_onlyReports _ _ b).trans (onlyReports_warn _ _)

-- ==== the loop's rules

theorem UniqueIds.node? {l : Level} (h : UniqueIds l) {n : Node}
    (hn : n ∈ l.nodes) : l.node? n.id = some n := by
  unfold Level.node?
  cases hfind : l.nodes.reverse.find? (·.id = n.id) with
  | none =>
      have hno := List.find?_eq_none.1 hfind n (List.mem_reverse.2 hn)
      exact absurd (decide_eq_true rfl) hno
  | some m =>
      have hm := List.mem_reverse.1 (List.mem_of_find?_eq_some hfind)
      have hid : m.id = n.id := by simpa using List.find?_some hfind
      rw [h.eq_of_id hm hn hid]

variable {p : List Frame} {f : Frame}

/-- A round that finds an instance of the chain's level expands it. -/
theorem expandSite_eq_enter (hw : WellNamed ctx root)
    (hf : Chain ctx root (f :: p)) (b : Build) (x : Scope × Build) :
    expandSite ctx (remaining ctx p) p.length (levelAt root p) (pathText p)
        (planAt ctx root p b).1 x f.node.id
      = enter ctx root p x f := by
  obtain ⟨mem, hr⟩ := (role_occurrence_iff hw hf.tail hf.head_mem).2 hf
  have hu := hf.tail.uniqueIds hw
  have hfind : (planAt ctx root p b).1.sites.find? (·.id = f.node.id)
      = some ⟨f.node.id, f.definition, mem⟩ :=
    plan_find? hu b hf.head_mem hr
  unfold expandSite
  rw [hfind]
  dsimp only
  rw [hu.node? hf.head_mem, without_remaining]
  rfl

/-- A round does nothing or expands an instance of the chain's level. -/
theorem expandSite_cases (hw : WellNamed ctx root) (hp : Chain ctx root p)
    (b : Build) (x : Scope × Build) (id : Id) :
    expandSite ctx (remaining ctx p) p.length (levelAt root p) (pathText p)
        (planAt ctx root p b).1 x id = x
      ∨ ∃ f, Chain ctx root (f :: p)
          ∧ expandSite ctx (remaining ctx p) p.length (levelAt root p)
              (pathText p) (planAt ctx root p b).1 x id
            = enter ctx root p x f := by
  cases hfind : (planAt ctx root p b).1.sites.find? (·.id = id) with
  | none =>
      refine Or.inl ?_
      unfold expandSite
      rw [hfind]
  | some s =>
      have hid : s.id = id := by simpa using List.find?_some hfind
      obtain ⟨n, hn, hns, hr⟩ := mem_plan_sites
        (List.mem_of_find?_eq_some hfind)
      have hc := (role_occurrence_iff hw hp hn).1 ⟨s.mem, hr⟩
      refine Or.inr ⟨⟨n, s.definition⟩, hc, ?_⟩
      rw [← hid, ← hns]
      exact expandSite_eq_enter hw hc b x

/-- What the expansion of each instance keeps holds after all of them. -/
theorem expandAll_keeps (hw : WellNamed ctx root) (hp : Chain ctx root p)
    {ports : Bindings} {b : Build} {motive : Scope × Build → Prop}
    (start : motive (openAt ctx root p ports b))
    (keep : ∀ x f, Chain ctx root (f :: p) → motive x →
      motive (enter ctx root p x f)) :
    motive (expandAll ctx root p ports b) := by
  refine List.foldlRecOn _ _ start fun x hx id _ => ?_
  rcases expandSite_cases hw hp b x id with h | ⟨f, hf, h⟩
  · rw [h]
    exact hx
  · rw [h]
    exact keep x f hf hx

theorem expandAll_path (hw : WellNamed ctx root) (hp : Chain ctx root p)
    (ports : Bindings) (b : Build) :
    (expandAll ctx root p ports b).1.path = pathText p :=
  expandAll_keeps hw hp (motive := fun x => x.1.path = pathText p) rfl
    fun _ _ _ hx => hx

/-- The instance of a chain's level is one of those to be expanded. -/
theorem mem_expansionOrder (hw : WellNamed ctx root)
    (hf : Chain ctx root (f :: p)) (b : Build) :
    f.node.id
      ∈ (expansionOrder (levelAt root p) (planAt ctx root p b).1).1 := by
  obtain ⟨mem, hr⟩ := (role_occurrence_iff hw hf.tail hf.head_mem).2 hf
  refine mem_instanceOrder (List.mem_map.2 ?_)
  exact ⟨_, List.mem_of_find?_eq_some
    (plan_find? (hf.tail.uniqueIds hw) b hf.head_mem hr), rfl⟩

/-- What the expansion of one instance brings about, and that of the
others keeps, holds after all of them. -/
theorem expandAll_reaches (hw : WellNamed ctx root)
    (hf : Chain ctx root (f :: p)) {ports : Bindings} {b : Build}
    {motive : Scope × Build → Prop}
    (reach : ∀ x, motive (enter ctx root p x f))
    (keep : ∀ x g, Chain ctx root (g :: p) → motive x →
      motive (enter ctx root p x g)) :
    motive (expandAll ctx root p ports b) := by
  -- cut the order at the instance: the rounds before it do not matter
  obtain ⟨before, after, hcut⟩ :=
    List.append_of_mem (mem_expansionOrder hw hf b)
  unfold expandAll
  dsimp only
  rw [hcut, List.foldl_append, List.foldl_cons,
    expandSite_eq_enter hw hf b]
  refine List.foldlRecOn _ _ (reach _) fun x hx id _ => ?_
  rcases expandSite_cases hw hf.tail b x id with h | ⟨g, hg, h⟩
  · rw [h]
    exact hx
  · rw [h]
    exact keep x g hg hx

end PromptGraph.Flatten

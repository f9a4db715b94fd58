/-
The steps of converting a level, one by one: sorting the nodes by role,
binding the ports of an instance, converting an ordinary node, binding
the output ports. Each step gets lemmas that say what it yields and what
it does to the build under way; `Run.lean` puts the steps together, and
no later file opens the definitions again.

Most steps only report: they leave the entries, the instances and the
record of expansions alone (`OnlyReports`).
-/
import PromptGraph.Proofs.Assoc
import PromptGraph.Proofs.Flatten.Chain

namespace PromptGraph.Flatten

open Editor
open Execution (Input Ref Entry Graph)

variable {ctx : Context} {root : Level}

-- ==== notes on the side

theorem Build.warn_nil (b : Build) : b.warn [] = b := by
  unfold Build.warn
  rw [List.append_nil]

theorem Build.warn_warn (b : Build) (ds es : List Diagnostic) :
    (b.warn ds).warn es = b.warn (ds ++ es) := by
  unfold Build.warn
  rw [List.append_assoc]

/-- A loop that collects values and complains on the side: the values
come out in order, and the build under way gets the complaints and
nothing else. -/
theorem foldl_collect {α β : Type}
    {f : List β × Build → α → List β × Build} {value : α → Option β}
    {notes : α → List Diagnostic}
    (hf : ∀ x a, f x a = (x.1 ++ (value a).toList, x.2.warn (notes a)))
    (l : List α) (x : List β × Build) :
    l.foldl f x = (x.1 ++ l.filterMap value, x.2.warn (l.flatMap notes)) := by
  induction l generalizing x with
  | nil =>
      rw [List.foldl_nil, List.filterMap_nil, List.append_nil,
        List.flatMap_nil, Build.warn_nil]
  | cons a l ih =>
      rw [List.foldl_cons, ih, hf, List.flatMap_cons]
      refine Prod.ext ?_ (Build.warn_warn _ _ _)
      show x.1 ++ (value a).toList ++ l.filterMap value = _
      rw [List.append_assoc]
      congr 1
      cases hv : value a with
      | none => rw [List.filterMap_cons_none hv]; rfl
      | some v => rw [List.filterMap_cons_some hv]; rfl

-- ==== sorting nodes by role

variable {available : List Definition}

/-- A site is found under its id. -/
theorem Plan.find?_putSite (s : Site available) (l : List (Site available))
    (id : Id) :
    (Plan.putSite s l).find? (·.id = id)
      = if s.id = id then some s else l.find? (·.id = id) := by
  induction l with
  | nil =>
      unfold Plan.putSite
      rw [List.find?_cons]
      split
      · next h => rw [if_pos (of_decide_eq_true h)]
      · next h => rw [if_neg (of_decide_eq_false h)]
  | cons t rest ih =>
      unfold Plan.putSite
      split
      · next hts =>
        rw [List.find?_cons, List.find?_cons, hts]
        split
        · next h => rw [if_pos (of_decide_eq_true h)]
        · next h => rw [if_neg (of_decide_eq_false h)]
      · next hts =>
        rw [List.find?_cons, List.find?_cons, ih]
        split
        · next h =>
          rw [if_neg]
          rintro rfl
          exact hts (of_decide_eq_true h)
        · rfl

/-- The sites are this one and those before. -/
theorem Plan.mem_putSite {s t : Site available} {l : List (Site available)}
    (h : t ∈ Plan.putSite s l) :
    t = s ∨ t ∈ l := by
  induction l with
  | nil => exact Or.inl (List.mem_singleton.1 h)
  | cons u rest ih =>
      unfold Plan.putSite at h
      split at h
      · exact (List.mem_cons.1 h).imp_right (List.mem_cons_of_mem _)
      · rcases List.mem_cons.1 h with rfl | h
        · exact Or.inr List.mem_cons_self
        · exact (ih h).imp_right (List.mem_cons_of_mem _)

variable {path : String}

/-- The plan's ordinary nodes are the ordinary ones among the nodes. -/
theorem foldl_planNode_ordinary (l : List Node) (x : Plan available × Build) :
    (l.foldl (planNode ctx available path) x).1.ordinary
      = x.1.ordinary ++ l.filter fun n => Ordinary ctx n := by
  induction l generalizing x with
  | nil => exact (List.append_nil _).symm
  | cons n l ih =>
      rw [List.foldl_cons, ih, List.filter_cons]
      have hiff : role ctx available n = .ordinary ↔ Ordinary ctx n :=
        role_ordinary_iff
      unfold planNode
      cases hr : role ctx available n with
      | dropped reason =>
          rw [if_neg]
          rw [decide_eq_true_eq, ← hiff, hr]
          intro h
          cases h
      | occurrence d mem =>
          rw [if_neg]
          rw [decide_eq_true_eq, ← hiff, hr]
          intro h
          cases h
      | ordinary =>
          rw [if_pos (by rw [decide_eq_true_eq, ← hiff, hr])]
          exact List.append_assoc _ _ _

variable {l : List Node}

/-- Every site of the plan comes from a node that is to be expanded. -/
theorem foldl_planNode_sound {x : Plan available × Build} {s : Site available}
    (h : s ∈ (l.foldl (planNode ctx available path) x).1.sites) :
    s ∈ x.1.sites ∨ ∃ n ∈ l, n.id = s.id
      ∧ role ctx available n = .occurrence s.definition s.mem := by
  induction l generalizing x with
  | nil => exact Or.inl h
  | cons n l ih =>
      rw [List.foldl_cons] at h
      rcases ih h with h | ⟨m, hm, hid, hrole⟩
      · unfold planNode at h
        cases hr : role ctx available n with
        | dropped reason => rw [hr] at h; exact Or.inl h
        | ordinary => rw [hr] at h; exact Or.inl h
        | occurrence d mem =>
            rw [hr] at h
            rcases Plan.mem_putSite h with rfl | h
            · exact Or.inr ⟨n, List.mem_cons_self, rfl, hr⟩
            · exact Or.inl h
      · exact Or.inr ⟨m, List.mem_cons_of_mem _ hm, hid, hrole⟩

/-- Nodes with other ids do not touch the site of an id. -/
theorem foldl_planNode_other {id : Id} (h : ∀ n ∈ l, n.id ≠ id)
    (x : Plan available × Build) :
    (l.foldl (planNode ctx available path) x).1.sites.find? (·.id = id)
      = x.1.sites.find? (·.id = id) := by
  induction l generalizing x with
  | nil => rfl
  | cons n l ih =>
      rw [List.foldl_cons, ih fun m hm => h m (List.mem_cons_of_mem _ hm)]
      unfold planNode
      cases role ctx available n with
      | dropped reason => rfl
      | ordinary => rfl
      | occurrence d mem =>
          show (Plan.putSite _ x.1.sites).find? _ = _
          rw [Plan.find?_putSite, if_neg (h n List.mem_cons_self)]

variable {n : Node}

/-- A node that is to be expanded is found in the plan under its id. -/
theorem foldl_planNode_find? (hl : (l.map (·.id)).Nodup) (hn : n ∈ l)
    {d : Definition} {mem : d ∈ available}
    (hr : role ctx available n = .occurrence d mem)
    (x : Plan available × Build) :
    (l.foldl (planNode ctx available path) x).1.sites.find? (·.id = n.id)
      = some ⟨n.id, d, mem⟩ := by
  induction l generalizing x with
  | nil => cases hn
  | cons m l ih =>
      rw [List.map_cons, List.nodup_cons] at hl
      rw [List.foldl_cons]
      rcases List.mem_cons.1 hn with rfl | hn
      · rw [foldl_planNode_other]
        · unfold planNode
          rw [hr]
          show (Plan.putSite _ x.1.sites).find? _ = _
          rw [Plan.find?_putSite, if_pos rfl]
        · intro k hk hid
          exact hl.1 (List.mem_map.2 ⟨k, hk, hid⟩)
      · exact ih hl.2 hn _

variable {nodes : List Node}

/-- Sorting keeps the nodes. -/
theorem mem_sortNodes :
    n ∈ sortNodes nodes ↔ n ∈ nodes :=
  (List.mergeSort_perm nodes _).mem_iff

/-- The ordinary nodes of a plan. -/
theorem mem_plan_ordinary {b : Build} :
    n ∈ (plan ctx available path nodes b).1.ordinary
      ↔ n ∈ nodes ∧ Ordinary ctx n := by
  unfold plan
  rw [foldl_planNode_ordinary, List.nil_append, List.mem_filter,
    mem_sortNodes, decide_eq_true_eq]

/-- Its sites are instances of the level. -/
theorem mem_plan_sites {b : Build} {s : Site available}
    (h : s ∈ (plan ctx available path nodes b).1.sites) :
    ∃ n ∈ nodes, n.id = s.id
      ∧ role ctx available n = .occurrence s.definition s.mem := by
  rcases foldl_planNode_sound h with h | ⟨n, hn, hrest⟩
  · cases h
  · exact ⟨n, mem_sortNodes.1 hn, hrest⟩

/-- An instance has its site. -/
theorem plan_find? (hnodes : (nodes.map (·.id)).Nodup) (b : Build)
    (hn : n ∈ nodes) {d : Definition} {mem : d ∈ available}
    (hr : role ctx available n = .occurrence d mem) :
    (plan ctx available path nodes b).1.sites.find? (·.id = n.id)
      = some ⟨n.id, d, mem⟩ := by
  refine foldl_planNode_find? ?_ (mem_sortNodes.2 hn) hr _
  exact ((List.mergeSort_perm nodes _).map _).nodup_iff.2 hnodes

-- ==== what sorting adds to the build

/-- The event tells of an expanded instance. -/
def Event.isExpansion : Event → Bool
  | .expanded .. => true
  | _ => false

/-- The instances expanded so far, as they were reported. -/
def Build.expansions (b : Build) : List Event :=
  b.events.filter Event.isExpansion

/-- Nothing but diagnostics and the report of dropped nodes is added. -/
structure OnlyReports (b b' : Build) : Prop where
  entries : b'.entries = b.entries
  instances : b'.instances = b.instances
  expansions : b'.expansions = b.expansions

theorem onlyReports_warn (b : Build) (ds : List Diagnostic) :
    OnlyReports b (b.warn ds) := ⟨rfl, rfl, rfl⟩

/-- Reports one after the other are reports. -/
theorem OnlyReports.trans {b c d : Build} (h : OnlyReports b c)
    (k : OnlyReports c d) : OnlyReports b d :=
  ⟨k.entries.trans h.entries, k.instances.trans h.instances,
    k.expansions.trans h.expansions⟩

/-- Planning a node only reports. -/
theorem planNode_onlyReports (path : String) (x : Plan available × Build)
    (n : Node) :
    OnlyReports x.2 (planNode ctx available path x n).2 := by
  unfold planNode
  cases role ctx available n with
  | ordinary => exact ⟨rfl, rfl, rfl⟩
  | occurrence d mem => exact ⟨rfl, rfl, rfl⟩
  | dropped reason =>
      refine ⟨rfl, rfl, ?_⟩
      show List.filter _ (x.2.events ++ [_]) = List.filter _ x.2.events
      rw [List.filter_append]
      exact List.append_nil _

/-- So does planning a level. -/
theorem plan_onlyReports (path : String) (nodes : List Node) (b : Build) :
    OnlyReports b (plan ctx available path nodes b).2 := by
  unfold plan
  refine List.foldlRecOn
    (motive := fun x : Plan available × Build => OnlyReports b x.2) _ _
    ⟨rfl, rfl, rfl⟩ ?_
  intro x hx n _
  exact hx.trans (planNode_onlyReports path x n)

-- ==== what links carry

/-- What is found in bindings is one of them. -/
theorem Bindings.mem_of_get? {b : Bindings} {slot : Int} {v : Input}
    (h : b.get? slot = some v) : ∃ e ∈ b, e.2 = v := by
  obtain ⟨e, hfind, rfl⟩ := Option.map_eq_some_iff.1 h
  exact ⟨e, List.mem_of_find?_eq_some hfind, rfl⟩

/-- No link starts at an output port. -/
theorem origin_ne_outputPort (l : Level) (k : Link) (slot : Int) :
    l.origin k ≠ .outputPort slot := by
  unfold Level.origin
  split
  · split
    · intro h
      cases h
    · intro h
      cases h
  · intro h
    cases h

/-- What is resolved for a link from a node: an output of an expanded
instance, or the name of the node. -/
theorem resolve_node {s : Scope} {k : Link} {id : Id} {slot : Int}
    (h : s.level.origin k = .node id slot) (consumer : String) :
    (s.resolve k consumer).1 = some (.ref ⟨s.path ++ id.text, slot⟩)
      ∨ ∃ e ∈ s.expanded, e.1 = id
          ∧ (s.resolve k consumer).1 = e.2.get? slot := by
  unfold Scope.resolve
  rw [h]
  dsimp only
  split
  · next outputs houtputs =>
    refine Or.inr ?_
    split at houtputs
    · obtain ⟨e, hfind, rfl⟩ := Option.map_eq_some_iff.1 houtputs
      refine ⟨e, List.mem_of_find?_eq_some hfind, ?_, ?_⟩
      · simpa using List.find?_some hfind
      · cases e.2.get? slot with
        | none => rfl
        | some v => rfl
    · cases houtputs
  · exact Or.inl rfl

-- ==== ports of an instance

/-- The ports that are bound, and those that are not. -/
theorem bindPorts_eq (s : Scope) (n : Node) (id : Id) (d : Definition)
    (b : Build) :
    bindPorts s n id d b
      = ((List.range d.inputs.length).filterMap fun slot =>
          (portValue s n id slot).1.map fun v => ((slot : Int), v),
        b.warn ((List.range d.inputs.length).flatMap fun slot =>
          (portValue s n id slot).2)) := by
  refine foldl_collect (fun x slot => ?_) _ _
  cases portValue s n id slot with
  | mk v ds =>
      cases v with
      | none => exact Prod.ext (List.append_nil _).symm rfl
      | some v => rfl

/-- The outputs that are bound, and those that are not. -/
theorem outputBindings_eq (s : Scope) (d : Definition) (b : Build) :
    outputBindings s d b
      = ((chooseOutputs s.level s.path d).1.filterMap fun c =>
          (s.resolve c.2 (outputsPath s.path c.1)).1.map fun v => (c.1, v),
        (b.warn (chooseOutputs s.level s.path d).2).warn
          ((chooseOutputs s.level s.path d).1.flatMap fun c =>
            (s.resolve c.2 (outputsPath s.path c.1)).2)) := by
  refine foldl_collect (fun x c => ?_) _ _
  obtain ⟨slot, k⟩ := c
  dsimp only
  cases s.resolve k (outputsPath s.path slot) with
  | mk v ds =>
      cases v with
      | none => exact Prod.ext (List.append_nil _).symm rfl
      | some v => rfl

/-- Binding ports only reports. -/
theorem bindPorts_onlyReports (s : Scope) (n : Node) (id : Id)
    (d : Definition) (b : Build) :
    OnlyReports b (bindPorts s n id d b).2 := by
  rw [bindPorts_eq]
  exact onlyReports_warn b _

/-- So does binding outputs. -/
theorem outputBindings_onlyReports (s : Scope) (d : Definition) (b : Build) :
    OnlyReports b (outputBindings s d b).2 := by
  rw [outputBindings_eq]
  exact (onlyReports_warn b _).trans (onlyReports_warn _ _)

-- ==== ordinary nodes

/-- The inputs that the type of a node declares. -/
def declaredInputs (ctx : Context) (n : Node) : List InputType :=
  ((Assoc.get? ctx.table n.type).map (·.inputs)).getD []

/-- The connections of a node, by input name. -/
def wiresOf (s : Scope) (n : Node) : List (String × Input) :=
  n.inputs.foldl
    (fun wires i =>
      match i.wire?.bind s.level.link? with
      | none => wires
      | some k =>
        match (s.resolve k (s.path ++ n.id.text)).1 with
        | some v => putWire i.name v wires
        | none => wires)
    []

/-- The entry that a node becomes. -/
def entryOf (ctx : Context) (s : Scope) (n : Node) : Entry where
  classType := n.type
  inputs := some (fillInputs (s.path ++ n.id.text) (declaredInputs ctx n)
    n.widgets (wiresOf s n)).1
  title := if n.title = "" then none else some n.title

/-- Resolving the connections of a node yields them and reports. -/
theorem nodeWires_spec (s : Scope) (n : Node) (b : Build) :
    (nodeWires s n b).1 = wiresOf s n
      ∧ OnlyReports b (nodeWires s n b).2 := by
  unfold nodeWires wiresOf
  generalize ([] : List (String × Input)) = wires
  induction n.inputs generalizing wires b with
  | nil => exact ⟨rfl, rfl, rfl, rfl⟩
  | cons i l ih =>
      rw [List.foldl_cons, List.foldl_cons]
      cases hk : i.wire?.bind s.level.link? with
      | none =>
          dsimp only
          exact ih b wires
      | some k =>
          dsimp only
          cases s.resolve k (s.path ++ n.id.text) with
          | mk v ds =>
              have hrec := ih (b.warn ds)
              cases v with
              | none =>
                  exact ⟨(hrec wires).1,
                    (onlyReports_warn b ds).trans (hrec wires).2⟩
              | some v =>
                  exact ⟨(hrec _).1,
                    (onlyReports_warn b ds).trans (hrec _).2⟩

/-- Converting a node writes its entry and reports. -/
theorem convertNode_entries (s : Scope) (b : Build) (n : Node) :
    (convertNode ctx s b n).entries
      = Assoc.insert b.entries (s.path ++ n.id.text) (entryOf ctx s n) := by
  obtain ⟨hwires, hb⟩ := nodeWires_spec s n b
  unfold entryOf
  rw [← hwires, ← hb.entries]
  rfl

theorem convertNode_instances (s : Scope) (b : Build) (n : Node) :
    (convertNode ctx s b n).instances = b.instances :=
  (nodeWires_spec s n b).2.instances

theorem convertNode_expansions (s : Scope) (b : Build) (n : Node) :
    (convertNode ctx s b n).expansions = b.expansions :=
  (nodeWires_spec s n b).2.expansions

end PromptGraph.Flatten

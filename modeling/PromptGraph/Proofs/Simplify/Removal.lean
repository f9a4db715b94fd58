/-
Taking something out of a level before it is simplified.

A pass that takes plumbing out looks at the plumbing nodes, at the links
that their slots name, and for every other link at that link alone. So
it does not matter whether other nodes and links are taken out before
the pass or after it (`thin_resolveVirtualWires`,
`thin_collapsePassThrough`). A primitive that sends nothing might as
well not be there (`inlinePrimitives_thin`).

Main statement: `simplifyLevel_less`, for a level less one link whose
value is inlined, and perhaps less the primitive that it comes from.
-/
import PromptGraph.Proofs.Simplify.Consistency
import PromptGraph.Proofs.Simplify.Inlining

namespace PromptGraph.Simplify

open Editor
open Flatten (Place valueAt? SameBut)

-- ==== absent lists

section Full

variable (r : Registry) (p : Passes) (w : Wiring)

/-- Whether the links are absent or an empty list makes no difference to
the nodes and links that a pass leaves. -/
theorem resolveVirtualWires_full :
    (resolveVirtualWires r w.full).1 = (resolveVirtualWires r w).1.full := by
  unfold resolveVirtualWires
  show (if (virtualWires r w).setters.isEmpty && (virtualWires r w).getters.isEmpty
    then _ else _ : Wiring × Stats).1 = _
  dsimp only
  split
  · rfl
  · rfl

/-- The pass does the same to a full list of links. -/
theorem collapsePassThrough_full (o : PassThrough) :
    (collapsePassThrough r o w.full).1 = (collapsePassThrough r o w).1.full := by
  unfold collapsePassThrough
  show (if (collapsedIds r o w).isEmpty then _ else _ : Wiring × Stats).1
    = (if (collapsedIds r o w).isEmpty then _ else _ : Wiring × Stats).1.full
  split
  · rfl
  · rfl

theorem inlinePrimitives_full :
    (inlinePrimitives r w.full).1 = (inlinePrimitives r w).1.full := by
  unfold inlinePrimitives
  show (if (primitiveValues r w.nodes).isEmpty then _ else _ : Wiring × Stats).1
    = (if (primitiveValues r w.nodes).isEmpty then _ else _ : Wiring × Stats).1.full
  split
  · rfl
  · rfl

/-- The pass, wanted or not, does the same. -/
theorem withoutPassThrough_full :
    withoutPassThrough r p w.full = (withoutPassThrough r p w).full := by
  have hfirst : withoutVirtualWires r p w.full = (withoutVirtualWires r p w).full := by
    unfold withoutVirtualWires onlyIf
    split
    · exact resolveVirtualWires_full r w
    · rfl
  unfold withoutPassThrough onlyIf
  rw [hfirst]
  split
  · exact collapsePassThrough_full r _ _
  · rfl

theorem withoutPrimitives_full :
    withoutPrimitives r p w.full = (withoutPrimitives r p w).full := by
  unfold withoutPrimitives onlyIf
  rw [withoutPassThrough_full]
  split
  · exact inlinePrimitives_full r _
  · rfl

end Full

-- ==== thinning

/-- Only these nodes and these links, by their ids. -/
def thin (P Q : Id → Bool) (w : Wiring) : Wiring :=
  ⟨w.nodes.filter fun n => P n.id, some (w.links.filter fun k => Q k.id)⟩

/-- The plumbing nodes stay and so do the links that their slots name. -/
def Spares (plumbing P Q : Id → Bool) (w : Wiring) : Prop :=
  ∀ n ∈ w.nodes, plumbing n.id = true →
    P n.id = true ∧ ∀ i ∈ n.inputs, ∀ l, i.wire? = some l → Q l = true

section
variable {P Q : Id → Bool}

/-- Thinning keeps the links that are spared. -/
theorem links_thin (w : Wiring) :
    (thin P Q w).links = w.links.filter fun k => Q k.id := rfl

/-- A link that is spared is found. -/
theorem linkById?_filter {id : Id} (h : Q id = true) (links : List Link) :
    linkById? (links.filter fun k => Q k.id) id = linkById? links id := by
  unfold linkById?
  rw [← List.filter_reverse, List.find?_filter]
  congr 1
  funext k
  by_cases hk : k.id = id
  · simp [hk, h]
  · simp [hk]

/-- So is the source of a slot. -/
theorem feedOf?_filter {i : NodeInput}
    (h : ∀ l, i.wire? = some l → Q l = true) (links : List Link) :
    feedOf? (links.filter fun k => Q k.id) i = feedOf? links i := by
  unfold feedOf?
  cases hi : i.wire? with
  | none => rfl
  | some l =>
      rw [Option.bind_some, Option.bind_some, linkById?_filter (h l hi)]

/-- Links that keep their ids are taken out before or after. -/
theorem filterMap_filter {f : Link → Option Link}
    (hf : ∀ k k', f k = some k' → k'.id = k.id) (links : List Link) :
    (links.filter fun k => Q k.id).filterMap f
      = (links.filterMap f).filter fun k => Q k.id := by
  induction links with
  | nil => rfl
  | cons k links ih =>
      by_cases hk : Q k.id = true
      · rw [List.filter_cons_of_pos (by simpa using hk)]
        cases hfk : f k with
        | none => rw [List.filterMap_cons_none hfk, List.filterMap_cons_none hfk, ih]
        | some k' =>
            rw [List.filterMap_cons_some hfk, List.filterMap_cons_some hfk, ih,
              List.filter_cons_of_pos (by rw [hf k k' hfk]; simpa using hk)]
      · rw [List.filter_cons_of_neg (by simpa using hk), ih]
        cases hfk : f k with
        | none => rw [List.filterMap_cons_none hfk]
        | some k' =>
            rw [List.filterMap_cons_some hfk,
              List.filter_cons_of_neg (by rw [hf k k' hfk]; simpa using hk)]

/-- Nodes that are spared are found in what is left. -/
theorem filter_filter_of_imp {α : Type} {p q : α → Bool} {l : List α}
    (h : ∀ a ∈ l, q a = true → p a = true) :
    (l.filter p).filter q = l.filter q := by
  rw [List.filter_filter]
  refine List.filter_congr fun a ha => ?_
  cases hq : q a with
  | false => rfl
  | true => rw [h a ha hq]; rfl

end

-- ==== virtual wires

section
variable (r : Registry) {P Q : Id → Bool} {w : Wiring}

/-- The set and get nodes and what they publish are all still there. -/
theorem virtualWires_thin
    (h : Spares (virtualWires r w).isVirtual P Q w) :
    virtualWires r (thin P Q w) = virtualWires r w := by
  have hset : ∀ n ∈ w.nodes, isSetter r n = true → P n.id = true := by
    intro n hn hkind
    exact (h n hn ((isVirtual_iff r w).2 ⟨n, hn, .inl hkind, rfl⟩)).1
  have hget : ∀ n ∈ w.nodes, isGetter r n = true → P n.id = true := by
    intro n hn hkind
    exact (h n hn ((isVirtual_iff r w).2 ⟨n, hn, .inr hkind, rfl⟩)).1
  have hvirtual : ∀ n ∈ w.nodes,
      ((w.nodes.filter (isSetter r)).map (·.id)).contains n.id = true →
      (virtualWires r w).isVirtual n.id = true := by
    intro n _ hmem
    obtain ⟨m, hm, hid⟩ := List.mem_map.1 (List.contains_iff_mem.1 hmem)
    obtain ⟨hm, hkind⟩ := List.mem_filter.1 hm
    exact (isVirtual_iff r w).2 ⟨m, hm, .inl hkind, hid⟩
  have hids : (((w.nodes.filter fun n => P n.id).filter (isSetter r)).map
      (·.id)) = (w.nodes.filter (isSetter r)).map (·.id) := by
    rw [filter_filter_of_imp hset]
  have hsetters : (w.nodes.filter fun n => P n.id).filter
        (fun n => ((w.nodes.filter (isSetter r)).map (·.id)).contains n.id)
      = w.nodes.filter fun n =>
          ((w.nodes.filter (isSetter r)).map (·.id)).contains n.id :=
    filter_filter_of_imp fun n hn hmem => (h n hn (hvirtual n hn hmem)).1
  have hfeed : ∀ n ∈ w.nodes.filter (fun n =>
        ((w.nodes.filter (isSetter r)).map (·.id)).contains n.id),
      setterFeed? (w.links.filter fun k => Q k.id) n
        = setterFeed? w.links n := by
    intro n hn
    obtain ⟨hn, hmem⟩ := List.mem_filter.1 hn
    unfold setterFeed?
    have hslots := (h n hn (hvirtual n hn hmem)).2
    generalize n.inputs = l at hslots ⊢
    induction l with
    | nil => rfl
    | cons i l ih =>
        rw [List.findSome?_cons, List.findSome?_cons,
          feedOf?_filter (hslots i List.mem_cons_self),
          ih fun j hj => hslots j (List.mem_cons_of_mem i hj)]
  unfold virtualWires
  rw [links_thin]
  unfold thin
  dsimp only
  rw [hids, hsetters, filter_filter_of_imp hget]
  congr 1
  · exact List.map_congr_left fun n hn => by rw [hfeed n hn]
  · exact List.filterMap_congr fun n hn => by rw [hfeed n hn]

/-- Thinning before the pass or after it is one. -/
theorem thin_resolveVirtualWires
    (h : Spares (virtualWires r w).isVirtual P Q w) :
    (resolveVirtualWires r (thin P Q w)).1
      = thin P Q (resolveVirtualWires r w).1 := by
  obtain ⟨hnodes, hlinks, -⟩ := resolveVirtualWires_eq r w
  obtain ⟨hnodes', hlinks', -⟩ := resolveVirtualWires_eq r (thin P Q w)
  refine (resolveVirtualWires_full r (thin P Q w)).trans ?_
  rw [Wiring.full, hnodes', hlinks', virtualWires_thin r h, links_thin]
  unfold thin
  dsimp only
  rw [hnodes, hlinks, List.filter_filter, List.filter_filter, List.map_filterMap,
    List.map_filterMap, filterMap_filter]
  · congr 1
    refine List.filter_congr fun n _ => ?_
    exact Bool.and_comm _ _
  · intro k k' hk
    obtain ⟨x, hx, rfl⟩ := Option.map_eq_some_iff.1 hk
    exact (Prod.mk.inj (ending_direct? hx)).1

end

-- ==== pass-through

section
variable (r : Registry) (o : PassThrough) {P Q : Id → Bool} {w : Wiring}

/-- The feeds of a node are those it had. -/
theorem typedFeeds_filter {inputs : List NodeInput}
    (h : ∀ i ∈ inputs, ∀ l, i.wire? = some l → Q l = true)
    (links : List Link) :
    typedFeeds (links.filter fun k => Q k.id) inputs
      = typedFeeds links inputs := by
  induction inputs with
  | nil => rfl
  | cons i inputs ih =>
      unfold typedFeeds
      rw [feedOf?_filter (h i List.mem_cons_self),
        ih fun j hj => h j (List.mem_cons_of_mem i hj)]

/-- Thinning before the pass or after it is one. -/
theorem thin_collapsePassThrough
    (h : Spares (collapsedIds r o w).contains P Q w) :
    (collapsePassThrough r o (thin P Q w)).1
      = thin P Q (collapsePassThrough r o w).1 := by
  have hcollapses : ∀ n ∈ w.nodes, (verdict r o n).collapses = true →
      P n.id = true := by
    intro n hn hkind
    refine (h n hn (List.contains_iff_mem.2 ?_)).1
    exact List.mem_map.2 ⟨n, List.mem_filter.2 ⟨hn, hkind⟩, rfl⟩
  have hids : collapsedIds r o (thin P Q w) = collapsedIds r o w := by
    unfold collapsedIds thin
    dsimp only
    rw [filter_filter_of_imp hcollapses]
  have hfeeds : collapsedFeeds r o (thin P Q w) = collapsedFeeds r o w := by
    unfold collapsedFeeds
    rw [hids, links_thin]
    unfold thin
    dsimp only
    rw [filter_filter_of_imp fun n hn hmem => (h n hn hmem).1]
    refine List.flatMap_congr fun n hn => ?_
    obtain ⟨hn, hmem⟩ := List.mem_filter.1 hn
    unfold feedsOf
    rw [typedFeeds_filter (h n hn hmem).2]
  have hreenable : ∀ n : Node, (reenable r o n).id = n.id := by
    intro n
    have hkept : NodeKept (fun _ => False) n (reenable r o n) :=
      reenable_kept r o n
    exact hkept.id
  obtain ⟨hnodes, hlinks, -⟩ := collapsePassThrough_eq r o w
  obtain ⟨hnodes', hlinks', -⟩ := collapsePassThrough_eq r o (thin P Q w)
  refine (collapsePassThrough_full r (thin P Q w) o).trans ?_
  rw [Wiring.full, hnodes', hlinks', hids, hfeeds, links_thin]
  unfold thin
  dsimp only
  rw [hnodes, hlinks, filterMap_filter fun k k' hk =>
    (Prod.mk.inj (ending_collapseLink? hk)).1]
  congr 1
  unfold dropNodes
  rw [List.filter_filter, List.filter_map, List.filter_filter, List.filter_map]
  congr 1
  refine List.filter_congr fun n _ => ?_
  simp only [Function.comp_apply, hreenable]
  exact Bool.and_comm _ _

end

-- ==== both passes

section
variable (r : Registry) (p : Passes) {w : Wiring}

/-- An id that a node has after both passes is no plumbing id in the
first, -/
theorem not_virtual {n : Node} (hn : n ∈ (withoutVirtualWires r p w).nodes)
    (hwanted : p.virtualWires = true) :
    (virtualWires r w).isVirtual n.id = false := by
  unfold withoutVirtualWires onlyIf at hn
  rw [if_pos hwanted, (resolveVirtualWires_eq r w).1] at hn
  simpa using (List.mem_filter.1 hn).2

/-- and none in the second. -/
theorem not_collapsed {n : Node} (hn : n ∈ (withoutPassThrough r p w).nodes)
    (hwanted : (p.bypassed || p.reroutes) = true) :
    (collapsedIds r ⟨p.bypassed, p.reroutes⟩
      (withoutVirtualWires r p w)).contains n.id = false := by
  unfold withoutPassThrough onlyIf at hn
  rw [if_pos hwanted, (collapsePassThrough_eq r _ _).1] at hn
  simpa using (List.mem_filter.1 hn).2

/-- Ids that are left, and so no plumbing. -/
def Survives (w : Wiring) (id : Id) : Prop :=
  ∃ n ∈ (withoutPassThrough r p w).nodes, n.id = id

/-- What survives was there before. -/
theorem Survives.exists_before {id : Id} (h : Survives r p w id) :
    ∃ n ∈ (withoutVirtualWires r p w).nodes, n.id = id := by
  obtain ⟨n', hn', hid⟩ := h
  obtain ⟨n, hn, hkept, -⟩ :=
    @mem_withoutPassThrough r p w (fun _ => False) n' hn'
  exact ⟨n, hn, hkept.id.symm.trans hid⟩

/-- Both passes commute with taking out what is no plumbing. -/
theorem thin_withoutPassThrough {P Q : Id → Bool}
    (hP : ∀ id, P id = false → Survives r p w id)
    (hQ : ∀ n ∈ w.nodes, ∀ i ∈ n.inputs, ∀ l, i.wire? = some l →
      Q l = false → Survives r p w n.id) :
    withoutPassThrough r p (thin P Q w)
      = thin P Q (withoutPassThrough r p w) := by
  -- what survives both passes is plumbing for neither
  have hspares : ∀ (plumbing : Id → Bool) (v : Wiring),
      (∀ n ∈ v.nodes, n ∈ w.nodes) →
      (∀ id, Survives r p w id → plumbing id = false) →
      Spares plumbing P Q v := by
    intro plumbing v hv hplumbing n hn hmine
    constructor
    · by_contra hno
      rw [Bool.not_eq_true] at hno
      rw [hplumbing _ (hP _ hno)] at hmine
      cases hmine
    · intro i hi l hl
      by_contra hno
      rw [Bool.not_eq_true] at hno
      rw [hplumbing _ (hQ n (hv n hn) i hi l hl hno)] at hmine
      cases hmine
  have hfirst : withoutVirtualWires r p (thin P Q w)
      = thin P Q (withoutVirtualWires r p w) := by
    unfold withoutVirtualWires onlyIf
    split
    · next hwanted =>
      refine thin_resolveVirtualWires r (hspares _ w (fun _ hn => hn) ?_)
      intro id hid
      obtain ⟨n, hn, rfl⟩ := hid.exists_before
      exact not_virtual r p hn hwanted
    · rfl
  unfold withoutPassThrough
  rw [hfirst]
  unfold onlyIf
  split
  · next hwanted =>
    refine thin_collapsePassThrough r _ (hspares _ _ ?_ ?_)
    · exact fun n hn => (mem_withoutVirtualWires r p hn).1
    · rintro id ⟨n, hn, rfl⟩
      exact not_collapsed r p hn hwanted
  · rfl

end

-- ==== primitives that send nothing

variable {id : Id}

/-- Without the node nothing is written. -/
theorem writeLast_of_none {l : List Node} (f : Node → Node × Bool)
    (h : ∀ n ∈ l, n.id ≠ id) : (writeLast id f l).1 = l := by
  induction l with
  | nil => rfl
  | cons n l ih =>
      unfold writeLast
      rw [if_neg (by simp [h n List.mem_cons_self])]
      dsimp only
      rw [ih fun m hm => h m (List.mem_cons_of_mem n hm)]

/-- Writing into what is left of the nodes. -/
theorem writeLast_filter {P : Id → Bool} {f : Node → Node × Bool}
    (hf : ∀ n, (f n).1.id = n.id) (id : Id) (l : List Node) :
    (writeLast id f (l.filter fun n => P n.id)).1
      = (writeLast id f l).1.filter fun n => P n.id := by
  induction l with
  | nil => rfl
  | cons n l ih =>
      by_cases hn : P n.id = true
      · rw [List.filter_cons_of_pos (by simpa using hn)]
        unfold writeLast
        by_cases hid : n.id = id
        · have hany : (l.filter fun m => P m.id).any (·.id = id)
              = l.any (·.id = id) := by
            rw [Bool.eq_iff_iff, List.any_eq_true, List.any_eq_true]
            constructor
            · rintro ⟨m, hm, hmid⟩
              exact ⟨m, List.mem_of_mem_filter hm, hmid⟩
            · rintro ⟨m, hm, hmid⟩
              refine ⟨m, List.mem_filter.2 ⟨hm, ?_⟩, hmid⟩
              rw [of_decide_eq_true hmid, ← hid]
              exact hn
          rw [hany]
          split
          · rw [List.filter_cons_of_pos (by rw [hf]; simpa using hn)]
          · rw [List.filter_cons_of_pos (by simpa using hn), ← ih]
        · rw [if_neg (by simp [hid]), if_neg (by simp [hid]),
            List.filter_cons_of_pos (by simpa using hn), ← ih]
      · rw [List.filter_cons_of_neg (by simpa using hn)]
        conv_rhs => unfold writeLast
        split
        · next hlast =>
          rw [Bool.and_eq_true, decide_eq_true_iff] at hlast
          rw [List.filter_cons_of_neg (by rw [hf]; simpa using hn)]
          refine writeLast_of_none f fun m hm hmid => hn ?_
          rw [hlast.1, ← hmid]
          simpa using (List.mem_filter.1 hm).2
        · rw [List.filter_cons_of_neg (by simpa using hn), ih]

section
variable {P : Id → Bool} {values values' : List (Id × Json)}

/-- The loop on what is left of the nodes, if the values sent are the
same. -/
theorem sendAll_filter {links : List Link}
    (hvalues : ∀ k ∈ links, valueOf? values' k.origin = valueOf? values k.origin)
    (nodes : List Node) :
    sendAll values' (nodes.filter fun n => P n.id) links
      = (sendAll values nodes links).filter fun n => P n.id := by
  induction links generalizing nodes with
  | nil => rfl
  | cons k links ih =>
      have hstep : sendStep values' (nodes.filter fun n => P n.id) k
          = (sendStep values nodes k).filter fun n => P n.id := by
        unfold sendStep
        rw [hvalues k List.mem_cons_self]
        cases valueOf? values k.origin with
        | none => rfl
        | some v =>
            exact writeLast_filter (fun n => writeWidget_id n k.id v) _ _
      show sendAll values' (sendStep values' _ k) links = _
      rw [hstep, ih fun j hj => hvalues j (List.mem_cons_of_mem k hj)]
      rfl

end

/-- The values of the primitives that are left. -/
theorem valueOf?_filter (r : Registry) (P : Id → Bool) (nodes : List Node)
    (h : P id = true) :
    valueOf? (primitiveValues r (nodes.filter fun n => P n.id)) id
      = valueOf? (primitiveValues r nodes) id := by
  have hvalues : primitiveValues r (nodes.filter fun n => P n.id)
      = (primitiveValues r nodes).filter fun x => P x.1 := by
    unfold primitiveValues
    rw [List.filter_map, List.filter_filter, List.filter_filter]
    congr 1
    exact List.filter_congr fun n _ => Bool.and_comm _ _
  unfold valueOf?
  rw [hvalues, ← List.filter_reverse, List.find?_filter]
  congr 2
  funext x
  by_cases hx : x.1 = id
  · simp [hx, h]
  · simp [hx]

/-- The ids of the primitives. -/
theorem mem_primitiveIds (r : Registry) {nodes : List Node} :
    id ∈ (primitiveValues r nodes).map Prod.fst
      ↔ ∃ n ∈ nodes, r.inCategory n.type Category.inlinePrimitive = true
          ∧ n.id = id := by
  simp [primitiveValues, and_assoc]

/-- What is dropped as a primitive is dropped as one of the nodes that are
there, or was left out before. -/
theorem dropNodes_primitives (r : Registry) {P : Id → Bool} {nodes : List Node}
    (hP : ∀ id, P id = false → ∃ n ∈ nodes, n.id = id
      ∧ r.inCategory n.type Category.inlinePrimitive = true) (ns : List Node) :
    dropNodes ((primitiveValues r (nodes.filter fun n => P n.id)).map Prod.fst)
        (ns.filter fun n => P n.id)
      = dropNodes ((primitiveValues r nodes).map Prod.fst) ns := by
  have hids : ∀ id, id ∈ (primitiveValues r nodes).map Prod.fst
      ↔ P id = false
        ∨ id ∈ (primitiveValues r (nodes.filter fun n => P n.id)).map Prod.fst := by
    intro id
    rw [mem_primitiveIds, mem_primitiveIds]
    constructor
    · rintro ⟨m, hm, hkind, hid⟩
      by_cases hPid : P id = true
      · refine .inr ⟨m, List.mem_filter.2 ⟨hm, ?_⟩, hkind, hid⟩
        rw [hid]
        exact hPid
      · exact .inl (by simpa using hPid)
    · rintro (hPid | ⟨m, hm, hkind, hid⟩)
      · obtain ⟨m, hm, hid, hkind⟩ := hP id hPid
        exact ⟨m, hm, hkind, hid⟩
      · exact ⟨m, List.mem_of_mem_filter hm, hkind, hid⟩
  unfold dropNodes
  rw [List.filter_filter]
  refine List.filter_congr fun n _ => ?_
  rw [Bool.eq_iff_iff]
  simp only [Bool.and_eq_true, Bool.not_eq_true', List.contains_eq_mem,
    decide_eq_false_iff_not, hids n.id, not_or, Bool.not_eq_false]
  exact and_comm

/-- Primitives over whose ids no value is sent might as well not be
there. -/
theorem inlinePrimitives_thin (r : Registry) {P : Id → Bool} {w : Wiring}
    (hP : ∀ id, P id = false → ∃ n ∈ w.nodes, n.id = id
      ∧ r.inCategory n.type Category.inlinePrimitive = true)
    (hlinks : ∀ k ∈ w.links, P k.origin = true) :
    (inlinePrimitives r ⟨w.nodes.filter fun n => P n.id, some w.links⟩).1
      = (inlinePrimitives r w.full).1 := by
  have hvalues : ∀ k ∈ w.links,
      valueOf? (primitiveValues r (w.nodes.filter fun n => P n.id)) k.origin
        = valueOf? (primitiveValues r w.nodes) k.origin :=
    fun k hk => valueOf?_filter r P w.nodes (hlinks k hk)
  obtain ⟨hnodes, hkept, -⟩ := inlinePrimitives_eq r w
  obtain ⟨hnodes', hkept', -⟩ :=
    inlinePrimitives_eq r ⟨w.nodes.filter fun n => P n.id, some w.links⟩
  refine (inlinePrimitives_full r ⟨_, some w.links⟩).trans ?_
  rw [inlinePrimitives_full, Wiring.full, Wiring.full, hnodes, hkept, hnodes', hkept',
    writeValues_spec, writeValues_spec]
  show Wiring.mk (dropNodes _ (sendAll _ _ w.links)) (some (w.links.filter _)) = _
  rw [sendAll_filter hvalues, dropNodes_primitives r hP,
    List.filter_congr fun k hk => by rw [hvalues k hk]]

-- ==== a level less one link

/-- The same node, but for the value at one place. -/
structure Reset (p : Place) (n n₀ : Node) : Prop where
  rest : n = { n₀ with widgets := n.widgets }
  widgets : SameBut p n.widgets n₀.widgets

/-- The same node, or one with this id that has been reset. -/
def SameOrReset (id : Id) (p : Place) (n n₀ : Node) : Prop :=
  n = n₀ ∨ n₀.id = id ∧ Reset p n n₀

/-- Once the link is gone, what is left of its being on the slot is
cleared, and only the value differs. -/
theorem Twin.pruneNode {link : Id} {name : String} {p : Place} {n n₀ : Node}
    (h : Twin link name p n n₀) {valid : Id → Bool}
    (hvalid : valid link = false) :
    Reset p (pruneNode valid n) (pruneNode valid n₀) := by
  have hslots : n.inputs.map (pruneInput valid)
      = n₀.inputs.map (pruneInput valid) := by
    have hall := h.slots
    generalize n.inputs = l, n₀.inputs = l₀ at hall ⊢
    induction hall with
    | nil => rfl
    | cons hi _ ih =>
        rw [List.map_cons, List.map_cons, ih]
        rcases hi with rfl | ⟨-, hwire, rfl⟩
        · rfl
        · simp [pruneInput, hwire, hvalid, wire?_unlinked]
  refine ⟨?_, h.widgets⟩
  unfold Simplify.pruneNode
  rw [hslots, h.rest]

/-- The last node is found in changed nodes as well. -/
theorem lastNode?_map {f : Node → Node} (hf : ∀ n, (f n).id = n.id)
    (l : List Node) (id : Id) :
    lastNode? (l.map f) id = (lastNode? l id).map f := by
  unfold lastNode?
  rw [← List.map_reverse, List.find?_map]
  congr 2
  funext n
  simp [hf]

/-- It is found among those that are left. -/
theorem lastNode?_filter {P : Id → Bool} (l : List Node) (id : Id) :
    lastNode? (l.filter fun n => P n.id) id
      = if P id then lastNode? l id else none := by
  unfold lastNode?
  rw [← List.filter_reverse, List.find?_filter]
  split
  · next hP =>
    congr 1
    funext n
    by_cases hn : n.id = id
    · simp [hn, hP]
    · simp [hn]
  · next hP =>
    refine List.find?_eq_none.2 fun n _ => ?_
    by_cases hn : n.id = id
    · simp [hn, hP]
    · simp [hn]

/-- A dropped node is not found. -/
theorem lastNode?_dropNodes (ids : List Id) (l : List Node) (id : Id) :
    lastNode? (dropNodes ids l) id
      = if ids.contains id then none else lastNode? l id := by
  unfold dropNodes
  rw [@lastNode?_filter fun id => !ids.contains id]
  cases ids.contains id with
  | true => rfl
  | false => rfl

theorem pruneNode_id (valid : Id → Bool) (n : Node) :
    (pruneNode valid n).id = n.id := rfl

theorem slotKey_pruneInput (valid : Id → Bool) (i : NodeInput) :
    slotKey (pruneInput valid i) = slotKey i := by
  unfold pruneInput
  split
  · split
    · rfl
    · rfl
  · rfl

/-- Pruning leaves the slots. -/
theorem slotKey_pruneNode (valid : Id → Bool) (n : Node) :
    (pruneNode valid n).inputs.map slotKey = n.inputs.map slotKey := by
  show (n.inputs.map (pruneInput valid)).map slotKey = _
  rw [List.map_map]
  exact List.map_congr_left fun i _ => slotKey_pruneInput valid i

section
variable {r : Registry} {p : Passes} {w : Wiring}

/-- The level as it is when primitives are inlined, and what is inlined
there. -/
def inlinedIn (r : Registry) (p : Passes) (w : Wiring) : List Inlining :=
  if p.primitives then
    inlinings (primitiveValues r (withoutPassThrough r p w).nodes)
      (withoutPassThrough r p w).nodes (withoutPassThrough r p w).links
  else []

/-- The nodes that are left in the end. -/
theorem simplifyLevel_nodes (hwanted : p.primitives = true) :
    (simplifyLevel r p w).1.nodes
      = (dropNodes ((primitiveValues r (withoutPassThrough r p w).nodes).map
            Prod.fst)
          (sendAll (primitiveValues r (withoutPassThrough r p w).nodes)
            (withoutPassThrough r p w).nodes
            (withoutPassThrough r p w).links)).map
          (pruneNode fun id => (simplifyLevel r p w).1.links.any
            (·.id = id)) := by
  have hnodes := (inlinePrimitives_eq r (withoutPassThrough r p w)).1
  rw [writeValues_spec] at hnodes
  rw [simplifyLevel_fst]
  unfold withoutPrimitives onlyIf
  rw [if_pos hwanted, prune, ← hnodes]
  rfl

/-- The links that are left carry no value of a primitive. -/
theorem simplifyLevel_links (hwanted : p.primitives = true) :
    (simplifyLevel r p w).1.links
      = (withoutPassThrough r p w).links.filter fun k =>
          (valueOf? (primitiveValues r (withoutPassThrough r p w).nodes)
            k.origin).isNone := by
  rw [← (inlinePrimitives_eq r (withoutPassThrough r p w)).2.1, simplifyLevel_fst]
  unfold withoutPrimitives onlyIf
  rw [if_pos hwanted]
  rfl

/-- A node that a value was written into, if it is left in the end: the
value is stored in it. -/
theorem stored_simplifyLevel {e : Inlining} (he : e ∈ inlinedIn r p w)
    {n : Node}
    (hn : lastNode? (simplifyLevel r p w).1.nodes e.link.target = some n)
    (hsingle : SingleSlot e.input n) :
    ∃ place, Stored e.input place e.value n := by
  unfold inlinedIn at he
  split at he
  · next hwanted =>
    rw [simplifyLevel_nodes hwanted, lastNode?_map (pruneNode_id _),
      lastNode?_dropNodes] at hn
    split at hn
    · cases hn
    · obtain ⟨m, hm, rfl⟩ := Option.map_eq_some_iff.1 hn
      obtain ⟨place, hunwired, hplace, hvalue⟩ :=
        exists_stored he hm ((SingleSlot.congr (slotKey_pruneNode _ m)).1 hsingle)
      refine ⟨place, fun i' hi' hname => ?_, ?_, hvalue⟩
      · obtain ⟨i, hi, rfl⟩ := List.mem_map.1 hi'
        have hname := (congrArg Prod.fst (slotKey_pruneInput _ i)).symm.trans
          hname
        rw [wire?_pruneInput, hunwired i hi hname]
        rfl
      · rw [writtenPlace?_congr _ (slotKey_pruneNode _ m) rfl, hplace]
  · cases he

end

/-- The level without a link whose value is inlined, and without the
primitive that it comes from or with it; without it only if it sends its
value over no other link. -/
structure Less (r : Registry) (p : Passes) (k : Link) (w w₀ : Wiring) :
    Prop where
  links : w₀.links = w.links.filter (·.id ≠ k.id)
  nodes : w₀.nodes = w.nodes
    ∨ w₀.nodes = w.nodes.filter (·.id ≠ k.origin)
      ∧ ∀ j ∈ (withoutPassThrough r p w).links, j.origin = k.origin →
          j.id = k.id

section
variable {r : Registry} {p : Passes} {w w₀ : Wiring} {e : Inlining}

/-- What is known of a value that is inlined: the level is simplified up
to there, the link is still a link and the nodes at its two ends are
still nodes. -/
theorem of_mem_inlinedIn (he : e ∈ inlinedIn r p w) :
    p.primitives = true
      ∧ e ∈ inlinings (primitiveValues r (withoutPassThrough r p w).nodes)
          (withoutPassThrough r p w).nodes (withoutPassThrough r p w).links
      ∧ e.link ∈ (withoutPassThrough r p w).links
      ∧ (valueOf? (primitiveValues r (withoutPassThrough r p w).nodes)
          e.link.origin) = some e.value := by
  unfold inlinedIn at he
  split at he
  · next hwanted =>
    obtain ⟨before, after, n, hlinks, hv, -⟩ := of_mem_inlinings he
    refine ⟨hwanted, he, ?_, hv⟩
    rw [hlinks]
    exact List.mem_append_right _ List.mem_cons_self
  · cases he

/-- The target of an inlined link survives. -/
theorem survives_target (he : e ∈ inlinedIn r p w) :
    Survives r p w e.link.target := by
  obtain ⟨-, he, -⟩ := of_mem_inlinedIn he
  obtain ⟨before, after, n, -, -, hn, -⟩ := of_mem_inlinings he
  have hids : ∀ (links : List Link) (nodes : List Node),
      (sendAll (primitiveValues r (withoutPassThrough r p w).nodes) nodes
        links).map (·.id) = nodes.map (·.id) := by
    intro links
    induction links with
    | nil => exact fun _ => rfl
    | cons k links ih =>
        intro nodes
        refine (ih _).trans ?_
        unfold sendStep
        split
        · rfl
        · exact map_id_of_rel (fun a b h => h)
            (writeLast_rel_self (fun _ => rfl) fun m _ =>
              writeWidget_id m k.id _)
  have hmem := List.mem_map_of_mem (f := (·.id)) (lastNode?_mem hn)
  rw [hids] at hmem
  obtain ⟨m, hm, hid⟩ := List.mem_map.1 hmem
  exact ⟨m, hm, hid.trans (lastNode?_id hn)⟩

/-- The primitive that an inlined value comes from. -/
theorem exists_primitive (he : e ∈ inlinedIn r p w) :
    ∃ n ∈ (withoutPassThrough r p w).nodes, n.id = e.link.origin
      ∧ r.inCategory n.type Category.inlinePrimitive = true := by
  obtain ⟨-, -, -, hv⟩ := of_mem_inlinedIn he
  unfold valueOf? at hv
  obtain ⟨x, hx, -⟩ := Option.map_eq_some_iff.1 hv
  have hid := List.find?_some hx
  have hmem := List.mem_reverse.1 (List.mem_of_find?_eq_some hx)
  obtain ⟨n, hn, rfl⟩ := List.mem_map.1 hmem
  obtain ⟨hn, hkind⟩ := List.mem_filter.1 hn
  exact ⟨n, hn, of_decide_eq_true hid, hkind⟩

/-- Up to where primitives are inlined, the two levels differ in the link
and in nothing that matters there. -/
theorem withoutPrimitives_less (he : e ∈ inlinedIn r p w)
    (hless : Less r p e.link w w₀)
    (honly : ∀ n ∈ w.nodes, ∀ i ∈ n.inputs, i.wire? = some e.link.id →
      n.id = e.link.target) :
    (withoutPrimitives r p w₀).full
      = (inlinePrimitives r ⟨(withoutPassThrough r p w).nodes,
          some ((withoutPassThrough r p w).links.filter
            (·.id ≠ e.link.id))⟩).1 := by
  have hslots : ∀ n ∈ w.nodes, ∀ i ∈ n.inputs, ∀ l, i.wire? = some l →
      decide (l ≠ e.link.id) = false → Survives r p w n.id := by
    intro n hn i hi l hl hlink
    have hlink : l = e.link.id := by simpa using hlink
    rw [honly n hn i hi (hl.trans (congrArg some hlink))]
    exact survives_target he
  obtain ⟨m, hm, hmid, hkind⟩ := exists_primitive he
  rw [← withoutPrimitives_full]
  unfold withoutPrimitives onlyIf
  rw [if_pos (of_mem_inlinedIn he).1]
  rcases hless.nodes with hnodes | ⟨hnodes, hsole⟩
  · -- all nodes are there
    have hw₀ : w₀.full = thin (fun _ => true) (fun id => id ≠ e.link.id) w := by
      rw [thin, ← hless.links, List.filter_true, ← hnodes, Wiring.full]
    have hnone : ∀ id : Id, true = false → Survives r p w id :=
      fun _ h => nomatch h
    rw [hw₀, thin_withoutPassThrough r p hnone hslots, thin, List.filter_true]
  · -- the primitive is not
    have hw₀ : w₀.full = thin (fun id => id ≠ e.link.origin)
        (fun id => id ≠ e.link.id) w := by
      rw [thin, ← hless.links, ← hnodes, Wiring.full]
    have hsurvives : ∀ id, decide (id ≠ e.link.origin) = false →
        id = e.link.origin := by
      intro id hid
      simpa using hid
    rw [hw₀, thin_withoutPassThrough r p
      (fun id hid => hsurvives id hid ▸ ⟨m, hm, hmid⟩) hslots, thin]
    refine @inlinePrimitives_thin r (fun id => id ≠ e.link.origin)
      ⟨_, some ((withoutPassThrough r p w).links.filter (·.id ≠ e.link.id))⟩
      (fun id hid => ⟨m, hm, ?_, hkind⟩) fun k hk => ?_
    · rw [hmid, hsurvives id hid]
    · obtain ⟨hk, hkid⟩ := List.mem_filter.1 hk
      simp only [ne_eq, decide_not, Bool.not_eq_true', decide_eq_false_iff_not]
        at hkid ⊢
      exact fun horigin => hkid (hsole k hk horigin)

/-- The passes leave each link once. -/
theorem nodup_withoutPassThrough (hids : (w.links.map (·.id)).Nodup) :
    ((withoutPassThrough r p w).links.map (·.id)).Nodup := by
  have hpass : Thins w (withoutPassThrough r p w) :=
    (Thins.onlyIf (thins_resolveVirtualWires r w)).trans
      (.onlyIf (thins_collapsePassThrough r _ _))
  exact hpass.nodup_linkIds hids

/-- The link is dropped with the other links that carry a value, so it
makes no difference to the links that are left. -/
theorem links_less (he : e ∈ inlinedIn r p w)
    (hids : (w.links.map (·.id)).Nodup) :
    ((withoutPassThrough r p w).links.filter (·.id ≠ e.link.id)).filter (fun k =>
        (valueOf? (primitiveValues r (withoutPassThrough r p w).nodes)
          k.origin).isNone)
      = (simplifyLevel r p w).1.links := by
  obtain ⟨hwanted, -, hlink, hv⟩ := of_mem_inlinedIn he
  rw [simplifyLevel_links hwanted]
  refine filter_filter_of_imp fun k hk hnone => ?_
  simp only [ne_eq, decide_not, Bool.not_eq_true', decide_eq_false_iff_not]
  intro hid
  rw [List.inj_on_of_nodup_map (nodup_withoutPassThrough hids) hk hlink hid, hv] at hnone
  cases hnone

/-- No link that is left has its id. -/
theorem any_link_less (he : e ∈ inlinedIn r p w)
    (hids : (w.links.map (·.id)).Nodup) :
    (simplifyLevel r p w).1.links.any (·.id = e.link.id) = false := by
  rw [← links_less he hids, Bool.eq_false_iff]
  intro hany
  obtain ⟨k, hk, hid⟩ := List.any_eq_true.1 hany
  have hne := (List.mem_filter.1 (List.mem_of_mem_filter hk)).2
  simp only [ne_eq, decide_not, Bool.not_eq_true', decide_eq_false_iff_not,
    decide_eq_true_eq] at hne hid
  exact hne hid

/-- The level without the link, simplified: the same links, and the nodes
that the other values have been written into. -/
theorem simplifyLevel_less_eq (he : e ∈ inlinedIn r p w)
    (hless : Less r p e.link w w₀) (hids : (w.links.map (·.id)).Nodup)
    (honly : ∀ n ∈ w.nodes, ∀ i ∈ n.inputs, i.wire? = some e.link.id →
      n.id = e.link.target) :
    (simplifyLevel r p w₀).1.links = (simplifyLevel r p w).1.links
      ∧ (simplifyLevel r p w₀).1.nodes
        = (dropNodes ((primitiveValues r (withoutPassThrough r p w).nodes).map
            Prod.fst)
          (sendAll (primitiveValues r (withoutPassThrough r p w).nodes)
            (withoutPassThrough r p w).nodes
            ((withoutPassThrough r p w).links.filter
              (·.id ≠ e.link.id)))).map
          (pruneNode fun id => (simplifyLevel r p w).1.links.any
            (·.id = id)) := by
  have hfull := withoutPrimitives_less he hless honly
  obtain ⟨hnodes, hlinks, -⟩ := inlinePrimitives_eq r
    ⟨(withoutPassThrough r p w).nodes,
      some ((withoutPassThrough r p w).links.filter (·.id ≠ e.link.id))⟩
  rw [← hfull, writeValues_spec] at hnodes
  rw [← hfull] at hlinks
  have hleft : (withoutPrimitives r p w₀).links = (simplifyLevel r p w).1.links :=
    hlinks.trans (links_less he hids)
  have hmade : (withoutPrimitives r p w₀).nodes = _ := hnodes
  refine ⟨hleft, ?_⟩
  rw [simplifyLevel_fst, prune, hleft, hmade]
  rfl

/-- Without the link: the same links in the end and the same nodes, but
for the value at the place where the inlined value was written. -/
theorem simplifyLevel_less (he : e ∈ inlinedIn r p w)
    (hless : Less r p e.link w w₀) (hids : (w.links.map (·.id)).Nodup)
    (honly : ∀ n ∈ w.nodes, ∀ i ∈ n.inputs, i.wire? = some e.link.id →
      n.id = e.link.target)
    {n : Node}
    (hn : lastNode? (simplifyLevel r p w).1.nodes e.link.target = some n) :
    ∃ place n₀, (simplifyLevel r p w₀).1.links = (simplifyLevel r p w).1.links
      ∧ List.Forall₂ (SameOrReset e.link.target place)
          (simplifyLevel r p w).1.nodes (simplifyLevel r p w₀).1.nodes
      ∧ lastNode? (simplifyLevel r p w₀).1.nodes e.link.target = some n₀
      ∧ Reset place n n₀
      ∧ writtenPlace? n₀ e.input = some place := by
  obtain ⟨hwanted, hmem, -⟩ := of_mem_inlinedIn he
  obtain ⟨place, m, m₀, hall, hm, hm₀, htwin⟩ :=
    exists_twins hmem (nodup_withoutPassThrough hids)
  have hinvalid := any_link_less he hids
  obtain ⟨hlinks, hnodes₀⟩ := simplifyLevel_less_eq he hless hids honly
  have hnodes := @simplifyLevel_nodes r p w hwanted
  rw [hnodes, lastNode?_map (pruneNode_id _), lastNode?_dropNodes] at hn
  split at hn
  · cases hn
  next hdropped =>
  rw [hm] at hn
  cases hn
  refine ⟨place, pruneNode _ m₀, hlinks, ?_, ?_, htwin.pruneNode hinvalid, ?_⟩
  · rw [hnodes₀, hnodes, List.forall₂_map_left_iff, List.forall₂_map_right_iff]
    refine (List.rel_filter ?_ hall).imp ?_
    · intro a b hab
      dsimp only
      rw [hab.id_eq]
    · rintro a b (rfl | ⟨hid, h⟩)
      · exact .inl rfl
      · exact .inr ⟨hid, h.pruneNode hinvalid⟩
  · rw [hnodes₀, lastNode?_map (pruneNode_id _), lastNode?_dropNodes, if_neg hdropped,
      hm₀]
    rfl
  · rw [writtenPlace?_congr _ (slotKey_pruneNode _ m₀) rfl, htwin.place]

end

end PromptGraph.Simplify

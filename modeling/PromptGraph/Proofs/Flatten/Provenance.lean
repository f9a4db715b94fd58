/-
Nothing comes from elsewhere: every entry, every instance on record and
every reported expansion belongs to a chain of instances.

What can be said of an entry depends on what is known of the values that
flow into its level, so provenance is proved for any *discipline* on
these values. A discipline says what is assumed of the ports that a
level is entered with, what is then known of the level while its links
are resolved, and what is claimed of the outputs that it hands back; its
four rules are the four places where values pass from one to the other.
`convertAt_holds` carries a discipline through a whole conversion. The
trivial one already gives the keys and the classes of the entries.
-/
import PromptGraph.Proofs.Flatten.Run

namespace PromptGraph.Flatten

open Editor
open Execution (Input Ref Entry Graph)

variable {ctx : Context} {root : Level}

-- ==== disciplines

/-- What holds of the values that pass through a conversion. -/
structure Discipline (ctx : Context) (root : Level) where
  /-- What is assumed of the ports that a level is entered with. -/
  ports : List Frame → Bindings → Prop
  /-- What is known of a level while its links are resolved. -/
  scope : List Frame → Scope → Prop
  /-- What is claimed of the outputs of an instance. -/
  outputs : List Frame → Bindings → Prop
  opened : ∀ {p : List Frame} {bound : Bindings} {isSite : Id → Bool},
    Chain ctx root p → ports p bound →
    (∀ id, isSite id = true →
      ∃ f, Chain ctx root (f :: p) ∧ f.node.id = id) →
    scope p { level := levelAt root p, path := pathText p, ports := bound,
              isSite := isSite }
  bound : ∀ {f : Frame} {p : List Frame} {s : Scope} (b : Build),
    Chain ctx root (f :: p) → scope p s →
    ports (f :: p) (bindPorts s f.node f.node.id f.definition b).1
  closed : ∀ {f : Frame} {p : List Frame} {s : Scope} (b : Build),
    Chain ctx root (f :: p) → scope (f :: p) s →
    outputs (f :: p) (outputBindings s f.definition b).1
  extended : ∀ {f : Frame} {p : List Frame} {s : Scope} {out : Bindings},
    Chain ctx root (f :: p) → scope p s → outputs (f :: p) out →
    scope p { s with expanded := s.expanded ++ [(f.node.id, out)] }

namespace Discipline

/-- Everything in the build belongs to a chain and has come about under
the discipline. -/
structure Holds (D : Discipline ctx root) (b : Build) : Prop where
  entries : ∀ key e, Assoc.get? b.entries key = some e →
    ∃ q n s, Chain ctx root q ∧ n ∈ (levelAt root q).nodes
      ∧ Ordinary ctx n ∧ key = flatId q n.id ∧ D.scope q s
      ∧ e = entryOf ctx s n
  instances : ∀ key out, Assoc.get? b.instances key = some out →
    ∃ q f, Chain ctx root (f :: q) ∧ key = flatId q f.node.id
      ∧ D.outputs (f :: q) out
  expansions : ∀ ev ∈ b.expansions,
    ∃ q f entries outputs, Chain ctx root (f :: q)
      ∧ ev = expansionOf q f entries outputs

variable {D : Discipline ctx root}

theorem Holds.onlyReports {b b' : Build} (h : D.Holds b)
    (r : OnlyReports b b') : D.Holds b' := by
  refine ⟨?_, ?_, ?_⟩
  · rw [r.entries]
    exact h.entries
  · rw [r.instances]
    exact h.instances
  · rw [r.expansions]
    exact h.expansions

variable {p : List Frame}

/-- A converted node belongs to the chain of its level. -/
theorem Holds.convertNode {b : Build} (h : D.Holds b) (hp : Chain ctx root p)
    {s : Scope} (hs : D.scope p s) (hpath : s.path = pathText p) {n : Node}
    (hn : n ∈ (levelAt root p).nodes) (ho : Ordinary ctx n) :
    D.Holds (convertNode ctx s b n) := by
  refine ⟨fun key e he => ?_, ?_, ?_⟩
  · rw [convertNode_entries, Assoc.get?_insert] at he
    split at he
    · next hkey =>
      cases he
      refine ⟨p, n, s, hp, hn, ho, ?_, hs, rfl⟩
      rw [← hkey, hpath]
      rfl
    · exact h.entries key e he
  · rw [convertNode_instances]
    exact h.instances
  · rw [convertNode_expansions]
    exact h.expansions

/-- An expanded instance belongs to the chain that it makes longer. -/
theorem Holds.enter {f : Frame} (hf : Chain ctx root (f :: p))
    {x : Scope × Build} (h : D.Holds (convertInside ctx root p x f).2)
    (hout : D.outputs (f :: p) (convertInside ctx root p x f).1) :
    D.Holds (enter ctx root p x f).2 := by
  obtain ⟨entries, outputs, hexp⟩ := enter_expansions p x f
  refine ⟨h.entries, fun key out hget => ?_, fun ev hev => ?_⟩
  · rw [enter_instances, Assoc.get?_insert] at hget
    split at hget
    · next hkey =>
      cases hget
      exact ⟨p, f, hf, hkey.symm, hout⟩
    · exact h.instances key out hget
  · rw [hexp, List.mem_append, List.mem_singleton] at hev
    rcases hev with hev | hev
    · exact h.expansions ev hev
    · exact ⟨p, f, entries, outputs, hf, hev⟩

/-- Before the first expansion a level is known as its discipline says. -/
theorem scope_openAt (hw : WellNamed ctx root) (hp : Chain ctx root p)
    {ports : Bindings} (hports : D.ports p ports) (b : Build) :
    D.scope p (openAt ctx root p ports b).1 := by
  refine D.opened hp hports fun id hid => ?_
  obtain ⟨s, hs, hsid⟩ := List.any_eq_true.1 hid
  obtain ⟨n, hn, hns, hr⟩ := mem_plan_sites hs
  refine ⟨⟨n, s.definition⟩, (role_occurrence_iff hw hp hn).1 ⟨_, hr⟩, ?_⟩
  rw [hns]
  exact of_decide_eq_true hsid

end Discipline

open Discipline

variable {D : Discipline ctx root}

-- ==== a whole conversion

/-- A discipline that holds before a level is converted holds after it,
and the outputs handed back are as claimed. -/
theorem convertAt_holds (hw : WellNamed ctx root) {p : List Frame}
    (hp : Chain ctx root p) {ports : Bindings} (hports : D.ports p ports)
    {b : Build} (hb : D.Holds b) :
    D.Holds (convertAt ctx root p ports b).2
      ∧ ∀ f q, p = f :: q → D.outputs p (convertAt ctx root p ports b).1 := by
  refine Chain.descend (motive := fun p => ∀ ports b, D.ports p ports →
    D.Holds b → D.Holds (convertAt ctx root p ports b).2
      ∧ ∀ f q, p = f :: q → D.outputs p (convertAt ctx root p ports b).1)
    (fun p hp ih => ?_) hp ports b hports hb
  intro ports b hports hb
  have hloop : D.scope p (expandAll ctx root p ports b).1
      ∧ D.Holds (expandAll ctx root p ports b).2 := by
    refine expandAll_keeps hw hp
      (motive := fun x => D.scope p x.1 ∧ D.Holds x.2)
      ⟨scope_openAt hw hp hports b,
        hb.onlyReports (openAt_onlyReports p ports b)⟩ ?_
    rintro x f hf ⟨hs, hx⟩
    have hbound := hx.onlyReports
      (bindPorts_onlyReports x.1 f.node f.node.id f.definition x.2)
    obtain ⟨hin, hout⟩ := ih f hf _ _ (D.bound x.2 hf hs) hbound
    have hout := hout f p rfl
    exact ⟨D.extended hf hs hout, Holds.enter hf hin hout⟩
  have hnodes : D.Holds (convertNodes ctx root p ports b) := by
    unfold convertNodes
    refine List.foldlRecOn (motive := D.Holds) _ _ hloop.2 ?_
    intro c hc n hn
    obtain ⟨hmem, ho⟩ := mem_plan_ordinary.1 hn
    exact hc.convertNode hp hloop.1 (expandAll_path hw hp ports b) hmem ho
  refine ⟨hnodes.onlyReports (convertAt_onlyReports p ports b), ?_⟩
  rintro f q rfl
  rw [convertAt_cons]
  exact D.closed _ hp hloop.1

end PromptGraph.Flatten

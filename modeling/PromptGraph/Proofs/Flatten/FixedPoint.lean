/-
One sweep over the references is enough.

The values that outputs of instances are bound to form chains: a
reference to an instance gets its value from what the output is bound
to, which may be such a reference again (`bindingChain`). A chain ends
at a literal or at a reference to something else, or it reaches an
output that is not bound, or it repeats; `follow_eq_none_iff` says that
nothing comes of a reference in the last two cases only.

Chains of any shape are followed to an end. A walk that remembers what it
has passed (`Chase`) comes to what `follow` yields, and it passes each
bound output at most once (`Chase.yields_follow`).

A pass over a build keeps some references and reports the others
(`Build.settle`). What it does to an input, to all else and to the
diagnostics is said once for both passes (`Build.input?_settle`,
`Build.sameFrame_settle`, `Build.reported_settle`), and so is when it
changes nothing (`Build.settle_eq_self`).
-/
import PromptGraph.Proofs.Execution.Executability
import PromptGraph.Proofs.Flatten.Settle
import PromptGraph.Proofs.Walk

namespace PromptGraph

open Relation (TransGen ReflTransGen)

/-- What an entry of the graph has under an input's name. -/
def Execution.Graph.input? (g : Execution.Graph) (id name : String) :
    Option Execution.Input :=
  (Assoc.get? g id).bind (·.input? name)

namespace Flatten

open Execution (Input Ref Entry Graph)

variable {instances : Assoc Bindings}

-- ==== chains of bindings

/-- A reference to an instance passes on what the output is bound to;
all else has a value of its own. -/
def bindingChain (instances : Assoc Bindings) : Relay Input where
  passes
    | .ref r => Assoc.contains instances r.node = true
    | .literal _ => False
  feed?
    | .ref r => (Assoc.get? instances r.node).bind fun outputs =>
        outputs.get? r.slot
    | .literal _ => none

/-- A reference ends where there is no instance. -/
theorem not_passes_iff {r : Ref} :
    ¬ (bindingChain instances).passes (.ref r)
      ↔ Assoc.get? instances r.node = none := by
  show ¬ (Assoc.get? instances r.node).isSome = true ↔ _
  rw [Bool.not_eq_true, Option.isSome_eq_false_iff, Option.isNone_iff_eq_none]

/-- A reference goes back to what the output is bound to. -/
theorem back_iff {r : Ref} {v : Input} :
    (bindingChain instances).Back (.ref r) v
      ↔ ∃ outputs, Assoc.get? instances r.node = some outputs
          ∧ outputs.get? r.slot = some v := by
  constructor
  · intro hback
    exact Option.bind_eq_some_iff.1 hback.2
  · rintro ⟨outputs, named, bound⟩
    refine ⟨?_, Option.bind_eq_some_iff.2 ⟨outputs, named, bound⟩⟩
    exact Assoc.contains_iff.2 ⟨outputs, named⟩

/-- A literal comes from itself. -/
theorem comesFrom_literal {v : Json} {u : Input} :
    (bindingChain instances).ComesFrom (.literal v) u ↔ u = .literal v :=
  (Relay.comesFrom_of_not_passes id).trans eq_comm

/-- A walk through bindings ends where the chain does. -/
theorem ends_iff_comesFrom {r : Ref} {u : Input} :
    Ends instances r u ↔ (bindingChain instances).ComesFrom (.ref r) u := by
  constructor
  · intro h
    induction h with
    | producer free => exact .self (not_passes_iff.2 free)
    | literal named bound =>
        exact .back (back_iff.2 ⟨_, named, bound⟩) (.self id)
    | next named bound _ ih => exact .back (back_iff.2 ⟨_, named, bound⟩) ih
  · rintro ⟨hback, hown⟩
    generalize hstart : Input.ref r = start at hback
    induction hback using ReflTransGen.head_induction_on generalizing r with
    | refl =>
        rw [← hstart] at hown ⊢
        exact .producer (not_passes_iff.1 hown)
    | @head _ v hstep hrest ih =>
        rw [← hstart] at hstep
        obtain ⟨outputs, named, bound⟩ := back_iff.1 hstep
        cases v with
        | ref s => exact .next named bound (ih rfl)
        | literal j =>
            rw [comesFrom_literal.1 ⟨hrest, hown⟩]
            exact .literal named bound

/-- Only bound outputs are passed. -/
theorem mem_of_back {v w : Input} (h : (bindingChain instances).Back v w) :
    v ∈ (boundPorts instances).map fun port => .ref ⟨port.1, port.2⟩ := by
  cases v with
  | literal j => exact h.1.elim
  | ref r =>
      obtain ⟨outputs, named, bound⟩ := back_iff.1 h
      exact List.mem_map.2 ⟨_, mem_boundPorts named bound, rfl⟩

/-- Nothing comes of a reference exactly if its chain reaches an output
that is not bound, or repeats. -/
theorem follow_eq_none_iff {r : Ref} :
    follow instances r = none
      ↔ (bindingChain instances).Unfed (.ref r)
        ∨ (bindingChain instances).Circles (.ref r) := by
  rw [← Relay.not_comesFrom_iff fun _ _ => mem_of_back,
    Option.eq_none_iff_forall_ne_some, not_exists]
  refine forall_congr' fun u => ?_
  rw [ne_eq, follow_eq_some_iff, ends_iff_comesFrom]

/-- What comes of a reference to an output is what comes of its value. -/
theorem follow_eq_of_back {r s : Ref}
    (h : (bindingChain instances).Back (.ref r) (.ref s)) :
    follow instances r = follow instances s := by
  refine Option.ext fun u => ?_
  rw [follow_eq_some_iff, follow_eq_some_iff, ends_iff_comesFrom,
    ends_iff_comesFrom]
  exact Relay.comesFrom_of_back h

-- ==== chases

/-- A walk through bindings that remembers what it has passed. -/
structure Chase where
  here : Ref
  passed : List Ref := []

namespace Chase

/-- One step of a walk. It ends at what is no instance, at a reference
that it has passed before, at an output that is not bound, and at a
literal. -/
def step (instances : Assoc Bindings) (c : Chase) : Chase ⊕ Option Input :=
  match Assoc.get? instances c.here.node with
  | none => .inr (some (.ref c.here))
  | some outputs =>
    if c.here ∈ c.passed then .inr none
    else
      match outputs.get? c.here.slot with
      | none => .inr none
      | some (.literal v) => .inr (some (.literal v))
      | some (.ref next) => .inl ⟨next, c.here :: c.passed⟩

/-- The walk ends after this many steps, with this result. -/
inductive Yields (instances : Assoc Bindings) :
    Chase → Nat → Option Input → Prop where
  | stop {c : Chase} {u : Option Input} (h : c.step instances = .inr u) :
      Yields instances c 0 u
  | next {c d : Chase} {steps : Nat} {u : Option Input}
      (h : c.step instances = .inl d) (rest : Yields instances d steps u) :
      Yields instances c (steps + 1) u

/-- What is known on the way: the references passed are of different
bound outputs, and each of them leads to where the walk is. -/
structure OnCourse (instances : Assoc Bindings) (c : Chase) : Prop where
  nodup : c.passed.Nodup
  bound : ∀ s ∈ c.passed, (s.node, s.slot) ∈ boundPorts instances
  leads : ∀ s ∈ c.passed,
    TransGen (bindingChain instances).Back (.ref s) (.ref c.here)

/-- A walk on course has passed no more than all bound outputs. -/
theorem OnCourse.length_le {c : Chase} (h : c.OnCourse instances) :
    c.passed.length ≤ boundOutputs instances :=
  length_le_boundOutputs h.nodup h.bound

/-- A step to the next reference keeps the walk on course, and does not
change what comes of it. -/
theorem OnCourse.step {c d : Chase} (h : c.OnCourse instances)
    (hstep : c.step instances = .inl d) :
    d.OnCourse instances ∧ d.passed.length = c.passed.length + 1
      ∧ follow instances c.here = follow instances d.here := by
  unfold Chase.step at hstep
  split at hstep
  · cases hstep
  · next outputs named =>
    split at hstep
    · cases hstep
    · next hfresh =>
      split at hstep
      · cases hstep
      · cases hstep
      · next s bound =>
        cases hstep
        have hback : (bindingChain instances).Back (.ref c.here) (.ref s) :=
          back_iff.2 ⟨outputs, named, bound⟩
        refine ⟨⟨List.nodup_cons.2 ⟨hfresh, h.nodup⟩, ?_, ?_⟩, rfl,
          follow_eq_of_back hback⟩
        · intro t ht
          rcases List.mem_cons.1 ht with rfl | ht
          · exact mem_boundPorts named bound
          · exact h.bound t ht
        · intro t ht
          rcases List.mem_cons.1 ht with rfl | ht
          · exact .single hback
          · exact (h.leads t ht).tail hback

/-- Where a walk on course stops, it yields what following does: a
reference that it has passed before is one of a circle. -/
theorem OnCourse.stop {c : Chase} (h : c.OnCourse instances)
    {u : Option Input} (hstop : c.step instances = .inr u) :
    follow instances c.here = u := by
  unfold Chase.step at hstop
  split at hstop
  · next free =>
    cases hstop
    exact follow_eq_some_iff.2 (.producer free)
  · next outputs named =>
    split at hstop
    · next hagain =>
      cases hstop
      exact follow_eq_none_iff.2 (.inr ⟨_, .refl, h.leads _ hagain⟩)
    · split at hstop
      · next unbound =>
        cases hstop
        refine follow_eq_none_iff.2 (.inl ⟨_, .refl, ?_, ?_⟩)
        · exact Assoc.contains_iff.2 ⟨outputs, named⟩
        · show (Assoc.get? instances c.here.node).bind _ = none
          rw [named]
          exact unbound
      · next v bound =>
        cases hstop
        exact follow_eq_some_iff.2 (.literal named bound)
      · cases hstop

/-- A walk on course ends before it has passed more than all bound
outputs: every step passes one more of those that are left. -/
theorem OnCourse.yields {c : Chase} (h : c.OnCourse instances) :
    ∃ steps, steps + c.passed.length ≤ boundOutputs instances
      ∧ Yields instances c steps (follow instances c.here) := by
  cases hstep : c.step instances with
  | inr u =>
      refine ⟨0, ?_, ?_⟩
      · rw [Nat.zero_add]
        exact h.length_le
      · rw [h.stop hstep]
        exact .stop hstep
  | inl d =>
      obtain ⟨hd, hlength, hfollow⟩ := h.step hstep
      have hle := hd.length_le
      obtain ⟨steps, hsteps, hyields⟩ := hd.yields
      refine ⟨steps + 1, by omega, ?_⟩
      rw [hfollow]
      exact .next hstep hyields
termination_by boundOutputs instances - c.passed.length

/-- A walk from any reference ends, and passes each bound output at most
once. -/
theorem yields_follow (instances : Assoc Bindings) (r : Ref) :
    ∃ steps ≤ boundOutputs instances,
      Yields instances { here := r } steps (follow instances r) := by
  have hstart : OnCourse instances { here := r } :=
    ⟨List.nodup_nil, List.forall_mem_nil _, List.forall_mem_nil _⟩
  exact hstart.yields

end Chase

-- ==== a pass over the graph

/-- A pass that keeps a reference as `keep?` says, and reports it where
nothing is kept. -/
def settleBy (keep? : Ref → Option Input)
    (complaint : String → String → Ref → Diagnostic) (id name : String)
    (r : Ref) : Input ⊕ Diagnostic :=
  match keep? r with
  | some v => .inl v
  | none => .inr (complaint id name r)

/-- What is kept of an input. -/
def keptInput (keep? : Ref → Option Input) : Input → Option Input
  | .literal v => some (.literal v)
  | .ref r => keep? r

variable {keep? : Ref → Option Input}
  {complaint : String → String → Ref → Diagnostic} {g : Graph}

/-- Settling replaces a reference or drops it. -/
theorem settleInput_settleBy (id name : String) (v : Input) :
    settleInput (settleBy keep? complaint id name) v
      = keptInput keep? v := by
  cases v with
  | literal j => rfl
  | ref r =>
      show (settleBy keep? complaint id name r).getLeft? = keep? r
      unfold settleBy
      cases keep? r with
      | none => rfl
      | some u => rfl

/-- Inputs are settled name by name. -/
theorem get?_settleInputs {t : Assoc Input} (ht : t.Ascending)
    (settle : String → Ref → Input ⊕ Diagnostic) (name : String) :
    Assoc.get? (settleInputs settle t).1 name
      = (Assoc.get? t name).bind (settleInput (settle name)) := by
  refine Option.ext fun u => ?_
  rw [← (ascending_settleInputs ht settle).mem_iff, mem_settleInputs,
    Option.bind_eq_some_iff]
  refine exists_congr fun v => ?_
  rw [ht.mem_iff]

/-- Settling keeps a graph in order. -/
theorem canonical_settleGraph (hg : g.Canonical)
    (settle : String → String → Ref → Input ⊕ Diagnostic) :
    (settleGraph settle g).1.Canonical := by
  refine ⟨List.pairwise_map.2 hg.entries, fun x hx => ?_⟩
  obtain ⟨⟨id, e⟩, he, rfl⟩ := List.mem_map.1 hx
  dsimp only
  rw [inputTable_settleEntry]
  exact ascending_settleInputs (hg.inputs _ he) _

/-- What a pass leaves under an input's name. -/
theorem input?_settleBy (hg : g.Canonical) (id name : String) :
    Graph.input? (settleGraph (settleBy keep? complaint) g).1 id name
      = (g.input? id name).bind (keptInput keep?) := by
  unfold Graph.input?
  rw [get?_settleGraph]
  cases he : Assoc.get? g id with
  | none => rfl
  | some e =>
      show Assoc.get? (settleEntry _ e).1.inputTable name = _
      rw [inputTable_settleEntry,
        get?_settleInputs (hg.inputs _ (Assoc.mem_of_get? he))]
      show (e.input? name).bind _ = (e.input? name).bind _
      refine Option.bind_congr fun v _ => ?_
      exact settleInput_settleBy id name v

/-- What an entry is besides its inputs, and whether it has a table of
them. -/
def entryFrame (e : Entry) : String × Option String × Bool :=
  (e.classType, e.title, e.inputs.isSome)

/-- A pass leaves all of the entries but their inputs alone. -/
theorem frame_settleGraph
    (settle : String → String → Ref → Input ⊕ Diagnostic) (g : Graph) :
    Assoc.mapValues entryFrame (settleGraph settle g).1
      = Assoc.mapValues entryFrame g := by
  show List.map _ (List.map _ g) = List.map _ g
  rw [List.map_map]
  refine List.map_congr_left fun x _ => ?_
  show (x.1, _, _, (x.2.inputs.map _).isSome) = (x.1, _, _, x.2.inputs.isSome)
  rw [Option.isSome_map]
  rfl

/-- In a canonical graph an input is found exactly if it is there. -/
theorem input?_eq_some_iff (hg : g.Canonical) {id name : String}
    {v : Input} :
    g.input? id name = some v
      ↔ ∃ e, (id, e) ∈ g ∧ (name, v) ∈ e.inputTable := by
  unfold Graph.input?
  rw [Option.bind_eq_some_iff]
  refine exists_congr fun e => ?_
  rw [← hg.entries.mem_iff]
  refine and_congr_right fun he => ?_
  exact (hg.inputs _ he).mem_iff.symm

-- ==== fixed points

/-- Inputs that all stay are left as they are. -/
theorem settleInputs_eq_self {settle : String → Ref → Input ⊕ Diagnostic}
    {t : Assoc Input}
    (h : ∀ name r, (name, .ref r) ∈ t → settle name r = .inl (.ref r)) :
    settleInputs settle t = (t, []) := by
  induction t with
  | nil => rfl
  | cons x rest ih =>
      have hrest := ih fun name r hr => h name r (List.mem_cons_of_mem _ hr)
      obtain ⟨name, v⟩ := x
      cases v with
      | literal j => rw [settleInputs, hrest]
      | ref r =>
          rw [settleInputs, hrest]
          dsimp only
          rw [h name r List.mem_cons_self]

/-- An entry whose inputs stay is left as it is. -/
theorem settleEntry_eq_self {settle : String → Ref → Input ⊕ Diagnostic}
    {e : Entry} (h : ∀ name r, (name, .ref r) ∈ e.inputTable →
      settle name r = .inl (.ref r)) :
    settleEntry settle e = (e, []) := by
  unfold settleEntry
  rw [settleInputs_eq_self h]
  obtain ⟨classType, inputs, title⟩ := e
  cases inputs with
  | none => rfl
  | some t => rfl

/-- A pass that keeps every reference as it is changes nothing and
reports nothing. -/
theorem settleGraph_eq_self (hg : g.Canonical)
    (h : ∀ id name r, g.input? id name = some (.ref r) →
      keep? r = some (.ref r)) :
    settleGraph (settleBy keep? complaint) g = (g, []) := by
  have hentry : ∀ x ∈ g,
      settleEntry (settleBy keep? complaint x.1) x.2 = (x.2, []) := by
    intro x hx
    refine settleEntry_eq_self fun name r hr => ?_
    unfold settleBy
    rw [h x.1 name r ((input?_eq_some_iff hg).2 ⟨x.2, hx, hr⟩)]
  refine Prod.ext ?_ ?_
  · show g.map _ = g
    refine (List.map_congr_left fun x hx => ?_).trans (List.map_id g)
    show (x.1, (settleEntry (settleBy keep? complaint x.1) x.2).1) = x
    rw [hentry x hx]
  · refine List.flatMap_eq_nil_iff.2 fun x hx => ?_
    show (settleEntry (settleBy keep? complaint x.1) x.2).2 = []
    rw [hentry x (Assoc.mem_of_get? (Graph.mem_ordered.1 hx))]

-- ==== reports

/-- An input that a pass takes away. -/
def lostInput? (keep? : Ref → Option Input) (id : String) :
    String × Input → Option (String × String × Ref)
  | (_, .literal _) => none
  | (name, .ref r) => if (keep? r).isNone then some (id, name, r) else none

/-- An input is lost if its reference is not kept. -/
theorem lostInput?_eq_some_iff {id : String} {x : String × Input}
    {y : String × String × Ref} :
    lostInput? keep? id x = some y
      ↔ y.1 = id ∧ x = (y.2.1, .ref y.2.2) ∧ keep? y.2.2 = none := by
  obtain ⟨name, v⟩ := x
  obtain ⟨id', name', r⟩ := y
  cases v with
  | literal j => simp [lostInput?]
  | ref s =>
      unfold lostInput?
      rw [Option.ite_none_right_eq_some, Option.isNone_iff_eq_none]
      constructor
      · rintro ⟨hnone, heq⟩
        cases heq
        exact ⟨rfl, rfl, hnone⟩
      · rintro ⟨rfl, heq, hnone⟩
        cases heq
        exact ⟨hnone, rfl⟩

/-- All that a pass takes away, in the order of the entries' ids. -/
def lostInputs (keep? : Ref → Option Input) (g : Graph) :
    List (String × String × Ref) :=
  g.ordered.flatMap fun x => x.2.inputTable.filterMap (lostInput? keep? x.1)

/-- The lost inputs of a graph. -/
theorem mem_lostInputs (hg : g.Canonical) {id name : String} {r : Ref} :
    (id, name, r) ∈ lostInputs keep? g
      ↔ g.input? id name = some (.ref r) ∧ keep? r = none := by
  unfold lostInputs
  rw [List.mem_flatMap, input?_eq_some_iff hg]
  constructor
  · rintro ⟨⟨key, e⟩, he, hlost⟩
    obtain ⟨x, hx, hlost⟩ := List.mem_filterMap.1 hlost
    obtain ⟨rfl, rfl, hnone⟩ := lostInput?_eq_some_iff.1 hlost
    exact ⟨⟨e, Assoc.mem_of_get? (Graph.mem_ordered.1 he), hx⟩, hnone⟩
  · rintro ⟨⟨e, he, hx⟩, hnone⟩
    refine ⟨(id, e), Graph.mem_ordered.2 (hg.entries.mem_iff.1 he), ?_⟩
    exact List.mem_filterMap.2
      ⟨_, hx, lostInput?_eq_some_iff.2 ⟨rfl, rfl, hnone⟩⟩

/-- Nothing is taken away twice. -/
theorem nodup_lostInputs (hg : g.Canonical) :
    (lostInputs keep? g).Nodup := by
  unfold lostInputs
  refine List.nodup_flatMap.2 ⟨fun x hx => ?_, ?_⟩
  · have hmem := Assoc.mem_of_get? (Graph.mem_ordered.1 hx)
    refine List.Nodup.filterMap (fun a b y ha hb => ?_)
      (List.Nodup.of_map _ (hg.inputs _ hmem).nodup_keys)
    rw [(lostInput?_eq_some_iff.1 ha).2.1, (lostInput?_eq_some_iff.1 hb).2.1]
  · -- entries with different ids lose different inputs
    have hids : (g.ordered.map Prod.fst).Nodup := by
      rw [Graph.map_fst_ordered]
      exact Graph.nodup_ids hg.entries
    refine (List.pairwise_map.1 hids).imp fun {a b} hne y ha hb => ?_
    obtain ⟨x, -, hx⟩ := List.mem_filterMap.1 ha
    obtain ⟨z, -, hz⟩ := List.mem_filterMap.1 hb
    exact hne ((lostInput?_eq_some_iff.1 hx).1.symm.trans
      (lostInput?_eq_some_iff.1 hz).1)

/-- Each lost input is reported. -/
theorem settleInputs_reports (id : String) (t : Assoc Input) :
    (settleInputs (settleBy keep? complaint id) t).2
      = (t.filterMap (lostInput? keep? id)).map fun x =>
          complaint x.1 x.2.1 x.2.2 := by
  induction t with
  | nil => rfl
  | cons x rest ih =>
      obtain ⟨name, v⟩ := x
      cases v with
      | literal j => exact ih
      | ref r =>
          rw [settleInputs, List.filterMap_cons]
          dsimp only [lostInput?]
          unfold settleBy at ih ⊢
          cases keep? r with
          | none => exact congrArg (complaint id name r :: ·) ih
          | some u => exact ih

/-- A pass has one complaint for each input that it takes away. -/
theorem settleGraph_reports (g : Graph) :
    (settleGraph (settleBy keep? complaint) g).2
      = (lostInputs keep? g).map fun x => complaint x.1 x.2.1 x.2.2 := by
  unfold lostInputs
  rw [List.map_flatMap]
  show g.ordered.flatMap _ = _
  refine List.flatMap_congr fun x _ => ?_
  exact settleInputs_reports x.1 x.2.inputTable

-- ==== a pass over a build

/-- A build after a pass over its entries. -/
def Build.settle (b : Build) (keep? : Ref → Option Input)
    (complaint : String → String → Ref → Diagnostic) : Build :=
  { b.warn (settleGraph (settleBy keep? complaint) b.entries).2 with
    entries := (settleGraph (settleBy keep? complaint) b.entries).1 }

/-- From `before` to `after` every reference that an input has lost was
reported by one warning of its own, and nothing else was. -/
def Reported (complaint : String → String → Ref → Diagnostic)
    (before after : Build) : Prop :=
  ∃ lost : List (String × String × Ref), lost.Nodup
    ∧ (∀ id name r, (id, name, r) ∈ lost
      ↔ before.entries.input? id name = some (.ref r)
        ∧ after.entries.input? id name = none)
    ∧ after.diagnostics
      = before.diagnostics ++ lost.map fun x => complaint x.1 x.2.1 x.2.2

/-- Two builds have entries of the same ids, classes and titles, and agree
in all that is neither entry nor diagnostic. -/
structure SameFrame (b b' : Build) : Prop where
  entries : Assoc.mapValues entryFrame b'.entries
    = Assoc.mapValues entryFrame b.entries
  instances : b'.instances = b.instances
  events : b'.events = b.events

namespace Build

variable {b : Build}

/-- Settling keeps the entries in order. -/
theorem canonical_settle (hb : b.entries.Canonical) :
    (b.settle keep? complaint).entries.Canonical :=
  canonical_settleGraph hb _

/-- It settles every input. -/
theorem input?_settle (hb : b.entries.Canonical) (id name : String) :
    (b.settle keep? complaint).entries.input? id name
      = (b.entries.input? id name).bind (keptInput keep?) :=
  input?_settleBy hb id name

/-- It changes entries and reports only. -/
theorem sameFrame_settle : SameFrame b (b.settle keep? complaint) :=
  ⟨frame_settleGraph _ _, rfl, rfl⟩

/-- It reports what it has lost. -/
theorem reported_settle (hb : b.entries.Canonical) :
    Reported complaint b (b.settle keep? complaint) := by
  refine ⟨lostInputs keep? b.entries, nodup_lostInputs hb,
    fun id name r => ?_, ?_⟩
  · rw [mem_lostInputs hb]
    refine and_congr_right fun hinput => ?_
    rw [input?_settle hb, hinput]
    rfl
  · show b.diagnostics ++ _ = _
    rw [settleGraph_reports]

/-- A pass that keeps every reference as it is changes nothing. -/
theorem settle_eq_self (hb : b.entries.Canonical)
    (h : ∀ id name r, b.entries.input? id name = some (.ref r) →
      keep? r = some (.ref r)) :
    b.settle keep? complaint = b := by
  unfold settle
  rw [settleGraph_eq_self hb h]
  show { b with diagnostics := b.diagnostics ++ [] } = b
  rw [List.append_nil]

end Build

-- ==== both passes

/-- References are patched by following them. -/
theorem patchReferences_eq (b : Build) :
    patchReferences b = b.settle (follow b.instances) unboundInput := rfl

/-- What the second pass keeps: a reference to an entry. -/
def entryRef? (g : Graph) (r : Ref) : Option Input :=
  if Assoc.contains g r.node then some (.ref r) else none

/-- What refers to no entry is swept. -/
theorem sweepDangling_eq (b : Build) :
    sweepDangling b = b.settle (entryRef? b.entries) danglingInput := by
  have hsettle : settleBy (entryRef? b.entries) danglingInput
      = sweepRef b.entries := by
    funext id name r
    unfold settleBy entryRef? sweepRef
    cases Assoc.contains b.entries r.node with
    | true => rfl
    | false => rfl
  unfold Build.settle
  rw [hsettle]
  rfl

variable {b : Build}

/-- After the first pass an input is the end of its chain. -/
theorem input?_patchReferences (hb : b.entries.Canonical)
    {id name : String} {u : Input} :
    (patchReferences b).entries.input? id name = some u
      ↔ ∃ v, b.entries.input? id name = some v
          ∧ (bindingChain b.instances).ComesFrom v u := by
  rw [patchReferences_eq, Build.input?_settle hb, Option.bind_eq_some_iff]
  refine exists_congr fun v => and_congr_right fun _ => ?_
  cases v with
  | literal j =>
      rw [comesFrom_literal, keptInput, Option.some.injEq, eq_comm]
  | ref r => exact follow_eq_some_iff.trans ends_iff_comesFrom

/-- An input is taken away by the first pass exactly if its chain reaches
an output that is not bound, or repeats. -/
theorem input?_patchReferences_none (hb : b.entries.Canonical)
    {id name : String} {v : Input} (hv : b.entries.input? id name = some v) :
    (patchReferences b).entries.input? id name = none
      ↔ (bindingChain b.instances).Unfed v
        ∨ (bindingChain b.instances).Circles v := by
  rw [← Relay.not_comesFrom_iff fun _ _ => mem_of_back,
    Option.eq_none_iff_forall_ne_some, not_exists]
  refine forall_congr' fun u => not_congr ?_
  rw [input?_patchReferences hb, hv]
  simp only [Option.some.injEq, exists_eq_left']

/-- The second pass keeps all but references to what is no entry. -/
theorem input?_sweepDangling (hb : b.entries.Canonical)
    {id name : String} {u : Input} :
    (sweepDangling b).entries.input? id name = some u
      ↔ b.entries.input? id name = some u
        ∧ ∀ r, u = .ref r → Assoc.contains b.entries r.node = true := by
  rw [sweepDangling_eq, Build.input?_settle hb]
  have hkept : ∀ v, keptInput (entryRef? b.entries) v = some u
      ↔ v = u ∧ ∀ r, u = .ref r → Assoc.contains b.entries r.node = true := by
    intro v
    cases v with
    | literal j =>
        rw [keptInput, Option.some.injEq]
        refine ⟨fun h => ⟨h, fun r hr => ?_⟩, fun h => h.1⟩
        rw [← h] at hr
        cases hr
    | ref r =>
        show entryRef? b.entries r = some u ↔ _
        unfold entryRef?
        rw [Option.ite_none_right_eq_some, Option.some.injEq]
        constructor
        · rintro ⟨hin, rfl⟩
          exact ⟨rfl, fun s hs => by cases hs; exact hin⟩
        · rintro ⟨rfl, hin⟩
          exact ⟨hin r rfl, rfl⟩
  rw [Option.bind_eq_some_iff]
  simp only [hkept]
  constructor
  · rintro ⟨v, hv, rfl, hin⟩
    exact ⟨hv, hin⟩
  · rintro ⟨hu, hin⟩
    exact ⟨u, hu, rfl, hin⟩

/-- The sweep leaves the entries. -/
theorem contains_sweepDangling (b : Build) (key : String) :
    Assoc.contains (sweepDangling b).entries key = true
      ↔ Assoc.contains b.entries key = true := by
  rw [Assoc.contains_iff_mem_keys, Assoc.contains_iff_mem_keys,
    sweepDangling_entries, keys_settleGraph]

/-- Where no reference names an instance, the first pass has nothing to
do. -/
theorem patchReferences_eq_self (hb : b.entries.Canonical)
    (h : ∀ id name r, b.entries.input? id name = some (.ref r) →
      Assoc.get? b.instances r.node = none) : patchReferences b = b := by
  rw [patchReferences_eq]
  refine Build.settle_eq_self hb fun id name r hr => ?_
  exact follow_eq_some_iff.2 (.producer (h id name r hr))

/-- Where every reference names an entry, neither has the second. -/
theorem sweepDangling_eq_self (hb : b.entries.Canonical)
    (h : ∀ id name r, b.entries.input? id name = some (.ref r) →
      Assoc.contains b.entries r.node = true) : sweepDangling b = b := by
  rw [sweepDangling_eq]
  refine Build.settle_eq_self hb fun id name r hr => ?_
  unfold entryRef?
  rw [if_pos (h id name r hr)]

-- ==== one sweep

theorem canonical_sweepDangling (hb : b.entries.Canonical) :
    (sweepDangling b).entries.Canonical := by
  rw [sweepDangling_eq]
  exact Build.canonical_settle hb

/-- The sweep reports what it drops. -/
theorem reported_sweepDangling (hb : b.entries.Canonical) :
    Reported danglingInput b (sweepDangling b) := by
  rw [sweepDangling_eq]
  exact Build.reported_settle hb

theorem sameFrame_sweepDangling (b : Build) : SameFrame b (sweepDangling b) := by
  rw [sweepDangling_eq]
  exact Build.sameFrame_settle

theorem instances_sweepDangling (b : Build) :
    (sweepDangling b).instances = b.instances := by
  rw [sweepDangling_eq]
  rfl

/-- After the first pass no reference names an instance. -/
theorem free_of_patchReferences (hb : b.entries.Canonical)
    {id name : String} {r : Ref}
    (h : (patchReferences b).entries.input? id name = some (.ref r)) :
    Assoc.get? b.instances r.node = none := by
  obtain ⟨v, -, hend⟩ := (input?_patchReferences hb).1 h
  exact not_passes_iff.1 hend.2

variable (b) in
/-- References are settled in one sweep. Following a reference comes to an
end whatever the bindings are. After the first pass every input is the
end of its chain of bindings, or it is gone, which happens exactly if the
chain reaches an output that is not bound, or repeats. So no reference
names an instance any more, and a second run of the pass changes nothing
and reports nothing. The second pass takes away exactly the references to
what is no entry; then every reference names one, and neither pass has
anything left to do. Each pass reports every input that it takes away by
one warning, and leaves literals and all else alone. -/
theorem references_settled_in_one_sweep (hb : b.entries.Canonical) :
    let chain := bindingChain b.instances
    let patched := patchReferences b
    let swept := sweepDangling patched
    (∀ r, ∃ steps ≤ boundOutputs b.instances,
      Chase.Yields b.instances { here := r } steps (follow b.instances r))
    ∧ (∀ id name u, patched.entries.input? id name = some u
        ↔ ∃ v, b.entries.input? id name = some v ∧ chain.ComesFrom v u)
    ∧ (∀ id name v, b.entries.input? id name = some v →
        (patched.entries.input? id name = none
          ↔ chain.Unfed v ∨ chain.Circles v))
    ∧ (∀ id name r, patched.entries.input? id name = some (.ref r) →
        Assoc.contains b.instances r.node = false)
    ∧ patchReferences patched = patched
    ∧ (∀ id name u, swept.entries.input? id name = some u
        ↔ patched.entries.input? id name = some u
          ∧ ∀ r, u = .ref r → Assoc.contains patched.entries r.node = true)
    ∧ (∀ id name r, swept.entries.input? id name = some (.ref r) →
        Assoc.contains b.instances r.node = false
          ∧ Assoc.contains swept.entries r.node = true)
    ∧ patchReferences swept = swept ∧ sweepDangling swept = swept
    ∧ Reported unboundInput b patched ∧ Reported danglingInput patched swept
    ∧ (∀ id name r, (unboundInput id name r).code = "CV-005"
        ∧ (danglingInput id name r).code = "CV-005")
    ∧ (∀ id name v, b.entries.input? id name = some (.literal v) →
        swept.entries.input? id name = some (.literal v))
    ∧ SameFrame b patched ∧ SameFrame patched swept := by
  intro chain patched swept
  have hpatched : patched.entries.Canonical := Build.canonical_settle hb
  have hswept : swept.entries.Canonical := canonical_sweepDangling hpatched
  have hfree : ∀ id name r, patched.entries.input? id name = some (.ref r) →
      Assoc.get? b.instances r.node = none :=
    fun id name r => free_of_patchReferences hb
  have hkept : ∀ id name r, swept.entries.input? id name = some (.ref r) →
      Assoc.get? b.instances r.node = none
        ∧ Assoc.contains swept.entries r.node = true := by
    intro id name r hr
    obtain ⟨hpatch, hin⟩ := (input?_sweepDangling hpatched).1 hr
    exact ⟨hfree id name r hpatch,
      (contains_sweepDangling patched r.node).2 (hin r rfl)⟩
  have hnone : ∀ node, Assoc.get? b.instances node = none →
      Assoc.contains b.instances node = false := by
    intro node h
    rw [Assoc.contains, h]
    rfl
  have hinstances : swept.instances = b.instances :=
    instances_sweepDangling patched
  refine ⟨Chase.yields_follow b.instances,
    fun id name u => input?_patchReferences hb,
    fun id name v => input?_patchReferences_none hb,
    fun id name r hr => hnone _ (hfree id name r hr),
    patchReferences_eq_self hpatched hfree,
    fun id name u => input?_sweepDangling hpatched,
    fun id name r hr => (hkept id name r hr).imp_left (hnone _),
    patchReferences_eq_self hswept ?_,
    sweepDangling_eq_self hswept fun id name r hr => (hkept id name r hr).2,
    Build.reported_settle hb, reported_sweepDangling hpatched,
    fun id name r => ⟨rfl, rfl⟩, ?_, Build.sameFrame_settle,
    sameFrame_sweepDangling patched⟩
  · rw [hinstances]
    exact fun id name r hr => (hkept id name r hr).1
  · intro id name v hv
    refine (input?_sweepDangling hpatched).2 ⟨?_, fun r hr => by cases hr⟩
    exact (input?_patchReferences hb).2 ⟨_, hv, comesFrom_literal.2 rfl⟩

/-- A node that reads the end of a chain of two instances, an output of
two that are bound to each other, and something that is not there. -/
def tangledBuild : Build where
  entries := [
    ("1", {
      classType := "Blend"
      inputs := some [
        ("image", .ref ⟨"8", 0⟩), ("mask", .ref ⟨"6", 0⟩),
        ("noise", .ref ⟨"5", 0⟩), ("strength", .literal (.number "7"))]
      title := some "both" }),
    ("2", { classType := "Load", inputs := some [] })]
  instances := [
    ("6", [(0, .ref ⟨"7", 0⟩)]), ("7", [(0, .ref ⟨"6", 0⟩)]),
    ("8", [(0, .ref ⟨"9", 3⟩)]), ("9", [(3, .ref ⟨"2", 0⟩)])]

/-- The chain is followed to its end, the circle is cut and the reference
to nothing is swept away. -/
theorem references_settled_in_one_sweep_tangled :
    let patched := patchReferences tangledBuild
    let swept := sweepDangling patched
    tangledBuild.entries.Canonical
      ∧ patched.entries.input? "1" "image" = some (.ref ⟨"2", 0⟩)
      ∧ patched.entries.input? "1" "mask" = none
      ∧ patchReferences patched = patched
      ∧ patched.entries.input? "1" "noise" = some (.ref ⟨"5", 0⟩)
      ∧ swept.entries.input? "1" "noise" = none
      ∧ swept.entries.input? "1" "strength" = some (.literal (.number "7")) := by
  intro patched swept
  have hcanonical : tangledBuild.entries.Canonical := by decide
  obtain ⟨-, hends, hgone, -, hfixed, hswept, -, -, -, -, -, -, hliteral, -⟩ :=
    references_settled_in_one_sweep tangledBuild hcanonical
  refine ⟨hcanonical, ?_, ?_, hfixed, ?_, ?_, hliteral _ _ _ rfl⟩
  · refine (hends _ _ _).2 ⟨.ref ⟨"8", 0⟩, rfl, ?_⟩
    refine .back ⟨rfl, rfl⟩ (.back ⟨rfl, rfl⟩ (.self ?_))
    exact Bool.false_ne_true
  · have hthere : (bindingChain tangledBuild.instances).Back
        (.ref ⟨"6", 0⟩) (.ref ⟨"7", 0⟩) := ⟨rfl, rfl⟩
    have hagain : (bindingChain tangledBuild.instances).Back
        (.ref ⟨"7", 0⟩) (.ref ⟨"6", 0⟩) := ⟨rfl, rfl⟩
    exact (hgone "1" "mask" _ rfl).2
      (.inr ⟨_, .refl, .head hthere (.single hagain)⟩)
  · exact (hends _ _ _).2 ⟨.ref ⟨"5", 0⟩, rfl, .self Bool.false_ne_true⟩
  · refine Option.eq_none_iff_forall_ne_some.2 fun u hu => ?_
    obtain ⟨hpatched, hin⟩ := (hswept _ _ u).1 hu
    obtain ⟨v, hv, hend⟩ := (hends _ _ _).1 hpatched
    cases hv
    obtain rfl := (Relay.comesFrom_of_not_passes Bool.false_ne_true).1 hend
    exact Bool.false_ne_true (hin _ rfl)

end Flatten

end PromptGraph

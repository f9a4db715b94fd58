/-
Inlining preserves data flow: what an ordinary node reads from a link in
the graph that comes out is what walking the nested graph finds for it.

The proof has two halves. While levels are converted, every value that
passes through ports, outputs and wires is one that may be resolved for
its link (`resolving`, a discipline in the sense of `Provenance.lean`).
When references are settled, such a value settles to the source of its
link, and to nothing if there is none (`settles_iff_source`); the two
directions follow the walk through recorded outputs and the walk through
the nested graph, one step of the one being some steps of the other.
Flat ids have to tell nodes apart for this, since all that is recorded of
an unexpanded instance is its flat id.
-/
import PromptGraph.Proofs.Flatten.FlatId
import PromptGraph.Proofs.Flatten.Inputs
import PromptGraph.Proofs.Flatten.Source
import PromptGraph.Proofs.Flatten.Workflow

namespace PromptGraph.Flatten

open Editor
open Execution (Input Ref Entry Graph)

variable {ctx : Context} {root : Level}

-- ==== bindings, by slot

theorem Bindings.get?_cons (c : Int × Input) (b : Bindings) (slot : Int) :
    Bindings.get? (c :: b) slot
      = if c.1 = slot then some c.2 else b.get? slot := by
  unfold Bindings.get?
  rw [List.find?_cons]
  by_cases h : c.1 = slot
  · rw [if_pos h, decide_eq_true h]
    rfl
  · rw [if_neg h, decide_eq_false h]

/-- Bindings collected from values with different slots, some of them
missing. -/
theorem Bindings.get?_filterMap {α : Type} {key : α → Int}
    {value : α → Option Input} {l : List α} (h : (l.map key).Nodup)
    (slot : Int) :
    Bindings.get? (l.filterMap fun a => (value a).map fun v => (key a, v))
        slot
      = (l.find? (key · = slot)).bind value := by
  induction l with
  | nil => rfl
  | cons a l ih =>
      rw [List.map_cons, List.nodup_cons] at h
      rw [List.find?_cons]
      by_cases ha : key a = slot
      · have hrest : l.find? (key · = slot) = none := by
          refine List.find?_eq_none.2 fun b hb hkey => h.1 ?_
          rw [ha, ← of_decide_eq_true hkey]
          exact List.mem_map_of_mem hb
        rw [decide_eq_true ha]
        cases hv : value a with
        | none =>
            rw [List.filterMap_cons_none (by rw [hv]; rfl), ih h.2, hrest]
            exact hv.symm
        | some v =>
            rw [List.filterMap_cons_some (by rw [hv]; rfl),
              Bindings.get?_cons, if_pos ha]
            exact hv.symm
      · rw [decide_eq_false ha]
        cases hv : value a with
        | none =>
            rw [List.filterMap_cons_none (by rw [hv]; rfl)]
            exact ih h.2
        | some v =>
            rw [List.filterMap_cons_some (by rw [hv]; rfl),
              Bindings.get?_cons, if_neg ha]
            exact ih h.2

theorem nodup_slots (n : Nat) :
    ((List.range n).map fun slot : Nat => (slot : Int)).Nodup :=
  List.nodup_range.map fun _ _ h => Int.ofNat.inj h

variable {d : Definition}

/-- A declared port has its value. -/
theorem get?_bindPorts (s : Scope) (n : Node) (id : Id) (b : Build)
    {slot : Nat} (h : slot < d.inputs.length) :
    (bindPorts s n id d b).1.get? slot = (portValue s n id slot).1 := by
  have hfind : (List.range d.inputs.length).find?
      (fun m : Nat => (m : Int) = (slot : Int)) = some slot := by
    cases hfind : (List.range d.inputs.length).find?
        (fun m : Nat => (m : Int) = (slot : Int)) with
    | none =>
        have hno := List.find?_eq_none.1 hfind slot (List.mem_range.2 h)
        exact absurd (decide_eq_true rfl) hno
    | some m =>
        have hm : (m : Int) = slot := by simpa using List.find?_some hfind
        rw [Int.ofNat.inj hm]
  rw [bindPorts_eq, Bindings.get?_filterMap (nodup_slots _), hfind]
  rfl

/-- No other slot is bound. -/
theorem get?_bindPorts_eq_none (s : Scope) (n : Node) (id : Id) (b : Build)
    {slot : Int} (h : ∀ m : Nat, slot = m → d.inputs.length ≤ m) :
    (bindPorts s n id d b).1.get? slot = none := by
  have hfind : (List.range d.inputs.length).find?
      (fun m : Nat => (m : Int) = slot) = none := by
    refine List.find?_eq_none.2 fun m hm hslot => ?_
    have hle := h m (of_decide_eq_true hslot).symm
    rw [List.mem_range] at hm
    omega
  rw [bindPorts_eq, Bindings.get?_filterMap (nodup_slots _), hfind]
  rfl

variable {s : Scope}

/-- An output port has the value of the link chosen for it. -/
theorem get?_outputBindings (hs : s.level = d.level) (b : Build) (slot : Int) :
    (outputBindings s d b).1.get? slot
      = (chosenLink? d slot).bind fun k =>
          (s.resolve k (outputsPath s.path slot)).1 := by
  have hchoices := holdsChoices_chooseOutputs d s.path
  rw [outputBindings_eq, hs, Bindings.get?_filterMap hchoices.nodup,
    hchoices.find?]
  unfold chosenLink?
  rw [Option.bind_map]
  rfl

-- ==== what conversions resolve

/-- Every input port is bound to what may be resolved for its links. -/
def PortsCarry (ctx : Context) (root : Level) (p : List Frame)
    (bound : Bindings) : Prop :=
  ∀ slot k, (levelAt root p).origin k = .inputPort slot →
    Carries ctx root p k (bound.get? slot)

/-- Every output of an instance is bound to what may be resolved for the
link chosen for it, and outputs without a link are not bound. -/
def OutputsCarry (ctx : Context) (root : Level) (f : Frame)
    (p : List Frame) (out : Bindings) : Prop :=
  ∀ slot,
    (∀ inner, chosenLink? f.definition slot = some inner →
      Carries ctx root (f :: p) inner (out.get? slot))
    ∧ (chosenLink? f.definition slot = none → out.get? slot = none)

/-- A level while its links are resolved: its ports, and the outputs of
its instances as far as they are expanded, are bound as they should. -/
structure ScopeCarries (ctx : Context) (root : Level) (p : List Frame)
    (s : Scope) : Prop where
  level : s.level = levelAt root p
  path : s.path = pathText p
  ports : PortsCarry ctx root p s.ports
  expanded : ∀ e ∈ s.expanded, ∃ f, Chain ctx root (f :: p)
    ∧ f.node.id = e.1 ∧ OutputsCarry ctx root f p e.2

variable {p : List Frame} {k : Link}

/-- What is resolved for a link of such a level may be resolved for it. -/
theorem ScopeCarries.resolve (hs : ScopeCarries ctx root p s)
    (hk : k ∈ (levelAt root p).links) (consumer : String) :
    Carries ctx root p k (s.resolve k consumer).1 := by
  cases horigin : (levelAt root p).origin k with
  | outputPort slot => exact absurd horigin (origin_ne_outputPort _ _ _)
  | inputPort slot =>
      unfold Scope.resolve
      rw [hs.level, horigin]
      exact hs.ports slot k horigin
  | node id slot =>
      have hstart : s.level.origin k = .node id slot := by
        rw [hs.level, horigin]
      rcases resolve_node hstart consumer with h | ⟨e, he, rfl, h⟩
      · rw [h, hs.path]
        exact .named horigin hk
      · obtain ⟨f, hf, hid, hcarry⟩ := hs.expanded e he
        rw [← hid] at horigin
        rw [h]
        cases hchosen : chosenLink? f.definition slot with
        | none =>
            rw [(hcarry slot).2 hchosen]
            exact .unbound horigin hf hchosen
        | some inner =>
            exact .output horigin hf hchosen
              ((hcarry slot).1 inner hchosen)

variable {f : Frame}

theorem portsCarry_bindPorts (hs : ScopeCarries ctx root p s) (b : Build) :
    PortsCarry ctx root (f :: p)
      (bindPorts s f.node f.node.id f.definition b).1 := by
  intro slot k horigin
  by_cases hdeclared : ∃ m : Nat, slot = m
      ∧ m < f.definition.inputs.length
  · obtain ⟨m, rfl, hm⟩ := hdeclared
    have hincoming : s.incoming? f.node.id m
        = lastLinkInto (levelAt root p) f.node.id m := by
      unfold Scope.incoming?
      rw [hs.level]
      rfl
    rw [get?_bindPorts s f.node f.node.id b hm, portValue, hincoming]
    cases hlink : lastLinkInto (levelAt root p) f.node.id m with
    | none => exact .promoted horigin hm hlink rfl
    | some outer =>
        exact .wired horigin hm hlink
          (hs.resolve (lastLinkInto_mem hlink) _)
  · have hno : ∀ m : Nat, slot = m → f.definition.inputs.length ≤ m :=
      fun m hslot => Nat.le_of_not_lt fun hm => hdeclared ⟨m, hslot, hm⟩
    rw [get?_bindPorts_eq_none s f.node f.node.id b hno]
    refine .undeclared horigin fun g q hfq => ?_
    cases hfq
    exact hno

theorem outputsCarry_outputBindings (hs : ScopeCarries ctx root (f :: p) s)
    (b : Build) :
    OutputsCarry ctx root f p (outputBindings s f.definition b).1 := by
  intro slot
  rw [get?_outputBindings hs.level]
  constructor
  · intro inner hinner
    rw [hinner]
    exact hs.resolve (chosenLink?_mem hinner) _
  · intro hnone
    rw [hnone]
    rfl

/-- Values pass through a conversion as they may be resolved. -/
def resolving (ctx : Context) (root : Level) : Discipline ctx root where
  ports := PortsCarry ctx root
  scope := ScopeCarries ctx root
  outputs p out := ∀ f q, p = f :: q → OutputsCarry ctx root f q out
  opened _ hports _ := ⟨rfl, rfl, hports, fun e he => absurd he (by simp)⟩
  bound b _ hs := portsCarry_bindPorts hs b
  closed b _ hs := by
    rintro f q ⟨⟩
    exact outputsCarry_outputBindings hs b
  extended hf hs hout := by
    refine ⟨hs.level, hs.path, hs.ports, fun e he => ?_⟩
    rcases List.mem_append.1 he with he | he
    · exact hs.expanded e he
    · cases List.mem_singleton.1 he
      exact ⟨_, hf, rfl, hout _ _ rfl⟩

-- ==== names lead to sources

/-- The build holds what the chains put there, with values as they may
be resolved, under flat ids that tell nodes apart. -/
structure Records (ctx : Context) (root : Level) (b : Build) : Prop where
  named : WellNamed ctx root
  plainNodes : PlainNodes ctx root
  plainLinks : ∀ p, Chain ctx root p → ∀ k ∈ (levelAt root p).links,
    Plain k.origin
  covers : Covers ctx root [] b
  holds : (resolving ctx root).Holds b

variable {b : Build}

/-- What is recorded under the flat id of an instance are its outputs. -/
theorem Records.outputs (h : Records ctx root b) (hp : Chain ctx root p)
    {id : Id} (hid : Plain id) {out : Bindings}
    (hout : Assoc.get? b.instances (flatId p id) = some out) :
    ∃ f, Chain ctx root (f :: p) ∧ f.node.id = id
      ∧ OutputsCarry ctx root f p out := by
  obtain ⟨q, f, hf, hkey, hcarry⟩ := h.holds.instances _ _ hout
  have hplain := h.plainNodes q hf.tail _ hf.head_mem
  obtain ⟨rfl, rfl⟩ := flatId_inj h.named h.plainNodes hp hf.tail hid
    hplain hkey
  exact ⟨f, hf, rfl, hcarry f p rfl⟩

/-- What has an entry under its flat id is an ordinary node. -/
theorem Records.ordinary (h : Records ctx root b) (hp : Chain ctx root p)
    {id : Id} (hid : Plain id)
    (hin : Assoc.contains b.entries (flatId p id) = true) :
    ∃ n ∈ (levelAt root p).nodes, n.id = id ∧ Ordinary ctx n := by
  obtain ⟨e, he⟩ := Assoc.contains_iff.1 hin
  obtain ⟨q, n, s, hq, hn, ho, hkey, -⟩ := h.holds.entries _ _ he
  obtain ⟨rfl, rfl⟩ := flatId_inj h.named h.plainNodes hp hq hid
    (h.plainNodes q hq n hn) hkey
  exact ⟨n, hn, rfl, ho⟩

variable {n : Node}

/-- A node of a level that is ordinary is no instance of it. -/
theorem Records.not_instance (h : Records ctx root b)
    (hn : n ∈ (levelAt root p).nodes) (ho : Ordinary ctx n)
    (hf : Chain ctx root (f :: p)) : f.node.id ≠ n.id := by
  intro hid
  have hnode := (hf.tail.uniqueIds h.named).eq_of_id hf.head_mem hn hid
  have hinst := hf.head_instance
  rw [hnode] at hinst
  exact ho.not_instanceOf _ hinst

/-- No outputs are recorded for an ordinary node. -/
theorem Records.free (h : Records ctx root b) (hp : Chain ctx root p)
    (hn : n ∈ (levelAt root p).nodes) (ho : Ordinary ctx n) :
    Assoc.get? b.instances (flatId p n.id) = none := by
  cases hget : Assoc.get? b.instances (flatId p n.id) with
  | none => rfl
  | some out =>
      obtain ⟨f, hf, hid, -⟩ := h.outputs hp (h.plainNodes p hp n hn) hget
      exact absurd hid (h.not_instance hn ho hf)

/-- A step through a recorded output follows the walk to the source:
what is bound there may be resolved for a link further on. -/
theorem Records.passes (h : Records ctx root b) (hp : Chain ctx root p)
    {r : Ref} (hc : Carries ctx root p k (some (.ref r))) {outputs : Bindings}
    (named : Assoc.get? b.instances r.node = some outputs) {v : Input}
    (bound : outputs.get? r.slot = some v) :
    ∃ q inner, Chain ctx root q ∧ Carries ctx root q inner (some v)
      ∧ ∀ u, Source ctx root q inner u → Source ctx root p k u := by
  obtain ⟨q, j, id, hq, hj, horigin, hnode, hsource⟩ := hc.ref hp
  have hid : Plain id := origin_eq_of_node horigin ▸ h.plainLinks q hq j hj
  rw [hnode] at named
  obtain ⟨f, hf, rfl, hcarry⟩ := h.outputs hq hid named
  cases hchosen : chosenLink? f.definition r.slot with
  | none =>
      rw [(hcarry r.slot).2 hchosen] at bound
      cases bound
  | some inner =>
      have hinner := (hcarry r.slot).1 inner hchosen
      rw [bound] at hinner
      exact ⟨f :: q, inner, hf, hinner,
        fun u hu => hsource u (.output horigin hf hchosen hu)⟩

variable {u : Input}

/-- Where a walk through recorded outputs ends, the walk through the
nested graph does. -/
theorem Records.source_of_ends (h : Records ctx root b) {r : Ref}
    (hends : Ends b.instances r u)
    (hin : ∀ s, u = .ref s → Assoc.contains b.entries s.node = true)
    (hp : Chain ctx root p) (hc : Carries ctx root p k (some (.ref r))) :
    Source ctx root p k u := by
  induction hends generalizing p k with
  | @producer r free =>
      obtain ⟨q, j, id, hq, hj, horigin, hnode, hsource⟩ := hc.ref hp
      have hid : Plain id := origin_eq_of_node horigin ▸
        h.plainLinks q hq j hj
      have hentry := hin r rfl
      rw [hnode] at hentry
      obtain ⟨n, hn, rfl, ho⟩ := h.ordinary hq hid hentry
      have hr : r = ⟨flatId q n.id, r.slot⟩ := by rw [← hnode]
      rw [hr]
      exact hsource _ (.ordinary horigin hn ho)
  | literal named bound =>
      obtain ⟨q, inner, -, hinner, hsource⟩ := h.passes hp hc named bound
      exact hsource _ hinner.literal
  | next named bound _ ih =>
      obtain ⟨q, inner, hq, hinner, hsource⟩ := h.passes hp hc named bound
      exact hsource _ (ih hin hq hinner)

/-- What is recorded for an instance settles as its outputs do. -/
theorem Records.settles_output (h : Records ctx root b)
    (hf : Chain ctx root (f :: p)) {slot : Int} {inner : Link}
    (hchosen : chosenLink? f.definition slot = some inner)
    (hinner : ∀ o, Carries ctx root (f :: p) inner o →
      ∃ v, o = some v ∧ Settles b v u) :
    Settles b (.ref ⟨flatId p f.node.id, slot⟩) u := by
  obtain ⟨out, hout⟩ := Assoc.contains_iff.1
    (h.covers.instances p f hf List.nil_suffix).1
  have hplain := h.plainNodes p hf.tail _ hf.head_mem
  obtain ⟨g, hg, hid, hcarry⟩ := h.outputs hf.tail hplain hout
  obtain rfl := hg.head_eq h.named hf hid
  obtain ⟨v, hv, hsettles⟩ := hinner _ ((hcarry slot).1 inner hchosen)
  cases v with
  | literal j =>
      cases hsettles
      refine ⟨.literal hout hv, fun s hs => ?_⟩
      cases hs
  | ref s => exact ⟨.next hout hv hsettles.1, hsettles.2⟩

/-- The source of a link is what everything settles to that may be
resolved for it. -/
theorem Records.settles_of_source (h : Records ctx root b)
    (hsource : Source ctx root p k u) (hp : Chain ctx root p)
    {o : Option Input} (hc : Carries ctx root p k o) :
    ∃ v, o = some v ∧ Settles b v u := by
  induction hsource generalizing o with
  | ordinary start mem isOrdinary =>
      rcases hc.of_node start with rfl | ⟨f, hf, hid, -⟩
      · refine ⟨_, rfl, .producer (h.free hp mem isOrdinary), ?_⟩
        intro s hs
        cases hs
        exact h.covers.entries _ _ hp List.nil_suffix mem isOrdinary
      · exact absurd hid (h.not_instance mem isOrdinary hf)
  | output start expanded chosen _ ih =>
      rcases hc.of_node start with rfl | ⟨g, hg, hid, hinner⟩
      · refine ⟨_, rfl, h.settles_output expanded chosen ?_⟩
        exact fun o ho => ih expanded ho
      · obtain rfl := hg.head_eq h.named expanded hid
        rcases hinner with ⟨inner, hchosen, hrest⟩ | ⟨hnone, -⟩
        · cases chosen.symm.trans hchosen
          exact ih expanded hrest
        · cases chosen.symm.trans hnone
  | wired start declared link _ ih =>
      rcases hc.of_port start declared with ⟨outer, hlink, hrest⟩ | ⟨hnone, -⟩
      · cases link.symm.trans hlink
        exact ih hp.tail hrest
      · cases link.symm.trans hnone
  | promoted start declared unwired widget =>
      rcases hc.of_port start declared with ⟨outer, hlink, -⟩ | ⟨-, rfl⟩
      · cases unwired.symm.trans hlink
      · rw [widget]
        exact ⟨_, rfl, rfl⟩

/-- What may be resolved for a link settles to its source, and to
nothing else. -/
theorem Records.settles_iff_source (h : Records ctx root b)
    (hp : Chain ctx root p) {o : Option Input} (hc : Carries ctx root p k o)
    (u : Input) :
    (∃ v, o = some v ∧ Settles b v u) ↔ Source ctx root p k u := by
  refine ⟨?_, fun hu => h.settles_of_source hu hp hc⟩
  rintro ⟨v, rfl, hsettles⟩
  cases v with
  | literal j =>
      cases hsettles
      exact hc.literal
  | ref r => exact h.source_of_ends hsettles.1 hsettles.2 hp hc

-- ==== a node's wired input

/-- The inputs that a node's widget values fill by themselves. -/
def widgetInputs (ctx : Context) (n : Node) : Assoc Input :=
  (fillInputs n.id.text (declaredInputs ctx n) n.widgets []).1

theorem link?_mem {l : Level} {i : NodeInput}
    (h : i.wire?.bind l.link? = some k) : k ∈ l.links := by
  obtain ⟨id, -, hk⟩ := Option.bind_eq_some_iff.1 h
  exact List.mem_reverse.1 (List.mem_of_find?_eq_some hk)

/-- An input that is wired, and nothing but wired, holds what is
resolved for its link. -/
theorem get?_entryOf {i : NodeInput} (hi : i ∈ n.inputs)
    (hname : ∀ j ∈ n.inputs, j.name = i.name → j = i)
    (hlink : i.wire?.bind s.level.link? = some k)
    (hdeclared : ∀ t ∈ declaredInputs ctx n, t.name = i.name →
      t.kind.wireOnly = true)
    (hwidget : Assoc.get? (widgetInputs ctx n) i.name = none) :
    Assoc.get? (entryOf ctx s n).inputTable i.name
      = (s.resolve k (s.path ++ n.id.text)).1 := by
  refine (get?_fillInputs hdeclared hwidget _).trans ?_
  rw [find?_wiresOf s hi hname, slotValue, hlink]
  rfl

-- ==== whole workflows

/-- No node and no start of a link has an id that could be mistaken for
the beginning of a flat id. -/
def PlainIds (w : Workflow) : Prop :=
  ∀ l ∈ levelsOf w, (∀ n ∈ l.nodes, Plain n.id)
    ∧ ∀ k ∈ l.links, Plain k.origin

instance (w : Workflow) : Decidable (PlainIds w) :=
  inferInstanceAs (Decidable (∀ l ∈ levelsOf w,
    (∀ n ∈ l.nodes, Plain n.id) ∧ ∀ k ∈ l.links, Plain k.origin))

variable {registry : Registry} {table : NodeTable} {source : String}
  {w : Workflow}

theorem records_inlined (hu : UniqueNodeIds w) (hplain : PlainIds w) :
    Records (contextOf registry table w) w.root
      (inlined registry table source w) where
  named := hu.wellNamed registry table
  plainNodes p hp := (hplain _ (levelAt_mem hp)).1
  plainLinks p hp := (hplain _ (levelAt_mem hp)).2
  covers := inlined_covers hu
  holds := inlined_holds hu fun slot k horigin => by
    refine .undeclared horigin fun f q hnil => ?_
    cases hnil

variable (registry table source) in
/-- Inlining preserves data flow. In a workflow with plain ids, unique
within each level, take an ordinary node at the end of any chain and one
of its input slots that names a link, if no other slot has its name, the
type declares the name as wire-only or not at all, and no widget value is
put under it. Then the node's entry reads under this name exactly the
source of the link, and has no such input if the link has none. -/
theorem inlining_preserves_data_flow (hu : UniqueNodeIds w)
    (hplain : PlainIds w) {p : List Frame} {n : Node} {i : NodeInput}
    {k : Link} (hp : Chain (contextOf registry table w) w.root p)
    (hn : n ∈ (levelAt w.root p).nodes)
    (ho : Ordinary (contextOf registry table w) n) (hi : i ∈ n.inputs)
    (hlink : i.wire?.bind (levelAt w.root p).link? = some k)
    (hname : ∀ j ∈ n.inputs, j.name = i.name → j = i)
    (hdeclared : ∀ t ∈ declaredInputs (contextOf registry table w) n,
      t.name = i.name → t.kind.wireOnly = true)
    (hwidget : Assoc.get? (widgetInputs (contextOf registry table w) n)
      i.name = none) :
    ∃ e, Assoc.get? (convertWorkflow registry table source w).graph
        (flatId p n.id) = some e
      ∧ e.classType = n.type
      ∧ ∀ u, e.input? i.name = some u
          ↔ Source (contextOf registry table w) w.root p k u := by
  have hrec : Records (contextOf registry table w) w.root
      (inlined registry table source w) := records_inlined hu hplain
  obtain ⟨e₀, he₀⟩ := Assoc.contains_iff.1
    (hrec.covers.entries p n hp List.nil_suffix hn ho)
  obtain ⟨q, m, s, hq, hm, -, hkey, hs, rfl⟩ := hrec.holds.entries _ _ he₀
  -- the entry under the node's flat id is the node's own
  obtain ⟨rfl, hid⟩ := flatId_inj hrec.named hrec.plainNodes hp hq
    (hrec.plainNodes p hp n hn) (hrec.plainNodes q hq m hm) hkey
  obtain rfl := (hp.uniqueIds hrec.named).eq_of_id hn hm hid
  obtain ⟨e, he, hclass, hasc, hinputs⟩ := settledEntries_spec _ he₀
  refine ⟨e, by rw [convertWorkflow_graph, he], hclass, fun u => ?_⟩
  have hcarries := hs.resolve (link?_mem hlink) (s.path ++ n.id.text)
  rw [← hs.level] at hlink
  rw [Execution.Entry.input?, ← (hasc (ascending_entryOf s n)).mem_iff,
    hinputs, ← hrec.settles_iff_source hp hcarries u,
    ← get?_entryOf hi hname hlink hdeclared hwidget]
  simp only [(ascending_entryOf s n).mem_iff]

/-- A node that reads the input port of its definition. -/
def blurNode : Node :=
  { id := ⟨"5"⟩, type := "Blur",
    inputs := [{ name := "image", type := "IMAGE", link := some ⟨"1"⟩ }] }

/-- One node between an input port and an output port. -/
def blurDefinition : Definition :=
  { id := "blur", inputList := some [{ name := "image", type := "IMAGE" }],
    outputList := some [{ name := "image", type := "IMAGE" }],
    nodeList := some [blurNode],
    linkList := some [
      { id := ⟨"1"⟩, origin := ⟨"-10"⟩, target := ⟨"5"⟩, type := "IMAGE" },
      { id := ⟨"2"⟩, origin := ⟨"5"⟩, target := ⟨"-20"⟩, type := "IMAGE" }] }

/-- Two instances that read each other's output. -/
def blurCircle : Workflow :=
  { nodes := [{ id := ⟨"2"⟩, type := "blur" },
      { id := ⟨"3"⟩, type := "blur" }],
    linkList := some [
      { id := ⟨"1"⟩, origin := ⟨"2"⟩, target := ⟨"3"⟩, type := "IMAGE" },
      { id := ⟨"2"⟩, origin := ⟨"3"⟩, target := ⟨"2"⟩, type := "IMAGE" }],
    definitions := [blurDefinition] }

/-- The type of that node: one input, which is only ever wired. -/
def blurType : NodeType :=
  { name := "Blur", displayName := "Blur", category := "", isOutput := false,
    inputs := [.mk "image" "IMAGE" .wire .required false none [] none],
    outputs := [⟨"IMAGE", "IMAGE", false⟩] }

/-- Whichever of the two is expanded first reads an instance that is not
yet expanded; its node still comes to read the node inside the other. -/
theorem inlining_preserves_data_flow_blurCircle :
    UniqueNodeIds blurCircle ∧ PlainIds blurCircle
      ∧ ∃ e, Assoc.get?
          (convertWorkflow {} [("Blur", blurType)] "" blurCircle).graph
          "sg2_5" = some e
        ∧ e.input? "image" = some (.ref ⟨"sg3_5", 0⟩) := by
  have hu : UniqueNodeIds blurCircle := by decide
  have hplain : PlainIds blurCircle := by decide
  have hchain : ∀ n ∈ blurCircle.nodes,
      Chain (contextOf {} [("Blur", blurType)] blurCircle) blurCircle.root
        [⟨n, blurDefinition⟩] := by
    intro n hn
    have htype : n.type = "blur" ∧ n.disabled = false := by
      revert n
      decide
    refine .cons .nil hn ⟨⟨htype.2, ?_⟩, .head _, htype.1.symm⟩ (by simp)
    rw [htype.1]
    rfl
  have hordinary : Ordinary
      (contextOf {} [("Blur", blurType)] blurCircle) blurNode := by decide
  obtain ⟨e, he, -, hiff⟩ :=
    inlining_preserves_data_flow {} [("Blur", blurType)] ""
      hu hplain (hchain _ (.head _)) (.head _) hordinary
      (.head _) rfl (by decide) (by decide) rfl
  refine ⟨hu, hplain, e, he, (hiff _).2 ?_⟩
  refine .wired rfl (by decide) rfl ?_
  refine .output rfl (hchain _ (.tail _ (.head _))) rfl ?_
  exact .ordinary rfl (.head _) hordinary

end PromptGraph.Flatten

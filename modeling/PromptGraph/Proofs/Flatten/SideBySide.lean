/-
Two conversions side by side. Of two workflows that are alike in some
way, one wants to know in which way their graphs are. What is alike is
given by relations between nodes, between levels, and so on
(`Relations`); they make a `Likeness` if every step of a conversion
takes related things to related things. The walk over instances and into
definitions is then gone through here, once for all likenesses: related
levels are converted alike (`Likeness.convertLevel`), and so are the
workflows (`Likeness.inlined`).
-/
import Mathlib.Data.List.Forall2
import PromptGraph.Proofs.Flatten.Workflow

namespace PromptGraph.Flatten

open Editor
open Execution (Input Ref Entry Graph)

-- ==== related lists

section
variable {α β : Type} {R : α → β → Prop} {p : α → Bool} {q : β → Bool}
  {l : List α} {l' : List β}

/-- A search of related lists finds related members, or none in both. -/
theorem find?_rel (h : List.Forall₂ R l l')
    (hpq : ∀ a b, R a b → q b = p a) :
    Option.Rel R (l.find? p) (l'.find? q) := by
  induction h with
  | nil => exact .none
  | @cons a b l l' hab _ ih =>
      rw [List.find?_cons, List.find?_cons, hpq a b hab]
      cases p a with
      | true => exact .some hab
      | false => exact ih

/-- Related lists pass related tests alike. -/
theorem any_rel (h : List.Forall₂ R l l')
    (hpq : ∀ a b, R a b → q b = p a) : l'.any q = l.any p := by
  induction h with
  | nil => rfl
  | cons hab _ ih => rw [List.any_cons, List.any_cons, hpq _ _ hab, ih]

/-- Related values under one key. -/
structure Under {ι : Type} (R : α → β → Prop) (e : ι × α) (e' : ι × β) :
    Prop where
  key : e'.1 = e.1
  value : R e.2 e'.2

/-- Related values may be put under a name. -/
theorem insert_rel {t : Assoc α} {t' : Assoc β}
    (h : List.Forall₂ (Under R) t t') (name : String) {a : α} {b : β}
    (hab : R a b) :
    List.Forall₂ (Under R) (Assoc.insert t name a)
      (Assoc.insert t' name b) := by
  induction h with
  | nil => exact .cons ⟨rfl, hab⟩ .nil
  | @cons e e' t t' he ht ih =>
      obtain ⟨k, x⟩ := e
      obtain ⟨k', x'⟩ := e'
      obtain ⟨rfl, hx⟩ := he
      unfold Assoc.insert
      split
      · exact .cons ⟨rfl, hab⟩ (.cons ⟨rfl, hx⟩ ht)
      · split
        · exact .cons ⟨rfl, hab⟩ ht
        · exact .cons ⟨rfl, hx⟩ ih

/-- What is found under a name is related. -/
theorem get?_rel {t : Assoc α} {t' : Assoc β}
    (h : List.Forall₂ (Under R) t t') (name : String) :
    Option.Rel R (Assoc.get? t name) (Assoc.get? t' name) := by
  induction h with
  | nil => exact .none
  | cons he _ ih =>
      rw [Assoc.get?_cons, Assoc.get?_cons, he.key]
      split
      · exact .some he.value
      · exact ih

/-- Related tables have the same names. -/
theorem keys_rel {t : Assoc α} {t' : Assoc β}
    (h : List.Forall₂ (Under R) t t') : Assoc.keys t' = Assoc.keys t := by
  unfold Assoc.keys
  induction h with
  | nil => rfl
  | cons he _ ih => rw [List.map_cons, List.map_cons, he.key, ih]

end

-- ==== definitions

section
variable {D : Definition → Definition → Prop} {ds ds' : List Definition}
  {d d' : Definition}

/-- Definitions without one of them stay related. -/
theorem without_rel (hid : ∀ d d', D d d' → d'.id = d.id)
    (hds : List.Forall₂ D ds ds') (hd : D d d') :
    List.Forall₂ D (without ds d) (without ds' d') := by
  refine List.rel_filter (fun e e' he => ?_) hds
  dsimp only
  rw [hid e e' he, hid d d' hd]

theorem putDefinition_rel (hid : ∀ d d', D d d' → d'.id = d.id)
    (hds : List.Forall₂ D ds ds') (hd : D d d') :
    List.Forall₂ D (putDefinition ds d) (putDefinition ds' d') := by
  induction hds with
  | nil => exact .cons hd .nil
  | cons he hrest ih =>
      unfold putDefinition
      rw [hid _ _ he, hid _ _ hd]
      split
      · exact .cons hd hrest
      · exact .cons he ih

/-- The first ones of each id are related. -/
theorem distinctDefinitions_rel (hid : ∀ d d', D d d' → d'.id = d.id)
    (hds : List.Forall₂ D ds ds') :
    List.Forall₂ D (distinctDefinitions ds) (distinctDefinitions ds') := by
  unfold distinctDefinitions
  refine List.rel_foldl (P := List.Forall₂ D) ?_ .nil hds
  intro acc acc' hacc d d' hd
  exact putDefinition_rel hid hacc hd

end

-- ==== likenesses

/-- What is alike in two conversions. -/
structure Relations where
  node : Node → Node → Prop
  level : Level → Level → Prop
  definition : Definition → Definition → Prop
  /-- The values of output ports. -/
  outputs : Bindings → Bindings → Prop
  build : Build → Build → Prop

/-- Alike levels as their links are resolved. -/
structure Relations.Scopes (R : Relations) (s s' : Scope) : Prop where
  level : R.level s.level s'.level
  path : s'.path = s.path
  ports : s'.ports = s.ports
  isSite : s'.isSite = s.isSite
  expanded : List.Forall₂ (Under R.outputs) s.expanded s'.expanded

/-- Some node of the level with this id is an instance. -/
def HasInstance (ctx : Context) (l : Level) (id : Id) : Prop :=
  ∃ n ∈ l.nodes, n.id = id ∧ ctx.definitions.any (·.id = n.type) = true

/-- The instance with this id has been converted. -/
def Build.expanded (b : Build) (pid : String) (d : Definition) (depth before : Nat)
    (outputs : Bindings) : Build :=
  { b with instances := Assoc.insert b.instances pid outputs }.emit
    (.expanded pid d.id d.name depth (b.entries.length - before) outputs.length)

/-- Every step of the two conversions takes related things to related
things. -/
structure Likeness (ctx ctx' : Context) extends Relations where
  registry : ctx'.registry = ctx.registry
  table : ctx'.table = ctx.table
  definitions : List.Forall₂ definition ctx.definitions ctx'.definitions
  same_id {d d' : Definition} : definition d d' → d'.id = d.id
  inside {d d' : Definition} : definition d d' → level d.level d'.level
  same_role {n n' : Node} : node n n' →
    n'.id = n.id ∧ n'.type = n.type ∧ n'.mode = n.mode
  sorted {l l' : Level} : level l l' →
    List.Forall₂ node (sortNodes l.nodes) (sortNodes l'.nodes)
  order {l l' : Level} : level l l' → ∀ ids,
    (∀ id ∈ ids, HasInstance ctx l id) →
      instanceOrder l' ids = instanceOrder l ids
  no_outputs : outputs [] []
  report {b b' : Build} : build b b' → ∀ ds events,
    build { b.warn ds with events := b.events ++ events }
      { b'.warn ds with events := b'.events ++ events }
  bindPorts {s s' : Scope} {d d' : Definition} {b b' : Build} :
    toRelations.Scopes s s' → definition d d' → build b b' → ∀ id,
      HasInstance ctx s.level id →
        (bindPorts s' ((s'.level.node? id).getD {}) id d' b').1
            = (bindPorts s ((s.level.node? id).getD {}) id d b).1
          ∧ build (bindPorts s ((s.level.node? id).getD {}) id d b).2
              (bindPorts s' ((s'.level.node? id).getD {}) id d' b').2
  convertNode {s s' : Scope} {n n' : Node} {b b' : Build} :
    toRelations.Scopes s s' → node n n' → build b b' →
      build (convertNode ctx s b n) (convertNode ctx' s' b' n')
  outputBindings {s s' : Scope} {d d' : Definition} {b b' : Build} :
    toRelations.Scopes s s' → definition d d' → build b b' →
      outputs (outputBindings s d b).1 (outputBindings s' d' b').1
        ∧ build (outputBindings s d b).2 (outputBindings s' d' b').2
  expanded {d d' : Definition} {out out' : Bindings} {b b' c c' : Build} :
    definition d d' → outputs out out' → build b b' → build c c' →
      ∀ pid depth,
        build (c.expanded pid d depth b.entries.length out)
          (c'.expanded pid d' depth b'.entries.length out')

/-- The role of a node is a matter of its mode and its type. -/
theorem role_congr {ctx : Context} {available : List Definition}
    {n n' : Node} (htype : n'.type = n.type) (hmode : n'.mode = n.mode) :
    role ctx available n' = role ctx available n := by
  cases n
  cases n'
  cases htype
  cases hmode
  rfl

/-- An instance has a definition. -/
theorem isDefined_of_role {ctx : Context} {available : List Definition}
    {n : Node} {d : Definition} {mem : d ∈ available}
    (h : role ctx available n = .occurrence d mem) :
    ctx.definitions.any (·.id = n.type) = true := by
  unfold role at h
  split at h
  · cases h
  split at h
  · cases h
  split at h
  · assumption
  split at h
  · cases h
  · cases h

namespace Likeness

variable {ctx ctx' : Context} {available available' : List Definition}
  (L : Likeness ctx ctx')

-- ==== plans

/-- Roles of related nodes. -/
inductive Roles : Role available → Role available' → Prop where
  | dropped (reason : DropReason) :
      Roles (.dropped reason) (.dropped reason)
  | occurrence {d d' : Definition} {mem : d ∈ available}
      {mem' : d' ∈ available'} (h : L.definition d d') :
      Roles (.occurrence d mem) (.occurrence d' mem')
  | ordinary : Roles .ordinary .ordinary

/-- Related nodes have related roles. -/
theorem role (hds : List.Forall₂ L.definition available available')
    {n n' : Node} (hn : L.node n n') :
    L.Roles (role ctx available n) (role ctx' available' n') := by
  obtain ⟨-, htype, hmode⟩ := L.same_role hn
  rw [role_congr htype hmode]
  have hid : ∀ d d', L.definition d d' →
      decide (d'.id = n.type) = decide (d.id = n.type) :=
    fun d d' hd => by rw [L.same_id hd]
  have hfind := find?_rel hds hid
  unfold Flatten.role
  rw [L.registry, L.table, any_rel L.definitions hid]
  split
  · exact .dropped _
  split
  · exact .dropped _
  split
  · split
    · next d hd =>
      split
      · next d' hd' =>
        rw [hd, hd'] at hfind
        cases hfind with
        | some h => exact .occurrence h
      · next hnone =>
        rw [hd, hnone] at hfind
        cases hfind
    · next hnone =>
      split
      · next d' hd' =>
        rw [hnone, hd'] at hfind
        cases hfind
      · exact .dropped _
  split
  · exact .ordinary
  · exact .dropped _

/-- One instance with its definition in each. -/
structure Sites (s : Site available) (s' : Site available') : Prop where
  id : s'.id = s.id
  definition : L.definition s.definition s'.definition

/-- Sites are put alike. -/
theorem putSite {s : Site available} {s' : Site available'}
    (hs : L.Sites s s') {l : List (Site available)}
    {l' : List (Site available')} (hl : List.Forall₂ L.Sites l l') :
    List.Forall₂ L.Sites (Plan.putSite s l) (Plan.putSite s' l') := by
  induction hl with
  | nil => exact .cons hs .nil
  | cons ht hrest ih =>
      unfold Plan.putSite
      rw [ht.id, hs.id]
      split
      · exact .cons hs hrest
      · exact .cons ht ih

structure Plans (p : Plan available) (p' : Plan available') : Prop where
  sites : List.Forall₂ L.Sites p.sites p'.sites
  ordinary : List.Forall₂ L.node p.ordinary p'.ordinary

/-- A node is planned alike. -/
theorem planNode (hds : List.Forall₂ L.definition available available')
    (path : String) {n n' : Node} (hn : L.node n n')
    {x : Plan available × Build} {x' : Plan available' × Build}
    (hp : L.Plans x.1 x'.1) (hb : L.build x.2 x'.2) :
    L.Plans (planNode ctx available path x n).1
        (planNode ctx' available' path x' n').1
      ∧ L.build (planNode ctx available path x n).2
        (planNode ctx' available' path x' n').2 := by
  obtain ⟨hid, htype, -⟩ := L.same_role hn
  have hrole := L.role hds hn
  unfold Flatten.planNode
  rw [hid, htype]
  generalize Flatten.role ctx available n = r,
    Flatten.role ctx' available' n' = r' at hrole ⊢
  cases hrole with
  | dropped reason => exact ⟨hp, L.report hb _ [_]⟩
  | @occurrence d d' mem mem' hd =>
      have hsite : L.Sites (⟨n.id, d, mem⟩ : Site available)
          (⟨n.id, d', mem'⟩ : Site available') := ⟨rfl, hd⟩
      exact ⟨⟨L.putSite hsite hp.sites, hp.ordinary⟩, hb⟩
  | ordinary =>
      exact ⟨⟨hp.sites, List.rel_append hp.ordinary (.cons hn .nil)⟩, hb⟩

/-- So is a level. -/
theorem plan (hds : List.Forall₂ L.definition available available')
    (path : String) {l l' : Level} (hl : L.level l l') {b b' : Build}
    (hb : L.build b b') :
    L.Plans (plan ctx available path l.nodes b).1
        (plan ctx' available' path l'.nodes b').1
      ∧ L.build (plan ctx available path l.nodes b).2
        (plan ctx' available' path l'.nodes b').2 := by
  unfold Flatten.plan
  refine List.rel_foldl
    (P := fun (x : Plan available × Build) (x' : Plan available' × Build) =>
      L.Plans x.1 x'.1 ∧ L.build x.2 x'.2) ?_ ⟨⟨.nil, .nil⟩, hb⟩ (L.sorted hl)
  intro x x' hx n n' hn
  exact L.planNode hds path hn hx.1 hx.2

theorem warn {b b' : Build} (hb : L.build b b') (ds : List Diagnostic) :
    L.build (b.warn ds) (b'.warn ds) := by
  have hreport := L.report hb ds []
  rw [List.append_nil, List.append_nil] at hreport
  exact hreport

variable {L} {p : Plan available} {p' : Plan available'}

/-- The plans have sites for the same ids. -/
theorem Plans.ids_eq (h : L.Plans p p') :
    p'.sites.map (·.id) = p.sites.map (·.id) := by
  have hsites := h.sites
  generalize p.sites = l, p'.sites = l' at hsites ⊢
  induction hsites with
  | nil => rfl
  | cons hs _ ih => rw [List.map_cons, List.map_cons, ih, hs.id]

theorem Plans.isSite_eq (h : L.Plans p p') : p'.isSite = p.isSite := by
  funext id
  exact any_rel h.sites fun s s' hs => by rw [hs.id]

/-- The sites of a level are instances. -/
theorem hasInstance_of_site {path : String} {l : Level} {b : Build}
    {s : Site available}
    (h : s ∈ (Flatten.plan ctx available path l.nodes b).1.sites) :
    HasInstance ctx l s.id := by
  obtain ⟨n, hn, hid, hrole⟩ := mem_plan_sites h
  exact ⟨n, hn, hid, isDefined_of_role hrole⟩

-- ==== levels

/-- Two conversions of a level while its instances are expanded. -/
structure Stages (L : Likeness ctx ctx') (l l' : Level) (x x' : Scope × Build) :
    Prop where
  scopes : L.Scopes x.1 x'.1
  builds : L.build x.2 x'.2
  level : x.1.level = l
  level' : x'.1.level = l'

/-- Available definitions are converted alike on the inside. -/
def Insides (L : Likeness ctx ctx') (available available' : List Definition)
    (depth : Nat) : Prop :=
  ∀ d ∈ available, ∀ d', L.definition d d' →
    ∀ path ports b b', L.build b b' →
      L.outputs
          (Flatten.convertLevel ctx (without available d) (depth + 1) d.level
            path ports (some d) b).1
          (Flatten.convertLevel ctx' (without available' d') (depth + 1)
            d'.level path ports (some d') b').1
        ∧ L.build
          (Flatten.convertLevel ctx (without available d) (depth + 1) d.level
            path ports (some d) b).2
          (Flatten.convertLevel ctx' (without available' d') (depth + 1)
            d'.level path ports (some d') b').2

/-- A site is expanded alike. -/
theorem expandSite {depth : Nat} (inner : L.Insides available available' depth)
    (hp : L.Plans p p') {l l' : Level}
    (hsites : ∀ s ∈ p.sites, HasInstance ctx l s.id) (path : String) (id : Id)
    {x x' : Scope × Build} (hx : L.Stages l l' x x') :
    L.Stages l l' (expandSite ctx available depth l path p x id)
      (expandSite ctx' available' depth l' path p' x' id) := by
  obtain ⟨hs, hb, rfl, rfl⟩ := hx
  have hfind := find?_rel (p := fun s => s.id = id) (q := fun s => s.id = id)
    hp.sites fun s s' hs => by rw [hs.id]
  have hinstance : ∀ s, p.sites.find? (·.id = id) = some s →
      HasInstance ctx x.1.level id := by
    intro s hs
    have hid := List.find?_some hs
    rw [← of_decide_eq_true hid]
    exact hsites s (List.mem_of_find?_eq_some hs)
  unfold Flatten.expandSite
  generalize p.sites.find? _ = o, p'.sites.find? _ = o' at hfind hinstance ⊢
  cases hfind with
  | none => exact ⟨hs, hb, rfl, rfl⟩
  | @some site site' hsite =>
      obtain ⟨hports, hbound⟩ := L.bindPorts hs hsite.definition hb id
        (hinstance site rfl)
      obtain ⟨houtputs, hinner⟩ := inner site.definition site.mem
        site'.definition hsite.definition (instancePath path id)
        (Flatten.bindPorts x.1 ((x.1.level.node? id).getD {}) id
          site.definition x.2).1 _ _ hbound
      dsimp only
      rw [hports]
      refine ⟨⟨hs.level, hs.path, hs.ports, hs.isSite, ?_⟩, ?_, rfl, rfl⟩
      · exact List.rel_append hs.expanded (.cons ⟨rfl, houtputs⟩ .nil)
      · exact L.expanded hsite.definition houtputs hbound hinner
          (path ++ id.text) (depth + 1)

/-- All sites are expanded alike. -/
theorem expandSites {depth : Nat} (inner : L.Insides available available' depth)
    (hp : L.Plans p p') {l l' : Level}
    (hsites : ∀ s ∈ p.sites, HasInstance ctx l s.id) (path : String)
    (order : List Id) {x x' : Scope × Build} (hx : L.Stages l l' x x') :
    L.Stages l l'
      (order.foldl (Flatten.expandSite ctx available depth l path p) x)
      (order.foldl (Flatten.expandSite ctx' available' depth l' path p') x') :=
  List.foldl_rel hx fun id _ _ _ => expandSite inner hp hsites path id

variable (L)

/-- Related levels are converted alike. -/
theorem convertLevel {available available' : List Definition}
    (hds : List.Forall₂ L.definition available available') (depth : Nat)
    {l l' : Level} (hl : L.level l l') (path : String) (ports : Bindings)
    {inside inside' : Option Definition}
    (hinside : Option.Rel L.definition inside inside') {b b' : Build}
    (hb : L.build b b') :
    L.outputs (convertLevel ctx available depth l path ports inside b).1
        (convertLevel ctx' available' depth l' path ports inside' b').1
      ∧ L.build (convertLevel ctx available depth l path ports inside b).2
        (convertLevel ctx' available' depth l' path ports inside' b').2 := by
  have inner : L.Insides available available' depth := by
    intro d hd d' hdd' path ports c c' hc
    exact convertLevel (without_rel (fun _ _ => L.same_id) hds hdd')
      (depth + 1) (L.inside hdd') path ports (.some hdd') hc
  have hplan := L.plan hds path hl hb
  have hsites : ∀ s ∈ (Flatten.plan ctx available path l.nodes b).1.sites,
      HasInstance ctx l s.id :=
    fun s hs => hasInstance_of_site hs
  rw [convertLevel_eq, convertLevel_eq]
  generalize Flatten.plan ctx available path l.nodes b = pl,
    Flatten.plan ctx' available' path l'.nodes b' = pl' at hplan hsites ⊢
  obtain ⟨hp, hplanned⟩ := hplan
  have horder : expansionOrder l' pl'.1 = expansionOrder l pl.1 := by
    unfold expansionOrder
    rw [hp.ids_eq]
    refine L.order hl _ fun id hid => ?_
    obtain ⟨s, hs, rfl⟩ := List.mem_map.1 hid
    exact hsites s hs
  dsimp only
  rw [horder]
  generalize expansionOrder l pl.1 = order
  have hopen : L.Stages l l'
      (openScope l path ports pl.1, pl.2.warn (cycleWarning path order.2))
      (openScope l' path ports pl'.1, pl'.2.warn (cycleWarning path order.2)) :=
    ⟨⟨hl, rfl, rfl, hp.isSite_eq, .nil⟩, L.warn hplanned _, rfl, rfl⟩
  obtain ⟨hs, hexpanded, -, -⟩ := expandSites inner hp hsites path order.1
    hopen
  have hnodes := List.rel_foldl (P := L.build) (R := L.node)
    (fun c c' hc n n' hn => L.convertNode hs hn hc) hexpanded hp.ordinary
  cases hinside with
  | none => exact ⟨L.no_outputs, hnodes⟩
  | some hd => exact L.outputBindings hs hd hnodes
termination_by available.length
decreasing_by exact length_without_lt hd

end Likeness

/-- Alike workflows are inlined alike. -/
theorem Likeness.inlined {registry : Registry} {table : NodeTable}
    {source : String} {w w' : Workflow}
    (L : Likeness (contextOf registry table w) (contextOf registry table w'))
    (hroot : L.level w.root w'.root)
    (hfirst : L.build (firstBuild source w) (firstBuild source w')) :
    L.build (inlined registry table source w)
      (inlined registry table source w') := by
  unfold Flatten.inlined convertAt
  rw [remaining_nil, remaining_nil]
  exact (L.convertLevel L.definitions 0 hroot "" [] .none hfirst).2

end PromptGraph.Flatten

/-
Which of several links an output port takes its value from.

The choice is made link by link: the first link into a port is kept until
one of the port's declared type comes, and then that one for good
(`Source.lean` has the run of it). Here the outcome is said without the
run. A port takes its value from the link that is `Preferred` among the
links into it, and from no other; and for each link after the first the
run reports once which one it keeps, so the reports about a port go
through the prefixes of the links into it (`accounts_chooseOutputs`).
-/
import Mathlib.Data.List.Forall2
import Mathlib.Data.List.Infix
import PromptGraph.Proofs.Flatten.DataFlow
import PromptGraph.Proofs.Json.Numeral

namespace PromptGraph.Flatten

open Editor
open Execution (Input)

-- ==== preference

/-- The links into an output port, in their order. -/
def linksInto (d : Definition) (slot : Int) (links : List Link) :
    List Link :=
  links.filter fun k => d.level.target k = .outputPort slot

/-- The port is declared with a type, and the link is of this type. -/
def HasPortType (d : Definition) (slot : Int) (k : Link) : Prop :=
  ∃ m : Nat, slot = m ∧ ∃ p, d.outputs[m]? = some p ∧ p.type ≠ ""
    ∧ k.type = p.type

/-- Of these links the first of the port's type or, if there is none of
this type, the first of all. -/
inductive Preferred (d : Definition) (slot : Int) :
    List Link → Link → Prop where
  | typed {before after : List Link} {k : Link}
      (untyped : ∀ j ∈ before, ¬ HasPortType d slot j)
      (isTyped : HasPortType d slot k) :
      Preferred d slot (before ++ k :: after) k
  | first {k : Link} {rest : List Link}
      (untyped : ∀ j ∈ k :: rest, ¬ HasPortType d slot j) :
      Preferred d slot (k :: rest) k

variable {d : Definition} {links : List Link} {slot : Int} {k : Link}

/-- The preferred link is one of the links. -/
theorem Preferred.mem (h : Preferred d slot links k) : k ∈ links := by
  cases h with
  | typed _ _ => exact List.mem_append_right _ List.mem_cons_self
  | first _ => exact List.mem_cons_self

/-- A link matches a port by its type. -/
theorem matchesPort_iff :
    matchesPort k.type (portType d.outputs slot) = true
      ↔ HasPortType d slot k := by
  unfold matchesPort HasPortType portType
  rw [Bool.and_eq_true, decide_eq_true_eq, decide_eq_true_eq]
  constructor
  · rintro ⟨hdeclared, htype⟩
    by_cases hneg : slot < 0
    · rw [if_pos hneg] at hdeclared
      exact absurd rfl hdeclared
    · rw [if_neg hneg] at hdeclared htype
      cases hport : d.outputs[slot.toNat]? with
      | none =>
          rw [hport] at hdeclared
          exact absurd rfl hdeclared
      | some p =>
          rw [hport] at hdeclared htype
          exact ⟨slot.toNat, by omega, p, hport, hdeclared, htype⟩
  · rintro ⟨m, rfl, p, hport, hdeclared, htype⟩
    rw [if_neg (by omega), Int.toNat_natCast, hport]
    exact ⟨hdeclared, htype⟩

/-- Which link is preferred can be computed, so there is one at most. -/
theorem preferred_iff :
    Preferred d slot links k
      ↔ (links.find? fun k =>
          matchesPort k.type (portType d.outputs slot)).or links.head?
        = some k := by
  have hno : ∀ l : List Link, (∀ j ∈ l, ¬ HasPortType d slot j) →
      l.find? (fun k => matchesPort k.type (portType d.outputs slot))
        = none := by
    intro l hl
    exact List.find?_eq_none.2 fun j hj hport =>
      hl j hj (matchesPort_iff.1 hport)
  constructor
  · rintro (⟨hbefore, htyped⟩ | hlinks)
    · rw [List.find?_append, hno _ hbefore, List.find?_cons,
        matchesPort_iff.2 htyped]
      rfl
    · rw [hno _ hlinks]
      rfl
  · intro h
    rcases Option.or_eq_some_iff.1 h with hfind | ⟨hnone, hhead⟩
    · obtain ⟨htyped, before, after, rfl, hbefore⟩ :=
        List.find?_eq_some_iff_append.1 hfind
      refine .typed (fun j hj hport => ?_) (matchesPort_iff.1 htyped)
      have hfalse := hbefore j hj
      rw [matchesPort_iff.2 hport] at hfalse
      cases hfalse
    · obtain ⟨rest, rfl⟩ := List.head?_eq_some_iff.1 hhead
      exact .first fun j hj hport =>
        List.find?_eq_none.1 hnone j hj (matchesPort_iff.2 hport)

/-- The choice is the preferred link. -/
theorem preferred_of_chosenAmong (h : chosenAmong d slot links = some k) :
    Preferred d slot (linksInto d slot links) k :=
  preferred_iff.2 h

/-- There is a choice where there is a link. -/
theorem exists_chosenAmong (h : linksInto d slot links ≠ []) :
    ∃ k, chosenAmong d slot links = some k := by
  unfold chosenAmong
  dsimp only
  obtain ⟨k, rest, hlinks⟩ := List.exists_cons_of_ne_nil h
  unfold linksInto at hlinks
  rw [hlinks, List.head?_cons]
  cases List.find? _ _ with
  | none => exact ⟨k, rfl⟩
  | some j => exact ⟨j, rfl⟩

/-- Nothing is chosen if there is no link. -/
theorem chosenAmong_eq_none_iff :
    chosenAmong d slot links = none ↔ linksInto d slot links = [] := by
  constructor
  · intro hnone
    by_contra hlinks
    obtain ⟨k, hk⟩ := exists_chosenAmong hlinks
    rw [hnone] at hk
    cases hk
  · intro hlinks
    unfold chosenAmong
    unfold linksInto at hlinks
    rw [hlinks]
    rfl

-- ==== reports

/-- The reports that an output port has several links. -/
def reportsAbout (path : String) (slot : Int) (ds : List Diagnostic) :
    List Diagnostic :=
  ds.filter fun x => x.code = "CV-003" ∧ x.path = outputsPath path slot

variable {path : String}

/-- A port is told by its path. -/
theorem outputsPath_inj {slot other : Int}
    (h : outputsPath path slot = outputsPath path other) : slot = other := by
  unfold outputsPath at h
  rw [← String.toList_inj] at h
  simp only [String.toList_append, List.append_assoc,
    List.append_cancel_left_eq, List.append_cancel_right_eq] at h
  have hread := Json.signed?_toString slot
  rw [h, Json.signed?_toString] at hread
  exact (Option.some.inj hread).symm

theorem reportsAbout_append (path : String) (slot : Int)
    (ds es : List Diagnostic) :
    reportsAbout path slot (ds ++ es)
      = reportsAbout path slot ds ++ reportsAbout path slot es :=
  List.filter_append ..

/-- A report is about its own port alone. -/
theorem reportsAbout_severalLinks (path : String) (slot port : Int)
    (d : Definition) (k : Link) :
    reportsAbout path slot [severalLinks path port d k]
      = if port = slot then [severalLinks path port d k] else [] := by
  have hcode : (severalLinks path port d k).code = "CV-003" := rfl
  have hpath : (severalLinks path port d k).path = outputsPath path port := rfl
  unfold reportsAbout
  rw [List.filter_singleton, hcode, hpath]
  by_cases h : port = slot
  · simp [h]
  · have hne : outputsPath path port ≠ outputsPath path slot :=
      fun heq => h (outputsPath_inj heq)
    simp [h, hne]

/-- Resolving a link reports unbound outputs and nothing else. -/
theorem reportsAbout_resolve (s : Scope) (k : Link) (consumer path : String)
    (slot : Int) : reportsAbout path slot (s.resolve k consumer).2 = [] := by
  unfold Scope.resolve
  split
  · rfl
  · rfl
  · dsimp only
    split
    · split
      · rfl
      · rw [reportsAbout, List.filter_singleton]
        rfl
    · rfl

/-- The report names the link that is preferred among these. -/
def Names (path : String) (d : Definition) (slot : Int) (links : List Link)
    (x : Diagnostic) : Prop :=
  ∃ k, Preferred d slot links k ∧ x = severalLinks path slot d k

theorem linksInto_append (d : Definition) (slot : Int)
    (links links' : List Link) :
    linksInto d slot (links ++ links')
      = linksInto d slot links ++ linksInto d slot links' :=
  List.filter_append ..

theorem drop_inits_concat {l : List Link} (h : l ≠ []) (k : Link) :
    (l ++ [k]).inits.drop 2 = l.inits.drop 2 ++ [l ++ [k]] := by
  have hlength : 2 ≤ l.inits.length := by
    rw [List.length_inits]
    have := List.length_pos_of_ne_nil h
    omega
  have hinits : (l ++ [k]).inits = l.inits ++ [l ++ [k]] := by
    rw [List.inits_append]
    rfl
  rw [hinits, List.drop_append_of_le_length hlength]

/-- What one link adds to the reports: nothing if it is the first into its
port, and otherwise which link is kept now. -/
theorem chooseStep_snd {x : List (Int × Link) × List Diagnostic}
    (h : HoldsChoices d links x.1) {port : Int}
    (hport : d.level.target k = .outputPort port) :
    linksInto d port links = [] ∧ (chooseStep d path x k).2 = x.2
      ∨ ∃ kept, linksInto d port links ≠ []
        ∧ chosenAmong d port (links ++ [k]) = some kept
        ∧ (chooseStep d path x k).2
          = x.2 ++ [severalLinks path port d kept] := by
  unfold chooseStep
  rw [hport]
  dsimp only
  have hfind := h.find? port
  cases hchosen : chosenAmong d port links with
  | none =>
      rw [hchosen, Option.map_none] at hfind
      rw [hfind]
      exact .inl ⟨chosenAmong_eq_none_iff.1 hchosen, rfl⟩
  | some prev =>
      rw [hchosen, Option.map_some] at hfind
      rw [hfind]
      refine .inr ⟨_, ?_, ?_, rfl⟩
      · intro hlinks
        rw [chosenAmong_eq_none_iff.2 hlinks] at hchosen
        cases hchosen
      · rw [chosenAmong_append hport, hchosen]
        dsimp only
        split
        · rfl
        · rfl

/-- The reports about a port name, for each of the links into it after the
first, the link that is preferred up to there. -/
def Accounts (d : Definition) (path : String) (links : List Link)
    (ds : List Diagnostic) : Prop :=
  ∀ slot, List.Forall₂ (Names path d slot)
    ((linksInto d slot links).inits.drop 2) (reportsAbout path slot ds)

/-- One link more keeps the account. -/
theorem Accounts.step {x : List (Int × Link) × List Diagnostic}
    (h : HoldsChoices d links x.1) (hx : Accounts d path links x.2) (k : Link) :
    Accounts d path (links ++ [k]) (chooseStep d path x k).2 := by
  intro slot
  rw [linksInto_append]
  by_cases hslot : d.level.target k = .outputPort slot
  · have hk : linksInto d slot [k] = [k] :=
      List.filter_cons_of_pos (decide_eq_true hslot)
    rw [hk]
    rcases chooseStep_snd h hslot with ⟨hfirst, heq⟩ | ⟨kept, hmore, hkept, heq⟩
    · have hnone := hx slot
      rw [hfirst] at hnone
      rw [heq, hfirst]
      exact hnone
    · rw [heq, drop_inits_concat hmore, reportsAbout_append,
        reportsAbout_severalLinks, if_pos rfl]
      have hpreferred := preferred_of_chosenAmong hkept
      rw [linksInto_append, hk] at hpreferred
      exact List.rel_append (hx slot) (.cons ⟨kept, hpreferred, rfl⟩ .nil)
  · have hk : linksInto d slot [k] = [] :=
      List.filter_cons_of_neg (by simpa using hslot)
    have hsame : reportsAbout path slot (chooseStep d path x k).2
        = reportsAbout path slot x.2 := by
      cases hend : d.level.target k with
      | node id port => simp only [chooseStep, hend]
      | inputPort port => simp only [chooseStep, hend]
      | outputPort port =>
          have hother : port ≠ slot := by
            rintro rfl
            exact hslot hend
          rcases chooseStep_snd h hend with ⟨-, heq⟩ | ⟨kept, -, -, heq⟩
          · rw [heq]
          · rw [heq, reportsAbout_append, reportsAbout_severalLinks,
              if_neg hother, List.append_nil]
    rw [hk, List.append_nil, hsame]
    exact hx slot

/-- All conflicts are reported. -/
theorem accounts_chooseOutputs (d : Definition) (path : String) :
    Accounts d path d.level.links (chooseOutputs d.level path d).2 := by
  have hrun : ∀ links : List Link,
      HoldsChoices d links (links.foldl (chooseStep d path) ([], [])).1
        ∧ Accounts d path links
          (links.foldl (chooseStep d path) ([], [])).2 := by
    intro links
    induction links using List.reverseRecOn with
    | nil => exact ⟨⟨List.nodup_nil, fun slot => rfl⟩, fun slot => .nil⟩
    | append_singleton links k ih =>
        rw [List.foldl_append, List.foldl_cons, List.foldl_nil]
        exact ⟨ih.1.step k, .step ih.1 ih.2 k⟩
  rw [chooseOutputs_eq]
  exact (hrun _).2

-- ==== bindings

/-- With each slot once, what is bound is found. -/
theorem Bindings.get?_of_mem {b : Bindings} (h : (b.map Prod.fst).Nodup)
    {v : Input} (hv : (slot, v) ∈ b) : b.get? slot = some v := by
  induction b with
  | nil => cases hv
  | cons c b ih =>
      rw [List.map_cons, List.nodup_cons] at h
      rw [Bindings.get?_cons]
      rcases List.mem_cons.1 hv with rfl | hv
      · exact if_pos rfl
      · have hne : c.1 ≠ slot := by
          intro heq
          exact h.1 (List.mem_map.2 ⟨_, hv, heq.symm⟩)
        rw [if_neg hne]
        exact ih h.2 hv

/-- An output is bound once. -/
theorem nodup_outputBindings {s : Scope} (hs : s.level = d.level) (b : Build) :
    ((outputBindings s d b).1.map Prod.fst).Nodup := by
  have hsub : ∀ l : List (Int × Link), List.Sublist
      ((l.filterMap fun c => (s.resolve c.2 (outputsPath s.path c.1)).1.map
        fun v => (c.1, v)).map Prod.fst) (l.map Prod.fst) := by
    intro l
    induction l with
    | nil => exact List.Sublist.refl _
    | cons c l ih =>
        cases hv : (s.resolve c.2 (outputsPath s.path c.1)).1 with
        | none =>
            rw [List.filterMap_cons_none (by rw [hv]; rfl)]
            exact ih.cons _
        | some v =>
            rw [List.filterMap_cons_some (by rw [hv]; rfl)]
            exact ih.cons_cons _
  rw [outputBindings_eq, hs]
  exact (hsub _).nodup (holdsChoices_chooseOutputs d s.path).nodup

/-- The conversion reports what the choice reports, and then what the
chosen links have to say. -/
theorem reportsAbout_outputBindings (s : Scope) (d : Definition) (b : Build) :
    ∃ ds, (outputBindings s d b).2 = b.warn ds
      ∧ ∀ slot, reportsAbout s.path slot ds
        = reportsAbout s.path slot (chooseOutputs s.level s.path d).2 := by
  refine ⟨(chooseOutputs s.level s.path d).2
      ++ (chooseOutputs s.level s.path d).1.flatMap fun c =>
        (s.resolve c.2 (outputsPath s.path c.1)).2, ?_, fun slot => ?_⟩
  · rw [outputBindings_eq]
    simp [Build.warn]
  · have hresolve : reportsAbout s.path slot
        ((chooseOutputs s.level s.path d).1.flatMap fun c =>
          (s.resolve c.2 (outputsPath s.path c.1)).2) = [] := by
      unfold reportsAbout
      rw [List.filter_flatMap]
      exact List.flatMap_eq_nil_iff.2 fun c _ => reportsAbout_resolve ..
    rw [reportsAbout_append, hresolve, List.append_nil]

/-- Every output port of a definition that a link leads to is bound to
what the preferred one of these links carries; nothing is bound to a port
from a link that leads elsewhere; and each link into a port after the
first is reported once, with the link that is preferred up to there. -/
theorem output_port_takes_preferred_link {s : Scope} {d : Definition}
    (hs : s.level = d.level) (b : Build) :
    ((outputBindings s d b).1.map Prod.fst).Nodup
      ∧ (∀ slot, (∃ k ∈ s.level.links, s.level.target k = .outputPort slot) →
          ∃ k, Preferred d slot (linksInto d slot s.level.links) k
            ∧ (outputBindings s d b).1.get? slot
              = (s.resolve k (outputsPath s.path slot)).1)
      ∧ (∀ slot v, (slot, v) ∈ (outputBindings s d b).1 →
          ∃ k ∈ s.level.links, s.level.target k = .outputPort slot
            ∧ (s.resolve k (outputsPath s.path slot)).1 = some v)
      ∧ ∃ ds, (outputBindings s d b).2 = b.warn ds
          ∧ ∀ slot, (reportsAbout s.path slot ds).length
              = (linksInto d slot s.level.links).length - 1
            ∧ List.Forall₂ (Names s.path d slot)
                ((linksInto d slot s.level.links).inits.drop 2)
                (reportsAbout s.path slot ds) := by
  refine ⟨nodup_outputBindings hs b, ?_, ?_, ?_⟩
  · rintro slot ⟨j, hj, htarget⟩
    rw [hs] at hj htarget ⊢
    have hlinks : linksInto d slot d.level.links ≠ [] :=
      List.ne_nil_of_mem (List.mem_filter.2 ⟨hj, decide_eq_true htarget⟩)
    obtain ⟨k, hk⟩ := exists_chosenAmong hlinks
    refine ⟨k, preferred_of_chosenAmong hk, ?_⟩
    rw [get?_outputBindings hs, chosenLink?, hk]
    rfl
  · intro slot v hv
    have hget := Bindings.get?_of_mem (nodup_outputBindings hs b) hv
    rw [get?_outputBindings hs] at hget
    obtain ⟨k, hk, hvalue⟩ := Option.bind_eq_some_iff.1 hget
    obtain ⟨hmem, htarget⟩ :=
      List.mem_filter.1 (preferred_of_chosenAmong hk).mem
    rw [hs]
    exact ⟨k, hmem, of_decide_eq_true htarget, hvalue⟩
  · obtain ⟨ds, hds, hreports⟩ := reportsAbout_outputBindings s d b
    refine ⟨ds, hds, fun slot => ?_⟩
    have haccounts := accounts_chooseOutputs d s.path slot
    rw [hreports, hs]
    refine ⟨?_, haccounts⟩
    rw [← haccounts.length_eq, List.length_drop, List.length_inits]
    omega

/-- A definition with one declared port. Three links lead to it, and two
to a port that is not declared. -/
def crowded : Definition :=
  { id := "crowd"
    outputList := some [{ type := "IMAGE" }]
    linkList := some
      [{ id := ⟨"1"⟩, origin := ⟨"5"⟩, target := ⟨"-20"⟩, type := "*" },
       { id := ⟨"2"⟩, origin := ⟨"5"⟩, target := ⟨"-20"⟩, targetSlot := 3,
         type := "MASK" },
       { id := ⟨"3"⟩, origin := ⟨"6"⟩, target := ⟨"-20"⟩, type := "IMAGE" },
       { id := ⟨"4"⟩, origin := ⟨"6"⟩, target := ⟨"-20"⟩, targetSlot := 3,
         type := "IMAGE" },
       { id := ⟨"5"⟩, origin := ⟨"7"⟩, target := ⟨"-20"⟩, type := "IMAGE" }] }

def crowdedScope : Scope :=
  { level := crowded.level, path := "sg1_", ports := [], isSite := fun _ => false }

/-- The declared port takes the first link of its type, which comes second,
and the other port the first link. -/
theorem output_port_takes_preferred_link_crowded :
    crowdedScope.level = crowded.level
      ∧ (outputBindings crowdedScope crowded {}).1.get? 0
        = some (.ref ⟨"sg1_6", 0⟩)
      ∧ (outputBindings crowdedScope crowded {}).1.get? 3
        = some (.ref ⟨"sg1_5", 0⟩)
      ∧ ∃ ds, (outputBindings crowdedScope crowded {}).2 = Build.warn {} ds
        ∧ (reportsAbout "sg1_" 0 ds).length = 2
        ∧ (reportsAbout "sg1_" 3 ds).length = 1 := by
  obtain ⟨-, hbound, -, ds, hds, hreports⟩ :=
    output_port_takes_preferred_link (s := crowdedScope) (d := crowded) rfl {}
  refine ⟨rfl, ?_, ?_, ds, hds, (hreports 0).1, (hreports 3).1⟩
  · obtain ⟨k, hk, hget⟩ := hbound 0 ⟨_, List.mem_cons_self, rfl⟩
    cases preferred_iff.1 hk
    exact hget
  · obtain ⟨k, hk, hget⟩ :=
      hbound 3 ⟨_, List.mem_cons_of_mem _ List.mem_cons_self, rfl⟩
    cases preferred_iff.1 hk
    exact hget

end PromptGraph.Flatten

/-
What becomes of references once every entry is known.

A reference that names an instance is followed through output bindings.
The relation `Ends` says where such a walk ends, with no bound on its
length; a walk in a circle ends nowhere. `follow` is bounded by the
number of bound outputs, and `follow_eq_some_iff` shows that the bound
never cuts a walk short: a walk that ends passes each bound output at
most once, for where it goes from there, and in how many steps it ends,
depends on the output alone.

The second half reads `patchReferences` and `sweepDangling` input by
input: keys and classes stay, literals stay, and a reference becomes
what its walk ends at, provided that this is a literal or an entry
(`settledEntries_spec`).
-/
import Mathlib.Data.List.Nodup
import Mathlib.Data.Nat.Find
import PromptGraph.Flatten.Convert
import PromptGraph.Proofs.Assoc

namespace PromptGraph.Flatten

open Execution (Input Ref Entry Graph)

-- ==== following bindings

/-- The walk from a reference through the outputs of instances ends at a
value: a reference to something that is no instance, or a literal. -/
inductive Ends (instances : Assoc Bindings) : Ref → Input → Prop where
  | producer {r : Ref} (free : Assoc.get? instances r.node = none) :
      Ends instances r (.ref r)
  | literal {r : Ref} {outputs : Bindings} {v : Json}
      (named : Assoc.get? instances r.node = some outputs)
      (bound : outputs.get? r.slot = some (.literal v)) :
      Ends instances r (.literal v)
  | next {r s : Ref} {outputs : Bindings} {u : Input}
      (named : Assoc.get? instances r.node = some outputs)
      (bound : outputs.get? r.slot = some (.ref s))
      (rest : Ends instances s u) : Ends instances r u

variable {instances : Assoc Bindings}

/-- One step of following, for an output that is bound to a reference. -/
theorem followFrom_succ {r s : Ref} {outputs : Bindings}
    (named : Assoc.get? instances r.node = some outputs)
    (bound : outputs.get? r.slot = some (.ref s)) (fuel : Nat) :
    followFrom instances (fuel + 1) r = followFrom instances fuel s := by
  rw [followFrom, named]
  dsimp only
  rw [bound]

variable {r : Ref} {u : Input} {fuel : Nat}

/-- What is found by following is where it ends. -/
theorem ends_of_followFrom (h : followFrom instances fuel r = some u) :
    Ends instances r u := by
  induction fuel generalizing r with
  | zero =>
      rw [followFrom] at h
      split at h
      · next free =>
        cases h
        exact .producer free
      · next outputs named =>
        split at h
        · cases h
        · next v bound =>
          cases h
          exact .literal named bound
        · cases h
  | succ fuel ih =>
      rw [followFrom] at h
      split at h
      · next free =>
        cases h
        exact .producer free
      · next outputs named =>
        split at h
        · cases h
        · next v bound =>
          cases h
          exact .literal named bound
        · next s bound => exact .next named bound (ih h)

/-- A walk that ends is followed to its end with some fuel. -/
theorem exists_followFrom (h : Ends instances r u) :
    ∃ fuel, followFrom instances fuel r = some u := by
  induction h with
  | producer free =>
      refine ⟨0, ?_⟩
      rw [followFrom, free]
  | literal named bound =>
      refine ⟨0, ?_⟩
      rw [followFrom, named]
      dsimp only
      rw [bound]
  | next named bound _ ih =>
      obtain ⟨fuel, hfuel⟩ := ih
      refine ⟨fuel + 1, ?_⟩
      rw [followFrom_succ named bound, hfuel]

/-- More fuel changes no answer. -/
theorem followFrom_mono (h : followFrom instances fuel r = some u) {more : Nat}
    (hle : fuel ≤ more) : followFrom instances more r = some u := by
  induction more generalizing fuel r with
  | zero =>
      obtain rfl : fuel = 0 := by omega
      exact h
  | succ more ih =>
      cases ends_of_followFrom h with
      | producer free => rw [followFrom, free]
      | literal named bound =>
          rw [followFrom, named]
          dsimp only
          rw [bound]
      | @next _ s _ _ named bound rest =>
          rw [followFrom_succ named bound]
          cases fuel with
          | zero =>
              rw [followFrom, named] at h
              dsimp only at h
              rw [bound] at h
              cases h
          | succ fuel =>
              rw [followFrom_succ named bound] at h
              exact ih h (by omega)

-- ==== the bound is enough

/-- The least fuel with which a walk is followed to its end. -/
def NeedsFuel (instances : Assoc Bindings) (fuel : Nat) (r : Ref) : Prop :=
  (followFrom instances fuel r).isSome = true
    ∧ ∀ less < fuel, followFrom instances less r = none

/-- A reference needs one amount of fuel. -/
theorem NeedsFuel.unique {fuel other : Nat} (h : NeedsFuel instances fuel r)
    (k : NeedsFuel instances other r) :
    fuel = other := by
  rcases Nat.lt_trichotomy fuel other with hlt | heq | hlt
  · have hsome := h.1
    rw [k.2 fuel hlt] at hsome
    cases hsome
  · exact heq
  · have hsome := k.1
    rw [h.2 other hlt] at hsome
    cases hsome

/-- Every output of every instance that is bound, by name and slot. -/
def boundPorts (instances : Assoc Bindings) : List (String × Int) :=
  instances.flatMap fun e => e.2.map fun o => (e.1, o.1)

theorem length_boundPorts :
    (boundPorts instances).length = boundOutputs instances := by
  unfold boundPorts boundOutputs
  rw [List.length_flatMap, List.length_flatMap]
  congr 1
  refine List.map_congr_left fun e _ => ?_
  rw [List.length_map]

/-- A reference that goes on is at a bound port. -/
theorem mem_boundPorts {outputs : Bindings} {v : Input}
    (named : Assoc.get? instances r.node = some outputs)
    (bound : outputs.get? r.slot = some v) :
    (r.node, r.slot) ∈ boundPorts instances := by
  unfold Bindings.get? at bound
  obtain ⟨o, hfind, rfl⟩ := Option.map_eq_some_iff.1 bound
  have hslot : o.1 = r.slot := by simpa using List.find?_some hfind
  refine List.mem_flatMap.2 ⟨_, Assoc.mem_of_get? named, ?_⟩
  exact List.mem_map.2 ⟨o, List.mem_of_find?_eq_some hfind, by rw [hslot]⟩

/-- There are no more different references to bound outputs than bound
outputs. -/
theorem length_le_boundOutputs {passed : List Ref} (hnodup : passed.Nodup)
    (hbound : ∀ s ∈ passed, (s.node, s.slot) ∈ boundPorts instances) :
    passed.length ≤ boundOutputs instances := by
  have hmap : (passed.map fun s => (s.node, s.slot)).Nodup := by
    refine hnodup.map fun s t hst => ?_
    obtain ⟨sn, ss⟩ := s
    obtain ⟨tn, ts⟩ := t
    cases hst
    rfl
  have hsub : (passed.map fun s => (s.node, s.slot))
      ⊆ boundPorts instances := by
    intro port hport
    obtain ⟨s, hs, rfl⟩ := List.mem_map.1 hport
    exact hbound s hs
  have hle := List.Nodup.length_le_of_subset hmap hsub
  rwa [List.length_map, length_boundPorts] at hle

/-- A walk that needs this much fuel passes as many bound outputs, no
two of them the same: each is further from the end than those after it. -/
theorem NeedsFuel.passes (h : NeedsFuel instances fuel r) :
    ∃ passed : List Ref, passed.length = fuel ∧ passed.Nodup
      ∧ ∀ s ∈ passed, (s.node, s.slot) ∈ boundPorts instances
        ∧ ∃ left, left ≤ fuel ∧ NeedsFuel instances left s := by
  induction fuel generalizing r with
  | zero => exact ⟨[], rfl, List.nodup_nil, fun s hs => absurd hs (by simp)⟩
  | succ fuel ih =>
      obtain ⟨u, hu⟩ := Option.isSome_iff_exists.1 h.1
      have hzero := h.2 0 (by omega)
      cases ends_of_followFrom hu with
      | producer free =>
          rw [followFrom, free] at hzero
          cases hzero
      | literal named bound =>
          rw [followFrom, named] at hzero
          dsimp only at hzero
          rw [bound] at hzero
          cases hzero
      | @next _ s _ _ named bound rest =>
          have hs : NeedsFuel instances fuel s := by
            refine ⟨?_, fun less hless => ?_⟩
            · rw [← followFrom_succ named bound]
              exact h.1
            · rw [← followFrom_succ named bound]
              exact h.2 (less + 1) (by omega)
          obtain ⟨passed, hlen, hnodup, hpassed⟩ := ih hs
          refine ⟨r :: passed, by rw [List.length_cons, hlen], ?_, ?_⟩
          · refine List.nodup_cons.2 ⟨fun hr => ?_, hnodup⟩
            obtain ⟨-, left, hleft, hneeds⟩ := hpassed r hr
            have := hneeds.unique h
            omega
          · intro t ht
            rcases List.mem_cons.1 ht with rfl | ht
            · exact ⟨mem_boundPorts named bound, fuel + 1, Nat.le_refl _, h⟩
            · obtain ⟨hmem, left, hleft, hneeds⟩ := hpassed t ht
              exact ⟨hmem, left, by omega, hneeds⟩

/-- There is fuel for every bound port. -/
theorem NeedsFuel.le_boundOutputs (h : NeedsFuel instances fuel r) :
    fuel ≤ boundOutputs instances := by
  obtain ⟨passed, rfl, hnodup, hpassed⟩ := h.passes
  exact length_le_boundOutputs hnodup fun s hs => (hpassed s hs).1

/-- Following yields exactly what the walk ends at. -/
theorem follow_eq_some_iff :
    follow instances r = some u ↔ Ends instances r u := by
  refine ⟨ends_of_followFrom, fun h => ?_⟩
  classical
  have hex : ∃ fuel, (followFrom instances fuel r).isSome = true := by
    obtain ⟨fuel, hfuel⟩ := exists_followFrom h
    exact ⟨fuel, by rw [hfuel]; rfl⟩
  have hneeds : NeedsFuel instances (Nat.find hex) r := by
    refine ⟨Nat.find_spec hex, fun less hless => ?_⟩
    have hmin := Nat.find_min hex hless
    rwa [Bool.not_eq_true, Option.isSome_eq_false_iff,
      Option.isNone_iff_eq_none] at hmin
  obtain ⟨fuel, hfuel⟩ := exists_followFrom h
  obtain ⟨v, hv⟩ := Option.isSome_iff_exists.1 hneeds.1
  -- both answers are those of a walk with enough fuel for either
  have huv : some u = some v := by
    rw [← followFrom_mono hfuel (Nat.le_max_left fuel (Nat.find hex)),
      ← followFrom_mono hv (Nat.le_max_right fuel (Nat.find hex))]
  rw [huv]
  exact followFrom_mono hv hneeds.le_boundOutputs

-- ==== settling input by input

/-- What becomes of one input: a literal stays, a reference is settled
or goes. -/
def settleInput (settle : Ref → Input ⊕ Diagnostic) : Input → Option Input
  | .literal v => some (.literal v)
  | .ref r => (settle r).getLeft?

/-- The inputs that are left are those that were settled. -/
theorem mem_settleInputs {settle : String → Ref → Input ⊕ Diagnostic}
    {t : Assoc Input} {name : String} :
    (name, u) ∈ (settleInputs settle t).1
      ↔ ∃ v, (name, v) ∈ t ∧ settleInput (settle name) v = some u := by
  induction t with
  | nil => simp [settleInputs]
  | cons e rest ih =>
      obtain ⟨k, v⟩ := e
      have hcons : (∃ w, (name, w) ∈ (k, v) :: rest
            ∧ settleInput (settle name) w = some u)
          ↔ (name = k ∧ settleInput (settle name) v = some u)
            ∨ (name, u) ∈ (settleInputs settle rest).1 := by
        rw [ih]
        constructor
        · rintro ⟨w, hw, hu⟩
          rcases List.mem_cons.1 hw with heq | hw
          · cases heq
            exact Or.inl ⟨rfl, hu⟩
          · exact Or.inr ⟨w, hw, hu⟩
        · rintro (⟨rfl, hu⟩ | ⟨w, hw, hu⟩)
          · exact ⟨v, List.mem_cons_self, hu⟩
          · exact ⟨w, List.mem_cons_of_mem _ hw, hu⟩
      rw [hcons]
      cases v with
      | literal j =>
          rw [settleInputs]
          dsimp only
          rw [List.mem_cons]
          refine or_congr ?_ Iff.rfl
          rw [Prod.mk.injEq, settleInput, Option.some.injEq]
          exact and_congr_right fun _ => eq_comm
      | ref r =>
          rw [settleInputs]
          dsimp only
          cases hs : settle k r with
          | inl w =>
              dsimp only
              rw [List.mem_cons]
              refine or_congr ?_ Iff.rfl
              rw [Prod.mk.injEq]
              refine and_congr_right fun hname => ?_
              rw [hname, settleInput, hs, Sum.getLeft?_inl,
                Option.some.injEq, eq_comm]
          | inr d =>
              refine ⟨Or.inr, fun h => h.resolve_left ?_⟩
              rintro ⟨rfl, hu⟩
              rw [settleInput, hs, Sum.getLeft?_inr] at hu
              cases hu

/-- Settling keeps inputs in order. -/
theorem ascending_settleInputs {t : Assoc Input} (ht : t.Ascending)
    (settle : String → Ref → Input ⊕ Diagnostic) :
    (settleInputs settle t).1.Ascending := by
  induction t with
  | nil => exact Assoc.ascending_nil
  | cons e rest ih =>
      obtain ⟨k, v⟩ := e
      obtain ⟨hhead, htail⟩ := List.pairwise_cons.1 ht
      -- what is left of the tail has keys of the tail
      have hkeys : ∀ x ∈ (settleInputs settle rest).1, k < x.1 := by
        intro x hx
        obtain ⟨w, hw, -⟩ := mem_settleInputs.1 hx
        exact hhead (x.1, w) hw
      cases v with
      | literal j =>
          rw [settleInputs]
          exact List.pairwise_cons.2 ⟨hkeys, ih htail⟩
      | ref r =>
          rw [settleInputs]
          dsimp only
          cases settle k r with
          | inl w => exact List.pairwise_cons.2 ⟨hkeys, ih htail⟩
          | inr d => exact ih htail

/-- An entry without a table of inputs has none to settle. -/
theorem inputTable_settleEntry (settle : String → Ref → Input ⊕ Diagnostic)
    (e : Entry) :
    (settleEntry settle e).1.inputTable
      = (settleInputs settle e.inputTable).1 := by
  unfold settleEntry Entry.inputTable
  cases e.inputs with
  | none => rfl
  | some t => rfl

/-- Entries are settled one by one. -/
theorem get?_settleGraph (settle : String → String → Ref → Input ⊕ Diagnostic)
    (g : Graph) (id : String) :
    Assoc.get? (settleGraph settle g).1 id
      = (Assoc.get? g id).map fun e => (settleEntry (settle id) e).1 :=
  Assoc.get?_map (fun id e => (settleEntry (settle id) e).1) g id

/-- Settling keeps the ids. -/
theorem keys_settleGraph (settle : String → String → Ref → Input ⊕ Diagnostic)
    (g : Graph) : Assoc.keys (settleGraph settle g).1 = Assoc.keys g := by
  show List.map _ (List.map _ g) = _
  rw [List.map_map]
  rfl

-- ==== both passes over a build

/-- What the first pass makes of a reference. -/
def patchRef (instances : Assoc Bindings) (id name : String) (r : Ref) :
    Input ⊕ Diagnostic :=
  match follow instances r with
  | some v => .inl v
  | none => .inr (unboundInput id name r)

/-- What the second pass makes of one. -/
def sweepRef (g : Graph) (id name : String) (r : Ref) : Input ⊕ Diagnostic :=
  if Assoc.contains g r.node then .inl (.ref r)
  else .inr (danglingInput id name r)

theorem patchReferences_entries (b : Build) :
    (patchReferences b).entries
      = (settleGraph (patchRef b.instances) b.entries).1 := rfl

theorem sweepDangling_entries (b : Build) :
    (sweepDangling b).entries
      = (settleGraph (sweepRef b.entries) b.entries).1 := rfl

/-- The entries after both passes. -/
def settledEntries (b : Build) : Graph :=
  (sweepDangling (patchReferences b)).entries

theorem keys_settledEntries (b : Build) :
    Assoc.keys (settledEntries b) = Assoc.keys b.entries := by
  unfold settledEntries
  rw [sweepDangling_entries, keys_settleGraph, patchReferences_entries,
    keys_settleGraph]

/-- Both steps together keep the ids. -/
theorem contains_settledEntries (b : Build) (key : String) :
    Assoc.contains (settledEntries b) key = true
      ↔ Assoc.contains b.entries key = true := by
  rw [Assoc.contains_iff_mem_keys, Assoc.contains_iff_mem_keys,
    keys_settledEntries]

theorem contains_patchReferences (b : Build) (key : String) :
    Assoc.contains (patchReferences b).entries key = true
      ↔ Assoc.contains b.entries key = true := by
  rw [Assoc.contains_iff_mem_keys, Assoc.contains_iff_mem_keys,
    patchReferences_entries, keys_settleGraph]

/-- What an input becomes in the end: a literal stays, a reference turns
into what its walk ends at, if that is a literal or names an entry. -/
def Settles (b : Build) : Input → Input → Prop
  | .literal v, u => u = .literal v
  | .ref r, u => Ends b.instances r u
      ∧ ∀ s, u = .ref s → Assoc.contains b.entries s.node = true

/-- A reference is patched to where it ends. -/
theorem settleInput_patchRef {id name : String} {w : Input} :
    settleInput (patchRef instances id name) (.ref r) = some w
      ↔ Ends instances r w := by
  rw [← follow_eq_some_iff, settleInput, patchRef]
  cases follow instances r with
  | none =>
      constructor
      · intro h
        cases h
      · intro h
        cases h
  | some x => rfl

/-- The second pass keeps literals and references to entries. -/
theorem settleInput_sweepRef {g : Graph} {id name : String} {w u : Input} :
    settleInput (sweepRef g id name) w = some u
      ↔ u = w ∧ ∀ s, w = .ref s → Assoc.contains g s.node = true := by
  cases w with
  | literal j =>
      rw [settleInput, Option.some.injEq, eq_comm]
      refine ⟨fun h => ⟨h, fun s hs => ?_⟩, fun h => h.1⟩
      cases hs
  | ref r =>
      rw [settleInput, sweepRef]
      split
      · next hin =>
        rw [Sum.getLeft?_inl, Option.some.injEq, eq_comm]
        refine ⟨fun h => ⟨h, fun s hs => ?_⟩, fun h => h.1⟩
        cases hs
        exact hin
      · next hout =>
        rw [Sum.getLeft?_inr]
        refine ⟨fun h => ?_, fun h => absurd (h.2 r rfl) hout⟩
        cases h

/-- Both passes, one input at a time. -/
theorem settleInput_twice (b : Build) (id name : String) (v u : Input) :
    (∃ w, settleInput (patchRef b.instances id name) v = some w
        ∧ settleInput (sweepRef (patchReferences b).entries id name) w
          = some u)
      ↔ Settles b v u := by
  cases v with
  | literal j =>
      constructor
      · rintro ⟨w, hw, hu⟩
        cases hw
        exact (settleInput_sweepRef.1 hu).1
      · intro h
        refine ⟨.literal j, rfl, settleInput_sweepRef.2 ⟨h, ?_⟩⟩
        intro s hs
        cases hs
  | ref r =>
      constructor
      · rintro ⟨w, hw, hu⟩
        obtain ⟨rfl, hs⟩ := settleInput_sweepRef.1 hu
        refine ⟨settleInput_patchRef.1 hw, fun s heq => ?_⟩
        exact (contains_patchReferences b _).1 (hs s heq)
      · rintro ⟨hends, hs⟩
        refine ⟨u, settleInput_patchRef.2 hends,
          settleInput_sweepRef.2 ⟨rfl, fun s heq => ?_⟩⟩
        exact (contains_patchReferences b _).2 (hs s heq)

/-- An entry after both passes: of the same class, with what its inputs
settle to. -/
theorem settledEntries_spec (b : Build) {key : String} {e : Entry}
    (he : Assoc.get? b.entries key = some e) :
    ∃ e', Assoc.get? (settledEntries b) key = some e'
      ∧ e'.classType = e.classType
      ∧ (e.inputTable.Ascending → e'.inputTable.Ascending)
      ∧ ∀ name u, (name, u) ∈ e'.inputTable
          ↔ ∃ v, (name, v) ∈ e.inputTable ∧ Settles b v u := by
  have hpatch : Assoc.get? (patchReferences b).entries key
      = some (settleEntry (patchRef b.instances key) e).1 := by
    rw [patchReferences_entries, get?_settleGraph, he]
    rfl
  unfold settledEntries
  rw [sweepDangling_entries, get?_settleGraph, hpatch]
  refine ⟨_, rfl, rfl, fun hasc => ?_, fun name u => ?_⟩
  · dsimp only
    rw [inputTable_settleEntry, inputTable_settleEntry]
    exact ascending_settleInputs (ascending_settleInputs hasc _) _
  · dsimp only
    rw [inputTable_settleEntry, inputTable_settleEntry]
    refine mem_settleInputs.trans ?_
    constructor
    · rintro ⟨w, hw, hu⟩
      obtain ⟨v, hv, hvw⟩ := mem_settleInputs.1 hw
      exact ⟨v, hv, (settleInput_twice b key name v u).1 ⟨w, hvw, hu⟩⟩
    · rintro ⟨v, hv, hs⟩
      obtain ⟨w, hvw, hu⟩ := (settleInput_twice b key name v u).2 hs
      exact ⟨w, mem_settleInputs.2 ⟨v, hv, hvw⟩, hu⟩

end PromptGraph.Flatten

/-
Sorting by a key. Ids are compared by kind first, then as numbers, then
as texts: in each case by a key in a linear order. What is known of
sorted lists follows from that alone:

- a list sorted so is in ascending order of keys (`ByKey.pairwise_sort`),
  strictly if no two members have one key (`ByKey.strict_sort`);
- then there is one way to sort them (`ByKey.sorting_unique`), so that the
  order in which they were given does not matter
  (`ByKey.sort_eq_of_perm`).

The last key is a place: a list less its repetitions stands in the order
of first mention (`pairwise_idxOf_eraseDups`).
-/
import Mathlib.Data.List.Induction
import Mathlib.Data.List.Perm.Subperm
import Mathlib.Data.Prod.Lex
import Mathlib.Data.String.Basic
import Mathlib.Logic.Equiv.Basic
import PromptGraph.Editor.Id
import PromptGraph.Execution.Graph
import PromptGraph.Proofs.Assoc

namespace PromptGraph

variable {α κ : Type} [LinearOrder κ]

/-- The comparison is that of the members' keys. -/
def ByKey (less : α → α → Bool) (key : α → κ) : Prop :=
  ∀ a b, less a b = true ↔ key a < key b

/-- The keys tell the members of the list apart. -/
def Distinct (key : α → κ) (l : List α) : Prop :=
  ∀ a ∈ l, ∀ b ∈ l, key a = key b → a = b

/-- `s` has the members of `l`, and none stands behind a greater one: what
sorting by the comparison may make of `l`. -/
structure Sorting (less : α → α → Bool) (l s : List α) : Prop where
  perm : s.Perm l
  inOrder : s.Pairwise fun a b => less b a = false

/-- A sorting does not depend on the order before it. -/
theorem Sorting.of_perm {less : α → α → Bool} {l l' s : List α}
    (h : Sorting less l s) (hperm : l.Perm l') : Sorting less l' s :=
  ⟨h.perm.trans hperm, h.inOrder⟩

namespace ByKey

variable {less : α → α → Bool} {key : α → κ}

/-- Not being behind is having no larger key. -/
theorem not_less (h : ByKey less key) (a b : α) :
    (!less b a) = true ↔ key a ≤ key b := by
  rw [Bool.not_eq_true', Bool.eq_false_iff, ne_eq, h b a, not_lt]

theorem irrefl (h : ByKey less key) (a : α) : less a a = false := by
  rw [Bool.eq_false_iff, ne_eq, h a a]
  exact lt_irrefl _

theorem trans (h : ByKey less key) {a b c : α} (hab : less a b = true)
    (hbc : less b c = true) : less a c = true := by
  rw [h] at hab hbc ⊢
  exact hab.trans hbc

/-- Neither comes first only if they have one key. -/
theorem incomparable_iff (h : ByKey less key) (a b : α) :
    less a b = false ∧ less b a = false ↔ key a = key b := by
  rw [← Bool.not_eq_true', ← Bool.not_eq_true', h.not_less, h.not_less,
    and_comm]
  exact le_antisymm_iff.symm

/-- Of two keys exactly one comes first. -/
theorem less_eq_not (h : ByKey less key) {a b : α} (hne : key a ≠ key b) :
    less a b = !less b a := by
  rw [Bool.eq_iff_iff, h.not_less, h a b]
  exact ⟨le_of_lt, fun hle => lt_of_le_of_ne hle hne⟩

/-- Sorting puts the keys in order. -/
theorem pairwise_sort (h : ByKey less key) (l : List α) :
    (l.mergeSort fun a b => !less b a).Pairwise fun a b => key a ≤ key b := by
  have hsorted : (l.mergeSort fun a b => !less b a).Pairwise
      fun a b => (!less b a) = true := by
    refine List.pairwise_mergeSort (fun a b c hab hbc => ?_) (fun a b => ?_) l
    · rw [h.not_less] at hab hbc ⊢
      exact hab.trans hbc
    · rw [Bool.or_eq_true, h.not_less, h.not_less]
      exact le_total _ _
  exact hsorted.imp fun {a b} hab => (h.not_less a b).1 hab

/-- It is a sorting. -/
theorem sorting_sort (h : ByKey less key) (l : List α) :
    Sorting less l (l.mergeSort fun a b => !less b a) where
  perm := List.mergeSort_perm l _
  inOrder := (h.pairwise_sort l).imp fun {a b} hab => by
    simpa using (h.not_less a b).2 hab

/-- If the keys differ it is a strict one. -/
theorem strict_sort (h : ByKey less key) {l : List α} (hl : l.Nodup)
    (hkeys : Distinct key l) :
    (l.mergeSort fun a b => !less b a).Pairwise
      fun a b => less a b = true := by
  have hperm := List.mergeSort_perm l fun a b => !less b a
  have hboth := (h.pairwise_sort l).and (hperm.nodup_iff.2 hl)
  refine hboth.imp_of_mem fun {a b} ha hb hab => ?_
  rw [h a b]
  refine lt_of_le_of_ne hab.1 fun heq => hab.2 ?_
  exact hkeys a (hperm.mem_iff.1 ha) b (hperm.mem_iff.1 hb) heq

/-- Keys that tell the members apart leave one way to sort them. -/
theorem sorting_unique (h : ByKey less key) {l s s' : List α}
    (hs : Sorting less l s) (hs' : Sorting less l s')
    (hkeys : Distinct key l) : s = s' := by
  have hle : ∀ {t : List α}, Sorting less l t →
      t.Pairwise fun a b => key a ≤ key b := fun ht =>
    ht.inOrder.imp fun {a b} hab => (h.not_less a b).1 (by rw [hab]; rfl)
  refine List.Perm.eq_of_pairwise (fun a b ha hb hab hba => ?_)
    (hle hs) (hle hs') (hs.perm.trans hs'.perm.symm)
  exact hkeys a (hs.perm.mem_iff.1 ha) b (hs'.perm.mem_iff.1 hb)
    (le_antisymm hab hba)

/-- With distinct keys there is one sorting. -/
theorem sorting_iff (h : ByKey less key) {l s : List α}
    (hkeys : Distinct key l) :
    Sorting less l s ↔ s = l.mergeSort fun a b => !less b a := by
  refine ⟨fun hs => ?_, fun hs => hs ▸ h.sorting_sort l⟩
  exact h.sorting_unique hs (h.sorting_sort l) hkeys

/-- Two members of one key may change places. -/
theorem sorting_swap [DecidableEq α] (h : ByKey less key) {l s : List α}
    (hs : Sorting less l s) (hl : l.Nodup) {a b : α} (ha : a ∈ l) (hb : b ∈ l)
    (hkey : key a = key b) : Sorting less l (s.map (Equiv.swap a b)) := by
  have hswap : ∀ x ∈ l, Equiv.swap a b x ∈ l
      ∧ key (Equiv.swap a b x) = key x := by
    intro x hx
    rw [Equiv.swap_apply_def]
    split
    · next heq => exact ⟨hb, by rw [heq, hkey]⟩
    · split
      · next heq => exact ⟨ha, by rw [heq, hkey]⟩
      · exact ⟨hx, rfl⟩
  have hmem : ∀ {x}, x ∈ s → x ∈ l := hs.perm.mem_iff.1
  refine ⟨?_, ?_⟩
  · have hnodup : (s.map (Equiv.swap a b)).Nodup :=
      (hs.perm.nodup_iff.2 hl).map (Equiv.swap a b).injective
    have hsub : s.map (Equiv.swap a b) ⊆ l := by
      intro x hx
      obtain ⟨y, hy, rfl⟩ := List.mem_map.1 hx
      exact (hswap y (hmem hy)).1
    refine (List.subperm_of_subset hnodup hsub).perm_of_length_le ?_
    rw [List.length_map, hs.perm.length_eq]
  · refine List.pairwise_map.2 (hs.inOrder.imp_of_mem fun {x y} hx hy hxy => ?_)
    rw [← Bool.not_eq_true', h.not_less] at hxy ⊢
    rwa [(hswap x (hmem hx)).2, (hswap y (hmem hy)).2]

/-- With distinct keys the order before does not matter. -/
theorem sort_eq_of_perm (h : ByKey less key) {l l' : List α}
    (hperm : l.Perm l') (hkeys : Distinct key l) :
    (l.mergeSort fun a b => !less b a)
      = l'.mergeSort fun a b => !less b a :=
  h.sorting_unique (h.sorting_sort l) ((h.sorting_sort l').of_perm hperm.symm)
    hkeys

end ByKey

-- ==== first mentions

section
variable [BEq α] [LawfulBEq α]

/-- A list less its repetitions stands in the order of first mention. -/
theorem pairwise_idxOf_eraseDups (l : List α) :
    l.eraseDups.Pairwise fun a b => l.idxOf a < l.idxOf b := by
  induction l using List.reverseRecOn with
  | nil => exact List.Pairwise.nil
  | append_singleton l a ih =>
      have hold : l.eraseDups.Pairwise fun x y =>
          (l ++ [a]).idxOf x < (l ++ [a]).idxOf y := by
        refine ih.imp_of_mem fun {x y} hx hy hxy => ?_
        rwa [List.idxOf_append_of_mem (List.mem_eraseDups.1 hx),
          List.idxOf_append_of_mem (List.mem_eraseDups.1 hy)]
      rw [List.eraseDups_append]
      by_cases ha : a ∈ l
      · have hnone : ([a].removeAll l).eraseDups = [] := by
          simp [List.removeAll, ha]
        rwa [hnone, List.append_nil]
      · have hlast : ([a].removeAll l).eraseDups = [a] := by
          simp [List.removeAll, ha, List.eraseDups_cons]
        rw [hlast]
        refine List.pairwise_append.2
          ⟨hold, List.pairwise_singleton _ a, fun x hx y hy => ?_⟩
        have hmem := List.mem_eraseDups.1 hx
        rw [List.mem_singleton.1 hy, List.idxOf_append_of_mem hmem,
          List.idxOf_append_of_notMem ha]
        exact Nat.lt_add_right _ (List.idxOf_lt_length_of_mem hmem)

/-- What is left of duplicates is there once. -/
theorem nodup_eraseDups (l : List α) : l.eraseDups.Nodup := by
  refine (pairwise_idxOf_eraseDups l).imp fun {a b} hlt heq => ?_
  rw [heq] at hlt
  exact Nat.lt_irrefl _ hlt

end

-- ==== ids of entries

namespace Execution

/-- What ids of entries are compared by: numbers come before texts, and
ids of one number stand in the order of their texts. -/
def idKey (id : String) : Nat ×ₗ Nat ×ₗ String :=
  match idNumber? id with
  | some n => toLex (0, toLex (n.toNat, id))
  | none => toLex (1, toLex (0, id))

/-- Ids are told apart by their keys. -/
theorem idKey_injective {a b : String} (h : idKey a = idKey b) : a = b := by
  have htext : ∀ id, (ofLex (ofLex (idKey id)).2).2 = id := by
    intro id
    unfold idKey
    cases idNumber? id with
    | none => rfl
    | some n => rfl
  rw [← htext a, h, htext b]

/-- Ids are ordered by keys. -/
theorem lessId_byKey : ByKey lessId idKey := by
  intro a b
  unfold lessId idKey
  cases idNumber? a with
  | none =>
      cases idNumber? b with
      | none => simp [Prod.Lex.toLex_lt_toLex]
      | some n => simp [Prod.Lex.toLex_lt_toLex]
  | some m =>
      cases idNumber? b with
      | none => simp [Prod.Lex.toLex_lt_toLex]
      | some n =>
          by_cases hmn : m = n
          · simp [Prod.Lex.toLex_lt_toLex, hmn]
          · simp [Prod.Lex.toLex_lt_toLex, UInt64.lt_iff_toNat_lt,
              UInt64.toNat_inj, hmn]

/-- The ids of a graph are its keys. -/
theorem Graph.ids_perm (g : Graph) : g.ids.Perm (Assoc.keys g) :=
  List.mergeSort_perm _ _

variable {g : Graph}

/-- An id has an entry. -/
theorem Graph.mem_ids {id : String} :
    id ∈ g.ids ↔ ∃ e, Assoc.get? g id = some e := by
  rw [g.ids_perm.mem_iff, ← Assoc.contains_iff_mem_keys, Assoc.contains_iff]

/-- The ids of a graph stand in id order, each once. -/
theorem Graph.ids_ordered (hg : g.Ascending) :
    g.ids.Pairwise fun a b => lessId a b = true :=
  lessId_byKey.strict_sort hg.nodup_keys fun _ _ _ _ => idKey_injective

theorem Graph.nodup_ids (hg : g.Ascending) : g.ids.Nodup :=
  g.ids_perm.nodup_iff.2 hg.nodup_keys

theorem Graph.length_ids (g : Graph) : g.ids.length = g.length := by
  rw [g.ids_perm.length_eq, Assoc.keys, List.length_map]

end Execution

-- ==== ids of nodes

namespace Editor

/-- What ids of nodes are compared by: numbers come before texts, and two
texts of one number are not told apart. -/
def Id.key (i : Id) : Nat ×ₗ Int ×ₗ String :=
  match i.int? with
  | some n => toLex (0, toLex (n, ""))
  | none => toLex (1, toLex (0, i.text))

/-- The ids of nodes are ordered by keys. -/
theorem Id.less_byKey : ByKey Id.less Id.key := by
  intro a b
  unfold Id.less Id.key
  cases a.int? with
  | none =>
      cases b.int? with
      | none => simp [Prod.Lex.toLex_lt_toLex]
      | some n => simp [Prod.Lex.toLex_lt_toLex]
  | some m =>
      cases b.int? with
      | none => simp [Prod.Lex.toLex_lt_toLex]
      | some n => simp [Prod.Lex.toLex_lt_toLex]

end Editor

end PromptGraph

/-
The order of entry ids. Ids of one to nineteen digits count as numbers
and come first; all others are compared as texts.

Numbers are gathered digit by digit in a word of 64 bits. Nineteen digits
make less than 10^19, and that is less than 2^64, so no step of it drops
anything (`carry_lt`) and the word is the number spelt
(`toNat_of_idNumber?`). Numbers of one value, which differ in leading
zeros, are told apart as texts. So ids have keys of their own in a linear
order (`idKey_injective`), and there is one way to sort them.

Main statement: `entry_ids_in_one_order`.
-/
import PromptGraph.Proofs.KeyOrder
import PromptGraph.Proofs.Number.Positional

namespace PromptGraph.Execution

open Number (digit ofDigits ofDigits_append ofDigits_lt)

-- ==== digit by digit

/-- An id that counts as a number: one to nineteen digits. -/
def ShortNumeral (id : String) : Prop :=
  Json.Digits id.toList ∧ id.toList.length ≤ 19

variable {id : String} {n : UInt64}

theorem idNumber?_eq_some :
    idNumber? id = some n
      ↔ ShortNumeral id ∧ id.toList.foldl pushDigit 0 = n := by
  unfold idNumber? ShortNumeral Json.Digits
  simp only [Option.ite_none_left_eq_some, Option.some.injEq, Bool.or_eq_true,
    not_or, Bool.not_eq_true', Bool.not_eq_false, List.all_eq_true,
    List.isEmpty_iff, decide_eq_true_eq, Nat.not_lt, and_right_comm]

theorem shortNumeral_iff :
    ShortNumeral id ↔ ∃ n, idNumber? id = some n := by
  simp [idNumber?_eq_some]

theorem idNumber?_eq_none (h : ¬ ShortNumeral id) :
    idNumber? id = none := by
  rw [shortNumeral_iff, ← Option.isSome_iff_exists, Option.not_isSome_iff_eq_none] at h
  exact h

variable {c : Char}

theorem toNat_pushDigit (h : n.toNat * 10 + digit c < 2 ^ 64) :
    (pushDigit n c).toNat = n.toNat * 10 + digit c := by
  have hten : (10 : UInt64).toNat = 10 := rfl
  have hdigit : (digit c).toUInt64.toNat = digit c :=
    Nat.mod_eq_of_lt (by omega)
  unfold pushDigit
  rw [UInt64.toNat_add, UInt64.toNat_mul, hten, hdigit,
    Nat.mod_eq_of_lt (show n.toNat * 10 < 2 ^ 64 by omega), Nat.mod_eq_of_lt h]

/-- As many digits as are taken so far make less than ten to their
number, and one more leaves them below 2^64. -/
theorem carry_lt {ds : List Char}
    (hds : ∀ d ∈ ds ++ [c], Number.isDigit d = true)
    (hlen : (ds ++ [c]).length ≤ 19) :
    ofDigits 0 ds * 10 + digit c < 2 ^ 64 := by
  have hlt := ofDigits_lt hds
  have hlast : ofDigits 0 [c] = digit c := by simp [ofDigits]
  rw [ofDigits_append, hlast] at hlt
  calc ofDigits 0 ds * 10 + digit c
      < 10 ^ (ds ++ [c]).length := hlt
    _ ≤ 10 ^ 19 := Nat.pow_le_pow_right (by decide) hlen
    _ < 2 ^ 64 := by decide

/-- The word gathered from at most nineteen digits is their number. -/
theorem toNat_foldl_pushDigit {ds : List Char}
    (hds : ∀ d ∈ ds, Number.isDigit d = true) (hlen : ds.length ≤ 19) :
    (ds.foldl pushDigit 0).toNat = ofDigits 0 ds := by
  induction ds using List.reverseRecOn with
  | nil => rfl
  | append_singleton ds c ih =>
      have hbefore : (ds.foldl pushDigit 0).toNat = ofDigits 0 ds :=
        ih (fun d hd => hds d (List.mem_append_left _ hd))
          (by rw [List.length_append] at hlen; omega)
      have hcarry := carry_lt hds hlen
      rw [← hbefore] at hcarry
      rw [List.foldl_append, List.foldl_cons, List.foldl_nil,
        toNat_pushDigit hcarry, hbefore, ofDigits_append]
      simp [ofDigits]

theorem toNat_of_idNumber? (h : idNumber? id = some n) :
    n.toNat = ofDigits 0 id.toList := by
  obtain ⟨hshort, rfl⟩ := idNumber?_eq_some.1 h
  exact toNat_foldl_pushDigit hshort.1.2 hshort.2

/-- No step on the way to the number of an id exceeds 64 bits. -/
theorem foldl_pushDigit_lt (h : ShortNumeral id) {ds rest : List Char}
    (hid : id.toList = ds ++ c :: rest) :
    (ds.foldl pushDigit 0).toNat * 10 + digit c < 2 ^ 64 := by
  have hsplit : id.toList = ds ++ [c] ++ rest := by
    rw [hid, List.append_assoc, List.singleton_append]
  have hdigits : ∀ d ∈ ds ++ [c], Number.isDigit d = true := fun d hd =>
    h.1.2 d (by rw [hsplit]; exact List.mem_append_left _ hd)
  have hlen : (ds ++ [c]).length ≤ 19 := by
    have := h.2
    rw [hsplit, List.length_append] at this
    omega
  rw [toNat_foldl_pushDigit (fun d hd => hdigits d (List.mem_append_left _ hd))
    (by rw [List.length_append] at hlen; omega)]
  exact carry_lt hdigits hlen

-- ==== the order

theorem lessId_of_short {a b : String} (ha : ShortNumeral a)
    (hb : ¬ ShortNumeral b) : lessId a b = true := by
  obtain ⟨m, hm⟩ := shortNumeral_iff.1 ha
  unfold lessId
  rw [hm, idNumber?_eq_none hb]

theorem lessId_of_value_lt {a b : String} (ha : ShortNumeral a)
    (hb : ShortNumeral b)
    (h : ofDigits 0 a.toList < ofDigits 0 b.toList) : lessId a b = true := by
  obtain ⟨m, hm⟩ := shortNumeral_iff.1 ha
  obtain ⟨n, hn⟩ := shortNumeral_iff.1 hb
  rw [← toNat_of_idNumber? hm, ← toNat_of_idNumber? hn] at h
  have hne : m ≠ n := fun heq => by
    rw [heq] at h
    exact Nat.lt_irrefl _ h
  unfold lessId
  rw [hm, hn]
  simpa [hne] using UInt64.lt_iff_toNat_lt.2 h

theorem sortIds_eq_of_perm {ids ids' : List String} (h : ids.Perm ids') :
    sortIds ids = sortIds ids' :=
  lessId_byKey.sort_eq_of_perm h fun _ _ _ _ => idKey_injective

/-- Entry ids are in a strict total order: no id comes before itself, what
comes before an earlier id is earlier, and of two different ids exactly
one comes before the other. The ids that have a number are those of one
to nineteen digits; it is the number spelt, and no step of gathering it
in 64 bits exceeds them. These ids come before all others, and in numeric
order. So every sort of a list of ids gives the same list, in whichever
order they are enumerated, and so do the ids of a graph. -/
theorem entry_ids_in_one_order :
    (∀ a, lessId a a = false)
      ∧ (∀ a b c, lessId a b = true → lessId b c = true → lessId a c = true)
      ∧ (∀ a b, a ≠ b → lessId a b = !lessId b a)
      ∧ (∀ id, ShortNumeral id ↔ ∃ n, idNumber? id = some n)
      ∧ (∀ id n, idNumber? id = some n →
          n.toNat = ofDigits 0 id.toList
            ∧ ∀ ds c rest, id.toList = ds ++ c :: rest →
                (ds.foldl pushDigit 0).toNat * 10 + digit c < 2 ^ 64)
      ∧ (∀ a b, ShortNumeral a → ¬ ShortNumeral b → lessId a b = true)
      ∧ (∀ a b, ShortNumeral a → ShortNumeral b →
          ofDigits 0 a.toList < ofDigits 0 b.toList → lessId a b = true)
      ∧ (∀ ids s, Sorting lessId ids s ↔ s = sortIds ids)
      ∧ (∀ ids ids', ids.Perm ids' → sortIds ids = sortIds ids')
      ∧ ∀ g g' : Graph, (Assoc.keys g).Perm (Assoc.keys g') →
          g.ids = g'.ids := by
  refine ⟨lessId_byKey.irrefl, fun a b c => lessId_byKey.trans, ?_,
    fun id => shortNumeral_iff, ?_, fun a b => lessId_of_short,
    fun a b => lessId_of_value_lt, ?_,
    fun ids ids' => sortIds_eq_of_perm, fun g g' => sortIds_eq_of_perm⟩
  · intro a b hne
    exact lessId_byKey.less_eq_not fun hkey => hne (idKey_injective hkey)
  · intro id n hn
    refine ⟨toNat_of_idNumber? hn, fun ds c rest hid => ?_⟩
    exact foldl_pushDigit_lt (idNumber?_eq_some.1 hn).1 hid
  · intro ids s
    exact lessId_byKey.sorting_iff fun _ _ _ _ => idKey_injective

end PromptGraph.Execution

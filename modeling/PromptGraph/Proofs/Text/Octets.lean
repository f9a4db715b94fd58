/-
Text and its octets. A character is read back from the octets that stand
for it, whatever follows them (`takeChar?_append`), so a text is read back
from its octets (`ofOctets_octets`). Octets that are not those of a text
are not read back: the text they are read as has others
(`octets_ofOctets_iff`).

Octets keep the order of texts (`octets_lt_iff`): the first octet of a
character tells how many there are, more for a greater code, and the
digits of the code follow, the highest first.
-/
import Mathlib.Data.List.Basic
import Mathlib.Data.String.Basic
import PromptGraph.Text.Octets

namespace PromptGraph.Text

open String (utf8EncodeChar)

-- ==== octets

/-- Listing the octets from some place on. -/
theorem toList_loop (bs : ByteArray) (i : Nat) (r : List UInt8) :
    ByteArray.toList.loop bs i r = r.reverse ++ bs.data.toList.drop i := by
  fun_induction ByteArray.toList.loop bs i r with
  | case1 i r hlt ih =>
    have hlength : i < bs.data.toList.length := hlt
    have hget : bs.get! i = bs.data.toList[i] := by
      rw [Array.getElem_toList]
      exact dif_pos hlt
    rw [ih, List.reverse_cons, List.append_assoc, hget,
      List.drop_eq_getElem_cons hlength]
    rfl
  | case2 i r hge =>
    have hsize : bs.data.toList.length ≤ i := Nat.le_of_not_lt hge
    rw [List.drop_eq_nil_of_le hsize, List.append_nil]

theorem toList_eq (bs : ByteArray) : bs.toList = bs.data.toList := by
  unfold ByteArray.toList
  rw [toList_loop]
  rfl

/-- A text is encoded character by character. -/
theorem octets_eq (s : String) : octets s = s.toList.flatMap utf8EncodeChar := by
  unfold octets
  rw [toList_eq, String.toUTF8_eq_toByteArray, ← String.utf8Encode_toList]
  exact List.toList_data_toByteArray

theorem octets_singleton (c : Char) :
    octets (String.singleton c) = utf8EncodeChar c := by
  rw [octets_eq]
  simp

-- ==== reading

theorem toNat_octet {n : Nat} (h : n < 256) : (UInt8.ofNat n).toNat = n := by
  rw [UInt8.toNat_ofNat']
  omega

theorem continuation?_octet (n : Nat) :
    continuation? (UInt8.ofNat (n % 0x40 + 0x80)) = some (n % 0x40) := by
  unfold continuation?
  rw [toNat_octet (by omega), if_pos (by simp; omega)]
  simp

/-- A lead octet belongs to the sequences of one length. -/
theorem leads_iff (low high lead : Nat) :
    (decide (low ≤ lead) && decide (lead < high)) = true
      ↔ low ≤ lead ∧ lead < high := by
  rw [Bool.and_eq_true, decide_eq_true_eq, decide_eq_true_eq]

/-- A character is read back from its octets. -/
theorem takeChar?_append (c : Char) (r : List UInt8) :
    takeChar? (utf8EncodeChar c ++ r) = some (c, r) := by
  have hchar : Char.ofNat c.val.toNat = c := Char.ofNat_toNat c
  have hvalid : c.val.toNat < 0xd800
      ∨ 0xdfff < c.val.toNat ∧ c.val.toNat < 0x110000 := c.valid
  unfold utf8EncodeChar
  dsimp only
  generalize c.val.toNat = n at hchar hvalid ⊢
  split
  · next h =>
    rw [List.singleton_append]
    unfold takeChar?
    dsimp only
    rw [toNat_octet (by omega), if_pos (by omega), hchar]
  · split
    · next h₁ h₂ =>
      have hvalue : (n / 64 % 0x20 + 0xc0 - 0xc0) * 64 + n % 0x40 = n := by omega
      rw [List.cons_append, List.singleton_append, takeChar?]
      dsimp only
      rw [toNat_octet (by omega), if_neg (by omega),
        if_pos ((leads_iff _ _ _).2 (by omega)), continuation?_octet,
        Option.map_some, hvalue, hchar]
    · split
      · next h₁ h₂ h₃ =>
        have hvalue : ((n / 4096 % 0x10 + 0xe0 - 0xe0) * 64 + n / 64 % 0x40) * 64
            + n % 0x40 = n := by omega
        rw [List.cons_append, List.cons_append, List.singleton_append, takeChar?]
        dsimp only
        rw [toNat_octet (by omega), if_neg (by omega),
          if_neg (mt (leads_iff _ _ _).1 (by omega)),
          if_pos ((leads_iff _ _ _).2 (by omega)), continuation?_octet,
          continuation?_octet]
        simp only [Option.bind_eq_bind, Option.bind_some, hvalue]
        rw [if_neg (by simp; omega), hchar]
      · next h₁ h₂ h₃ =>
        have hvalue : (((n / 262144 % 0x08 + 0xf0 - 0xf0) * 64 + n / 4096 % 0x40)
            * 64 + n / 64 % 0x40) * 64 + n % 0x40 = n := by omega
        rw [List.cons_append, List.cons_append, List.cons_append,
          List.singleton_append, takeChar?]
        dsimp only
        rw [toNat_octet (by omega), if_neg (by omega),
          if_neg (mt (leads_iff _ _ _).1 (by omega)),
          if_neg (mt (leads_iff _ _ _).1 (by omega)),
          if_pos ((leads_iff _ _ _).2 (by omega)), continuation?_octet,
          continuation?_octet, continuation?_octet]
        simp only [Option.bind_eq_bind, Option.bind_some, hvalue]
        rw [if_neg (by simp; omega), hchar]

/-- Characters are read back from their octets, one by one. -/
theorem readMarks_flatMap (cs : List Char) {fuel : Nat} (h : cs.length ≤ fuel) :
    readMarks fuel (cs.flatMap utf8EncodeChar) = cs.map some := by
  induction cs generalizing fuel with
  | nil => rw [List.flatMap_nil, readMarks, List.map_nil]
  | cons c cs ih =>
    obtain ⟨fuel, rfl⟩ : ∃ k, fuel = k + 1 :=
      ⟨fuel - 1, by rw [List.length_cons] at h; omega⟩
    obtain ⟨b, bs, hbs⟩ :=
      List.exists_cons_of_ne_nil (String.utf8EncodeChar_ne_nil (c := c))
    have htake := takeChar?_append c (cs.flatMap utf8EncodeChar)
    rw [List.flatMap_cons]
    rw [hbs, List.cons_append] at htake ⊢
    rw [readMarks, htake]
    dsimp only
    rw [ih (by rw [List.length_cons] at h; omega), List.map_cons]

/-- A character takes an octet at least. -/
theorem length_le_flatMap (cs : List Char) :
    cs.length ≤ (cs.flatMap utf8EncodeChar).length := by
  induction cs with
  | nil => exact Nat.le_refl 0
  | cons c cs ih =>
    have hpos : 0 < (utf8EncodeChar c).length :=
      List.length_pos_iff.2 String.utf8EncodeChar_ne_nil
    rw [List.flatMap_cons, List.length_append, List.length_cons]
    omega

/-- The octets of a text belong to its characters, all of them. -/
theorem marks_octets (s : String) : marks (octets s) = s.toList.map some := by
  unfold marks
  rw [octets_eq, readMarks_flatMap _ (length_le_flatMap _)]

/-- A text is read back from its octets. -/
theorem ofOctets_octets (s : String) : ofOctets (octets s) = s := by
  unfold ofOctets
  rw [marks_octets, List.map_map]
  show String.ofList (s.toList.map id) = s
  rw [List.map_id, String.ofList_toList]

/-- The octets are those of a Unicode text. -/
def WellFormed (bs : Octets) : Prop := ∃ s : String, octets s = bs

/-- Reading octets as a text loses nothing exactly if they are one's. -/
theorem octets_ofOctets_iff (bs : Octets) :
    octets (ofOctets bs) = bs ↔ WellFormed bs := by
  constructor
  · intro h
    exact ⟨ofOctets bs, h⟩
  · rintro ⟨s, rfl⟩
    rw [ofOctets_octets]

-- ==== order

/-- The number of octets that follow the first one of a code. -/
def trailing (n : Nat) : Nat :=
  if n < 0x80 then 0 else if n < 0x800 then 1 else if n < 0x10000 then 2 else 3

/-- The first octet of a code. -/
def lead (n : Nat) : Nat :=
  if n < 0x80 then n
  else if n < 0x800 then n / 64 + 0xc0
  else if n < 0x10000 then n / 4096 + 0xe0
  else n / 262144 + 0xf0

/-- The last `k` octets of a code: its lowest digits in base 64. -/
def trail : Nat → Nat → Octets
  | 0, _ => []
  | k + 1, n => .ofNat (n / 64 ^ k % 64 + 0x80) :: trail k n

/-- A lead and what trails it. -/
theorem utf8EncodeChar_eq (c : Char) :
    utf8EncodeChar c
      = .ofNat (lead c.toNat) :: trail (trailing c.toNat) c.toNat := by
  have hvalid : c.toNat < 0xd800 ∨ 0xdfff < c.toNat ∧ c.toNat < 0x110000 :=
    c.valid
  have hcode : c.val.toNat = c.toNat := rfl
  unfold utf8EncodeChar lead trailing
  rw [hcode]
  generalize c.toNat = n at hvalid ⊢
  dsimp only
  split
  · next h =>
    rw [if_pos (by omega), if_pos (by omega)]
    rfl
  · split
    · next h₁ h₂ =>
      rw [if_neg (by omega), if_pos (by omega), if_neg (by omega),
        if_pos (by omega), Nat.mod_eq_of_lt (a := n / 64) (by omega)]
      simp [trail]
    · split
      · next h₁ h₂ h₃ =>
        rw [if_neg (by omega), if_neg (by omega), if_pos (by omega),
          if_neg (by omega), if_neg (by omega), if_pos (by omega),
          Nat.mod_eq_of_lt (a := n / 4096) (by omega)]
        simp [trail]
      · next h₁ h₂ h₃ =>
        rw [if_neg (by omega), if_neg (by omega), if_neg (by omega),
          if_neg (by omega), if_neg (by omega), if_neg (by omega),
          Nat.mod_eq_of_lt (a := n / 262144) (by omega)]
        simp [trail]

theorem lead_lt {n : Nat} (h : n < 0x110000) : lead n < 256 := by
  unfold lead
  split_ifs
  all_goals omega

/-- The greater code has the greater first octet, or as many octets and
the same digits above the trail. -/
theorem lead_lt_or {m n : Nat} (h : m < n) :
    lead m < lead n ∨ lead m = lead n ∧ trailing m = trailing n
      ∧ m / 64 ^ trailing m = n / 64 ^ trailing m := by
  unfold lead trailing
  split_ifs
  all_goals omega

theorem octet_cons_lt {a b : Nat} (ha : a < 256) (hb : b < 256) {r r' : Octets}
    (h : a < b ∨ a = b ∧ r < r') : UInt8.ofNat a :: r < UInt8.ofNat b :: r' := by
  rw [List.cons_lt_cons_iff, UInt8.lt_iff_toNat_lt, ← UInt8.toNat_inj,
    toNat_octet ha, toNat_octet hb]
  exact h

/-- Of two codes with the same digits above their trails the smaller has
the trail that comes first. -/
theorem trail_lt {k m n : Nat} (h : m < n) (hhigh : m / 64 ^ k = n / 64 ^ k)
    (r r' : Octets) : trail k m ++ r < trail k n ++ r' := by
  induction k with
  | zero =>
    rw [Nat.pow_zero, Nat.div_one, Nat.div_one] at hhigh
    omega
  | succ k ih =>
    rw [Nat.pow_succ, ← Nat.div_div_eq_div_mul, ← Nat.div_div_eq_div_mul] at hhigh
    have hle : m / 64 ^ k ≤ n / 64 ^ k := Nat.div_le_div_right (Nat.le_of_lt h)
    unfold trail
    rw [List.cons_append, List.cons_append]
    refine octet_cons_lt (by omega) (by omega) ?_
    by_cases heq : m / 64 ^ k = n / 64 ^ k
    · exact .inr ⟨by rw [heq], ih heq⟩
    · exact .inl (by omega)

/-- The octets of the smaller character come first, whatever follows. -/
theorem utf8EncodeChar_append_lt {c d : Char} (h : c < d) (r r' : Octets) :
    utf8EncodeChar c ++ r < utf8EncodeChar d ++ r' := by
  have hcode : c.toNat < d.toNat := h
  have hbound : ∀ c : Char, c.toNat < 0x110000 := by
    intro c
    have hvalid : c.toNat < 0xd800 ∨ 0xdfff < c.toNat ∧ c.toNat < 0x110000 :=
      c.valid
    omega
  rw [utf8EncodeChar_eq, utf8EncodeChar_eq, List.cons_append, List.cons_append]
  refine octet_cons_lt (lead_lt (hbound c)) (lead_lt (hbound d)) ?_
  rcases lead_lt_or hcode with hlead | ⟨hlead, htrailing, hhigh⟩
  · exact .inl hlead
  · rw [← htrailing]
    exact .inr ⟨hlead, trail_lt hcode hhigh r r'⟩

/-- Encoding keeps the order of texts. -/
theorem octets_lt {s t : String} (h : s < t) : octets s < octets t := by
  rw [octets_eq, octets_eq]
  rw [String.lt_iff] at h
  generalize s.toList = cs at h ⊢
  generalize t.toList = ds at h ⊢
  induction cs generalizing ds with
  | nil =>
    cases ds with
    | nil => exact absurd h (List.lt_irrefl _)
    | cons d ds =>
      obtain ⟨b, bs, hbs⟩ :=
        List.exists_cons_of_ne_nil (String.utf8EncodeChar_ne_nil (c := d))
      rw [List.flatMap_nil, List.flatMap_cons, hbs]
      exact List.nil_lt_cons _ _
  | cons c cs ih =>
    cases ds with
    | nil => exact absurd h (List.not_lt_nil _)
    | cons d ds =>
      rw [List.flatMap_cons, List.flatMap_cons]
      rcases List.cons_lt_cons_iff.1 h with hlt | ⟨rfl, hrest⟩
      · exact utf8EncodeChar_append_lt hlt _ _
      · exact List.append_left_lt (ih ds hrest)

/-- Texts are ordered as their octets are. -/
theorem octets_lt_iff (s t : String) : octets s < octets t ↔ s < t := by
  refine ⟨fun h => ?_, octets_lt⟩
  rcases lt_trichotomy s t with hlt | rfl | hgt
  · exact hlt
  · exact absurd h (List.lt_irrefl _)
  · exact absurd h (List.lt_asymm (octets_lt hgt))

end PromptGraph.Text

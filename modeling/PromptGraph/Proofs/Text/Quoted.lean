/-
Quoted text and JSON strings. Both put a text between quotes and escape
some of its characters, with notations that overlap. Quoted text reads
the escapes of either (`Stands`), so a text is read back from its quoted
form (`decode?_encode`) and from the JSON string that stands for it
(`decode?_quote`). The other way round, JSON does not know the escapes
that quoted text has for the bell, the vertical tab, the remaining
control characters of ASCII and the characters beyond the first plane
that are not printable (`Foreign`). Quoted text is a JSON string exactly
if none of these occurs in it (`read?_encode_isSome`).
-/
import Mathlib.Tactic.Ring
import PromptGraph.Proofs.Json.RoundTrip
import PromptGraph.Proofs.Text.Octets

namespace PromptGraph.Text.Quoted

open String (utf8EncodeChar)
open Json (Escaped Source)
open Json.Source (shortEscape? spanString unescapeFrom)

-- ==== hexadecimal

theorem hexDigits_succ (width n : Nat) :
    hexDigits (width + 1) n
      = hexDigit (n / 16 ^ width % 16) :: hexDigits width n := by
  unfold hexDigits
  rw [List.range_succ_eq_map, List.map_cons, List.map_map]
  congr 1
  refine List.map_congr_left fun i _ => ?_
  show hexDigit (n / Nat.pow 16 (width + 1 - 1 - (i + 1)) % 16)
    = hexDigit (n / Nat.pow 16 (width - 1 - i) % 16)
  rw [show width + 1 - 1 - (i + 1) = width - 1 - i by omega]

theorem foldlM_hexDigits (width n m : Nat) :
    (hexDigits width n).foldlM
        (fun k c => (hexValue? c).map (16 * k + ·)) m
      = some (m * 16 ^ width + n % 16 ^ width) := by
  induction width generalizing m with
  | zero => simp [hexDigits, Nat.mod_one]
  | succ width ih =>
    rw [hexDigits_succ, List.foldlM_cons,
      Json.hexValue?_hexDigit (Nat.mod_lt _ (by decide)), Option.map_some,
      Option.bind_eq_bind, Option.bind_some, ih, Nat.mod_pow_succ, Nat.pow_succ]
    congr 1
    ring

/-- Hexadecimal digits are read back. -/
theorem numeral?_hexDigits {width n : Nat} (h : n < 16 ^ width) :
    numeral? 16 hexValue? (hexDigits width n) = some n := by
  unfold numeral?
  rw [foldlM_hexDigits, Nat.zero_mul, Nat.zero_add, Nat.mod_eq_of_lt h]

/-- They need no escape. -/
theorem plain_of_mem_hexDigits {width n : Nat} {c : Char}
    (h : c ∈ hexDigits width n) : c ≠ '"' ∧ c ≠ '\\' := by
  unfold hexDigits at h
  obtain ⟨i, -, rfl⟩ := List.mem_map.1 h
  have hdigit := Json.hexValue?_hexDigit
    (Nat.mod_lt (n / Nat.pow 16 (width - 1 - i)) (by decide))
  exact ⟨(Json.plain_of_hexValue? hdigit).1, (Json.plain_of_hexValue? hdigit).2.1⟩

-- ==== reading

/-- The characters are read in a quoted text as one character. -/
def Stands (c : Char) (cs : List Char) : Prop :=
  ∀ r, decodeBody (cs ++ r) = (decodeBody r).map (utf8EncodeChar c ++ ·)

/-- A small octet is a character. -/
theorem octet_eq {c : Char} (h : c.toNat < 0x80) :
    octet c.toNat = utf8EncodeChar c := by
  have hle : c.val.toNat ≤ 0x7f := Nat.le_of_lt_succ h
  unfold utf8EncodeChar
  rw [if_pos hle]
  rfl

/-- A code point is read as its character. -/
theorem scalar?_toNat (c : Char) : scalar? c.toNat = some (utf8EncodeChar c) := by
  have hvalid : c.toNat < 0xd800 ∨ 0xdfff < c.toNat ∧ c.toNat < 0x110000 :=
    c.valid
  unfold scalar?
  rw [if_pos (by simp; omega), Char.ofNat_toNat, octets_singleton]

/-- A character that needs no escape. -/
theorem stands_raw {c : Char} (hquote : c ≠ '"') (hslash : c ≠ '\\')
    (hbreak : c ≠ '\n') : Stands c [c] := by
  intro r
  rw [List.singleton_append, decodeBody]
  · simp [hquote, hslash, hbreak, octets_singleton]
  -- the patterns tried before begin with a quote or a backslash
  all_goals
    intros
    contradiction

/-- JSON has one escape that quoted text does not have. -/
theorem stands_of_escaped {c : Char} {cs : List Char} (h : Escaped c cs)
    (hsolidus : cs ≠ ['\\', '/']) : Stands c cs := by
  cases h with
  | raw hquote hslash hvisible =>
    refine stands_raw hquote hslash ?_
    rintro rfl
    exact absurd hvisible (by decide)
  | @short e stands =>
    intro r
    unfold shortEscape? at stands
    split at stands
    · next h =>
      cases stands
      rw [Bool.or_eq_true, Bool.or_eq_true, decide_eq_true_eq, decide_eq_true_eq,
        decide_eq_true_eq] at h
      rcases h with (rfl | rfl) | rfl
      · rfl
      · rfl
      · exact absurd rfl hsolidus
    · split at stands
      · next h => subst h; cases stands; rfl
      · split at stands
        · next h => subst h; cases stands; rfl
        · split at stands
          · next h => subst h; cases stands; rfl
          · split at stands
            · next h => subst h; cases stands; rfl
            · split at stands
              · next h => subst h; cases stands; rfl
              · cases stands
  | @unit a b x d code =>
    intro r
    unfold Source.unit? at code
    show decodeBody ('\\' :: 'u' :: a :: b :: x :: d :: r) = _
    rw [decodeBody, code]
    simp only [Option.bind_eq_bind, Option.bind_some, scalar?_toNat]
    cases decodeBody r with
    | none => rfl
    | some bs => rfl

/-- Escapes that stand for characters are read as them. -/
theorem decode?_flatMap {esc : Char → List Char} {s : String}
    (h : ∀ c ∈ s.toList, Stands c (esc c)) :
    decode? (String.ofList ('"' :: (s.toList.flatMap esc ++ ['"'])))
      = some s := by
  have hbody : ∀ cs : List Char, (∀ c ∈ cs, Stands c (esc c)) →
      decodeBody (cs.flatMap esc ++ ['"'])
        = some (cs.flatMap utf8EncodeChar) := by
    intro cs hcs
    induction cs with
    | nil => rfl
    | cons c cs ih =>
      rw [List.flatMap_cons, List.append_assoc, hcs c List.mem_cons_self,
        ih fun d hd => hcs d (List.mem_cons_of_mem _ hd)]
      rfl
  unfold decode?
  rw [String.toList_ofList]
  show (decodeBody (s.toList.flatMap esc ++ ['"'])).map ofOctets = some s
  rw [hbody s.toList h, Option.map_some, ← octets_eq, ofOctets_octets]

/-- The one escape that JSON alone has stands for a solidus. -/
theorem eq_solidus_of_escaped {c : Char} (h : Escaped c ['\\', '/']) :
    c = '/' := by
  cases h with
  | short stands => exact (Option.some.inj stands).symm

/-- A text is read back from the JSON string that stands for it. -/
theorem decode?_quote (s : String) : decode? (Json.quote s) = some s := by
  refine decode?_flatMap fun c _ =>
    stands_of_escaped (Json.escaped_escapeChar c) fun heq => ?_
  have hescaped := Json.escaped_escapeChar c
  rw [heq] at hescaped
  rw [eq_solidus_of_escaped hescaped] at heq
  exact absurd heq (by decide)

-- ==== writing

/-- The characters that quoted text writes in a way JSON knows. -/
def Shared (c : Char) : Prop :=
  isPrintable c = true ∨ c.toNat ∈ [8, 9, 10, 12, 13]
    ∨ 0x7f < c.toNat ∧ c.toNat < 0x10000

instance (c : Char) : Decidable (Shared c) :=
  inferInstanceAs (Decidable (_ ∨ _))

/-- The escapes of quoted text that JSON does not know. -/
inductive Foreign : Char → List Char → Prop where
  | bell : Foreign (Char.ofNat 7) ['\\', 'a']
  | verticalTab : Foreign (Char.ofNat 11) ['\\', 'v']
  | octet {c : Char} (h : c.toNat < 0x80) :
      Foreign c ('\\' :: 'x' :: hexDigits 2 c.toNat)
  | long (c : Char) : Foreign c ('\\' :: 'U' :: hexDigits 8 c.toNat)

theorem visible_of_isPrintable {c : Char} (h : isPrintable c = true) :
    0x20 ≤ c.toNat := by
  unfold isPrintable at h
  split at h
  · exact of_decide_eq_true h
  · omega

/-- The shared escapes are those of JSON. -/
theorem escaped_of_shared {c : Char} (h : Shared c) :
    Escaped c (escapeChar c) := by
  by_cases hquote : c = '"'
  · subst hquote
    exact .short rfl
  by_cases hslash : c = '\\'
  · subst hslash
    exact .short rfl
  by_cases hprintable : isPrintable c = true
  · have hraw : escapeChar c = [c] := by
      unfold escapeChar
      simp [hquote, hslash, hprintable]
    rw [hraw]
    exact .raw hquote hslash (visible_of_isPrintable hprintable)
  rcases h.resolve_left hprintable with hnamed | hhigh
  · simp only [List.mem_cons, List.not_mem_nil, or_false] at hnamed
    rcases hnamed with h | h | h | h | h
    · exact Json.char_eq_of_toNat h ▸ .short rfl
    · exact Json.char_eq_of_toNat h ▸ .short rfl
    · exact Json.char_eq_of_toNat h ▸ .short rfl
    · exact Json.char_eq_of_toNat h ▸ .short rfl
    · exact Json.char_eq_of_toNat h ▸ .short rfl
  · have hn : ∀ k, k < 0x20 → c.toNat ≠ k := fun k hk heq => by omega
    have hunit : escapeChar c = Json.unitEscape c := by
      unfold escapeChar
      simp [hquote, hslash, hprintable, hn, hhigh.2, Json.unitEscape,
        show ¬ c.toNat < 32 by omega, show c.toNat ≠ 127 by omega]
    rw [hunit]
    exact Json.escaped_unitEscape hhigh.2

/-- The others are not. -/
theorem foreign_of_not_shared {c : Char} (h : ¬ Shared c) :
    Foreign c (escapeChar c) := by
  have hprintable : isPrintable c ≠ true := fun hp => h (.inl hp)
  have hnamed : ∀ k, k ∈ [8, 9, 10, 12, 13] → c.toNat ≠ k :=
    fun k hk heq => h (.inr (.inl (heq ▸ hk)))
  have hquote : c ≠ '"' := by
    rintro rfl
    exact hprintable (by decide)
  have hslash : c ≠ '\\' := by
    rintro rfl
    exact hprintable (by decide)
  by_cases hbell : c.toNat = 7
  · exact Json.char_eq_of_toNat hbell ▸ .bell
  by_cases htab : c.toNat = 11
  · exact Json.char_eq_of_toNat htab ▸ .verticalTab
  by_cases hascii : c.toNat < 0x80
  · have hlow : c.toNat < 0x20 ∨ c.toNat = 0x7f := by
      by_contra hvisible
      apply hprintable
      unfold isPrintable
      rw [if_pos (by omega)]
      exact decide_eq_true (by omega)
    have hoctet : escapeChar c = '\\' :: 'x' :: hexDigits 2 c.toNat := by
      unfold escapeChar
      simp [hquote, hslash, hprintable, hbell, htab, hnamed, hlow]
    rw [hoctet]
    exact .octet hascii
  · have hbeyond : ¬ c.toNat < 0x10000 := fun hlt => h (.inr (.inr ⟨by omega, hlt⟩))
    have hlong : escapeChar c = '\\' :: 'U' :: hexDigits 8 c.toNat := by
      unfold escapeChar
      simp [hquote, hslash, hprintable, hbell, htab, hnamed, hbeyond,
        show ¬ c.toNat < 32 by omega, show c.toNat ≠ 127 by omega]
    rw [hlong]
    exact .long c

-- ==== foreign escapes

namespace Foreign

variable {c : Char} {cs : List Char} (h : Foreign c cs)
include h

theorem stands : Stands c cs := by
  intro r
  cases h with
  | bell => rfl
  | verticalTab => rfl
  | octet hascii =>
    have hdigits : hexDigits 2 c.toNat
        = [hexDigit (c.toNat / 16 % 16), hexDigit (c.toNat / 1 % 16)] := rfl
    have hvalue := numeral?_hexDigits
      (show c.toNat < 16 ^ 2 by omega)
    rw [hdigits] at hvalue ⊢
    show decodeBody ('\\' :: 'x' :: _ :: _ :: r) = _
    rw [decodeBody, hvalue, ← octet_eq hascii]
    simp only [Option.bind_eq_bind, Option.bind_some]
    cases decodeBody r with
    | none => rfl
    | some bs => rfl
  | long =>
    have hvalid : c.toNat < 0xd800 ∨ 0xdfff < c.toNat ∧ c.toNat < 0x110000 :=
      c.valid
    have hvalue := numeral?_hexDigits (show c.toNat < 16 ^ 8 by omega)
    obtain ⟨a, b, d, e, f, g, x, y, hdigits⟩ : ∃ a b d e f g x y,
        hexDigits 8 c.toNat = [a, b, d, e, f, g, x, y] :=
      ⟨_, _, _, _, _, _, _, _, rfl⟩
    rw [hdigits] at hvalue ⊢
    show decodeBody ('\\' :: 'U' :: a :: b :: d :: e :: f :: g :: x :: y :: r) = _
    rw [decodeBody, hvalue]
    simp only [Option.bind_eq_bind, Option.bind_some, scalar?_toNat]
    cases decodeBody r with
    | none => rfl
    | some bs => rfl

/-- Each of them is a backslash, a letter that JSON has no escape for, and
digits. -/
theorem exists_letter :
    ∃ e ds, cs = '\\' :: e :: ds ∧ e ≠ 'u' ∧ shortEscape? e = none
      ∧ ∀ d ∈ ds, d ≠ '"' ∧ d ≠ '\\' := by
  cases h with
  | bell => exact ⟨'a', [], rfl, by decide, rfl, by simp⟩
  | verticalTab => exact ⟨'v', [], rfl, by decide, rfl, by simp⟩
  | octet _ =>
    exact ⟨'x', _, rfl, by decide, rfl, fun d hd => plain_of_mem_hexDigits hd⟩
  | long =>
    exact ⟨'U', _, rfl, by decide, rfl, fun d hd => plain_of_mem_hexDigits hd⟩

/-- JSON does not end the string there, -/
theorem spanString (r : List Char) :
    Json.Source.spanString (cs ++ r)
      = (Json.Source.spanString r).map fun x => (cs ++ x.1, x.2) := by
  obtain ⟨e, ds, rfl, -, -, hplain⟩ := h.exists_letter
  rw [List.cons_append, List.cons_append, Json.Source.spanString,
    Json.spanString_raws hplain, Option.map_map]
  rfl

/-- but cannot read it. -/
theorem unescapeFrom (lone : Option Char) (r : List Char) :
    Json.Source.unescapeFrom lone none (cs ++ r) = none := by
  obtain ⟨e, ds, rfl, hletter, hnone, -⟩ := h.exists_letter
  rw [List.cons_append, List.cons_append, Json.Source.unescapeFrom]
  · simp [hnone]
  all_goals
    intros
    contradiction

end Foreign

/-- Every escape stands for its character. -/
theorem stands_escapeChar (c : Char) : Stands c (escapeChar c) := by
  by_cases h : Shared c
  · refine stands_of_escaped (escaped_of_shared h) fun heq => ?_
    have hescaped := escaped_of_shared h
    rw [heq] at hescaped
    rw [eq_solidus_of_escaped hescaped] at heq
    exact absurd heq (by decide)
  · exact (foreign_of_not_shared h).stands

/-- A text is read back from its quoted form. -/
theorem decode?_encode (s : String) : decode? (encode s) = some s :=
  decode?_flatMap fun c _ => stands_escapeChar c

-- ==== as a JSON string

theorem spanString_escapeChar (c : Char) (r : List Char) :
    spanString (escapeChar c ++ r)
      = (spanString r).map fun x => (escapeChar c ++ x.1, x.2) := by
  by_cases h : Shared c
  · exact Json.spanString_escaped (escaped_of_shared h) r
  · exact (foreign_of_not_shared h).spanString r

/-- One character in a foreign notation spoils the string. -/
theorem unescapeFrom_eq_none (lone : Option Char) {cs : List Char} {c : Char}
    (hc : c ∈ cs) (h : ¬ Shared c) :
    unescapeFrom lone none (cs.flatMap escapeChar) = none := by
  induction cs with
  | nil => cases hc
  | cons d cs ih =>
    rw [List.flatMap_cons]
    by_cases hd : Shared d
    · rw [Json.unescape_escaped (escaped_of_shared hd)]
      rcases List.mem_cons.1 hc with rfl | hc
      · exact absurd hd h
      · rw [ih hc]
        rfl
    · exact (foreign_of_not_shared hd).unescapeFrom lone _

/-- JSON reads what has shared escapes only. -/
theorem readString?_encode_isSome (s : String) :
    (Source.readString? .strict (s.toList.flatMap escapeChar ++ ['"'])).isSome
      ↔ ∀ c ∈ s.toList, Shared c := by
  constructor
  · intro hsome c hc
    by_contra hnot
    have hspan := Json.spanString_flatMap
      (fun c (_ : c ∈ s.toList) => spanString_escapeChar c) []
    have hbody : Json.Source.bodyOk .strict (s.toList.flatMap escapeChar)
        = false := by
      unfold Json.Source.bodyOk
      rw [unescapeFrom_eq_none _ hc hnot]
      simp
    unfold Source.readString? at hsome
    rw [hspan] at hsome
    simp [hbody] at hsome
  · intro h
    rw [Json.readString?_flatMap (fun c hc => escaped_of_shared (h c hc)) .strict []]
    rfl

/-- Quoted text is JSON if both notations agree on all its characters. -/
theorem read?_encode_isSome (s : String) :
    (Source.read? .strict (encode s)).isSome ↔ ∀ c ∈ s.toList, Shared c := by
  rw [← readString?_encode_isSome]
  unfold Source.read? encode encodeChars
  dsimp only
  rw [String.toList_ofList, Source.readValue?_quote]
  constructor
  · intro hsome
    by_contra hnone
    rw [Option.not_isSome_iff_eq_none] at hnone
    rw [hnone] at hsome
    cases hsome
  · intro hsome
    have hshared := (readString?_encode_isSome s).1 hsome
    rw [Json.readString?_flatMap
      (fun c hc => escaped_of_shared (hshared c hc)) .strict []]
    rfl

end PromptGraph.Text.Quoted

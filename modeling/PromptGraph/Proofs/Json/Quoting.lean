/-
Strings in quotes. A character stands in a written string for itself,
behind a backslash, or as the four digits of its code (`Escaped`). All
that reading does with strings is explained by these three forms: where
the string ends (`spanString_escaped`), that nothing in it is refused
(`Escaped.visible`), and which text it stands for (`unescape_escaped`). So
any text comes back from its quoted form, however the reader is set, and
octets come back as the text they are read as (`Readable`).
-/
import Mathlib.Data.List.Basic
import PromptGraph.Json.Printer
import PromptGraph.Json.Source
import PromptGraph.Proofs.Text.Octets

namespace PromptGraph.Json

open Source (unit? shortEscape? isHighSurrogate isLowSurrogate spanString
  unescapeFrom bodyOk)
open Text.Quoted (hexDigit hexDigits hexValue?)

-- ==== hexadecimal

/-- A hexadecimal digit is read back. -/
theorem hexValue?_hexDigit {k : Nat} (h : k < 16) :
    hexValue? (hexDigit k) = some k := by
  have hall : ∀ k, k < 16 → hexValue? (hexDigit k) = some k := by decide
  exact hall k h

variable {n : Nat}

/-- Four hexadecimal digits of a number that has no more. -/
theorem unit?_hexDigits (h : n < 0x10000) :
    ∃ a b c d, hexDigits 4 n = [a, b, c, d] ∧ unit? a b c d = some n := by
  refine ⟨_, _, _, _, rfl, ?_⟩
  have hdigit : ∀ k : Nat, hexValue? (hexDigit (k % 16)) = some (k % 16) :=
    fun k => hexValue?_hexDigit (Nat.mod_lt k (by decide))
  unfold unit? Text.Quoted.numeral?
  simp only [List.foldlM_cons, List.foldlM_nil, hdigit, Option.map_some,
    Option.bind_eq_bind, Option.bind_some, Option.pure_def, Option.some_inj]
  show 16 * (16 * (16 * (16 * 0 + n / 4096 % 16) + n / 256 % 16)
    + n / 16 % 16) + n / 1 % 16 = n
  omega

variable {c : Char}

/-- A hexadecimal digit is an ordinary character. -/
theorem plain_of_hexValue? {k : Nat} (h : hexValue? c = some k) :
    c ≠ '"' ∧ c ≠ '\\' ∧ 0x20 ≤ c.toNat := by
  refine ⟨?_, ?_, ?_⟩
  · rintro rfl
    cases h
  · rintro rfl
    cases h
  · by_contra hlow
    have hsmall : ∀ n, n < 0x20 → hexValue? (Char.ofNat n) = none := by decide
    have := hsmall c.toNat (by omega)
    rw [Char.ofNat_toNat, h] at this
    cases this

theorem plain_of_unit? {a b c d x : Char} (h : unit? a b c d = some n)
    (hx : x ∈ [a, b, c, d]) :
    x ≠ '"' ∧ x ≠ '\\' ∧ 0x20 ≤ x.toNat := by
  suffices hsome : ∃ k, hexValue? x = some k by
    obtain ⟨k, hk⟩ := hsome
    exact plain_of_hexValue? hk
  unfold unit? Text.Quoted.numeral? at h
  simp only [List.foldlM_cons, List.foldlM_nil, Option.bind_eq_bind,
    Option.bind_eq_some_iff, Option.map_eq_some_iff] at h
  obtain ⟨_, ⟨ka, ha, -⟩, _, ⟨kb, hb, -⟩, _, ⟨kc, hc, -⟩, _, ⟨kd, hd, -⟩, -⟩ := h
  simp only [List.mem_cons, List.not_mem_nil, or_false] at hx
  rcases hx with rfl | rfl | rfl | rfl
  · exact ⟨ka, ha⟩
  · exact ⟨kb, hb⟩
  · exact ⟨kc, hc⟩
  · exact ⟨kd, hd⟩

-- ==== written characters

/-- How a character may stand in a written string. -/
inductive Escaped : Char → List Char → Prop where
  | raw {c : Char} (noQuote : c ≠ '"') (noEscape : c ≠ '\\')
      (visible : 0x20 ≤ c.toNat) : Escaped c [c]
  | short {c e : Char} (stands : shortEscape? e = some c) :
      Escaped c ['\\', e]
  | unit {x a b c d : Char} (code : unit? a b c d = some x.toNat) :
      Escaped x ['\\', 'u', a, b, c, d]

theorem visible_of_shortEscape? {e c : Char} (h : shortEscape? e = some c) :
    0x20 ≤ e.toNat := by
  by_contra hlow
  have hsmall : ∀ n, n < 0x20 → shortEscape? (Char.ofNat n) = none := by decide
  have hnone := hsmall e.toNat (by omega)
  rw [Char.ofNat_toNat, h] at hnone
  cases hnone

/-- A character is its code point. -/
theorem char_eq_of_toNat (h : c.toNat = n) :
    c = Char.ofNat n := by
  rw [← h, Char.ofNat_toNat]

/-- A small character is escaped as one unit. -/
theorem escaped_unitEscape (h : c.toNat < 0x10000) :
    Escaped c (unitEscape c) := by
  obtain ⟨a, b, x, d, hdigits, hcode⟩ := unit?_hexDigits h
  unfold unitEscape
  rw [hdigits]
  exact .unit hcode

theorem toNat_of_isMarkup (h : isMarkup c = true) :
    c.toNat < 0x10000 := by
  unfold isMarkup at h
  simp only [Bool.or_eq_true, decide_eq_true_eq] at h
  rcases h with (((rfl | rfl) | rfl) | h) | h
  · decide
  · decide
  · decide
  · omega
  · omega

/-- Every character is escaped. -/
theorem escaped_escapeChar (c : Char) : Escaped c (escapeChar c) := by
  unfold escapeChar
  dsimp only
  split
  · next h =>
    refine .short ?_
    rw [Bool.or_eq_true, decide_eq_true_eq, decide_eq_true_eq] at h
    rcases h with rfl | rfl
    · rfl
    · rfl
  · next hquote =>
    rw [Bool.or_eq_true, decide_eq_true_eq, decide_eq_true_eq, not_or] at hquote
    split
    · next h => exact char_eq_of_toNat h ▸ .short rfl
    · split
      · next h => exact char_eq_of_toNat h ▸ .short rfl
      · split
        · next h => exact char_eq_of_toNat h ▸ .short rfl
        · split
          · next h => exact char_eq_of_toNat h ▸ .short rfl
          · split
            · next h => exact char_eq_of_toNat h ▸ .short rfl
            · split
              · next h =>
                refine escaped_unitEscape ?_
                rw [Bool.or_eq_true, decide_eq_true_eq] at h
                rcases h with h | h
                · omega
                · exact toNat_of_isMarkup h
              · next h =>
                rw [Bool.or_eq_true, decide_eq_true_eq, not_or] at h
                exact .raw hquote.1 hquote.2 (by omega)

-- ==== where a string ends

/-- A plain character goes on the string. -/
theorem spanString_raw (hq : c ≠ '"') (he : c ≠ '\\') (r : List Char) :
    spanString (c :: r)
      = (spanString r).map fun x => (c :: x.1, x.2) := by
  rw [spanString]
  · exact hq
  · intro _ _ h
    exact absurd h he

variable {cs : List Char}

theorem spanString_raws (h : ∀ c ∈ cs, c ≠ '"' ∧ c ≠ '\\') (r : List Char) :
    spanString (cs ++ r) = (spanString r).map fun x => (cs ++ x.1, x.2) := by
  induction cs with
  | nil => simp
  | cons c cs ih =>
      obtain ⟨hq, he⟩ := h c List.mem_cons_self
      rw [List.cons_append, spanString_raw hq he,
        ih fun d hd => h d (List.mem_cons_of_mem _ hd), Option.map_map]
      rfl

/-- A written character does not end the string. -/
theorem spanString_escaped (h : Escaped c cs) (r : List Char) :
    spanString (cs ++ r) = (spanString r).map fun x => (cs ++ x.1, x.2) := by
  cases h with
  | raw hq he _ => exact spanString_raw hq he r
  | short stands =>
      show spanString ('\\' :: _ :: r) = _
      rw [spanString]
      rfl
  | unit code =>
      show spanString ('\\' :: 'u' :: (_ ++ r)) = _
      rw [spanString, spanString_raws fun x hx =>
        ⟨(plain_of_unit? code hx).1, (plain_of_unit? code hx).2.1⟩,
        Option.map_map]
      rfl

-- ==== what a string stands for

/-- No character is a surrogate. -/
theorem not_surrogate (c : Char) :
    isHighSurrogate c.toNat = false ∧ isLowSurrogate c.toNat = false := by
  unfold isHighSurrogate isLowSurrogate
  have hvalid : c.toNat < 0xd800 ∨ 0xdfff < c.toNat ∧ c.toNat < 0x110000 :=
    c.valid
  simp only [Bool.and_eq_false_iff, decide_eq_false_iff_not]
  omega

/-- A written character stands for that character. -/
theorem unescape_escaped (h : Escaped c cs) (lone : Option Char)
    (r : List Char) :
    unescapeFrom lone none (cs ++ r)
      = (unescapeFrom lone none r).map (c :: ·) := by
  cases h with
  | raw hq he _ =>
      show unescapeFrom lone none (c :: r) = _
      rw [unescapeFrom]
      · simp [he]
      -- the patterns tried before begin with a backslash
      all_goals
        intros
        contradiction
  | @short e stands =>
      have he : e ≠ 'u' := by
        rintro rfl
        cases stands
      show unescapeFrom lone none ('\\' :: e :: r) = _
      rw [unescapeFrom]
      · simp [stands]
      all_goals
        intros
        contradiction
  | @unit a b x d code =>
      show unescapeFrom lone none ('\\' :: 'u' :: a :: b :: x :: d :: r) = _
      rw [unescapeFrom]
      simp [code, not_surrogate]

/-- Without a backslash a string stands for itself. -/
theorem unescapeFrom_of_noEscape (lone : Option Char) (h : '\\' ∉ cs) :
    unescapeFrom lone none cs = some cs := by
  induction cs with
  | nil => rfl
  | cons c cs ih =>
      rw [List.mem_cons, not_or] at h
      have hc : c ≠ '\\' := fun heq => h.1 heq.symm
      rw [unescapeFrom]
      · simp [hc, ih h.2]
      all_goals
        intros
        contradiction

/-- Looking for a backslash first changes nothing. -/
theorem unescape?_eq (body : String) :
    Source.unescape? body
      = (unescapeFrom (some Text.replacement) none body.toList).map
          String.ofList := by
  unfold Source.unescape?
  split
  · rfl
  · next h =>
    rw [List.contains_eq_mem, decide_eq_true_eq] at h
    rw [unescapeFrom_of_noEscape _ h, Option.map_some, String.ofList_toList]

-- ==== whole strings

/-- Nothing that stands for a character is a control character. -/
theorem Escaped.visible {c x : Char} (h : Escaped c cs) (hx : x ∈ cs) :
    0x20 ≤ x.toNat := by
  cases h with
  | raw _ _ visible =>
      rw [List.mem_singleton.1 hx]
      exact visible
  | short stands =>
      rcases List.mem_cons.1 hx with rfl | hx
      · decide
      · rw [List.mem_singleton.1 hx]
        exact visible_of_shortEscape? stands
  | unit code =>
      rcases List.mem_cons.1 hx with rfl | hx
      · decide
      · rcases List.mem_cons.1 hx with rfl | hx
        · decide
        · exact (plain_of_unit? code hx).2.2

section Written

variable {α : Type} {esc : α → List Char} {as : List α}

/-- A string ends where its characters do. -/
theorem spanString_flatMap
    (h : ∀ a ∈ as, ∀ r, spanString (esc a ++ r)
      = (spanString r).map fun x => (esc a ++ x.1, x.2)) (rest : List Char) :
    spanString (as.flatMap esc ++ '"' :: rest) = some (as.flatMap esc, rest) := by
  induction as with
  | nil => rfl
  | cons a as ih =>
      rw [List.flatMap_cons, List.append_assoc, h a List.mem_cons_self,
        ih fun b hb => h b (List.mem_cons_of_mem _ hb)]
      rfl

variable {char : α → Char} (h : ∀ a ∈ as, Escaped (char a) (esc a))
include h

/-- A string stands for its characters. -/
theorem unescapeFrom_flatMap (lone : Option Char) :
    unescapeFrom lone none (as.flatMap esc) = some (as.map char) := by
  induction as with
  | nil => rfl
  | cons a as ih =>
      rw [List.flatMap_cons, unescape_escaped (h a List.mem_cons_self),
        ih fun b hb => h b (List.mem_cons_of_mem _ hb)]
      rfl

/-- A string is read up to its closing quote, however the reader is set. -/
theorem readString?_flatMap (rigour : Rigour) (rest : List Char) :
    Source.readString? rigour (as.flatMap esc ++ '"' :: rest)
      = some (String.ofList (as.flatMap esc), rest) := by
  have hvisible : ∀ x ∈ as.flatMap esc, 0x20 ≤ x.toNat := by
    intro x hx
    obtain ⟨a, ha, hx⟩ := List.mem_flatMap.1 hx
    exact (h a ha).visible hx
  have hok : bodyOk rigour (as.flatMap esc) = true := by
    cases rigour with
    | lenient => rfl
    | strict =>
        unfold bodyOk
        rw [Bool.and_eq_true, List.all_eq_true, unescapeFrom_flatMap h]
        exact ⟨fun x hx => decide_eq_true (hvisible x hx), rfl⟩
  unfold Source.readString?
  rw [spanString_flatMap fun a ha => spanString_escaped (h a ha)]
  exact if_pos hok

/-- Escapes are read back. -/
theorem unescape?_flatMap :
    Source.unescape? (String.ofList (as.flatMap esc))
      = some (String.ofList (as.map char)) := by
  rw [unescape?_eq, String.toList_ofList, unescapeFrom_flatMap h, Option.map_some]

end Written

-- ==== written texts

/-- Texts that are read as a Unicode text where they are written. -/
class Readable (τ : Type) extends Texts τ where
  /-- What the text is read as. -/
  read : τ → String
  readString?_quoted : ∀ (rigour : Rigour) (t : τ) (rest : List Char),
    Source.readString? rigour (inside t ++ '"' :: rest)
      = some (String.ofList (inside t), rest)
  unescape?_quoted : ∀ t : τ,
    Source.unescape? (String.ofList (inside t)) = some (read t)
  read_ofString : ∀ s, read (ofString s) = s

export Readable (readString?_quoted unescape?_quoted)

/-- A Unicode text is read as it is. -/
instance : Readable String where
  read := id
  readString?_quoted rigour s rest :=
    readString?_flatMap (fun c (_ : c ∈ s.toList) => escaped_escapeChar c) rigour rest
  unescape?_quoted s := by
    have hstands := unescape?_flatMap fun c (_ : c ∈ s.toList) => escaped_escapeChar c
    rwa [List.map_id', String.ofList_toList] at hstands
  read_ofString _ := rfl

/-- An octet of no character is written like the replacement character. -/
theorem escaped_escapeMark (m : Option Char) :
    Escaped (m.getD Text.replacement) (escapeMark m) := by
  cases m with
  | some c => exact escaped_escapeChar c
  | none => exact escaped_unitEscape (by decide)

/-- Octets are read as a text, broken ones replaced. -/
instance : Readable Text.Octets where
  read := Text.ofOctets
  readString?_quoted rigour bs rest :=
    readString?_flatMap (fun m (_ : m ∈ Text.marks bs) => escaped_escapeMark m)
      rigour rest
  unescape?_quoted bs :=
    unescape?_flatMap fun m (_ : m ∈ Text.marks bs) => escaped_escapeMark m
  read_ofString := Text.ofOctets_octets

theorem quoteChars_eq {τ : Type} [Texts τ] (t : τ) :
    quoteChars t = '"' :: (Texts.inside t ++ ['"']) :=
  rfl

end PromptGraph.Json

/-
Ids in a document. An id is written in a notation of its own, a bare
number or a quoted text, over which the document then escapes markup.
For plain ids, which are integers that a double holds or printable ASCII
texts that are no integers, the outcome is a number or a string as the
document would write it (`Id.Plain.legible_toJson`), and reading its text
gives the id again (`Id.Plain.read_toJson`).

The two notations for quotes do not agree on all other texts: there are
escapes in each that the other does not know.
-/
import PromptGraph.Editor.Printer
import PromptGraph.Proofs.Number.Literal
import PromptGraph.Proofs.Text.Quoted

namespace PromptGraph

-- ==== blanks

/-- A text that neither starts nor ends with white space. -/
theorem Text.trim_eq_self {t : String}
    (hhead : ∀ c, t.toList.head? = some c → Text.isSpace c = false)
    (hlast : ∀ c, t.toList.getLast? = some c → Text.isSpace c = false) :
    Text.trim t = t := by
  have hdrop : ∀ cs : List Char,
      (∀ c, cs.head? = some c → Text.isSpace c = false) →
      Text.dropSpace cs = cs := by
    intro cs h
    cases cs with
    | nil => rfl
    | cons c cs => exact List.dropWhile_cons_of_neg (by simp [h c rfl])
  unfold Text.trim Text.trimChars
  rw [hdrop _ hhead, hdrop _ (by rwa [List.head?_reverse]), List.reverse_reverse,
    String.ofList_toList]

/-- A text between two marks that are no white space. -/
theorem Text.trim_enclosed {a b : Char} (ha : Text.isSpace a = false)
    (hb : Text.isSpace b = false) (cs : List Char) :
    Text.trim (String.ofList (a :: (cs ++ [b])))
      = String.ofList (a :: (cs ++ [b])) := by
  apply Text.trim_eq_self
  · intro c hc
    rw [String.toList_ofList] at hc
    cases hc
    exact ha
  · intro c hc
    rw [String.toList_ofList, ← List.cons_append, List.getLast?_concat] at hc
    cases hc
    exact hb

/-- A text with another first character is neither empty nor `null`. -/
theorem Text.not_null_of_head {a : Char} (ha : a ≠ 'n') (cs : List Char) :
    ¬ (decide (String.ofList (a :: cs) = "")
      || decide (String.ofList (a :: cs) = "null")) = true := by
  have hne : ∀ t : String, t.toList.head? ≠ some a → String.ofList (a :: cs) ≠ t := by
    rintro t ht rfl
    rw [String.toList_ofList] at ht
    exact ht rfl
  rw [Bool.or_eq_true, decide_eq_true_eq, decide_eq_true_eq]
  refine not_or.2 ⟨hne "" (by simp), hne "null" fun heq => ?_⟩
  exact ha (Option.some.inj heq).symm

-- ==== quotes

namespace Text.Quoted

/-- A printable character of ASCII. -/
def Ascii (c : Char) : Prop := 0x20 ≤ c.toNat ∧ c.toNat ≤ 0x7e

instance (c : Char) : Decidable (Ascii c) :=
  inferInstanceAs (Decidable (_ ∧ _))

/-- Quoting and escaping markup is what a document does to a string. -/
theorem escapeChar_eq {c : Char} (h : Ascii c) :
    (escapeChar c).flatMap
        (fun d => if Json.isMarkup d then Json.unitEscape d else [d])
      = Json.escapeChar c := by
  by_cases hquote : c = '"'
  · subst hquote
    decide
  by_cases hslash : c = '\\'
  · subst hslash
    decide
  have hlow := h.1
  have hprintable : isPrintable c = true := by
    unfold isPrintable
    rw [if_pos (by have := h.2; omega)]
    exact decide_eq_true hlow
  have hplain : escapeChar c = [c] := by
    unfold escapeChar
    simp [hquote, hslash, hprintable]
  have hn : ∀ k, k < 0x20 → c.toNat ≠ k := fun k hk heq => by omega
  rw [hplain, List.flatMap_singleton]
  unfold Json.escapeChar
  simp [hquote, hslash, hn, Nat.not_lt.2 hlow]

theorem escapeMarkup_encode {s : String} (h : ∀ c ∈ s.toList, Ascii c) :
    Json.escapeMarkup (encode s) = Json.quote s := by
  have hbody : (s.toList.flatMap escapeChar).flatMap
      (fun d => if Json.isMarkup d then Json.unitEscape d else [d])
      = Json.Texts.inside s := by
    rw [List.flatMap_assoc]
    exact List.flatMap_congr fun c hc => escapeChar_eq (h c hc)
  unfold Json.escapeMarkup encode encodeChars Json.quote
  rw [Json.quoteChars_eq, String.toList_ofList, List.flatMap_cons,
    List.flatMap_append, hbody]
  rfl

end Text.Quoted

-- ==== ids

namespace Editor.Id

/-- An integer that a double holds, in its canonical form, or a text of
printable ASCII characters that is no integer. -/
def Plain (i : Id) : Prop :=
  (∃ n : Int, n.natAbs ≤ 2 ^ 53 ∧ i = ofInt n)
    ∨ i.int? = none ∧ ∀ c ∈ i.text.toList, Text.Quoted.Ascii c

/-- A text whose characters were checked. -/
theorem Plain.text {s : String} (hint : int? ⟨s⟩ = none)
    (h : (s.toList.all fun c => decide (Text.Quoted.Ascii c)) = true) :
    Plain ⟨s⟩ :=
  .inr ⟨hint, fun c hc => of_decide_eq_true (List.all_eq_true.1 h c hc)⟩

variable {n : Int}

/-- A property of the signs and the digits is one of all characters of an
integer, however it is spelt. -/
theorem forall_mem_of_signed? {P : Char → Prop} (hminus : P '-')
    (hplus : P '+') (hdigit : ∀ k, k < 10 → P (Nat.digitChar k))
    {cs : List Char} (h : Number.signed? cs = some n) :
    cs ≠ [] ∧ ∀ c ∈ cs, P c := by
  have hdigits : ∀ {ds : List Char}, Json.Digits ds → ∀ c ∈ ds, P c := by
    intro ds hds c hc
    obtain ⟨hlt, hchar⟩ := Json.digitChar_digit (hds.2 c hc)
    rw [← hchar]
    exact hdigit _ hlt
  rcases Json.signed?_cases h with
    ⟨ds, rfl, hds, -⟩ | ⟨ds, rfl, hds, -⟩ | ⟨hds, -⟩
  · exact ⟨List.cons_ne_nil _ _, List.forall_mem_cons.2 ⟨hminus, hdigits hds⟩⟩
  · exact ⟨List.cons_ne_nil _ _, List.forall_mem_cons.2 ⟨hplus, hdigits hds⟩⟩
  · exact ⟨hds.1, hdigits hds⟩

theorem toJson_ofInt {τ : Type} (h : n.natAbs ≤ 2 ^ 53) :
    ((ofInt n).toJson : Json τ) = .int n := by
  have hwrite : (ofInt n).write = toString n := by
    unfold write int? ofInt
    rw [Json.int64?_toString (Number.inInt64_of_natAbs_le h)]
    rfl
  have hmarkup := (forall_mem_of_signed? (P := fun c => Json.isMarkup c = false)
    (by decide) (by decide) (by decide) (Json.signed?_toString n)).2
  unfold toJson Json.escapeMarkup Json.int
  rw [hwrite]
  congr 1
  rw [← String.toList_inj, String.toList_ofList]
  conv => rhs; rw [← List.flatMap_singleton' (toString n).toList]
  refine List.flatMap_congr fun c hc => ?_
  simp [hmarkup c hc]

variable {i : Id}

theorem toJson_text {τ : Type} (hint : i.int? = none)
    (h : ∀ c ∈ i.text.toList, Text.Quoted.Ascii c) :
    (i.toJson : Json τ) = .number (Json.quote i.text) := by
  unfold toJson write
  rw [hint, if_neg (by simp), Text.Quoted.escapeMarkup_encode h]

/-- A plain id is a number or a string in its document. -/
theorem Plain.legible_toJson {τ : Type} (h : i.Plain) :
    (i.toJson : Json τ).Legible := by
  rcases h with ⟨n, hn, rfl⟩ | ⟨hint, hascii⟩
  · rw [toJson_ofInt hn]
    exact .number (Json.numeral_toString n)
  · rw [toJson_text hint hascii]
    exact .quoted i.text

/-- An integer that stands bare is read through a double. If that is too
large for an integer, the text is kept. -/
theorem read_bare (h : i.int? = some n) :
    read i.text = .ok (((Number.Double.rounded n).map ofInt).getD i) := by
  obtain ⟨d, hd, hint⟩ := Number.Literal.read?_of_int64? h
  have hplain := forall_mem_of_signed?
    (P := fun c => Text.isSpace c = false ∧ c ≠ '"' ∧ c ≠ 'n')
    (by decide) (by decide) (by decide) (Json.signed?_of_int64? h)
  have htrim : Text.trim i.text = i.text :=
    Text.trim_eq_self (fun c hc => (hplain.2 c (List.mem_of_head? hc)).1)
      (fun c hc => (hplain.2 c (List.mem_of_getLast? hc)).1)
  have hempty : i.text ≠ "" := by
    intro heq
    rw [heq] at hplain
    exact hplain.1 rfl
  have hnull : i.text ≠ "null" := fun heq =>
    (hplain.2 'n' (by rw [heq]; decide)).2.2 rfl
  have hvalue : ¬ (decide (i.text = "") || decide (i.text = "null")) = true := by
    rw [Bool.or_eq_true, decide_eq_true_eq, decide_eq_true_eq]
    exact not_or.2 ⟨hempty, hnull⟩
  have hhead : i.text.toList.head? ≠ some '"' := fun heq =>
    (hplain.2 '"' (List.mem_of_head? heq)).2.1 rfl
  unfold read
  dsimp only
  rw [htrim, if_neg hvalue, if_neg hhead, hd]
  dsimp only
  rw [hint]
  cases Number.Double.rounded n with
  | none => rfl
  | some m => rfl

theorem int?_ofInt (h : Number.inInt64 n = true) :
    (ofInt n).int? = some n := Json.int64?_toString h

theorem read_toString (h : n.natAbs ≤ 2 ^ 53) :
    read (toString n) = .ok (ofInt n) := by
  have hn := Number.inInt64_of_natAbs_le h
  have hread := read_bare (int?_ofInt hn)
  rwa [(Number.Double.rounded_eq_self_iff hn).2 (Number.Double.exact_of_le h)]
    at hread

/-- A quoted text is the id that its escapes spell. -/
theorem read_enclosed {cs : List Char} {s : String}
    (h : Text.Quoted.decode? (String.ofList ('"' :: (cs ++ ['"']))) = some s) :
    read (String.ofList ('"' :: (cs ++ ['"']))) = .ok ⟨s⟩ := by
  unfold read
  dsimp only
  rw [Text.trim_enclosed (by decide) (by decide),
    if_neg (Text.not_null_of_head (by decide) _),
    if_pos (by rw [String.toList_ofList]; rfl), h]

/-- A string of the document is the id with its text. -/
theorem read_quote (s : String) : read (Json.quote s) = .ok ⟨s⟩ := by
  have hquote : Json.quote s = String.ofList ('"' :: (Json.Texts.inside s ++ ['"'])) := by
    rw [Json.quote, Json.quoteChars_eq]
  have hdecode := Text.Quoted.decode?_quote s
  rw [hquote] at hdecode ⊢
  exact read_enclosed hdecode

/-- Reading the text of a plain id gives the id. -/
theorem Plain.read_toJson {τ : Type} [Json.Readable τ] (h : i.Plain)
    (l : Json.Layout) (depth : Nat) :
    read (l.source depth (i.toJson : Json τ)).text = .ok i := by
  rw [l.text_source depth h.legible_toJson]
  rcases h with ⟨n, hn, rfl⟩ | ⟨hint, hascii⟩
  · rw [toJson_ofInt hn, Json.int, Json.Layout.chars, String.ofList_toList,
      read_toString hn]
  · rw [toJson_text hint hascii, Json.Layout.chars, String.ofList_toList,
      read_quote]

end Editor.Id

end PromptGraph

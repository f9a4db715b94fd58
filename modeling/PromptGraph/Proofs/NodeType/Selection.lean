/-
A number among the options of a dynamic choice. The server declares the
options and the editor keeps the selected value, and both may be numbers.
The option is found by comparing texts: the value's is the one it was
written with, the option's is how its double is written out. So a number
finds its option exactly if it is canonical, and it then finds the first
option that declares the same number, however this is spelt there. Any
other spelling finds nothing among numbers, not even the option that was
declared with the very same text.
-/
import PromptGraph.NodeType.Reader
import PromptGraph.Proofs.Number.Positional

namespace PromptGraph.NodeType

open Json (Source)
open Number (Canonical Common)

-- ==== the texts

theorem declaredKey_eq_iff {s t : String} {d : Number.Double}
    (hs : Json.double? s = some d) :
    Json.declaredKey (.number s) = t ↔ Canonical d t := by
  have hkey : Json.declaredKey (.number s) = d.render .positional := by
    show Json.relayout .positional s = _
    unfold Json.relayout
    rw [hs]
  rw [hkey, ← Number.eq_render_iff (Number.formed_of_double? hs) t]
  exact eq_comm

variable {t : String}

/-- A text is canonical for one double at most. -/
theorem canonical_unique {d e : Number.Double} (hd : d.Formed) (he : e.Formed)
    (h : Canonical d t) (h' : Canonical e t) : d = e := by
  have hread := Number.double?_render hd
  rw [← (Number.eq_render_iff hd t).2 h, (Number.eq_render_iff he t).2 h',
    Number.double?_render he] at hread
  exact (Option.some.inj hread).symm

-- ==== the options

/-- The declaration is of a dynamic choice among these options. -/
inductive Declares : Source → List DynamicRecord → Prop where
  | mk {text optionsText : String} {tag v : Source} {more : List Source}
      {fields : List (String × Source)} {o : Options}
      {records : List DynamicRecord}
      (hkind : Kind.classify (tagOf tag) = .dynamicCombo)
      (hread : readOptions (.object optionsText fields) = some o)
      (hoptions : o.options = some v)
      (hrecords : dynamicRecords? v = some records) :
      Declares (.array text (tag :: .object optionsText fields :: more)) records

/-- The inputs that come with an option. -/
def DynamicRecord.brings (depth : Nat) (r : DynamicRecord) : List InputType :=
  (r.inputs.get .required).map (fun (n, x) => readInput depth n .required x)
    ++ (r.inputs.get .optional).map (fun (n, x) => readInput depth n .optional x)

/-- The number that an option is declared with. -/
def DynamicRecord.number? (r : DynamicRecord) : Option Number.Double :=
  match r.key with
  | .number s => Json.double? s
  | _ => none

theorem DynamicRecord.declaredKey_eq_iff {r : DynamicRecord}
    {d : Number.Double} (h : r.number? = some d) (t : String) :
    d.Formed ∧ (r.key.declaredKey = t ↔ Canonical d t) := by
  unfold number? at h
  split at h
  · next s hs =>
    rw [hs]
    exact ⟨Number.formed_of_double? h, NodeType.declaredKey_eq_iff h⟩
  · cases h

variable {records : List DynamicRecord} {v : Source}

theorem Declares.options (h : Declares v records) (depth : Nat) (name : String)
    (sec : InputSection) :
    (readInput (depth + 1) name sec v).options
      = some (records.map fun r => (r.key.declaredKey, r.brings depth)) := by
  obtain ⟨hkind, hread, hoptions, hrecords⟩ := h
  rw [readInput]
  · dsimp only
    rw [hread, hkind]
    dsimp only
    rw [hoptions]
    dsimp only
    rw [hrecords]
    rfl
  · -- a list in the place of the tag is a plain choice
    rintro text items rfl
    exact absurd hkind (by decide : Kind.classify Kind.comboTag ≠ .dynamicCombo)

/-- A value selects the first option whose declared text it has. -/
theorem Declares.subInputs? (h : Declares v records) (depth : Nat)
    (name : String) (sec : InputSection) (value : String) :
    (readInput (depth + 1) name sec v).subInputs? value
      = (records.find? fun r => r.key.declaredKey = value).map
          (·.brings depth) := by
  unfold InputType.subInputs?
  rw [h.options, Option.getD_some, List.find?_map, Option.map_map]
  rfl

/-- The option is found that is the first with its text. -/
theorem Declares.subInputs?_of_first {before after : List DynamicRecord}
    {r : DynamicRecord} (h : Declares v (before ++ r :: after))
    (hr : r.key.declaredKey = t)
    (hbefore : ∀ q ∈ before, q.key.declaredKey ≠ t) (depth : Nat)
    (name : String) (sec : InputSection) :
    (readInput (depth + 1) name sec v).subInputs? t
      = some (r.brings depth) := by
  have hnone : before.find? (fun q => q.key.declaredKey = t) = none := by
    rw [List.find?_eq_none]
    intro q hq hkey
    exact hbefore q hq (of_decide_eq_true hkey)
  rw [h.subInputs?, List.find?_append, hnone, Option.none_or, List.find?_cons,
    decide_eq_true hr]
  rfl

theorem Declares.subInputs?_eq_none (h : Declares v records)
    (ht : ∀ q ∈ records, q.key.declaredKey ≠ t) (depth : Nat) (name : String)
    (sec : InputSection) :
    (readInput (depth + 1) name sec v).subInputs? t = none := by
  have hnone : records.find? (fun q => q.key.declaredKey = t) = none := by
    rw [List.find?_eq_none]
    intro q hq hkey
    exact ht q hq (of_decide_eq_true hkey)
  rw [h.subInputs?, hnone]
  rfl

/-- A text is not that of an option if it is canonical for no number that
the option declares. -/
theorem DynamicRecord.declaredKey_ne {q : DynamicRecord}
    (hother : q.number? = none → q.key.declaredKey ≠ t)
    (hnumber : ∀ e, q.number? = some e → e.Formed → ¬ Canonical e t) :
    q.key.declaredKey ≠ t := by
  cases he : q.number? with
  | none => exact hother he
  | some e =>
      obtain ⟨hformed, hiff⟩ := q.declaredKey_eq_iff he t
      exact fun hkey => hnumber e he hformed (hiff.1 hkey)

/-- A text that reads as a double is canonical for no other. -/
theorem not_canonical_of_double? {d e : Number.Double}
    (ht : Json.double? t = some d) (he : e.Formed) (hnot : ¬ Canonical d t) :
    ¬ Canonical e t := by
  intro h
  have hread := Number.double?_render he
  rw [← (Number.eq_render_iff he t).2 h, ht] at hread
  cases hread
  exact hnot h

/-- When a number finds the option that is declared with it. The two texts
agree exactly if the number is canonical, as common numbers are. It then
selects the first option that declares the same number, and otherwise
nothing, unless an option that is no number has the text. -/
theorem number_selects_option_iff_canonical {t : String} {d : Number.Double}
    (ht : Json.double? t = some d) :
    (Json.key (.number t) = Json.declaredKey (.number t) ↔ Canonical d t)
      ∧ (Common d t → Canonical d t)
      ∧ ∀ {v : Source} {before after : List DynamicRecord}
          {r : DynamicRecord}, Declares v (before ++ r :: after) →
        (∀ q ∈ before ++ r :: after, q.number? = none → q.key.declaredKey ≠ t) →
        r.number? = some d → (∀ q ∈ before, q.number? ≠ some d) →
        ∀ (depth : Nat) (name : String) (sec : InputSection),
          (Canonical d t →
            (readInput (depth + 1) name sec v).subInputs?
              (Json.key (.number t)) = some (r.brings depth))
          ∧ (¬ Canonical d t →
            (readInput (depth + 1) name sec v).subInputs?
              (Json.key (.number t)) = none) := by
  refine ⟨?_, fun hcommon => hcommon.canonical ht, ?_⟩
  · rw [← declaredKey_eq_iff ht]
    exact eq_comm
  · intro v before after r h hothers hr hbefore depth name sec
    obtain ⟨hd, hiff⟩ := r.declaredKey_eq_iff hr t
    refine ⟨fun hcanonical => ?_, fun hnot => ?_⟩
    · refine h.subInputs?_of_first (hiff.2 hcanonical) (fun q hq => ?_) depth name sec
      refine q.declaredKey_ne (hothers q (List.mem_append_left _ hq)) ?_
      intro e he hformed hsame
      rw [canonical_unique hformed hd hsame hcanonical] at he
      exact hbefore q hq he
    · refine h.subInputs?_eq_none (fun q hq => ?_) depth name sec
      exact q.declaredKey_ne (hothers q hq) fun e _ hformed =>
        not_canonical_of_double? ht hformed hnot

/-- A choice between two numbers, the second with an input of its own. -/
def strengthChoice (first second : String) : Source :=
  .array "" [.string "COMFY_DYNAMICCOMBO_V3",
    .object "" [("options", .array "" [
      .object "" [("key", .number first)],
      .object "" [("key", .number second),
        ("inputs", .object "" [("required", .object "" [
          ("amount", .array "" [.string "FLOAT"])])])]])]]

def amount : InputType :=
  .mk "amount" "FLOAT" (Kind.classify "FLOAT") .required false none [] none

/-- A tenth selects the option that is declared with it, although the
server spells it otherwise. -/
theorem number_selects_option_iff_canonical_tenth :
    Json.key (.number "0.1") ≠ "1e-1"
      ∧ (readInput 2 "strength" .required
          (strengthChoice "1.0" "1e-1")).subInputs? (Json.key (.number "0.1"))
        = some [amount] := by
  have ht : Json.double? "0.1" = some ⟨false, 7205759403792794, -56⟩ := by
    decide +kernel
  have hplain : Number.Plain false (((1 : ℕ) : ℚ) * 10 ^ (-1 : ℤ))
      "0.1".toList := Number.Plain.mk
    ⟨['0'], ['1'], Json.whole_toDigits 0, List.forall_mem_singleton.2 rfl,
      by decide⟩
  have hdeclares : Declares (strengthChoice "1.0" "1e-1")
      ([⟨.number "1.0", {}⟩] ++ ⟨.number "1e-1", _⟩ :: []) :=
    .mk rfl rfl rfl rfl
  obtain ⟨-, hcommon, hselect⟩ := number_selects_option_iff_canonical ht
  refine ⟨by decide, ?_⟩
  refine (hselect hdeclares ?_ ?_ ?_ 1 "strength" .required).1
    (hcommon (.decimal (by decide) (by decide) hplain))
  · rw [List.forall_mem_append, List.forall_mem_singleton,
      List.forall_mem_singleton]
    have hone : DynamicRecord.number? ⟨.number "1.0", {}⟩ ≠ none := by
      decide +kernel
    have htenth : Json.double? "1e-1" ≠ none := by decide +kernel
    exact ⟨fun h => absurd h hone, fun h => absurd h htenth⟩
  · decide +kernel
  · rw [List.forall_mem_singleton]
    decide +kernel

/-- A number does not find the option that is declared with the same
text. -/
theorem number_misses_declared_option :
    ∃ r : DynamicRecord, Declares (strengthChoice "0" "1.0") [⟨.number "0", {}⟩, r]
      ∧ r.key = .number "1.0" ∧ r.brings 1 = [amount]
      ∧ Json.key (.number "1.0") ≠ Json.declaredKey (.number "1.0")
      ∧ (readInput 2 "strength" .required
          (strengthChoice "0" "1.0")).subInputs? (Json.key (.number "1.0"))
        = none := by
  have hdeclares : Declares (strengthChoice "0" "1.0")
      [⟨.number "0", {}⟩, ⟨.number "1.0", _⟩] := .mk rfl rfl rfl rfl
  have hzero : Json.declaredKey (.number "0") = "0" := by decide +kernel
  have hone : Json.declaredKey (.number "1.0") = "1" := by decide +kernel
  refine ⟨_, hdeclares, rfl, rfl, ?_, ?_⟩
  · rw [hone]
    decide
  · rw [hdeclares.subInputs?, List.find?_cons, List.find?_cons, hzero, hone]
    rfl

end PromptGraph.NodeType

/-
Printed JSON reads back, in every layout: the compact and the indented
form differ only in the blanks between their tokens, which reading
skips.

Reading gives a source, which still carries the spelling. Which one is
`Layout.source`: each list and object in it has the printed text of that
part. What ties it to the printed value is `Source.Writes`: member for
member the same value, the fields of an object in the order they stand
in the text. A record that is not printed by ascending names can so be
followed field by field; for canonical values the relation is
`Source.value?`.

A document may print a quoted text where its value has a number, and
then it reads as a string (`Legible`).

Main statements: `readFirst?_print`, `read?_print`, `read?_legible` and
`Canonical.value?_of_writes`.
-/
import PromptGraph.Proofs.Json.Canonical
import PromptGraph.Proofs.Json.Quoting
import PromptGraph.Proofs.Json.Texts

namespace PromptGraph.Json

-- ==== layouts

/-- A layout puts nothing but blanks before a value. -/
theorem Layout.gap_blank (l : Layout) (depth : Nat) :
    ∀ c ∈ l.gap depth, Source.isBlank c = true := by
  intro c hc
  unfold gap at hc
  split at hc
  · cases hc
  · rcases List.mem_cons.1 hc with rfl | hc
    · rfl
    · rw [(List.mem_replicate.1 hc).2]
      rfl

theorem Layout.space_blank (l : Layout) :
    ∀ c ∈ l.space, Source.isBlank c = true := by
  intro c hc
  unfold space at hc
  split at hc
  · cases hc
  · rw [List.mem_singleton.1 hc]
    rfl

-- ==== sources and what they say

namespace Source

mutual

/-- The source is a spelling of the value: the same value member for
member, with the fields of each object in the order of the text. -/
inductive Writes : Source → Json → Prop where
  | null : Writes .null .null
  | bool (b : Bool) : Writes (.bool b) (.bool b)
  | number (t : String) : Writes (.number t) (.number t)
  | string {body s : String} (h : unescape? body = some s) :
      Writes (.string body) (.string s)
  | array (text : String) {items : List Source} {js : List Json}
      (h : List.Forall₂ Writes items js) : Writes (.array text items) (.array js)
  | object (text : String) {fields : List (String × Source)}
      {fs : List (String × Json)} (h : List.Forall₂ WritesField fields fs) :
      Writes (.object text fields) (.object fs)

inductive WritesField : String × Source → String × Json → Prop where
  | mk {name key : String} {s : Source} {j : Json}
      (hname : unescape? name = some key) (hvalue : Writes s j) :
      WritesField (name, s) (key, j)

end

/-- A list is read item by item. -/
theorem values?_of_writes {f : Json → Json} {items : List Source} {js : List Json}
    (h : List.Forall₂ Writes items js)
    (hvalue : ∀ j ∈ js, ∀ {s}, Writes s j → value? s = some (f j)) :
    values? items = some (js.map f) := by
  induction h with
  | nil => rfl
  | cons hv _ ih =>
      rw [values?, hvalue _ List.mem_cons_self hv,
        ih fun j hj => hvalue j (List.mem_cons_of_mem _ hj)]
      rfl

/-- An object is read field by field. -/
theorem members?_of_writes {f : Json → Json} {fields : List (String × Source)}
    {fs : List (String × Json)} (h : List.Forall₂ WritesField fields fs)
    (hvalue : ∀ p ∈ fs, ∀ {s}, Writes s p.2 → value? s = some (f p.2)) :
    members? fields = some (Assoc.mapValues f fs) := by
  induction h with
  | nil => rfl
  | cons hf _ ih =>
      cases hf with
      | mk hname hv =>
          rw [members?, hname, hvalue _ List.mem_cons_self hv,
            ih fun p hp => hvalue p (List.mem_cons_of_mem _ hp)]
          rfl

end Source

mutual

/-- The value with each object as the table of its fields. -/
def settled : Json → Json
  | .array vs => .array (settledItems vs)
  | .object fs => .object (Assoc.ofList (settledFields fs))
  | j => j

def settledItems : List Json → List Json
  | [] => []
  | v :: rest => settled v :: settledItems rest

def settledFields : List (String × Json) → List (String × Json)
  | [] => []
  | (k, v) :: rest => (k, settled v) :: settledFields rest

end

/-- Items are settled one by one. -/
theorem settledItems_eq (vs : List Json) : settledItems vs = vs.map settled := by
  induction vs with
  | nil => rfl
  | cons v vs ih => rw [settledItems, ih, List.map_cons]

/-- So are the values of fields. -/
theorem settledFields_eq (fs : List (String × Json)) :
    settledFields fs = Assoc.mapValues settled fs := by
  induction fs with
  | nil => rfl
  | cons f fs ih =>
      obtain ⟨k, v⟩ := f
      rw [settledFields, ih]
      rfl

variable {j : Json} {s : Source}

/-- The value of a spelling has the objects of what is spelled as tables. -/
theorem Source.Writes.value? (h : Source.Writes s j) :
    Source.value? s = some j.settled := by
  induction j using Json.induction generalizing s with
  | null =>
      cases h
      rfl
  | bool b =>
      cases h
      rfl
  | number t =>
      cases h
      rfl
  | string t =>
      cases h with
      | string h =>
          rw [Source.value?, h, Option.map_some]
          rfl
  | array vs ih =>
      cases h with
      | array text h =>
          rw [Source.value?, Source.values?_of_writes h fun j hj _ => ih j hj,
            Option.map_some, settled, settledItems_eq]
  | object fs ih =>
      cases h with
      | object text h =>
          rw [Source.value?, Source.members?_of_writes h fun f hf _ => ih f hf,
            Option.map_some, settled, settledFields_eq]

/-- A canonical value is settled as it is. -/
theorem Canonical.settled_eq (hj : j.Canonical) : j.settled = j := by
  induction hj with
  | null => rfl
  | bool b => rfl
  | number _ => rfl
  | string t => rfl
  | array _ ih =>
      rw [settled, settledItems_eq, List.map_congr_left ih, List.map_id']
  | object ordered _ ih =>
      have hfields : ∀ f ∈ _, (f.1, settled f.2) = f := fun f hf =>
        Prod.ext rfl (ih f hf)
      rw [settled, settledFields_eq, Assoc.mapValues, List.map_congr_left hfields,
        List.map_id', Assoc.ofList_of_ascending ordered]

/-- The value of a spelling of a canonical value is that value. -/
theorem Canonical.value?_of_writes (hj : j.Canonical) (h : Source.Writes s j) :
    Source.value? s = some j := by
  rw [h.value?, hj.settled_eq]

-- ==== blanks

namespace Source

/-- Blanks in front are skipped. -/
theorem skipBlank_append {blanks : List Char}
    (h : ∀ c ∈ blanks, isBlank c = true) (cs : List Char) :
    skipBlank (blanks ++ cs) = skipBlank cs := by
  unfold skipBlank
  rw [List.dropWhile_append_of_pos h]

theorem skipBlank_cons {c : Char} (h : isBlank c = false) (cs : List Char) :
    skipBlank (c :: cs) = c :: cs := by
  unfold skipBlank
  rw [List.dropWhile_cons_of_neg (by simp [h])]

/-- Reading a value does not see blanks in front. -/
theorem readValue?_skipBlank (rigour : Rigour) (fuel : Nat) {cs ds : List Char}
    (h : skipBlank cs = skipBlank ds) :
    readValue? rigour fuel cs = readValue? rigour fuel ds := by
  cases fuel with
  | zero => rfl
  | succ fuel =>
      unfold readValue?
      rw [h]

end Source

-- ==== first characters

/-- A character that starts a value: no blank, and no bracket that would
end a list or an object. -/
def Opens (c : Char) : Prop :=
  Source.isBlank c = false ∧ c ≠ ']' ∧ c ≠ '}'

instance (c : Char) : Decidable (Opens c) :=
  inferInstanceAs (Decidable (_ ∧ _ ∧ _))

/-- A numeral starts with a digit or a sign. -/
theorem Numeral.exists_cons {cs : List Char} (h : Numeral cs) :
    ∃ c rest, cs = c :: rest ∧ (c = '-' ∨ Number.isDigit c = true) := by
  obtain @⟨sign, whole, fraction, exponent, hsign, hw, -, -⟩ := h
  rcases hsign with rfl | rfl
  · cases whole with
    | nil => exact absurd rfl hw.1.1
    | cons d ds =>
        exact ⟨d, ds ++ fraction ++ exponent, rfl, Or.inr hw.1.head_isDigit⟩
  · exact ⟨'-', whole ++ fraction ++ exponent, rfl, Or.inl rfl⟩

variable {c : Char}

/-- A digit begins a value. -/
theorem opens_of_isDigit (h : Number.isDigit c = true) : Opens c := by
  refine ⟨?_, ne_of_isDigit h (by decide), ne_of_isDigit h (by decide)⟩
  simp [Source.isBlank, ne_of_isDigit h (show Number.isDigit ' ' = false by decide),
    ne_of_isDigit h (show Number.isDigit '\t' = false by decide),
    ne_of_isDigit h (show Number.isDigit '\n' = false by decide),
    ne_of_isDigit h (show Number.isDigit '\r' = false by decide)]

variable {blanks : List Char}

/-- A blank ends a numeral, as the character after the blanks does. -/
theorem endsNumeral_blanks (h : ∀ c ∈ blanks, Source.isBlank c = true)
    {rest : List Char} (hrest : EndsNumeral rest) :
    EndsNumeral (blanks ++ rest) := by
  cases blanks with
  | nil => exact hrest
  | cons b bs =>
      intro c hc
      cases hc
      have hb := h b List.mem_cons_self
      unfold Source.isBlank at hb
      simp only [Bool.or_eq_true, decide_eq_true_eq] at hb
      rcases hb with ((rfl | rfl) | rfl) | rfl
      · decide
      · decide
      · decide
      · decide

/-- A character that continues no numeral ends it. -/
theorem endsNumeral_cons (rest : List Char)
    (h : Number.isDigit c = false ∧ c ≠ '.' ∧ c ≠ 'e' ∧ c ≠ 'E') :
    EndsNumeral (c :: rest) := by
  intro d hd
  cases hd
  exact h

/-- Each number in the value is a numeral, or a quoted text in the place
of one. -/
inductive Legible {τ : Type} : Json τ → Prop where
  | null : Legible .null
  | bool (b : Bool) : Legible (.bool b)
  | number {t : String} (h : Numeral t.toList) : Legible (.number t)
  | quoted (s : String) : Legible (.number (quote s))
  | string (t : τ) : Legible (.string t)
  | array {items : List (Json τ)} (h : ∀ v ∈ items, Legible v) :
      Legible (.array items)
  | object {fields : List (τ × Json τ)} (h : ∀ f ∈ fields, Legible f.2) :
      Legible (.object fields)

/-- What is spelled can be read. -/
theorem Spelled.legible {τ : Type} {j : Json τ} (h : j.Spelled) : j.Legible := by
  induction h with
  | null => exact .null
  | bool b => exact .bool b
  | number h => exact .number h
  | string s => exact .string s
  | array _ ih => exact .array ih
  | object _ ih => exact .object ih

namespace Layout

variable {τ : Type} [Readable τ] (l : Layout)

/-- What is written begins like a value. -/
theorem chars_opens (depth : Nat) {j : Json τ} (hj : j.Legible) :
    ∃ c cs, l.chars depth j = c :: cs ∧ Opens c := by
  cases hj with
  | null => exact ⟨'n', _, rfl, by decide⟩
  | bool b =>
      cases b with
      | true => exact ⟨'t', _, rfl, by decide⟩
      | false => exact ⟨'f', _, rfl, by decide⟩
  | number h =>
      obtain ⟨c, cs, hcs, hc⟩ := h.exists_cons
      refine ⟨c, cs, by rw [chars, hcs], ?_⟩
      rcases hc with rfl | hc
      · decide
      · exact opens_of_isDigit hc
  | quoted s =>
      refine ⟨'"', Texts.inside s ++ ['"'], ?_, by decide⟩
      rw [chars, quote, String.toList_ofList, quoteChars_eq]
  | string s => exact ⟨'"', _, rfl, by decide⟩
  | @array items _ =>
      cases items with
      | nil => exact ⟨'[', _, rfl, by decide⟩
      | cons v rest => exact ⟨'[', _, rfl, by decide⟩
  | @object fields _ =>
      cases fields with
      | nil => exact ⟨'{', _, rfl, by decide⟩
      | cons f rest => exact ⟨'{', _, rfl, by decide⟩

/-- The items of a list end with its bracket. -/
theorem items_closes (depth : Nat) (vs : List (Json τ)) :
    ∃ cs, l.items depth vs = cs ++ [']'] := by
  induction vs with
  | nil => exact ⟨l.gap depth, rfl⟩
  | cons v vs ih =>
      obtain ⟨cs, hcs⟩ := ih
      refine ⟨',' :: (l.gap (depth + 1) ++ (l.chars (depth + 1) v ++ cs)), ?_⟩
      rw [items, hcs]
      simp

/-- The fields of a record end with its brace. -/
theorem fields_closes (depth : Nat) (fs : List (τ × Json τ)) :
    ∃ cs, l.fields depth fs = cs ++ ['}'] := by
  induction fs with
  | nil => exact ⟨l.gap depth, rfl⟩
  | cons f fs ih =>
      obtain ⟨k, v⟩ := f
      obtain ⟨cs, hcs⟩ := ih
      refine ⟨',' :: (l.gap (depth + 1) ++ (quoteChars k ++ ':' ::
        (l.space ++ (l.chars (depth + 1) v ++ cs)))), ?_⟩
      rw [fields, hcs]
      simp

/-- A list stands between its brackets. -/
theorem chars_array (depth : Nat) (vs : List (Json τ)) :
    ∃ cs, l.chars depth (.array vs) = '[' :: (cs ++ [']']) := by
  cases vs with
  | nil => exact ⟨[], rfl⟩
  | cons v vs =>
      obtain ⟨cs, hcs⟩ := l.items_closes depth vs
      refine ⟨l.gap (depth + 1) ++ (l.chars (depth + 1) v ++ cs), ?_⟩
      rw [chars, hcs]
      simp

/-- An object stands between its braces. -/
theorem chars_object (depth : Nat) (fs : List (τ × Json τ)) :
    ∃ cs, l.chars depth (.object fs) = '{' :: (cs ++ ['}']) := by
  cases fs with
  | nil => exact ⟨[], rfl⟩
  | cons f fs =>
      obtain ⟨k, v⟩ := f
      obtain ⟨cs, hcs⟩ := l.fields_closes depth fs
      refine ⟨l.gap (depth + 1) ++ (quoteChars k ++ ':' ::
        (l.space ++ (l.chars (depth + 1) v ++ cs))), ?_⟩
      rw [chars, hcs]
      simp

/-- What follows an item ends a numeral. -/
theorem endsNumeral_items (depth : Nat) (vs : List (Json τ)) (rest : List Char) :
    EndsNumeral (l.items depth vs ++ rest) := by
  cases vs with
  | nil =>
      rw [items, List.append_assoc]
      exact endsNumeral_blanks (l.gap_blank depth)
        (endsNumeral_cons rest (by decide))
  | cons v vs => exact endsNumeral_cons _ (by decide)

/-- What follows a field ends a numeral. -/
theorem endsNumeral_fields (depth : Nat) (fs : List (τ × Json τ))
    (rest : List Char) : EndsNumeral (l.fields depth fs ++ rest) := by
  cases fs with
  | nil =>
      rw [fields, List.append_assoc]
      exact endsNumeral_blanks (l.gap_blank depth)
        (endsNumeral_cons rest (by decide))
  | cons f fs => exact endsNumeral_cons _ (by decide)

end Layout

-- ==== reading steps

namespace Source

variable {rigour : Rigour} {fuel : Nat}

/-- Signs and digits open no other value, so a number is read. -/
theorem readValue?_number (hc : c = '-' ∨ c = '+' ∨ Number.isDigit c = true)
    (cs : List Char) :
    readValue? rigour (fuel + 1) (c :: cs)
      = (readNumber? (c :: cs)).map fun x => (.number x.1, x.2) := by
  have hblank : isBlank c = false := by
    rcases hc with rfl | rfl | hc
    · rfl
    · rfl
    · exact (opens_of_isDigit hc).1
  have hne : ∀ d ∈ ['n', 't', 'f', '"', '[', '{'], c ≠ d := by
    have hall : ∀ d ∈ ['n', 't', 'f', '"', '[', '{'],
        Number.isDigit d = false := by simp [Number.isDigit]
    intro d hd
    rcases hc with rfl | rfl | hc
    · rintro rfl
      exact absurd hd (by decide)
    · rintro rfl
      exact absurd hd (by decide)
    · exact ne_of_isDigit hc (hall d hd)
  rw [readValue?, skipBlank_cons hblank]
  split
  · next heq => exact absurd (List.cons.inj heq).1 (hne _ (by decide))
  · next heq => exact absurd (List.cons.inj heq).1 (hne _ (by decide))
  · next heq => exact absurd (List.cons.inj heq).1 (hne _ (by decide))
  · next heq => exact absurd (List.cons.inj heq).1 (hne _ (by decide))
  · next heq => exact absurd (List.cons.inj heq).1 (hne _ (by decide))
  · next heq => exact absurd (List.cons.inj heq).1 (hne _ (by decide))
  · rfl

/-- A numeral is read up to its end. -/
theorem readValue?_numeral {cs rest : List Char} (h : Numeral cs)
    (hrest : EndsNumeral rest) :
    readValue? rigour (fuel + 1) (cs ++ rest)
      = some (.number (String.ofList cs), rest) := by
  obtain ⟨c, tail, rfl, hc⟩ := h.exists_cons
  rw [List.cons_append, readValue?_number (hc.imp_right .inr), ← List.cons_append,
    readNumber?_append h hrest]
  rfl

/-- Behind a quote a string is read. -/
theorem readValue?_quote (body : List Char) :
    readValue? rigour (fuel + 1) ('"' :: body)
      = (readString? rigour body).map fun x => (.string x.1, x.2) := by
  rw [readValue?, skipBlank_cons (by decide)]
  rfl

/-- A quoted text is read as what stands between the quotes. -/
theorem readValue?_quoted {τ : Type} [Readable τ] (t : τ) (rest : List Char) :
    readValue? rigour (fuel + 1) (quoteChars t ++ rest)
      = some (.string (String.ofList (Texts.inside t)), rest) := by
  have happ : quoteChars t ++ rest = '"' :: (Texts.inside t ++ '"' :: rest) := by
    rw [quoteChars_eq]
    simp
  rw [happ, readValue?_quote, readString?_quoted, Option.map_some]

/-- Behind a bracket that is not closed at once, items are read. -/
theorem readValue?_list {r rest : List Char} {items : List Source}
    (hopen : ∀ tail, skipBlank r ≠ ']' :: tail)
    (h : readItems? rigour fuel r = some (items, rest)) :
    readValue? rigour (fuel + 1) ('[' :: r)
      = some (.array (consumed ('[' :: r) rest) items, rest) := by
  rw [readValue?, skipBlank_cons (by decide)]
  -- the empty case is closed by `hopen`
  simp only [h, Option.map_some]

/-- Behind a brace that is not closed at once, fields are read. -/
theorem readValue?_record {r rest : List Char}
    {fields : List (String × Source)}
    (hopen : ∀ tail, skipBlank r ≠ '}' :: tail)
    (h : readFields? rigour fuel r = some (fields, rest)) :
    readValue? rigour (fuel + 1) ('{' :: r)
      = some (.object (consumed ('{' :: r) rest) fields, rest) := by
  rw [readValue?, skipBlank_cons (by decide)]
  simp only [h, Option.map_some]

/-- The last item is followed by a bracket. -/
theorem readItems?_last {cs r rest : List Char} {v : Source}
    (hv : readValue? rigour fuel cs = some (v, r))
    (hr : skipBlank r = ']' :: rest) :
    readItems? rigour (fuel + 1) cs = some ([v], rest) := by
  rw [readItems?, hv]
  simp only [Option.bind_eq_bind, Option.bind_some, hr]
  rfl

/-- Any other is followed by a comma. -/
theorem readItems?_more {cs r r' rest : List Char} {v : Source}
    {vs : List Source} (hv : readValue? rigour fuel cs = some (v, r))
    (hr : skipBlank r = ',' :: r')
    (hvs : readItems? rigour fuel r' = some (vs, rest)) :
    readItems? rigour (fuel + 1) cs = some (v :: vs, rest) := by
  rw [readItems?, hv]
  simp only [Option.bind_eq_bind, Option.bind_some, hr, hvs]
  rfl

/-- A field up to its value, and what the reader does with the rest. -/
theorem readFields?_field {τ : Type} [Readable τ] {blanks space cs r : List Char}
    {k : τ} {v : Source} (hblanks : ∀ c ∈ blanks, isBlank c = true)
    (hspace : ∀ c ∈ space, isBlank c = true)
    (hv : readValue? rigour fuel cs = some (v, r)) :
    readFields? rigour (fuel + 1)
        (blanks ++ (quoteChars k ++ ':' :: (space ++ cs)))
      = match skipBlank r with
        | ',' :: r' => do
          let (fields, rest) ← readFields? rigour fuel r'
          return ((String.ofList (Texts.inside k), v) :: fields, rest)
        | '}' :: rest => some ([(String.ofList (Texts.inside k), v)], rest)
        | _ => none := by
  have happ : quoteChars k ++ ':' :: (space ++ cs)
      = '"' :: (Texts.inside k ++ '"' :: (':' :: (space ++ cs))) := by
    rw [quoteChars_eq]
    simp
  have hskip : readValue? rigour fuel (space ++ cs) = some (v, r) := by
    rw [readValue?_skipBlank rigour fuel (skipBlank_append hspace cs), hv]
  have hcolon : skipBlank (':' :: (space ++ cs)) = ':' :: (space ++ cs) :=
    skipBlank_cons (by decide) _
  rw [readFields?, skipBlank_append hblanks, happ, skipBlank_cons (by decide)]
  simp only [readString?_quoted, Option.bind_eq_bind, Option.bind_some, hcolon,
    hskip]
  rfl

end Source

-- ==== reading

namespace Layout

variable {τ : Type} [Readable τ] (l : Layout)

/-- What a number is read as: a quoted text is a string. -/
def literal (t : String) : Source :=
  match t.toList with
  | '"' :: body => .string (String.ofList body.dropLast)
  | _ => .number t

mutual

/-- What a printed value is read as. -/
def source (depth : Nat) : Json τ → Source
  | .null => .null
  | .bool b => .bool b
  | .number t => literal t
  | .string s => .string (String.ofList (Texts.inside s))
  | .array vs =>
    .array (String.ofList (l.chars depth (.array vs))) (sources (depth + 1) vs)
  | .object fs =>
    .object (String.ofList (l.chars depth (.object fs)))
      (fieldSources (depth + 1) fs)

def sources (depth : Nat) : List (Json τ) → List Source
  | [] => []
  | v :: rest => source depth v :: sources depth rest

def fieldSources (depth : Nat) : List (τ × Json τ) → List (String × Source)
  | [] => []
  | (k, v) :: rest =>
    (String.ofList (Texts.inside k), source depth v) :: fieldSources depth rest

end

theorem fieldSources_append (depth : Nat) (fs gs : List (τ × Json τ)) :
    l.fieldSources depth (fs ++ gs)
      = l.fieldSources depth fs ++ l.fieldSources depth gs := by
  induction fs with
  | nil => rfl
  | cons f fs ih =>
      obtain ⟨k, v⟩ := f
      rw [List.cons_append, fieldSources, fieldSources, ih, List.cons_append]

/-- The fields of a printed object, by their names. -/
theorem fields?_source (depth : Nat) (fs : List (τ × Json τ)) :
    (l.source depth (.object fs)).fields?
      = some (fs.map fun f => (Readable.read f.1, l.source (depth + 1) f.2)) := by
  rw [source, Source.fields?]
  induction fs with
  | nil => rfl
  | cons f fs ih =>
      obtain ⟨k, v⟩ := f
      rw [fieldSources, List.mapM_cons, ih]
      dsimp only
      rw [unescape?_quoted]
      rfl

/-- Only `null` is read as `null`. -/
theorem source_ne_null (depth : Nat) {j : Json τ} (hj : j ≠ .null) :
    l.source depth j ≠ .null := by
  cases j with
  | null => exact absurd rfl hj
  | number t =>
      rw [source]
      unfold literal
      split
      · exact Source.noConfusion
      · exact Source.noConfusion
  | bool b => exact Source.noConfusion
  | string s => exact Source.noConfusion
  | array vs => exact Source.noConfusion
  | object fs => exact Source.noConfusion

/-- A numeral is the literal of a number. -/
theorem literal_numeral {t : String} (h : Numeral t.toList) :
    literal t = .number t := by
  obtain ⟨c, cs, hcs, hc⟩ := h.exists_cons
  unfold literal
  split
  · next heq =>
    rw [hcs] at heq
    cases heq
    rcases hc with hc | hc
    · cases hc
    · cases hc
  · rfl

/-- A quoted text is the literal of a string. -/
theorem literal_quote (s : String) :
    literal (quote s) = .string (String.ofList (Texts.inside s)) := by
  unfold literal quote
  rw [String.toList_ofList, quoteChars_eq]
  simp only [List.dropLast_concat]

/-- The source of a quoted text is spelled as it was written. -/
theorem text_quoted {σ : Type} [Readable σ] (t : σ) :
    (Source.string (String.ofList (Texts.inside t))).text
      = String.ofList (quoteChars t) := by
  rw [Source.text, quoteChars_eq, ← String.toList_inj]
  simp

/-- A source has the text that was printed for it. -/
theorem text_source (depth : Nat) {j : Json τ} (hj : j.Legible) :
    (l.source depth j).text = String.ofList (l.chars depth j) := by
  cases hj with
  | null => rfl
  | bool b =>
      cases b with
      | true => rfl
      | false => rfl
  | number h =>
      rw [source, literal_numeral h, chars, String.ofList_toList, Source.text]
  | quoted s =>
      rw [source, literal_quote, text_quoted, chars, quote, String.toList_ofList]
  | string s => rw [source, text_quoted, chars]
  | array _ => rfl
  | object _ => rfl

/-- A value printed in the layout reads back, whatever follows it. The
length of the text bounds what the reader needs. -/
def ReadsBack (j : Json τ) : Prop :=
  ∀ (rigour : Rigour) (depth fuel : Nat) (rest : List Char), EndsNumeral rest →
    (l.chars depth j).length ≤ fuel →
    Source.readValue? rigour fuel (l.chars depth j ++ rest)
      = some (l.source depth j, rest)

variable {l}

/-- Items that are each read back are read back as a list. -/
theorem readsBack_items (rigour : Rigour) (depth : Nat) (rest : List Char)
    {v : Json τ} {vs : List (Json τ)} (h : ∀ w ∈ v :: vs, l.ReadsBack w)
    (hblanks : ∀ c ∈ blanks, Source.isBlank c = true) {fuel : Nat}
    (hfuel : (l.chars (depth + 1) v ++ l.items depth vs).length ≤ fuel) :
    Source.readItems? rigour fuel
        (blanks ++ (l.chars (depth + 1) v ++ (l.items depth vs ++ rest)))
      = some (l.sources (depth + 1) (v :: vs), rest) := by
  induction vs generalizing v blanks fuel with
  | nil =>
      rw [List.length_append, items, List.length_append, List.length_singleton]
        at hfuel
      obtain ⟨fuel, rfl⟩ : ∃ k, fuel = k + 1 := ⟨fuel - 1, by omega⟩
      have hv := h v List.mem_cons_self rigour (depth + 1) fuel
        (l.items (τ := τ) depth [] ++ rest) (l.endsNumeral_items depth [] rest)
        (by omega)
      refine Source.readItems?_last (r := l.items (τ := τ) depth [] ++ rest) ?_ ?_
      · rw [Source.readValue?_skipBlank rigour fuel
          (Source.skipBlank_append hblanks _), hv]
      · rw [items, List.append_assoc, Source.skipBlank_append (l.gap_blank depth)]
        exact Source.skipBlank_cons (by decide) rest
  | cons w vs ih =>
      rw [List.length_append, items, List.length_cons, List.length_append] at hfuel
      obtain ⟨fuel, rfl⟩ : ∃ k, fuel = k + 1 := ⟨fuel - 1, by omega⟩
      have hv := h v List.mem_cons_self rigour (depth + 1) fuel
        (l.items depth (w :: vs) ++ rest) (l.endsNumeral_items depth _ rest)
        (by omega)
      have hvs := ih (fun x hx => h x (List.mem_cons_of_mem _ hx))
        (l.gap_blank (depth + 1)) (show _ ≤ fuel by omega)
      refine Source.readItems?_more
        (r := l.items depth (w :: vs) ++ rest) ?_ ?_ hvs
      · rw [Source.readValue?_skipBlank rigour fuel
          (Source.skipBlank_append hblanks _), hv]
      · rw [items, List.cons_append, Source.skipBlank_cons (by decide)]
        simp

/-- Fields whose values are read back are read back as well. -/
theorem readsBack_fields (rigour : Rigour) (depth : Nat) (rest : List Char)
    {k : τ} {v : Json τ} {fs : List (τ × Json τ)}
    (h : ∀ f ∈ (k, v) :: fs, l.ReadsBack f.2)
    (hblanks : ∀ c ∈ blanks, Source.isBlank c = true) {fuel : Nat}
    (hfuel : (l.chars (depth + 1) v ++ l.fields depth fs).length ≤ fuel) :
    Source.readFields? rigour fuel (blanks ++ (quoteChars k ++ ':' ::
        (l.space ++ (l.chars (depth + 1) v ++ (l.fields depth fs ++ rest)))))
      = some (l.fieldSources (depth + 1) ((k, v) :: fs), rest) := by
  induction fs generalizing k v blanks fuel with
  | nil =>
      rw [List.length_append, fields, List.length_append, List.length_singleton]
        at hfuel
      obtain ⟨fuel, rfl⟩ : ∃ k, fuel = k + 1 := ⟨fuel - 1, by omega⟩
      have hv : l.ReadsBack v := h (k, v) List.mem_cons_self
      have hs := hv rigour (depth + 1) fuel
        (l.fields (τ := τ) depth [] ++ rest) (l.endsNumeral_fields depth [] rest)
        (by omega)
      have hclose : Source.skipBlank (l.fields (τ := τ) depth [] ++ rest)
          = '}' :: rest := by
        rw [fields, List.append_assoc, Source.skipBlank_append (l.gap_blank depth)]
        exact Source.skipBlank_cons (by decide) rest
      rw [Source.readFields?_field hblanks l.space_blank hs]
      simp only [hclose, fieldSources]
  | cons f fs ih =>
      obtain ⟨k', v'⟩ := f
      rw [List.length_append, fields, List.length_cons, List.length_append,
        List.length_append, List.length_cons, List.length_append] at hfuel
      obtain ⟨fuel, rfl⟩ : ∃ k, fuel = k + 1 := ⟨fuel - 1, by omega⟩
      have hv : l.ReadsBack v := h (k, v) List.mem_cons_self
      have hs := hv rigour (depth + 1) fuel
        (l.fields depth ((k', v') :: fs) ++ rest)
        (l.endsNumeral_fields depth _ rest) (by omega)
      have hss := ih (fun x hx => h x (List.mem_cons_of_mem _ hx))
        (l.gap_blank (depth + 1)) (show _ ≤ fuel by omega)
      have hcomma : Source.skipBlank (l.fields depth ((k', v') :: fs) ++ rest)
          = ',' :: (l.gap (depth + 1) ++ (quoteChars k' ++ ':' :: (l.space
            ++ (l.chars (depth + 1) v' ++ (l.fields depth fs ++ rest))))) := by
        rw [fields, List.cons_append, Source.skipBlank_cons (by decide)]
        simp
      rw [Source.readFields?_field hblanks l.space_blank hs]
      simp only [hcomma, hss, Option.bind_eq_bind, Option.bind_some]
      rfl

/-- The members of a list or an object do not start like its end. -/
theorem skipBlank_chars (depth : Nat) {j : Json τ} (hj : j.Legible)
    (rest : List Char) :
    ∃ c cs, Source.skipBlank (l.gap depth ++ (l.chars depth j ++ rest)) = c :: cs
      ∧ Opens c := by
  obtain ⟨c, cs, hcs, hc⟩ := l.chars_opens depth hj
  refine ⟨c, cs ++ rest, ?_, hc⟩
  rw [Source.skipBlank_append (l.gap_blank depth), hcs, List.cons_append,
    Source.skipBlank_cons hc.1]

/-- What was read is what stands before the rest. -/
theorem consumed_append (cs rest : List Char) :
    Source.consumed (cs ++ rest) rest = String.ofList cs := by
  unfold Source.consumed
  rw [List.length_append, Nat.add_sub_cancel, List.take_left]

/-- A list of what is read back is read back. -/
theorem readsBack_array {items : List (Json τ)} (hlegible : ∀ v ∈ items, v.Legible)
    (h : ∀ v ∈ items, l.ReadsBack v) : l.ReadsBack (.array items) := by
  intro rigour depth fuel rest _ hfuel
  cases items with
  | nil =>
      obtain ⟨fuel, rfl⟩ : ∃ k, fuel = k + 1 :=
        ⟨fuel - 1, by have : 2 ≤ fuel := hfuel; omega⟩
      rw [source, ← consumed_append _ rest]
      rfl
  | cons v vs =>
      rw [chars, List.length_cons, List.length_append] at hfuel
      obtain ⟨fuel, rfl⟩ : ∃ k, fuel = k + 1 := ⟨fuel - 1, by omega⟩
      have hss := readsBack_items rigour depth rest h
        (l.gap_blank (depth + 1)) (show _ ≤ fuel by omega)
      have happ : l.chars depth (.array (v :: vs)) ++ rest
          = '[' :: (l.gap (depth + 1)
            ++ (l.chars (depth + 1) v ++ (l.items depth vs ++ rest))) := by
        rw [chars]
        simp
      obtain ⟨c, cs, hcs, hc⟩ := skipBlank_chars (l := l) (depth + 1)
        (hlegible v List.mem_cons_self) (l.items depth vs ++ rest)
      rw [source, ← consumed_append _ rest, happ]
      refine Source.readValue?_list (fun tail heq => ?_) hss
      rw [hcs] at heq
      exact hc.2.1 (List.cons.inj heq).1

/-- So is a record. -/
theorem readsBack_object {fields : List (τ × Json τ)}
    (h : ∀ f ∈ fields, l.ReadsBack f.2) : l.ReadsBack (.object fields) := by
  intro rigour depth fuel rest _ hfuel
  cases fields with
  | nil =>
      obtain ⟨fuel, rfl⟩ : ∃ k, fuel = k + 1 :=
        ⟨fuel - 1, by have : 2 ≤ fuel := hfuel; omega⟩
      rw [source, ← consumed_append _ rest]
      rfl
  | cons f fs =>
      obtain ⟨k, v⟩ := f
      rw [chars, List.length_cons, List.length_append, List.length_append,
        List.length_cons, List.length_append] at hfuel
      obtain ⟨fuel, rfl⟩ : ∃ k, fuel = k + 1 := ⟨fuel - 1, by omega⟩
      have hss := readsBack_fields rigour depth rest h
        (l.gap_blank (depth + 1)) (show _ ≤ fuel by omega)
      have happ : l.chars depth (.object ((k, v) :: fs)) ++ rest
          = '{' :: (l.gap (depth + 1) ++ (quoteChars k ++ ':' :: (l.space
            ++ (l.chars (depth + 1) v ++ (l.fields depth fs ++ rest))))) := by
        rw [chars]
        simp
      rw [source, ← consumed_append _ rest, happ]
      refine Source.readValue?_record (fun tail heq => ?_) hss
      rw [Source.skipBlank_append (l.gap_blank (depth + 1)), quoteChars_eq,
        List.cons_append, Source.skipBlank_cons (by decide)] at heq
      exact absurd (List.cons.inj heq).1 (by decide)

variable (l)

/-- There is something to read, so there is fuel. -/
theorem fuel_pos {j : Json τ} (hj : j.Legible) {depth fuel : Nat}
    (hfuel : (l.chars depth j).length ≤ fuel) : ∃ k, fuel = k + 1 := by
  obtain ⟨c, cs, hcs, -⟩ := l.chars_opens depth hj
  rw [hcs, List.length_cons] at hfuel
  exact ⟨fuel - 1, by omega⟩

/-- What a layout writes is read back. -/
theorem readsBack {j : Json τ} (hj : j.Legible) : l.ReadsBack j := by
  induction hj with
  | null =>
      intro rigour depth fuel rest _ hfuel
      obtain ⟨fuel, rfl⟩ := l.fuel_pos .null hfuel
      rfl
  | bool b =>
      intro rigour depth fuel rest _ hfuel
      obtain ⟨fuel, rfl⟩ := l.fuel_pos (.bool b) hfuel
      cases b with
      | true => rfl
      | false => rfl
  | @number t h =>
      intro rigour depth fuel rest hrest hfuel
      obtain ⟨fuel, rfl⟩ := l.fuel_pos (.number h) hfuel
      rw [chars, Source.readValue?_numeral h hrest, String.ofList_toList, source,
        literal_numeral h]
  | quoted s =>
      intro rigour depth fuel rest _ hfuel
      obtain ⟨fuel, rfl⟩ := l.fuel_pos (.quoted s) hfuel
      rw [chars, quote, String.toList_ofList, Source.readValue?_quoted, source,
        ← quote, literal_quote]
  | string s =>
      intro rigour depth fuel rest _ hfuel
      obtain ⟨fuel, rfl⟩ := l.fuel_pos (.string s) hfuel
      exact Source.readValue?_quoted s rest
  | array h ih => exact readsBack_array h ih
  | object _ ih => exact readsBack_object ih

/-- The printed text of a value, at any depth, holds this value and
nothing else. -/
theorem readValue?_legible (rigour : Rigour) (depth : Nat) {j : Json τ}
    (hj : j.Legible) :
    Source.readValue? rigour ((l.chars depth j).length + 1) (l.chars depth j)
      = some (l.source depth j, []) := by
  have hs := l.readsBack hj rigour depth ((l.chars depth j).length + 1) []
    (fun c hc => by cases hc) (Nat.le_succ _)
  rwa [List.append_nil] at hs

/-- The whole text is read as its source. -/
theorem read?_legible (rigour : Rigour) (depth : Nat) {j : Json τ}
    (hj : j.Legible) :
    Source.read? rigour (String.ofList (l.chars depth j))
      = some (l.source depth j) := by
  unfold Source.read?
  dsimp only
  rw [String.toList_ofList, l.readValue?_legible rigour depth hj]
  rfl

-- ==== the source

/-- The sources of items write the items. -/
theorem writes_sources (depth : Nat) {vs : List (Json τ)}
    (h : ∀ v ∈ vs, ∀ depth, Source.Writes (l.source depth v) (v.map Readable.read)) :
    List.Forall₂ Source.Writes (l.sources depth vs) (mapItems Readable.read vs) := by
  induction vs with
  | nil => exact .nil
  | cons v vs ih =>
      rw [sources, mapItems]
      exact .cons (h v List.mem_cons_self depth)
        (ih fun w hw => h w (List.mem_cons_of_mem _ hw))

/-- The sources of fields write the fields. -/
theorem writes_fieldSources (depth : Nat) {fs : List (τ × Json τ)}
    (h : ∀ f ∈ fs, ∀ depth,
      Source.Writes (l.source depth f.2) (f.2.map Readable.read)) :
    List.Forall₂ Source.WritesField (l.fieldSources depth fs)
      (mapFields Readable.read fs) := by
  induction fs with
  | nil => exact .nil
  | cons f fs ih =>
      obtain ⟨k, v⟩ := f
      rw [fieldSources, mapFields]
      exact .cons (.mk (unescape?_quoted k) (h _ List.mem_cons_self depth))
        (ih fun g hg => h g (List.mem_cons_of_mem _ hg))

/-- The source of a value without quoted texts for numbers is a spelling
of it, each text in it as it is read. -/
theorem writes_source {j : Json τ} (hj : j.Spelled) :
    ∀ depth, Source.Writes (l.source depth j) (j.map Readable.read) := by
  induction hj with
  | null => exact fun _ => .null
  | bool b => exact fun _ => .bool b
  | number h =>
      intro depth
      rw [source, literal_numeral h]
      exact .number _
  | string t => exact fun _ => .string (unescape?_quoted t)
  | array _ ih => exact fun depth => .array _ (l.writes_sources _ ih)
  | object _ ih => exact fun depth => .object _ (l.writes_fieldSources _ ih)

/-- Unicode texts are read as they are. -/
theorem writes_source_self (hj : j.Spelled) (depth : Nat) :
    Source.Writes (l.source depth j) j := by
  have hself : j.map Readable.read = j := map_eq_self fun _ _ => rfl
  have hs := l.writes_source hj depth
  rwa [hself] at hs

/-- What is printed is read, as far as the first value goes. -/
theorem readFirst?_print (rigour : Rigour) (hj : j.Spelled) :
    ∃ s, Source.readFirst? rigour (l.print j) = some s ∧ Source.Writes s j := by
  refine ⟨l.source 0 j, ?_, l.writes_source_self hj 0⟩
  unfold Source.readFirst? print
  dsimp only
  rw [String.toList_ofList, l.readValue?_legible rigour 0 hj.legible]
  rfl

/-- What is printed is read as a whole. -/
theorem read?_print (rigour : Rigour) (hj : j.Spelled) :
    ∃ s, Source.read? rigour (l.print j) = some s ∧ Source.Writes s j :=
  ⟨l.source 0 j, l.read?_legible rigour 0 hj.legible, l.writes_source_self hj 0⟩

end Layout

-- ==== injectivity

/-- Lists related to one list are equal if their items are. -/
theorem eq_of_forall₂ {α β : Type} {R : α → β → Prop} {as : List α}
    {bs cs : List β} (hb : List.Forall₂ R as bs) (hc : List.Forall₂ R as cs)
    (h : ∀ b ∈ bs, ∀ {a c}, R a b → R a c → b = c) : bs = cs := by
  induction hb generalizing cs with
  | nil =>
      cases hc
      rfl
  | cons hab _ ih =>
      cases hc with
      | cons hac hrest =>
          rw [h _ List.mem_cons_self hab hac,
            ih hrest fun b hb => h b (List.mem_cons_of_mem _ hb)]

/-- A source spells one value at most. -/
theorem Spelled.eq_of_writes {i : Json} (hi : i.Spelled)
    (h : Source.Writes s i) (h' : Source.Writes s j) : i = j := by
  induction hi generalizing s j with
  | null =>
      cases h
      cases h'
      rfl
  | bool b =>
      cases h
      cases h'
      rfl
  | number _ =>
      cases h
      cases h'
      rfl
  | string t =>
      cases h with
      | string ht =>
          cases h' with
          | string ht' =>
              rw [ht] at ht'
              cases ht'
              rfl
  | array _ ih =>
      cases h with
      | array text hitems =>
          cases h' with
          | array _ hitems' =>
              rw [eq_of_forall₂ hitems hitems' fun v hv _ _ => ih v hv]
  | object _ ih =>
      cases h with
      | object text hfields =>
          cases h' with
          | object _ hfields' =>
              rw [eq_of_forall₂ hfields hfields' fun f hf a c hfa hfc => ?_]
              cases hfa with
              | mk hname hv =>
                  cases hfc with
                  | mk hname' hv' =>
                      rw [hname] at hname'
                      cases hname'
                      exact Prod.ext rfl (ih _ hf hv hv')

/-- Different values are printed differently. -/
theorem Layout.print_injective (l : Layout) {i j : Json} (hi : i.Spelled)
    (hj : j.Spelled) (h : l.print i = l.print j) : i = j := by
  obtain ⟨s, hs, hsi⟩ := l.readFirst?_print .strict hi
  obtain ⟨t, ht, htj⟩ := l.readFirst?_print .strict hj
  rw [h, ht] at hs
  cases hs
  exact hi.eq_of_writes hsi htj

end PromptGraph.Json

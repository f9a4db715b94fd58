/-
Two tests for execution graphs. Whoever reads a file asks whether every
entry has a field for its class; the conversion reads that field and asks
whether it names a class. This file says of each test which texts pass it,
in words that do not mention the other (`detect_execution_iff`,
`isEntryShaped_iff`), and so where the two part:

- a class that is null or no text, or a repeated one that ends so, is
  there for the first test and names nothing for the second
  (`routed_and_refused_iff`);
- a class under a name in other letters is missing for the first and
  found by the second (`unknown_and_taken_iff`).

Both happen (`numberedClass`, `shoutedClass`). Entries with one spelling
of the name and texts for their classes are told alike (`Regular.agree`),
and editor graphs always are.
-/
import PromptGraph.Flatten.Convert
import PromptGraph.Library.Format
import PromptGraph.Proofs.Json.Decode

namespace PromptGraph.Library

open Json (Source Decode Rigour)
open Json.Decode (Yields)

-- ==== what carries a class

/-- The name of an entry's class, without regard to case. -/
def IsClassName (name : String) : Prop :=
  Rigour.lenient.fold name = "class_type"

instance (name : String) : Decidable (IsClassName name) :=
  inferInstanceAs (Decidable (_ = _))

/-- The fields that may tell the class of an entry. -/
def classFields (fs : List (String × Source)) : List (String × Source) :=
  fs.filter fun f => IsClassName f.1

/-- A text that can be read, or null. -/
def IsTextOrNull : Source → Prop
  | .null => True
  | .string body => (Source.unescape? body).isSome = true
  | _ => False

/-- An object with a field for its class, whatever is in it. -/
def CarriesClass (v : Source) : Prop :=
  ∃ fs, v.fields? = some fs ∧ ∃ f ∈ fs, f.1 = "class_type"

/-- An object in which every field for the class holds a text or null, and
the last of them a text. -/
def NamesClass (v : Source) : Prop :=
  ∃ fs, v.fields? = some fs ∧ (∀ f ∈ classFields fs, IsTextOrNull f.2)
    ∧ ∃ f, (classFields fs).getLast? = some f ∧ f.2 ≠ .null

-- ==== reading a class

/-- The decoding fails, or passes something over. -/
def Flawed {α : Type} (x : Decode Empty α) : Prop :=
  ∀ b a b', StateT.run x b = .ok (a, b') → b' = true

/-- A decoding in two steps succeeds if both do. -/
theorem run_bind_ok {α β : Type} {x : Decode Empty α} {f : α → Decode Empty β}
    {b b' : Bool} {c : β} (h : StateT.run (x >>= f) b = .ok (c, b')) :
    ∃ a b₁, StateT.run x b = .ok (a, b₁)
      ∧ StateT.run (f a) b₁ = .ok (c, b') := by
  rw [StateT.run_bind] at h
  cases hx : StateT.run x b with
  | error e =>
      rw [hx] at h
      cases h
  | ok p =>
      rw [hx] at h
      exact ⟨p.1, p.2, rfl, h⟩

/-- A flawed decoding gives no value. -/
theorem Flawed.run {α : Type} {x : Decode Empty α} (h : Flawed x) (a : α) :
    x.run ≠ .ok a := by
  intro hrun
  unfold Decode.run at hrun
  split at hrun
  · next hx => exact Bool.false_ne_true (h _ _ _ hx)
  · cases hrun
  · cases hrun

/-- The class that a value names. -/
def classText? : Source → Option String
  | .string body => Source.unescape? body
  | _ => none

/-- One field for the class is read. -/
abbrev readClass (old : Option String) (v : Source) :
    Decode Empty (Option String) :=
  Decode.optional "" Decode.text old v

variable {v : Source}

/-- A text that is there is a class. -/
theorem classText?_isSome (h : IsTextOrNull v) (hv : v ≠ .null) :
    (classText? v).isSome = true := by
  cases v with
  | null => exact absurd rfl hv
  | string body => exact h
  | bool b => exact h.elim
  | number t => exact h.elim
  | array t vs => exact h.elim
  | object t fs => exact h.elim

/-- A text or null is read as the class it names. -/
theorem readClass_yields (old : Option String) (h : IsTextOrNull v) :
    Yields (readClass old v) (classText? v) := by
  cases v with
  | null => exact .pure _
  | string body =>
      obtain ⟨s, hs⟩ := Option.isSome_iff_exists.1 h
      show Yields (some <$> Decode.ofOption (Source.unescape? body))
        (Source.unescape? body)
      rw [hs]
      exact (Yields.ofOption rfl).map some
  | bool b => exact h.elim
  | number t => exact h.elim
  | array t vs => exact h.elim
  | object t fs => exact h.elim

/-- Anything else is an error. -/
theorem readClass_flawed (old : Option String) (h : ¬ IsTextOrNull v) :
    Flawed (readClass old v) := by
  intro b a b' hrun
  cases v with
  | null => exact absurd trivial h
  | string body =>
      have hnone : Source.unescape? body = none :=
        Option.not_isSome_iff_eq_none.1 h
      change StateT.run (some <$> Decode.ofOption (Source.unescape? body)
        : Decode Empty (Option String)) b = .ok (a, b') at hrun
      rw [hnone] at hrun
      cases hrun
  | bool _ => cases hrun; rfl
  | number _ => cases hrun; rfl
  | array _ _ => cases hrun; rfl
  | object _ _ => cases hrun; rfl

/-- What was passed over before is not forgotten. -/
theorem readClass_persists (old : Option String) (v : Source)
    {a : Option String} {b' : Bool}
    (h : StateT.run (readClass old v) true = .ok (a, b')) : b' = true := by
  by_cases hv : IsTextOrNull v
  · rw [readClass_yields old hv true] at h
    cases h
    rfl
  · exact readClass_flawed old hv _ _ _ h

/-- The fields of an entry are read, with an eye on its class only. -/
abbrev readClasses (old : Option String) (raw : List (String × Source)) :
    Decode Empty (Option String) :=
  Decode.fields .lenient ["class_type"] (fun old _ v => readClass old v)
    old raw

/-- The name of a field as it is read. -/
abbrev readName (f : String × Source) : Option (String × Source) :=
  (Source.unescape? f.1).map (·, f.2)

/-- The name itself is one of its spellings. -/
theorem isClassName_class : IsClassName "class_type" := by
  decide +kernel

/-- Fields are matched without regard to case. -/
theorem fieldFor?_class (name : String) :
    Json.fieldFor? .lenient ["class_type"] name
      = if IsClassName name then some "class_type" else none := by
  have hsame : Rigour.lenient.fold "class_type" = Rigour.lenient.fold name
      ↔ IsClassName name :=
    ⟨fun h => h.symm.trans isClassName_class,
      fun h => isClassName_class.trans h.symm⟩
  unfold Json.fieldFor?
  split
  · next h =>
    have hname : name = "class_type" := by simpa using h
    rw [hname, if_pos isClassName_class]
  · rw [List.find?_cons]
    simp only [hsame, List.find?_nil]
    split
    · next h => rw [if_pos (of_decide_eq_true h)]
    · next h => rw [if_neg (of_decide_eq_false h)]

theorem classFields_cons (f : String × Source) (fs : List (String × Source)) :
    classFields (f :: fs)
      = if IsClassName f.1 then f :: classFields fs else classFields fs := by
  unfold classFields
  rw [List.filter_cons]
  simp only [decide_eq_true_eq]

/-- One field and the ones after it. A field with another name is left
out. -/
theorem readClasses_cons (old : Option String) (f : String × Source)
    (raw : List (String × Source)) :
    readClasses old (f :: raw)
      = Decode.ofOption (Source.unescape? f.1) >>= fun key =>
          if IsClassName key then
            readClass old f.2 >>= fun c => readClasses c raw
          else readClasses old raw := by
  unfold readClasses
  rw [Decode.fields]
  refine congrArg _ (funext fun key => ?_)
  rw [fieldFor?_class]
  split
  · next h =>
    split at h
    · next hname => rw [if_pos hname]
    · cases h
  · next h =>
    split at h
    · cases h
    · next hname => rw [if_neg hname]

variable {raw : List (String × Source)}

/-- How a reading that gets through has gone through its first field. -/
theorem readClasses_cons_ok {old a : Option String} {f : String × Source}
    {b b' : Bool} (h : StateT.run (readClasses old (f :: raw)) b = .ok (a, b')) :
    ∃ key, Source.unescape? f.1 = some key
      ∧ ((IsClassName key ∧ ∃ c b₁,
            StateT.run (readClass old f.2) b = .ok (c, b₁)
            ∧ StateT.run (readClasses c raw) b₁ = .ok (a, b'))
        ∨ (¬ IsClassName key
            ∧ StateT.run (readClasses old raw) b = .ok (a, b'))) := by
  rw [readClasses_cons] at h
  cases hkey : Source.unescape? f.1 with
  | none =>
      rw [hkey] at h
      cases h
  | some key =>
      rw [hkey] at h
      change StateT.run (if IsClassName key then
        readClass old f.2 >>= fun c => readClasses c raw
        else readClasses old raw) b = .ok (a, b') at h
      refine ⟨key, rfl, ?_⟩
      split at h
      · next hname => exact .inl ⟨hname, run_bind_ok h⟩
      · next hname => exact .inr ⟨hname, h⟩

/-- Texts and nulls are read, and the last of them stays. -/
theorem readClasses_yields {raw fs : List (String × Source)}
    (hfs : raw.mapM readName = some fs)
    (h : ∀ f ∈ classFields fs, IsTextOrNull f.2) (old : Option String) :
    Yields (readClasses old raw)
      ((classFields fs).foldl (fun _ f => classText? f.2) old) := by
  induction raw generalizing fs old with
  | nil =>
      cases hfs
      exact .pure old
  | cons f raw ih =>
      obtain ⟨g, hg, rest, hrest, rfl⟩ : ∃ g, readName f = some g
          ∧ ∃ rest, raw.mapM readName = some rest ∧ fs = g :: rest := by
        rw [List.mapM_cons] at hfs
        obtain ⟨g, hg, hfs⟩ := Option.bind_eq_some_iff.1 hfs
        obtain ⟨rest, hrest, hfs⟩ := Option.bind_eq_some_iff.1 hfs
        cases hfs
        exact ⟨g, hg, rest, hrest, rfl⟩
      obtain ⟨key, hkey, rfl⟩ := Option.map_eq_some_iff.1 hg
      rw [readClasses_cons]
      refine (Yields.ofOption hkey).bind ?_
      rw [classFields_cons] at h ⊢
      split
      · next hname =>
        rw [if_pos hname] at h
        refine (readClass_yields old (h _ List.mem_cons_self)).bind ?_
        exact ih hrest (fun f hf => h f (List.mem_cons_of_mem _ hf)) _
      · next hname =>
        rw [if_neg hname] at h
        exact ih hrest h old

/-- What was flawed stays so. -/
theorem readClasses_persists {old a : Option String} {b' : Bool}
    (h : StateT.run (readClasses old raw) true = .ok (a, b')) :
    b' = true := by
  induction raw generalizing old with
  | nil =>
      cases h
      rfl
  | cons f raw ih =>
      obtain ⟨key, -, ⟨-, c, b₁, hc, hrest⟩ | ⟨-, hrest⟩⟩ :=
        readClasses_cons_ok h
      · rw [readClass_persists old f.2 hc] at hrest
        exact ih hrest
      · exact ih hrest

/-- Anything else makes the reading fail, by its end at the latest. -/
theorem readClasses_flawed
    (h : ∀ fs, raw.mapM readName = some fs →
      ¬ ∀ f ∈ classFields fs, IsTextOrNull f.2) (old : Option String) :
    Flawed (readClasses old raw) := by
  intro b a b' hrun
  induction raw generalizing old b with
  | nil => exact absurd (fun f hf => absurd hf List.not_mem_nil) (h [] rfl)
  | cons f raw ih =>
      obtain ⟨key, hkey, hcases⟩ := readClasses_cons_ok hrun
      -- a good rest after a good field would be good
      have hrest : (IsClassName key → IsTextOrNull f.2) →
          ∀ fs, raw.mapM readName = some fs →
            ¬ ∀ f ∈ classFields fs, IsTextOrNull f.2 := by
        intro hf fs hfs hgood
        have hall : (f :: raw).mapM readName = some ((key, f.2) :: fs) := by
          rw [List.mapM_cons, hfs]
          unfold readName
          rw [hkey]
          rfl
        refine h _ hall fun g hg => ?_
        rw [classFields_cons] at hg
        split at hg
        · next hname =>
          rcases List.mem_cons.1 hg with rfl | hg
          · exact hf hname
          · exact hgood g hg
        · exact hgood g hg
      rcases hcases with ⟨-, c, b₁, hc, hlater⟩ | ⟨hname, hlater⟩
      · by_cases hf : IsTextOrNull f.2
        · exact ih (hrest fun _ => hf) c b₁ hlater
        · rw [readClass_flawed old hf _ _ _ hc] at hlater
          exact readClasses_persists hlater
      · exact ih (hrest fun h => absurd h hname) old b hlater

-- ==== the tests

/-- The last of several fields counts. -/
theorem foldl_last {α β : Type} (g : α → β) (l : List α) (old : β) :
    l.foldl (fun _ a => g a) old = (l.getLast?.map g).getD old := by
  rcases List.eq_nil_or_concat l with rfl | ⟨front, a, rfl⟩
  · rfl
  · simp

/-- What is no object names no class. -/
theorem not_namesClass (h : v.fields? = none) :
    ¬ NamesClass v := by
  rintro ⟨fs, hfs, -⟩
  rw [h] at hfs
  cases hfs

theorem classOf?_object (text : String) (raw : List (String × Source)) :
    Flatten.classOf? (.object text raw)
      = (readClasses none raw).run.toOption.join := by
  unfold Flatten.classOf?
  dsimp only
  split
  · next c hc =>
    have hrun : (readClasses none raw).run = .ok c := hc
    rw [hrun]
    rfl
  · next e he =>
    have hrun : (readClasses none raw).run = .error e := he
    rw [hrun]
    rfl

/-- The conversion takes a value for an entry exactly if it names a
class. -/
theorem isEntryShaped_iff (v : Source) :
    Flatten.isEntryShaped v = true ↔ NamesClass v := by
  cases v with
  | object text raw =>
      rw [Flatten.isEntryShaped, classOf?_object]
      constructor
      · intro h
        by_cases hgood : ∃ fs, raw.mapM readName = some fs
            ∧ ∀ f ∈ classFields fs, IsTextOrNull f.2
        · obtain ⟨fs, hfs, htexts⟩ := hgood
          rw [(readClasses_yields hfs htexts none).run, foldl_last] at h
          refine ⟨fs, hfs, htexts, ?_⟩
          cases hlast : (classFields fs).getLast? with
          | none =>
              rw [hlast] at h
              cases h
          | some f =>
              refine ⟨f, rfl, fun hnull => ?_⟩
              rw [hlast] at h
              simp [hnull, classText?, Except.toOption] at h
        · have hflawed : Flawed (readClasses none raw) :=
            readClasses_flawed (fun fs hfs hall => hgood ⟨fs, hfs, hall⟩) none
          cases hrun : (readClasses none raw).run with
          | ok c => exact absurd hrun (hflawed.run c)
          | error e =>
              rw [hrun] at h
              cases h
      · rintro ⟨fs, hfs, htexts, f, hlast, hnull⟩
        rw [(readClasses_yields hfs htexts none).run, foldl_last, hlast]
        exact classText?_isSome (htexts f (List.mem_of_getLast? hlast)) hnull
  | null => exact iff_of_false Bool.false_ne_true (not_namesClass rfl)
  | bool b => exact iff_of_false Bool.false_ne_true (not_namesClass rfl)
  | number t => exact iff_of_false Bool.false_ne_true (not_namesClass rfl)
  | string t => exact iff_of_false Bool.false_ne_true (not_namesClass rfl)
  | array t vs => exact iff_of_false Bool.false_ne_true (not_namesClass rfl)

/-- The reader of files takes a value for an entry exactly if it carries a
class. -/
theorem hasClass_iff (v : Source) : hasClass v = true ↔ CarriesClass v := by
  unfold hasClass CarriesClass
  cases v.fields? with
  | none => simp
  | some fs => simp

-- ==== whole texts

/-- An object with a field for its nodes. -/
def IsEditorText (text : String) : Prop :=
  ∃ fields, Flatten.objectFields? text = some fields
    ∧ ∃ f ∈ fields, f.1 = "nodes"

/-- An object without such a field. Of entries with one name the last
counts. -/
def HasEntries (text : String) (entries : List (String × Source)) : Prop :=
  ∃ fields, Flatten.objectFields? text = some fields
    ∧ (∀ f ∈ fields, f.1 ≠ "nodes") ∧ entries = Source.lastOfEach fields

/-- The conversion takes the text for an execution graph. -/
def TakenForGraph (text : String) : Prop :=
  ∃ fields, Flatten.objectFields? text = some fields
    ∧ (∀ f ∈ fields, f.1 ≠ "nodes") ∧ Flatten.isExecutionShaped fields = true

/-- A text has its entries in one way. -/
theorem HasEntries.unique {text : String} {es es' : List (String × Source)}
    (h : HasEntries text es) (h' : HasEntries text es') : es = es' := by
  obtain ⟨fields, hfields, -, rfl⟩ := h
  obtain ⟨fields', hfields', -, rfl⟩ := h'
  rw [hfields] at hfields'
  cases hfields'
  rfl

/-- A graph is an object whose entries all name a class. -/
theorem takenForGraph_iff (text : String) :
    TakenForGraph text
      ↔ ∃ es, HasEntries text es ∧ ∀ e ∈ es, NamesClass e.2 := by
  have hshape : ∀ fields, Flatten.isExecutionShaped fields = true
      ↔ ∀ e ∈ Source.lastOfEach fields, NamesClass e.2 := by
    intro fields
    unfold Flatten.isExecutionShaped
    rw [List.all_eq_true]
    exact forall₂_congr fun e _ => isEntryShaped_iff e.2
  constructor
  · rintro ⟨fields, hfields, hno, hshaped⟩
    exact ⟨_, ⟨fields, hfields, hno, rfl⟩, (hshape fields).1 hshaped⟩
  · rintro ⟨es, ⟨fields, hfields, hno, rfl⟩, hnames⟩
    exact ⟨fields, hfields, hno, (hshape fields).2 hnames⟩

-- ==== verdicts

/-- What the reader of files says of an object. -/
theorem detectJson_of_fields {text : String}
    {fields : List (String × Source)}
    (h : Flatten.objectFields? text = some fields) :
    detectJson text
      = if fields.any (·.1 = "nodes") then .ok .editor
        else if (Source.lastOfEach fields).all fun e => hasClass e.2 then
          .ok .execution
        else .error .unknown := by
  obtain ⟨v, hread, hfields⟩ := Option.bind_eq_some_iff.1 h
  unfold detectJson
  rw [hread]
  cases v with
  | null => cases hfields
  | bool b => cases hfields
  | number t => cases hfields
  | string t => cases hfields
  | array t vs => cases hfields
  | object t raw =>
      dsimp only
      rw [hfields]

/-- What is no object has no format. -/
theorem detectJson_of_none {text : String}
    (h : Flatten.objectFields? text = none) (format : Format) :
    detectJson text ≠ .ok format := by
  unfold detectJson
  cases hread : Source.read? .lenient text with
  | none => exact nofun
  | some v =>
      have hfields : v.fields? = none := by
        unfold Flatten.objectFields? at h
        rwa [hread] at h
      cases v with
      | null => exact nofun
      | bool b => exact nofun
      | number t => exact nofun
      | string t => exact nofun
      | array t vs => exact nofun
      | object t raw =>
          dsimp only
          rw [hfields]
          exact nofun

/-- The field that tells an editor file. -/
theorem any_nodes_iff (fields : List (String × Source)) :
    fields.any (·.1 = "nodes") = true ↔ ∃ f ∈ fields, f.1 = "nodes" := by
  simp

theorem any_nodes_eq_false_iff (fields : List (String × Source)) :
    fields.any (·.1 = "nodes") = false ↔ ∀ f ∈ fields, f.1 ≠ "nodes" := by
  simp

/-- Of an object without nodes it says whether every entry has a class. -/
theorem detectJson_of_entries {text : String}
    {es : List (String × Source)} (h : HasEntries text es) :
    detectJson text
      = if es.all fun e => hasClass e.2 then .ok .execution
        else .error .unknown := by
  obtain ⟨fields, hfields, hno, rfl⟩ := h
  rw [detectJson_of_fields hfields, (any_nodes_eq_false_iff fields).2 hno,
    if_neg Bool.false_ne_true]

/-- The test of the entries is made entry by entry. -/
theorem all_hasClass_iff (es : List (String × Source)) :
    es.all (fun e => hasClass e.2) = true ↔ ∀ e ∈ es, CarriesClass e.2 := by
  rw [List.all_eq_true]
  exact forall₂_congr fun e _ => hasClass_iff e.2

variable {text path : String} (hpath : isYaml path = false)

include hpath in
/-- What is not YAML is taken as it is. -/
theorem detect_eq : detect text path = detectJson text := by
  unfold detect toJsonText
  rw [hpath]
  rfl

include hpath in
/-- When a file is taken for one of the editor. -/
theorem detect_editor_iff :
    detect text path = .ok .editor ↔ IsEditorText text := by
  rw [detect_eq hpath]
  cases h : Flatten.objectFields? text with
  | none =>
      refine iff_of_false (detectJson_of_none h _) ?_
      rintro ⟨fields, hfields, -⟩
      rw [h] at hfields
      cases hfields
  | some fields =>
      unfold IsEditorText
      rw [detectJson_of_fields h, h]
      split
      · next hnodes =>
        exact iff_of_true rfl ⟨fields, rfl, (any_nodes_iff fields).1 hnodes⟩
      · next hnodes =>
        refine iff_of_false ?_ ?_
        · split <;> exact nofun
        · rintro ⟨fields', hfields, hex⟩
          cases hfields
          exact hnodes ((any_nodes_iff fields).2 hex)

include hpath in
/-- When it is taken for a graph. -/
theorem detect_execution_iff :
    detect text path = .ok .execution
      ↔ ∃ es, HasEntries text es ∧ ∀ e ∈ es, CarriesClass e.2 := by
  rw [detect_eq hpath]
  constructor
  · intro hdetect
    cases h : Flatten.objectFields? text with
    | none => exact absurd hdetect (detectJson_of_none h _)
    | some fields =>
        rw [detectJson_of_fields h] at hdetect
        split at hdetect
        · cases hdetect
        · next hnodes =>
          have hno := (any_nodes_eq_false_iff fields).1
            (Bool.eq_false_iff.2 hnodes)
          split at hdetect
          · next hall =>
            exact ⟨_, ⟨fields, h, hno, rfl⟩, (all_hasClass_iff _).1 hall⟩
          · cases hdetect
  · intro h
    obtain ⟨es, hes, hall⟩ := h
    rw [detectJson_of_entries hes, if_pos ((all_hasClass_iff es).2 hall)]

/-- A text is refused as no graph of either kind exactly if it is an object
without nodes that is not taken for an execution graph. -/
theorem convert_neither_iff (registry : Registry)
    (types : Flatten.TableSource) (source : String) :
    Flatten.convert registry types source text = .error .neitherGraph
      ↔ (∃ es, HasEntries text es) ∧ ¬ TakenForGraph text := by
  unfold Flatten.convert
  cases h : Flatten.objectFields? text with
  | none =>
      refine iff_of_false nofun ?_
      rintro ⟨⟨es, fields, hfields, -⟩, -⟩
      rw [h] at hfields
      cases hfields
  | some fields =>
      have htaken : TakenForGraph text ↔ (∀ f ∈ fields, f.1 ≠ "nodes")
          ∧ Flatten.isExecutionShaped fields = true := by
        unfold TakenForGraph
        rw [h]
        simp
      have hentries : (∃ es, HasEntries text es)
          ↔ ∀ f ∈ fields, f.1 ≠ "nodes" := by
        unfold HasEntries
        rw [h]
        simp
      rw [htaken, hentries, ← any_nodes_eq_false_iff]
      dsimp only
      cases hnodes : fields.any (·.1 = "nodes") with
      | true =>
          refine iff_of_false ?_ fun h => Bool.false_ne_true h.1.symm
          rw [if_pos rfl]
          cases Editor.Workflow.parse text with
          | error e => exact nofun
          | ok w => cases types <;> exact nofun
      | false =>
          rw [if_neg Bool.false_ne_true]
          cases hshape : Flatten.isExecutionShaped fields with
          | true =>
              refine iff_of_false ?_ fun h => h.2 ⟨rfl, rfl⟩
              rw [if_pos rfl]
              cases Execution.Graph.parse text <;> exact nofun
          | false =>
              refine iff_of_true (if_neg Bool.false_ne_true) ⟨rfl, ?_⟩
              exact fun h => Bool.false_ne_true h.2

-- ==== where the tests part

/-- An object in which a field for the class holds neither a text nor null,
or the last of them is null. -/
def ClassUnreadable (v : Source) : Prop :=
  ∃ fs, v.fields? = some fs
    ∧ ((∃ f ∈ classFields fs, ¬ IsTextOrNull f.2)
      ∨ ∃ f, (classFields fs).getLast? = some f ∧ f.2 = .null)

/-- A class that is carried and not named cannot be read. -/
theorem CarriesClass.not_names_iff (h : CarriesClass v) :
    ¬ NamesClass v ↔ ClassUnreadable v := by
  obtain ⟨fs, hfs, f, hf, hname⟩ := h
  have hmem : f ∈ classFields fs := by
    refine List.mem_filter.2 ⟨hf, decide_eq_true ?_⟩
    rw [hname]
    exact isClassName_class
  obtain ⟨g, hg⟩ : ∃ g, (classFields fs).getLast? = some g :=
    ⟨_, List.getLast?_eq_some_getLast (List.ne_nil_of_mem hmem)⟩
  unfold NamesClass ClassUnreadable
  rw [hfs]
  constructor
  · intro hnot
    refine ⟨fs, rfl, ?_⟩
    by_cases htexts : ∀ f ∈ classFields fs, IsTextOrNull f.2
    · refine .inr ⟨g, hg, ?_⟩
      by_contra hnull
      exact hnot ⟨fs, rfl, htexts, g, hg, hnull⟩
    · push Not at htexts
      exact .inl htexts
  · rintro ⟨fs', hfs', hbad⟩ ⟨fs'', hfs'', htexts, g', hg', hnull⟩
    cases hfs'
    cases hfs''
    rcases hbad with ⟨x, hx, hbad⟩ | ⟨x, hx, hbad⟩
    · exact hbad (htexts x hx)
    · rw [hg'] at hx
      cases hx
      exact hnull hbad

/-- An object in which every field for the class has the one spelling and
holds a text. -/
def Regular (v : Source) : Prop :=
  ∀ fs, v.fields? = some fs → ∀ f ∈ classFields fs,
    f.1 = "class_type" ∧ IsTextOrNull f.2 ∧ f.2 ≠ .null

/-- For a regular entry the two tests agree. -/
theorem Regular.agree (h : Regular v) :
    CarriesClass v ↔ NamesClass v := by
  constructor
  · intro hc
    by_contra hn
    obtain ⟨fs, hfs, ⟨f, hf, hbad⟩ | ⟨f, hf, hbad⟩⟩ := hc.not_names_iff.1 hn
    · exact hbad (h fs hfs f hf).2.1
    · exact (h fs hfs f (List.mem_of_getLast? hf)).2.2 hbad
  · rintro ⟨fs, hfs, -, f, hf, -⟩
    have hmem := List.mem_of_getLast? hf
    exact ⟨fs, hfs, f, (List.mem_filter.1 hmem).1, (h fs hfs f hmem).1⟩

include hpath in
/-- The reader of files routes a text past the conversion, where it is
refused, exactly if every entry carries a class and some class cannot be
read. -/
theorem routed_and_refused_iff (registry : Registry)
    (types : Flatten.TableSource) (source : String) :
    detect text path = .ok .execution
        ∧ Flatten.convert registry types source text = .error .neitherGraph
      ↔ ∃ es, HasEntries text es ∧ (∀ e ∈ es, CarriesClass e.2)
          ∧ ∃ e ∈ es, ClassUnreadable e.2 := by
  rw [detect_execution_iff hpath, convert_neither_iff, takenForGraph_iff]
  constructor
  · rintro ⟨⟨es, hes, hcarry⟩, -, hnot⟩
    refine ⟨es, hes, hcarry, ?_⟩
    by_contra hread
    refine hnot ⟨es, hes, fun e he => ?_⟩
    by_contra hname
    exact hread ⟨e, he, (hcarry e he).not_names_iff.1 hname⟩
  · rintro ⟨es, hes, hcarry, e, he, hbad⟩
    refine ⟨⟨es, hes, hcarry⟩, ⟨es, hes⟩, ?_⟩
    rintro ⟨es', hes', hnames⟩
    cases hes.unique hes'
    exact (hcarry e he).not_names_iff.2 hbad (hnames e he)

include hpath in
/-- The reader of files does not know a text that the conversion would take
for an execution graph exactly if every entry names its class and some
entry does not carry it under its own spelling. -/
theorem unknown_and_taken_iff :
    detect text path = .error .unknown ∧ TakenForGraph text
      ↔ ∃ es, HasEntries text es ∧ (∀ e ∈ es, NamesClass e.2)
          ∧ ∃ e ∈ es, ¬ CarriesClass e.2 := by
  rw [takenForGraph_iff]
  constructor
  · rintro ⟨hunknown, es, hes, hnames⟩
    refine ⟨es, hes, hnames, ?_⟩
    by_contra hcarry
    push Not at hcarry
    rw [(detect_execution_iff hpath).2 ⟨es, hes, hcarry⟩] at hunknown
    cases hunknown
  · rintro ⟨es, hes, hnames, e, he, hcarry⟩
    refine ⟨?_, es, hes, hnames⟩
    rw [detect_eq hpath, detectJson_of_entries hes, if_neg]
    intro hall
    exact hcarry ((all_hasClass_iff es).1 hall e he)

variable (text) in
include hpath in
/-- How the two tests for graphs compare, on every text that is not YAML.

For editor graphs there is only one test: a field for the nodes. For
execution graphs the reader of files asks that every entry carries a
class, and the conversion that every entry names one. So a text is routed
past the conversion and refused there as no graph of either kind exactly
if all entries carry a class and one of these cannot be read; and a text
that the conversion would take is unknown to the reader of files exactly
if all entries name their classes, but one of them under another spelling.
Where every field for a class has the one spelling and holds a text, the
tests agree. -/
theorem format_tests_compared (registry : Registry)
    (types : Flatten.TableSource) (source : String) :
    (detect text path = .ok .editor ↔ IsEditorText text)
    ∧ (detect text path = .ok .execution
        ↔ ∃ es, HasEntries text es ∧ ∀ e ∈ es, CarriesClass e.2)
    ∧ (TakenForGraph text
        ↔ ∃ es, HasEntries text es ∧ ∀ e ∈ es, NamesClass e.2)
    ∧ (detect text path = .ok .execution
          ∧ Flatten.convert registry types source text = .error .neitherGraph
        ↔ ∃ es, HasEntries text es ∧ (∀ e ∈ es, CarriesClass e.2)
            ∧ ∃ e ∈ es, ClassUnreadable e.2)
    ∧ (detect text path = .error .unknown ∧ TakenForGraph text
        ↔ ∃ es, HasEntries text es ∧ (∀ e ∈ es, NamesClass e.2)
            ∧ ∃ e ∈ es, ¬ CarriesClass e.2)
    ∧ ((∀ es, HasEntries text es → ∀ e ∈ es, Regular e.2) →
        (detect text path = .ok .execution ↔ TakenForGraph text)) := by
  refine ⟨detect_editor_iff hpath, detect_execution_iff hpath,
    takenForGraph_iff text,
    routed_and_refused_iff hpath registry types source,
    unknown_and_taken_iff hpath, fun hregular => ?_⟩
  rw [detect_execution_iff hpath, takenForGraph_iff]
  refine exists_congr fun es => and_congr_right fun hes => ?_
  exact forall₂_congr fun e he => (hregular es hes e he).agree

theorem isYaml_json : isYaml "w.json" = false := by
  decide +kernel

/-- A class that is a number. -/
def numberedClass : String := "\x7b\"1\": \x7b\"class_type\": 5\x7d\x7d"

/-- The first test takes the number for a class and the second does not. -/
theorem numberedClass_entries : ∃ es, HasEntries numberedClass es
    ∧ (∀ e ∈ es, CarriesClass e.2) ∧ ∃ e ∈ es, ¬ NamesClass e.2 := by
  have hrun : (Flatten.objectFields? numberedClass).any (fun fields =>
      fields.any (·.1 = "nodes") == false
        && ((Source.lastOfEach fields).all (fun e => hasClass e.2)
          && (Source.lastOfEach fields).any fun e =>
            !Flatten.isEntryShaped e.2)) = true := by
    decide +kernel
  revert hrun
  -- nothing about the text is needed any more
  generalize numberedClass = text
  intro hrun
  obtain ⟨fields, hfields, htest⟩ := (Option.any_eq_true _ _).1 hrun
  simp only [Bool.and_eq_true, beq_iff_eq, List.all_eq_true, List.any_eq_true,
    Bool.not_eq_true'] at htest
  obtain ⟨hnodes, hcarry, e, he, hshape⟩ := htest
  refine ⟨_, ⟨fields, hfields, (any_nodes_eq_false_iff fields).1 hnodes, rfl⟩,
    fun e he => (hasClass_iff e.2).1 (hcarry e he), e, he, fun hname => ?_⟩
  rw [(isEntryShaped_iff e.2).2 hname] at hshape
  cases hshape

/-- A class under a name in capitals. -/
def shoutedClass : String :=
  "\x7b\"1\": \x7b\"CLASS_TYPE\": \"A\"\x7d\x7d"

/-- Capitals are one of the spellings. -/
theorem isClassName_shouted : IsClassName "CLASS_TYPE" := by
  refine String.toList_injective ?_
  unfold Rigour.fold
  rw [String.toList_map]
  decide +kernel

/-- An object with a text under the name in capitals, and nothing else. -/
def isShouted (v : Source) : Bool :=
  match v.fields? with
  | some [(name, .string body)] =>
    name == "CLASS_TYPE" && (Source.unescape? body).isSome
  | _ => false

/-- A shouted class is named but not carried. -/
theorem isShouted_spec (h : isShouted v = true) :
    NamesClass v ∧ ¬ CarriesClass v := by
  unfold isShouted at h
  split at h
  · next name body hfields =>
    simp only [Bool.and_eq_true, beq_iff_eq] at h
    obtain ⟨rfl, hbody⟩ := h
    have hclass : classFields [("CLASS_TYPE", .string body)]
        = [("CLASS_TYPE", .string body)] := by
      rw [classFields_cons, if_pos isClassName_shouted]
      rfl
    refine ⟨⟨_, hfields, ?_, ?_⟩, ?_⟩
    · rw [hclass]
      rintro f hf
      obtain rfl := List.mem_singleton.1 hf
      exact hbody
    · rw [hclass]
      exact ⟨_, rfl, nofun⟩
    · rintro ⟨fs, hfs, f, hf, hname⟩
      rw [hfields] at hfs
      cases hfs
      obtain rfl := List.mem_singleton.1 hf
      have hne : "CLASS_TYPE" ≠ "class_type" := by decide
      exact hne hname
  · cases h

/-- The second test takes the entry and the first does not. -/
theorem shoutedClass_entries : ∃ es, HasEntries shoutedClass es
    ∧ (∀ e ∈ es, NamesClass e.2) ∧ ∃ e ∈ es, ¬ CarriesClass e.2 := by
  have hrun : (Flatten.objectFields? shoutedClass).any (fun fields =>
      fields.any (·.1 = "nodes") == false
        && ((Source.lastOfEach fields).all (fun e => isShouted e.2)
          && (Source.lastOfEach fields).any fun e =>
            isShouted e.2)) = true := by
    decide +kernel
  revert hrun
  generalize shoutedClass = text
  intro hrun
  obtain ⟨fields, hfields, htest⟩ := (Option.any_eq_true _ _).1 hrun
  simp only [Bool.and_eq_true, beq_iff_eq, List.all_eq_true,
    List.any_eq_true] at htest
  obtain ⟨hnodes, hall, e, he, hshouted⟩ := htest
  exact ⟨_, ⟨fields, hfields, (any_nodes_eq_false_iff fields).1 hnodes, rfl⟩,
    fun e he => (isShouted_spec (hall e he)).1, e, he,
    (isShouted_spec hshouted).2⟩

/-- One text is routed past the conversion and refused there, and another
is unknown although it would be taken. -/
theorem format_tests_disagree :
    (detect numberedClass "w.json" = .ok .execution
      ∧ Flatten.convert {} .missing "w.json" numberedClass
        = .error .neitherGraph)
    ∧ detect shoutedClass "w.json" = .error .unknown
      ∧ TakenForGraph shoutedClass := by
  obtain ⟨es, hes, hcarry, e, he, hname⟩ := numberedClass_entries
  exact ⟨(routed_and_refused_iff isYaml_json _ _ _).2
      ⟨es, hes, hcarry, e, he, (hcarry e he).not_names_iff.1 hname⟩,
    (unknown_and_taken_iff isYaml_json).2 shoutedClass_entries⟩

/-- The text with the number is refused because of it, and not told like a
regular one. -/
theorem format_tests_compared_numberedClass :
    isYaml "w.json" = false
      ∧ detect numberedClass "w.json" = .ok .execution
      ∧ Flatten.convert {} .missing "w.json" numberedClass
        = .error .neitherGraph
      ∧ ¬ ∀ es, HasEntries numberedClass es → ∀ e ∈ es, Regular e.2 := by
  obtain ⟨es, hes, hcarry, e, he, hname⟩ := numberedClass_entries
  obtain ⟨-, hexec, htaken, hrefused, -, hregular⟩ :=
    format_tests_compared numberedClass isYaml_json {} .missing "w.json"
  have hdetect := hexec.2 ⟨es, hes, hcarry⟩
  refine ⟨isYaml_json, hdetect, ?_, fun hall => ?_⟩
  · exact (hrefused.2
      ⟨es, hes, hcarry, e, he, (hcarry e he).not_names_iff.1 hname⟩).2
  · obtain ⟨es', hes', hnames⟩ := htaken.1 ((hregular hall).1 hdetect)
    cases hes.unique hes'
    exact hname (hnames e he)

end PromptGraph.Library

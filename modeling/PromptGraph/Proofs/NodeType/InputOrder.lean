/-
The inputs of a node type, section by section. A section declares its
inputs by key, and an order, which is data of its own and may name
anything, says which come first.

Whatever the order says, no declared input is lost and none is listed
twice (`Arranges`): the keys that it names come first, by their first
mention, and all others follow as declared. For that the keys of a
section have to differ. They do, since a key that is repeated in the
document keeps its place in the table (`keys_put`), and this is followed
through the reading of a record (`formed_of_readRecord`).

Main statement: `declared_inputs_arranged`.
-/
import PromptGraph.NodeType.Reader
import PromptGraph.Proofs.Json.Decode
import PromptGraph.Proofs.KeyOrder

namespace PromptGraph.NodeType

open Json (Source Decode)
open Json.Decode (Ensures)

-- ==== the order

/-- `names` lists the declared keys, each once: first those that the order
names, by their first mention, then all others as declared. -/
structure Arranges (declared order names : List String) : Prop where
  nodup : names.Nodup
  perm : names.Perm declared
  parts : ∃ named, names = named ++ declared.filter (fun k => !order.contains k)
    ∧ (∀ k, k ∈ named ↔ k ∈ declared ∧ k ∈ order)
    ∧ named.Pairwise fun a b => order.idxOf a < order.idxOf b

/-- The ordered names arrange the declared ones. -/
theorem orderedKeys_arranges {declared : List String} (h : declared.Nodup)
    (order : List String) :
    Arranges declared order (orderedKeys declared order) := by
  have hnamed : ∀ k, k ∈ order.eraseDups.filter declared.contains
      ↔ k ∈ declared ∧ k ∈ order := by
    intro k
    rw [List.mem_filter, List.mem_eraseDups, List.contains_iff_mem, and_comm]
  have hrest : orderedKeys declared order
      = order.eraseDups.filter declared.contains
        ++ declared.filter fun k => !order.contains k := by
    unfold orderedKeys
    refine congrArg _ (List.filter_congr fun k hk => ?_)
    rw [Bool.eq_iff_iff]
    simp [hk]
  have hnodup : (orderedKeys declared order).Nodup := by
    rw [hrest]
    refine List.Nodup.append ((nodup_eraseDups order).filter _)
      (h.filter _) fun k hk hk' => ?_
    have hout := (List.mem_filter.1 hk').2
    simp [((hnamed k).1 hk).2] at hout
  refine ⟨hnodup, (List.perm_ext_iff_of_nodup hnodup h).2 fun k => ?_,
    _, hrest, hnamed, (pairwise_idxOf_eraseDups order).filter _⟩
  rw [hrest, List.mem_append, hnamed, List.mem_filter]
  by_cases hk : k ∈ order
  · simp [hk]
  · simp [hk]

-- ==== reading

/-- The keys of a table, in the order of their first mention. -/
def Ordered.keys {α : Type} (t : Ordered α) : List String := t.map Prod.fst

/-- A new name comes last, a known one stays. -/
theorem Ordered.keys_put {α : Type} (name : String) (v : α) (t : Ordered α) :
    keys (put name v t)
      = if name ∈ keys t then keys t else keys t ++ [name] := by
  induction t with
  | nil => rfl
  | cons e t ih =>
      obtain ⟨k, w⟩ := e
      unfold put
      by_cases hk : k = name
      · simp [keys, hk]
      · have hmem : name ∈ keys ((k, w) :: t) ↔ name ∈ keys t :=
          List.mem_cons.trans (or_iff_right (Ne.symm hk))
        rw [if_neg hk]
        show k :: keys (put name v t) = _
        rw [ih]
        simp only [hmem]
        split
        · rfl
        · rfl

/-- No name is listed twice. -/
theorem Ordered.nodup_put {α : Type} {t : Ordered α} (h : (keys t).Nodup)
    (name : String) (v : α) : (keys (put name v t)).Nodup := by
  rw [keys_put]
  split
  · exact h
  · next hout =>
    exact List.Nodup.append h (List.nodup_singleton name) (by simpa using hout)

/-- Nor is any of an object's fields. -/
theorem nodup_putFields {fields : List (String × Source)}
    {t t' : Ordered Source} (h : t.keys.Nodup)
    (hput : putFields t fields = some t') : t'.keys.Nodup := by
  induction fields generalizing t with
  | nil =>
      cases hput
      exact h
  | cons f fields ih =>
      obtain ⟨key, -, hrest⟩ := Option.bind_eq_some_iff.1 hput
      exact ih (Ordered.nodup_put h key f.2) hrest

/-- Every section has each key once. -/
structure Sections.Formed (s : Sections) : Prop where
  required : (s.get .required).keys.Nodup
  optional : (s.get .optional).keys.Nodup
  hidden : (s.get .hidden).keys.Nodup

/-- In formed sections no name comes twice. -/
theorem Sections.Formed.nodup {s : Sections} (h : s.Formed)
    (sec : InputSection) : (s.get sec).keys.Nodup := by
  cases sec with
  | required => exact h.required
  | optional => exact h.optional
  | hidden => exact h.hidden

/-- A table that is read lists its names once. -/
theorem ensures_readOrdered {old : Option (Ordered Source)}
    (hold : (old.getD []).keys.Nodup) (v : Source) :
    Ensures (readOrdered old v) fun t => (t.getD []).keys.Nodup := by
  unfold readOrdered
  split
  · exact .pure List.nodup_nil
  · exact .map (.ofOption fun t ht => nodup_putFields hold ht) fun t ht => ht
  · exact .throw _

/-- Sections that are read are formed. -/
theorem ensures_readSections (rigour : Json.Rigour) {s : Sections}
    (hs : s.Formed) (v : Source) :
    Ensures (readSections rigour s v) Sections.Formed := by
  refine .record (S := fun _ => True) (fun s name x hs _ => ?_)
    (fun _ _ _ _ _ => trivial) hs
  split
  · exact (ensures_readOrdered hs.required x).bind
      fun t ht => .pure ⟨ht, hs.optional, hs.hidden⟩
  · exact (ensures_readOrdered hs.optional x).bind
      fun t ht => .pure ⟨hs.required, ht, hs.hidden⟩
  · exact (ensures_readOrdered hs.hidden x).bind
      fun t ht => .pure ⟨hs.required, hs.optional, ht⟩

/-- So are those of a record. -/
theorem formed_of_readRecord {v : Source} {r : Record}
    (h : (readRecord {} v).run = .ok r) : r.sections.Formed := by
  have hread : Ensures (readRecord {} v) fun r => r.sections.Formed := by
    -- only the first field touches the sections
    refine .record (S := fun _ => True) (fun r name x hr _ => ?_)
      (fun _ _ _ _ _ => trivial)
      ⟨List.nodup_nil, List.nodup_nil, List.nodup_nil⟩
    split
    · exact (ensures_readSections .strict hr x).bind fun s hs => .pure hs
    iterate 8 exact .bind (.of_forall fun _ => trivial) fun _ _ => .pure hr
  exact hread.run h

-- ==== inputs

/-- An input keeps its name and section. -/
theorem readInput_name_sec (depth : Nat) (name : String) (sec : InputSection)
    (v : Source) :
    (readInput depth name sec v).name = name
      ∧ (readInput depth name sec v).sec = sec := by
  rw [readInput.eq_def]
  split
  · next rest =>
    dsimp only
    rcases rest with _ | ⟨o, rest⟩
    · exact ⟨rfl, rfl⟩
    · cases o with
      | object text fields =>
          dsimp only
          cases readOptions (.object text fields) with
          | none => exact ⟨rfl, rfl⟩
          | some o => exact ⟨rfl, rfl⟩
      | _ => exact ⟨rfl, rfl⟩
  · exact ⟨rfl, rfl⟩
  · exact ⟨rfl, rfl⟩

/-- A name that is listed is found. -/
theorem Ordered.get?_isSome_iff {α : Type} {t : Ordered α} {name : String} :
    (get? t name).isSome ↔ name ∈ keys t := by
  unfold get? keys
  rw [Option.isSome_map, List.find?_isSome]
  simp

/-- The names that the order gives to a section. -/
def Record.orderOf (r : Record) (sec : InputSection) : List String :=
  (Assoc.get? r.order sec.name).getD []

/-- The inputs of a section are declared in it. -/
theorem mem_sectionInputs {depth : Nat} {r : Record} {sec : InputSection}
    {i : InputType} (h : i ∈ sectionInputs depth r sec) :
    i.sec = sec ∧ ∃ x, Ordered.get? (r.sections.get sec) i.name = some x
      ∧ i = readInput depth i.name sec x := by
  obtain ⟨key, -, hi⟩ := List.mem_filterMap.1 h
  obtain ⟨x, hx, rfl⟩ := Option.map_eq_some_iff.1 hi
  obtain ⟨hname, hsec⟩ := readInput_name_sec depth key sec x
  rw [hname]
  exact ⟨hsec, x, hx, rfl⟩

/-- Every key of the arrangement becomes an input. -/
theorem sectionInputs_names (depth : Nat) (r : Record) (sec : InputSection)
    (h : (r.sections.get sec).keys.Nodup) :
    (sectionInputs depth r sec).map (·.name)
      = orderedKeys (r.sections.get sec).keys (r.orderOf sec) := by
  have hkeys : ∀ k ∈ orderedKeys (r.sections.get sec).keys (r.orderOf sec),
      k ∈ (r.sections.get sec).keys := fun k hk =>
    (orderedKeys_arranges h _).perm.mem_iff.1 hk
  show ((orderedKeys (r.sections.get sec).keys (r.orderOf sec)).filterMap
    fun key => (Ordered.get? (r.sections.get sec) key).map
      (readInput depth key sec)).map (·.name) = _
  generalize orderedKeys (r.sections.get sec).keys (r.orderOf sec) = l at hkeys
  induction l with
  | nil => rfl
  | cons k l ih =>
      have hk := Ordered.get?_isSome_iff.2 (hkeys k List.mem_cons_self)
      obtain ⟨x, hx⟩ := Option.isSome_iff_exists.1 hk
      rw [List.filterMap_cons_some (by rw [hx]; rfl), List.map_cons,
        (readInput_name_sec depth k sec x).1,
        ih fun k hk => hkeys k (List.mem_cons_of_mem _ hk)]

/-- The inputs of a node type that are declared in a section. -/
def inputsIn (t : NodeType) (sec : InputSection) : List InputType :=
  t.inputs.filter fun i => i.sec = sec

/-- A type has the inputs of its record's sections. -/
theorem inputsIn_ofRecord (depth : Nat) (name : String) (r : Record)
    (sec : InputSection) :
    inputsIn (ofRecord depth name r) sec = sectionInputs depth r sec := by
  have hkeep : (sectionInputs depth r sec).filter (fun i => i.sec = sec)
      = sectionInputs depth r sec :=
    List.filter_eq_self.2 fun i hi => decide_eq_true (mem_sectionInputs hi).1
  have hdrop : ∀ other, other ≠ sec →
      (sectionInputs depth r other).filter (fun i => i.sec = sec) = [] := by
    intro other hne
    refine List.filter_eq_nil_iff.2 fun i hi => ?_
    rw [(mem_sectionInputs hi).1]
    simpa using hne
  unfold inputsIn ofRecord
  rw [List.filter_append, List.filter_append]
  cases sec with
  | required =>
      rw [hkeep, hdrop .optional (by decide), hdrop .hidden (by decide),
        List.append_nil, List.append_nil]
  | optional =>
      rw [hkeep, hdrop .required (by decide), hdrop .hidden (by decide),
        List.append_nil, List.nil_append]
  | hidden =>
      rw [hkeep, hdrop .required (by decide), hdrop .optional (by decide),
        List.append_nil, List.nil_append]

/-- The inputs of a node type stand section by section. In each they are
the declared keys, each once: those named by the order first, by their
first mention, and then all others as declared, whatever else the order
names and how often. And each input is read from what its key declares. -/
theorem declared_inputs_arranged {depth : Nat} {name : String} {v : Source}
    {t : NodeType} (h : ofSource? depth name v = some t) :
    ∃ w r, Source.read? .strict v.text = some w
      ∧ (readRecord {} w).run = .ok r
      ∧ t.inputs
        = inputsIn t .required ++ inputsIn t .optional ++ inputsIn t .hidden
      ∧ ∀ sec, Arranges (r.sections.get sec).keys (r.orderOf sec)
            ((inputsIn t sec).map (·.name))
          ∧ ∀ i ∈ inputsIn t sec,
              ∃ x, Ordered.get? (r.sections.get sec) i.name = some x
                ∧ i = readInput depth i.name sec x := by
  obtain ⟨w, hw, hread⟩ := Option.bind_eq_some_iff.1 h
  split at hread
  · next r hr =>
    cases hread
    have hformed := formed_of_readRecord hr
    refine ⟨w, r, hw, hr, ?_, fun sec => ?_⟩
    · rw [inputsIn_ofRecord, inputsIn_ofRecord, inputsIn_ofRecord]
      rfl
    · rw [inputsIn_ofRecord, sectionInputs_names depth r sec (hformed.nodup sec)]
      exact ⟨orderedKeys_arranges (hformed.nodup sec) _,
        fun i hi => (mem_sectionInputs hi).2⟩
  · cases hread

/-- Three inputs under an order that names one of them, twice, and one
that is not there. -/
def resizePayload : Source :=
  .object ("\x7b\"input\":\x7b\"required\":\x7b\"mode\":\"STRING\",\"a\":\"INT\","
    ++ "\"b\":\"INT\"\x7d\x7d,\"input_order\":\x7b\"required\":[\"b\",\"ghost\",\"b\"]\x7d\x7d") []

/-- A type whose order names some of its inputs. -/
theorem declared_inputs_arranged_resize :
    ∃ t r, ofSource? 1 "Resize" resizePayload = some t
      ∧ (inputsIn t .required).map (·.name) = ["b", "mode", "a"]
      ∧ Arranges (r.sections.get .required).keys (Record.orderOf r .required)
          ["b", "mode", "a"] := by
  have hread : (ofSource? 1 "Resize" resizePayload).map
      (fun t => (inputsIn t .required).map (·.name))
      = some ["b", "mode", "a"] := by decide +kernel
  obtain ⟨t, ht, hnames⟩ := Option.map_eq_some_iff.1 hread
  obtain ⟨w, r, -, -, -, hsections⟩ := declared_inputs_arranged ht
  exact ⟨t, r, ht, hnames, hnames ▸ (hsections .required).1⟩

end PromptGraph.NodeType

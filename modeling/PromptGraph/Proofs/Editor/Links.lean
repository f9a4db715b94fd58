/-
Link entries. A link is written as a list or as an object, and the two
readers have little in common: one takes the items one by one, the other
fills a record with the fields as they come. What they make of the same
six values is the same (`linkOf?`): each value is read on its own, a field
touches nothing but its part of the link (`fill?_comm`), and that something
could not be read is all that is left of it in the end.

An entry that cannot be read is left out, and no other entry is affected:
the links are those of the entries that can be read, the positions those
of the others, and each entry adds its own to what the ones before and
after it give (`readLinks_split`).

Main statement: `link_notations_agree_entries_contained`.
-/
import Mathlib.Data.List.Nodup
import Mathlib.Data.List.Perm.Basic
import PromptGraph.Editor.Reader
import PromptGraph.Proofs.Json.Decode

namespace PromptGraph.Editor

open Json (Source Decode)
open Json.Decode (Amounts)

-- ==== values

/-- The id that a value spells. -/
def idOf? (v : Source) : Option Id := (Id.read v.text).toOption

/-- The slot that a value names; `null` leaves it open. -/
def slotOf? : Source → Option (Option Int)
  | .null => some none
  | .number t => (Number.int64? t).map some
  | _ => none

/-- Reading an id amounts to the id it spells. -/
theorem amounts_readId (v : Source) : Amounts (readId v) (idOf? v) := by
  unfold readId idOf?
  cases Id.read v.text with
  | ok i => exact .pure i
  | error e => exact .throw _

/-- Reading a slot amounts to the number it names. -/
theorem amounts_integer (old : Int) (v : Source) :
    Amounts (Decode.integer old v : Read Int)
      ((slotOf? v).map (·.getD old)) := by
  cases v with
  | null => exact .pure old
  | number t =>
      unfold Decode.integer slotOf?
      dsimp only
      cases Number.int64? t with
      | none => exact .skip old
      | some n => exact .pure n
  | _ => exact .skip old

-- ==== fields

/-- What a field makes of a link. -/
def fill? (k : Link) (f : String × Source) : Option Link :=
  match f.1 with
  | "id" => (idOf? f.2).map fun i => { k with id := i }
  | "origin_id" => (idOf? f.2).map fun i => { k with origin := i }
  | "origin_slot" =>
    (slotOf? f.2).map fun s => { k with originSlot := s.getD k.originSlot }
  | "target_id" => (idOf? f.2).map fun i => { k with target := i }
  | "target_slot" =>
    (slotOf? f.2).map fun s => { k with targetSlot := s.getD k.targetSlot }
  | _ => (some (linkType f.2)).map fun t => { k with type := t }

section
variable (k : Link) (v : Source)

theorem fill?_id :
    fill? k ("id", v) = (idOf? v).map fun i => { k with id := i } := rfl

theorem fill?_origin :
    fill? k ("origin_id", v) = (idOf? v).map fun i => { k with origin := i } :=
  rfl

theorem fill?_originSlot : fill? k ("origin_slot", v)
    = (slotOf? v).map fun s => { k with originSlot := s.getD k.originSlot } :=
  rfl

theorem fill?_target :
    fill? k ("target_id", v) = (idOf? v).map fun i => { k with target := i } :=
  rfl

theorem fill?_targetSlot : fill? k ("target_slot", v)
    = (slotOf? v).map fun s => { k with targetSlot := s.getD k.targetSlot } :=
  rfl

theorem fill?_type : fill? k ("type", v)
    = (some (linkType v)).map fun t => { k with type := t } := rfl

end

/-- Reading a field fills its part of the link. -/
theorem amounts_readLinkField (k : Link) {f : String × Source}
    (hf : f.1 ∈ linkFields) :
    Amounts (readLinkField k f.1 f.2) (fill? k f) := by
  obtain ⟨n, v⟩ := f
  have hslot : ∀ (old : Int) (g : Int → Link),
      Amounts (Decode.integer old v >>= fun s => pure (g s) : Read Link)
        ((slotOf? v).map fun s => g (s.getD old)) := by
    intro old g
    have hread := (amounts_integer old v).into g
    rwa [Option.map_map] at hread
  simp only [linkFields, List.mem_cons, List.not_mem_nil, or_false] at hf
  rcases hf with rfl | rfl | rfl | rfl | rfl | rfl
  · exact (amounts_readId v).into _
  · exact (amounts_readId v).into _
  · exact hslot k.originSlot _
  · exact (amounts_readId v).into _
  · exact hslot k.targetSlot _
  · exact .pure _

/-- Two steps that take nothing from each other may change places. -/
theorem map_bind_map_comm {α β γ δ : Type} {a? : Option α} {b? : Option β}
    {f : α → γ} {g : γ → β → δ} {f' : β → γ} {g' : γ → α → δ}
    (h : ∀ a b, g (f a) b = g' (f' b) a) :
    ((a?.map f).bind fun c => b?.map (g c))
      = (b?.map f').bind fun c => a?.map (g' c) := by
  cases a? with
  | none => cases b? <;> rfl
  | some a =>
      cases b? with
      | none => rfl
      | some b => exact congrArg some (h a b)

/-- Different fields fill different parts of a link. -/
theorem fill?_comm {f g : String × Source} (hf : f.1 ∈ linkFields)
    (hg : g.1 ∈ linkFields) (hne : f.1 ≠ g.1) (k : Link) :
    ((fill? k f).bind fun k => fill? k g)
      = (fill? k g).bind fun k => fill? k f := by
  obtain ⟨n, v⟩ := f
  obtain ⟨m, w⟩ := g
  simp only [linkFields, List.mem_cons, List.not_mem_nil, or_false] at hf hg
  rcases hf with rfl | rfl | rfl | rfl | rfl | rfl <;>
    rcases hg with rfl | rfl | rfl | rfl | rfl | rfl
  all_goals try exact absurd rfl hne
  all_goals
    simp only [fill?_id, fill?_origin, fill?_originSlot, fill?_target,
      fill?_targetSlot, fill?_type]
    exact map_bind_map_comm fun _ _ => rfl

/-- The order in which different fields are written does not matter. -/
theorem foldlM_fill?_perm {fs gs : List (String × Source)} (h : fs.Perm gs)
    (hfs : ∀ f ∈ fs, f.1 ∈ linkFields) (hnames : (fs.map Prod.fst).Nodup)
    (k : Link) : fs.foldlM fill? k = gs.foldlM fill? k := by
  rw [List.foldlM_eq_foldl, List.foldlM_eq_foldl]
  refine h.foldl_eq' (fun f hf g hg acc => ?_) _
  cases acc with
  | none => rfl
  | some k =>
      by_cases hfg : f = g
      · rw [hfg]
      · refine fill?_comm (hfs f hf) (hfs g hg) (fun heq => hfg ?_) k
        exact List.inj_on_of_nodup_map hnames hf hg heq

-- ==== notations

/-- The link of six values, each read on its own. -/
def linkOf? (id origin originSlot target targetSlot type : Source) :
    Option Link := do
  let id ← idOf? id
  let origin ← idOf? origin
  let originSlot ← slotOf? originSlot
  let target ← idOf? target
  let targetSlot ← slotOf? targetSlot
  return { id, origin, originSlot := originSlot.getD 0, target,
           targetSlot := targetSlot.getD 0, type := linkType type }

/-- The fields of a link that is written as an object. -/
def linkEntry (id origin originSlot target targetSlot type : Source) :
    List (String × Source) :=
  [("id", id), ("origin_id", origin), ("origin_slot", originSlot),
   ("target_id", target), ("target_slot", targetSlot), ("type", type)]

section
variable (a b c d e f : Source)

/-- Reading six items amounts to their link. -/
theorem amounts_readLinkItems :
    Amounts (readLinkItems [a, b, c, d, e, f]) (linkOf? a b c d e f) := by
  have hslots : linkOf? a b c d e f
      = (idOf? a).bind fun id =>
        (idOf? b).bind fun origin =>
        ((slotOf? c).map (·.getD 0)).bind fun originSlot =>
        (idOf? d).bind fun target =>
        ((slotOf? e).map (·.getD 0)).bind fun targetSlot =>
          some ⟨id, origin, originSlot, target, targetSlot, linkType f⟩ := by
    simp only [Option.bind_map]
    rfl
  rw [hslots]
  refine (amounts_readId a).bind fun id => ?_
  refine (amounts_readId b).bind fun origin => ?_
  refine (amounts_integer 0 c).bind fun originSlot => ?_
  refine (amounts_readId d).bind fun target => ?_
  refine (amounts_integer 0 e).bind fun targetSlot => ?_
  exact .pure _

/-- So does filling in six fields. -/
theorem foldlM_linkEntry :
    (linkEntry a b c d e f).foldlM fill? {} = linkOf? a b c d e f := by
  have hstep : ∀ {α : Type} (o : Option α) (g : α → Link)
      (fs : List (String × Source)),
      (o.map g >>= fun k => fs.foldlM fill? k)
        = o.bind fun x => fs.foldlM fill? (g x) := fun o g fs =>
    Option.bind_map
  unfold linkEntry linkOf?
  rw [List.foldlM_cons, fill?_id, hstep]
  refine Option.bind_congr fun id _ => ?_
  rw [List.foldlM_cons, fill?_origin, hstep]
  refine Option.bind_congr fun origin _ => ?_
  rw [List.foldlM_cons, fill?_originSlot, hstep]
  refine Option.bind_congr fun originSlot _ => ?_
  rw [List.foldlM_cons, fill?_target, hstep]
  refine Option.bind_congr fun target _ => ?_
  rw [List.foldlM_cons, fill?_targetSlot, hstep]
  refine Option.bind_congr fun targetSlot _ => ?_
  rw [List.foldlM_cons, fill?_type]
  rfl

theorem mem_linkFields_of_linkEntry {g : String × Source}
    (hg : g ∈ linkEntry a b c d e f) : g.1 ∈ linkFields := by
  have hnames : (linkEntry a b c d e f).map Prod.fst = linkFields := rfl
  rw [← hnames]
  exact List.mem_map_of_mem hg

/-- An entry that is a list is read as its items. -/
theorem readLink?_array {items : List Source} {o : Option Link}
    (h : Amounts (readLinkItems items) o) (text : String) :
    readLink? (.array text items) = o := by
  unfold readLink?
  dsimp only
  rw [← h.toOption_run]
  cases (readLinkItems items).run with
  | ok k => rfl
  | error e => rfl

/-- One that is an object is read as its fields. -/
theorem readLink?_object {text : String} {fields : List (String × Source)}
    {o : Option Link} (h : Amounts (readLinkFields {} (.object text fields)) o) :
    readLink? (.object text fields) = o := by
  unfold readLink?
  dsimp only
  rw [← h.toOption_run]
  cases (readLinkFields {} (.object text fields)).run with
  | ok k => rfl
  | error e => rfl

/-- A list of six values is read as their link. -/
theorem readLink?_list (text : String) :
    readLink? (.array text [a, b, c, d, e, f]) = linkOf? a b c d e f :=
  readLink?_array (amounts_readLinkItems a b c d e f) text

/-- So is an object with these values, the fields in any order. -/
theorem readLink?_fields (text : String) {fields : List (String × Source)}
    (hfields : fields.Perm (linkEntry a b c d e f)) :
    readLink? (.object text fields) = linkOf? a b c d e f := by
  have hown : ∀ g ∈ fields, g.1 ∈ linkFields := fun g hg =>
    mem_linkFields_of_linkEntry a b c d e f (hfields.mem_iff.1 hg)
  have hplain : ∀ n ∈ linkFields, Source.unescape? n = some n := by decide
  have hnames : (fields.map Prod.fst).Nodup :=
    (hfields.map Prod.fst).nodup_iff.2 (by decide : linkFields.Nodup)
  refine readLink?_object ?_
  rw [← foldlM_linkEntry, ← foldlM_fill?_perm hfields hown hnames]
  exact .fields (fun g hg => ⟨hown g hg, hplain _ (hown g hg)⟩)
    (fun k g hg => amounts_readLinkField k (hown g hg)) {}

end

-- ==== entries

/-- Entries that stand further down are read alike, at other positions. -/
theorem readLinksFrom_add (i n : Nat) (vs : List Source) :
    readLinksFrom (i + n) vs
      = ((readLinksFrom i vs).1, (readLinksFrom i vs).2.map (· + n)) := by
  induction vs generalizing i with
  | nil => rfl
  | cons v vs ih =>
      rw [readLinksFrom, readLinksFrom, Nat.add_right_comm, ih]
      dsimp only
      cases readLink? v with
      | none => rfl
      | some k => rfl

/-- Entries are read in two parts. -/
theorem readLinksFrom_append (i : Nat) (vs ws : List Source) :
    readLinksFrom i (vs ++ ws)
      = ((readLinksFrom i vs).1 ++ (readLinksFrom (i + vs.length) ws).1,
        (readLinksFrom i vs).2 ++ (readLinksFrom (i + vs.length) ws).2) := by
  induction vs generalizing i with
  | nil => rfl
  | cons v vs ih =>
      rw [List.cons_append, readLinksFrom, readLinksFrom, ih, List.length_cons,
        Nat.add_assoc i 1, Nat.add_comm 1]
      dsimp only
      cases readLink? v with
      | none => rfl
      | some k => rfl

/-- The links are those of the entries that can be read. -/
theorem readLinksFrom_links (i : Nat) (vs : List Source) :
    (readLinksFrom i vs).1 = vs.filterMap readLink? := by
  induction vs generalizing i with
  | nil => rfl
  | cons v vs ih =>
      rw [readLinksFrom]
      cases hv : readLink? v with
      | none => rw [List.filterMap_cons_none hv]; exact ih (i + 1)
      | some k => rw [List.filterMap_cons_some hv, ← ih (i + 1)]

/-- The positions are those of the others. -/
theorem mem_readLinksFrom_skipped {i p : Nat} {vs : List Source} :
    p ∈ (readLinksFrom i vs).2
      ↔ ∃ j v, p = i + j ∧ vs[j]? = some v ∧ readLink? v = none := by
  induction vs generalizing i with
  | nil => simp [readLinksFrom]
  | cons v vs ih =>
      have hsplit : (∃ j w, p = i + j ∧ (v :: vs)[j]? = some w ∧ readLink? w = none)
          ↔ (p = i ∧ readLink? v = none)
            ∨ ∃ j w, p = i + 1 + j ∧ vs[j]? = some w ∧ readLink? w = none := by
        constructor
        · intro h
          obtain ⟨j, w, hp, hw, hnone⟩ := h
          cases j with
          | zero =>
              cases hw
              exact .inl ⟨hp, hnone⟩
          | succ j => exact .inr ⟨j, w, by omega, hw, hnone⟩
        · intro h
          rcases h with ⟨hp, hnone⟩ | ⟨j, w, hp, hw, hnone⟩
          · exact ⟨0, v, hp, rfl, hnone⟩
          · exact ⟨j + 1, w, by omega, hw, hnone⟩
      rw [hsplit, ← ih, readLinksFrom]
      cases readLink? v with
      | none => simp
      | some k => simp

/-- They ascend. -/
theorem pairwise_readLinksFrom (i : Nat) (vs : List Source) :
    (readLinksFrom i vs).2.Pairwise (· < ·) := by
  induction vs generalizing i with
  | nil => exact .nil
  | cons v vs ih =>
      rw [readLinksFrom]
      cases readLink? v with
      | none =>
          refine List.pairwise_cons.2 ⟨fun p hp => ?_, ih (i + 1)⟩
          obtain ⟨j, w, hj, -, -⟩ := mem_readLinksFrom_skipped.1 hp
          omega
      | some k => exact ih (i + 1)

/-- What an entry adds to the positions left out. -/
def skippedAt (i : Nat) (v : Source) : List Nat :=
  if (readLink? v).isSome then [] else [i]

/-- One entry between those before and after it. -/
theorem readLinks_split (before after : List Source) (v : Source) :
    readLinks (before ++ v :: after)
      = ((readLinks before).1 ++ (readLink? v).toList ++ (readLinks after).1,
        (readLinks before).2 ++ skippedAt before.length v
          ++ (readLinks after).2.map (· + (before.length + 1))) := by
  have hone : readLinksFrom before.length (v :: after)
      = ((readLink? v).toList ++ (readLinksFrom (before.length + 1) after).1,
        skippedAt before.length v
          ++ (readLinksFrom (before.length + 1) after).2) := by
    unfold skippedAt
    rw [readLinksFrom]
    cases readLink? v with
    | none => rfl
    | some k => rfl
  have hafter := readLinksFrom_add 0 (before.length + 1) after
  rw [Nat.zero_add] at hafter
  unfold readLinks
  rw [readLinksFrom_append, Nat.zero_add, hone, hafter, List.append_assoc,
    List.append_assoc]

/-- A list of six values and an object with them, its fields in any order,
are the same link, or neither can be read: it is the link of the values
read one by one, and there is none if an id or a slot among them cannot be
read. The links of an array are those
of its entries that can be read, in order, and the positions left out are
those of the others, ascending. An entry adds its link or its position
between what the entries before and after it give, and this is what they
give on their own, whatever stands in its place. -/
theorem link_notations_agree_entries_contained :
    (∀ a b c d e f text text' fields, fields.Perm (linkEntry a b c d e f) →
        readLink? (.array text [a, b, c, d, e, f])
            = readLink? (.object text' fields)
          ∧ readLink? (.object text' fields) = linkOf? a b c d e f)
      ∧ (∀ entries, (readLinks entries).1 = entries.filterMap readLink?
          ∧ (readLinks entries).2.Pairwise (· < ·)
          ∧ ∀ i, i ∈ (readLinks entries).2
              ↔ ∃ v, entries[i]? = some v ∧ readLink? v = none)
      ∧ ∀ before v after, readLinks (before ++ v :: after)
          = ((readLinks before).1 ++ (readLink? v).toList ++ (readLinks after).1,
            (readLinks before).2 ++ skippedAt before.length v
              ++ (readLinks after).2.map (· + (before.length + 1))) := by
  refine ⟨fun a b c d e f text text' fields hfields => ?_, fun entries => ?_,
    fun before v after => readLinks_split before after v⟩
  · have hobject := readLink?_fields a b c d e f text' hfields
    exact ⟨(readLink?_list a b c d e f text).trans hobject.symm, hobject⟩
  refine ⟨readLinksFrom_links 0 entries, pairwise_readLinksFrom 0 entries,
    fun i => ?_⟩
  refine mem_readLinksFrom_skipped.trans ⟨fun h => ?_, fun h => ?_⟩
  · obtain ⟨j, v, hi, hv⟩ := h
    rw [Nat.zero_add] at hi
    exact ⟨v, hi ▸ hv⟩
  · obtain ⟨v, hv⟩ := h
    exact ⟨i, v, (Nat.zero_add i).symm, hv⟩

end PromptGraph.Editor

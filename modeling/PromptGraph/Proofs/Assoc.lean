/-
Tables by name, as proofs read them: what a look-up finds after an
insertion, which keys a table has, and that tables built by insertion
hold each key once, in ascending order. Everything that counts entries
(`Ascending.length_eq`) or reads a table as a list (`Ascending.mem_iff`)
needs the last fact; everything else needs the look-up laws alone, which
hold of any list.
-/
import Mathlib.Data.List.Dedup
import Mathlib.Data.String.Basic
import PromptGraph.Assoc

namespace PromptGraph.Assoc

variable {α β : Type}

-- ==== look-up

@[simp] theorem get?_nil (name : String) :
    get? ([] : Assoc α) name = none := rfl

theorem get?_cons (k name : String) (v : α) (t : Assoc α) :
    get? ((k, v) :: t) name = if k = name then some v else get? t name := rfl

/-- What is found under a name after an insertion: the new value under
the inserted one, and what was there under every other. -/
theorem get?_insert (t : Assoc α) (name other : String) (v : α) :
    get? (insert t name v) other
      = if name = other then some v else get? t other := by
  induction t with
  | nil => rfl
  | cons e rest ih =>
      obtain ⟨k, w⟩ := e
      unfold insert
      split
      · rfl
      · split
        · next hk =>
          subst hk
          rw [get?_cons, get?_cons]
          split
          · rfl
          · rfl
        · next hk =>
          rw [get?_cons, get?_cons, ih]
          split
          · next hko =>
            subst hko
            rw [if_neg (fun h => hk h.symm)]
          · rfl

/-- What is put under a name is found there. -/
@[simp] theorem get?_insert_self (t : Assoc α) (name : String) (v : α) :
    get? (insert t name v) name = some v := by
  rw [get?_insert, if_pos rfl]

/-- Nothing changes under other names. -/
theorem get?_insert_of_ne (t : Assoc α) {name other : String} (v : α)
    (h : name ≠ other) : get? (insert t name v) other = get? t other := by
  rw [get?_insert, if_neg h]

theorem get?_map (f : String → α → β) (t : Assoc α) (name : String) :
    get? (t.map fun e => (e.1, f e.1 e.2)) name
      = (get? t name).map (f name) := by
  induction t with
  | nil => rfl
  | cons e rest ih =>
      obtain ⟨k, w⟩ := e
      rw [List.map_cons, get?_cons, get?_cons, ih]
      split
      · next hk => rw [hk]; rfl
      · rfl

/-- Changed values are found under the same names. -/
theorem get?_mapValues (f : α → β) (t : Assoc α) (name : String) :
    get? (mapValues f t) name = (get? t name).map f :=
  get?_map (fun _ => f) t name

/-- Nothing is found under an erased name, and under every other what was
there. -/
theorem get?_erase (t : Assoc α) (name other : String) :
    get? (erase t name) other = if name = other then none else get? t other := by
  induction t with
  | nil => simp [erase]
  | cons e rest ih =>
      obtain ⟨k, w⟩ := e
      unfold erase at ih ⊢
      by_cases hk : k = name
      · subst hk
        rw [List.filter_cons_of_neg (by simp), ih, get?_cons]
        by_cases hother : k = other
        · simp [hother]
        · simp [hother]
      · rw [List.filter_cons_of_pos (by simpa using hk), get?_cons, ih, get?_cons]
        by_cases hother : k = other
        · subst hother
          simp [Ne.symm hk]
        · simp [hother]

variable {t : Assoc α}

/-- A table in which nothing is found is empty. -/
theorem eq_nil_of_get? (h : ∀ name, get? t name = none) :
    t = [] := by
  cases t with
  | nil => rfl
  | cons e rest =>
      obtain ⟨k, v⟩ := e
      have hhead := h k
      simp [get?_cons] at hhead

variable {name : String} {v : α}

/-- A found value stands in the table under its name. -/
theorem mem_of_get? (h : get? t name = some v) : (name, v) ∈ t := by
  induction t with
  | nil => cases h
  | cons e rest ih =>
      obtain ⟨k, w⟩ := e
      rw [get?_cons] at h
      split at h
      · next hk =>
        cases h
        rw [hk]
        exact List.mem_cons_self
      · exact List.mem_cons_of_mem _ (ih h)

-- ==== keys

/-- A name is there if something is found under it. -/
theorem contains_iff :
    contains t name = true ↔ ∃ v, get? t name = some v := by
  unfold contains
  exact Option.isSome_iff_exists

/-- An insertion adds its name. -/
theorem contains_insert (t : Assoc α) (name other : String) (v : α) :
    contains (insert t name v) other = true
      ↔ name = other ∨ contains t other = true := by
  unfold contains
  rw [get?_insert]
  split
  · next h => simp [h]
  · next h => simp [h]

/-- The keys that are found are the keys that are listed. -/
theorem contains_iff_mem_keys :
    contains t name = true ↔ name ∈ keys t := by
  induction t with
  | nil => simp [contains, keys]
  | cons e rest ih =>
      obtain ⟨k, w⟩ := e
      unfold contains at ih ⊢
      rw [get?_cons]
      have hkeys : keys ((k, w) :: rest) = k :: keys rest := rfl
      rw [hkeys, List.mem_cons]
      split
      · next hk => simp [hk]
      · next hk =>
        rw [ih]
        exact ⟨Or.inr, fun h => h.resolve_left fun h => hk h.symm⟩

/-- A new key joins the others. -/
theorem keys_insert_perm (h : name ∉ keys t) (v : α) :
    (keys (insert t name v)).Perm (keys t ++ [name]) := by
  induction t with
  | nil => exact List.Perm.refl _
  | cons e rest ih =>
      obtain ⟨k, w⟩ := e
      have hkeys : keys ((k, w) :: rest) = k :: keys rest := rfl
      rw [hkeys, List.mem_cons, not_or] at h
      unfold insert
      split
      · rw [hkeys]
        exact (List.perm_append_singleton _ _).symm
      · rw [if_neg (Ne.symm h.1), hkeys]
        exact (ih h.2).cons k

-- ==== order

/-- Each key once, in ascending order: the shape of every table that
insertions build. -/
def Ascending (t : Assoc α) : Prop := t.Pairwise fun a b => a.1 < b.1

instance (t : Assoc α) : Decidable t.Ascending :=
  inferInstanceAs (Decidable (t.Pairwise fun a b => a.1 < b.1))

theorem ascending_nil : Ascending ([] : Assoc α) := List.Pairwise.nil

variable {e : String × α}

/-- What an insertion puts into a table: the new entry and old ones. -/
theorem mem_insert (h : e ∈ insert t name v) : e = (name, v) ∨ e ∈ t := by
  induction t with
  | nil => exact Or.inl (List.mem_singleton.1 h)
  | cons d rest ih =>
      obtain ⟨k, w⟩ := d
      unfold insert at h
      split at h
      · exact List.mem_cons.1 h
      · split at h
        · next hk =>
          rcases List.mem_cons.1 h with rfl | h
          · exact Or.inl (by rw [hk])
          · exact Or.inr (List.mem_cons_of_mem _ h)
        · rcases List.mem_cons.1 h with rfl | h
          · exact Or.inr List.mem_cons_self
          · exact (ih h).imp_right (List.mem_cons_of_mem _)

/-- An insertion keeps the order. -/
theorem Ascending.insert (ht : Ascending t) (name : String) (v : α) :
    Ascending (insert t name v) := by
  induction t with
  | nil => exact List.pairwise_singleton _ _
  | cons d rest ih =>
      obtain ⟨k, w⟩ := d
      obtain ⟨hhead, htail⟩ := List.pairwise_cons.1 ht
      unfold Assoc.insert
      split
      · next hlt =>
        refine List.pairwise_cons.2 ⟨fun e he => ?_, ht⟩
        rcases List.mem_cons.1 he with rfl | he
        · exact hlt
        · exact lt_trans hlt (hhead e he)
      · next hge =>
        split
        · exact List.pairwise_cons.2 ⟨hhead, htail⟩
        · next hne =>
          refine List.pairwise_cons.2 ⟨fun e he => ?_, ih htail⟩
          rcases mem_insert he with rfl | he
          · exact lt_of_le_of_ne (not_lt.1 hge) hne
          · exact hhead e he

/-- In an ordered table no name comes twice. -/
theorem Ascending.nodup_keys (ht : Ascending t) :
    (keys t).Nodup := by
  unfold keys
  refine List.pairwise_map.2 (ht.imp fun {a b} hab => ?_)
  exact ne_of_lt hab

/-- In an ascending table an entry is found exactly if it is there. -/
theorem Ascending.mem_iff (ht : Ascending t) :
    (name, v) ∈ t ↔ get? t name = some v := by
  refine ⟨fun h => ?_, mem_of_get?⟩
  induction t with
  | nil => cases h
  | cons d rest ih =>
      obtain ⟨k, w⟩ := d
      obtain ⟨hhead, htail⟩ := List.pairwise_cons.1 ht
      rw [get?_cons]
      rcases List.mem_cons.1 h with heq | h
      · cases heq
        rw [if_pos rfl]
      · rw [if_neg (ne_of_lt (hhead _ h))]
        exact ih htail h

/-- A table with exactly these keys has as many entries as there are
different ones among them. -/
theorem Ascending.length_eq (ht : Ascending t) {names : List String}
    (h : ∀ name, contains t name = true ↔ name ∈ names) :
    t.length = names.dedup.length := by
  have hperm : (keys t).Perm names.dedup := by
    refine (List.perm_ext_iff_of_nodup ht.nodup_keys
      (List.nodup_dedup names)).2 fun name => ?_
    rw [← contains_iff_mem_keys, h, List.mem_dedup]
  have hlen := hperm.length_eq
  unfold keys at hlen
  rwa [List.length_map] at hlen

-- ==== tables and their entries

/-- Ascending entries, inserted one after another into a table whose
keys are all smaller, are appended to it. -/
theorem foldl_insert_ascending (t rest : Assoc α)
    (h : Ascending (t ++ rest)) :
    rest.foldl (fun acc e => insert acc e.1 e.2) t = t ++ rest := by
  induction rest generalizing t with
  | nil => rw [List.foldl_nil, List.append_nil]
  | cons e rest ih =>
      have hlast : insert t e.1 e.2 = t ++ [e] := by
        have hbelow : ∀ d ∈ t, d.1 < e.1 := fun d hd =>
          (List.pairwise_append.1 h).2.2 d hd e List.mem_cons_self
        clear ih h
        induction t with
        | nil => rfl
        | cons d t ih =>
            have hd := hbelow d List.mem_cons_self
            rw [insert, if_neg (not_lt.2 (le_of_lt hd)), if_neg (ne_of_lt hd),
              ih fun x hx => hbelow x (List.mem_cons_of_mem _ hx)]
            rfl
      have happ : t ++ e :: rest = (t ++ [e]) ++ rest := by simp
      rw [List.foldl_cons, hlast, ih (t ++ [e]) (happ ▸ h), happ]

/-- A table in ascending order is the table of its entries. -/
theorem ofList_of_ascending (h : Ascending t) :
    ofList t = t :=
  foldl_insert_ascending [] t h

/-- Several insertions keep the order. -/
theorem Ascending.foldl_insert (h : Ascending t) (entries : List (String × α)) :
    Ascending (entries.foldl (fun acc e => Assoc.insert acc e.1 e.2) t) := by
  induction entries generalizing t with
  | nil => exact h
  | cons e rest ih => exact ih (h.insert e.1 e.2)

theorem ascending_ofList (entries : List (String × α)) :
    Ascending (ofList entries) :=
  ascending_nil.foldl_insert entries

variable {entries : List (String × α)}

/-- Insertions bring in nothing else. -/
theorem mem_foldl_insert
    (h : e ∈ entries.foldl (fun acc d => insert acc d.1 d.2) t) :
    e ∈ t ∨ e ∈ entries := by
  induction entries generalizing t with
  | nil => exact Or.inl h
  | cons d rest ih =>
      rcases ih h with h | h
      · rcases mem_insert h with rfl | h
        · exact Or.inr List.mem_cons_self
        · exact Or.inl h
      · exact Or.inr (List.mem_cons_of_mem _ h)

/-- What is found after insertions was found before, or is one of the
inserted values. -/
theorem get?_foldl_insert
    (h : get? (entries.foldl (fun acc d => insert acc d.1 d.2) t) name = some v) :
    get? t name = some v ∨ (name, v) ∈ entries := by
  induction entries generalizing t with
  | nil => exact Or.inl h
  | cons d rest ih =>
      rcases ih h with h | h
      · rw [get?_insert] at h
        split at h
        · next hd =>
          cases h
          rw [← hd]
          exact Or.inr List.mem_cons_self
        · exact Or.inl h
      · exact Or.inr (List.mem_cons_of_mem _ h)

/-- In a table of the values of a function, that of each listed name is
found. -/
theorem get?_ofList_map {names : List String} (h : name ∈ names)
    (f : String → α) :
    get? (ofList (names.map fun n => (n, f n))) name = some (f name) := by
  have hrun : ∀ (ns : List String) (t : Assoc α),
      get? t name = some (f name) ∨ name ∈ ns →
      get? ((ns.map fun n => (n, f n)).foldl
        (fun acc d => insert acc d.1 d.2) t) name = some (f name) := by
    intro ns
    induction ns with
    | nil =>
        intro t ht
        exact ht.resolve_right List.not_mem_nil
    | cons n ns ih =>
        intro t ht
        refine ih _ ?_
        rw [get?_insert]
        by_cases hn : n = name
        · left
          rw [if_pos hn, hn]
        · rw [if_neg hn]
          exact ht.imp_right fun hmem =>
            (List.mem_cons.1 hmem).resolve_left (Ne.symm hn)
  exact hrun names [] (Or.inr h)

theorem mem_of_mem_ofList (h : e ∈ ofList entries) : e ∈ entries :=
  (mem_foldl_insert h).resolve_left List.not_mem_nil

/-- Changing values keeps the order. -/
theorem ascending_mapValues {f : α → β} :
    Ascending (mapValues f t) ↔ Ascending t :=
  List.pairwise_map

theorem mapValues_eq_self {f : α → α} (h : ∀ e ∈ t, f e.2 = e.2) :
    mapValues f t = t := by
  unfold mapValues
  conv => rhs; rw [← List.map_id t]
  refine List.map_congr_left fun e he => ?_
  exact Prod.ext rfl (h e he)

/-- Two changes are one if they agree on the values. -/
theorem mapValues_inj_left {f g : α → β} :
    mapValues f t = mapValues g t ↔ ∀ e ∈ t, f e.2 = g e.2 := by
  unfold mapValues
  rw [List.map_inj_left]
  exact forall₂_congr fun e _ => by simp

theorem mapValues_mapValues (t : Assoc α) {γ : Type} (f : α → β) (g : β → γ) :
    mapValues g (mapValues f t) = mapValues (g ∘ f) t := by
  unfold mapValues
  rw [List.map_map]
  rfl

theorem mem_mapValues {f : α → β} {e : String × β} :
    e ∈ mapValues f t ↔ ∃ v, (e.1, v) ∈ t ∧ e.2 = f v := by
  unfold mapValues
  rw [List.mem_map]
  constructor
  · rintro ⟨d, hd, rfl⟩
    exact ⟨d.2, hd, rfl⟩
  · rintro ⟨v, hv, he⟩
    exact ⟨(e.1, v), hv, Prod.ext rfl he.symm⟩

end PromptGraph.Assoc

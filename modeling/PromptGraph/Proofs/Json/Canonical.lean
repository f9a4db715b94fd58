/-
JSON values as reading makes them. Two facts hold of every value that
was read: each number in it is a numeral, since the reader takes nothing
else for a number, and each object in it is a table, since repeated
names are merged and the rest put in ascending order. A value with both
is canonical.

Main statement: `Source.Spelled.canonical`, with
`Source.spelled_of_readFirst?` for the texts it is used on.
-/
import PromptGraph.Proofs.Assoc
import PromptGraph.Proofs.Json.Numeral

namespace PromptGraph

namespace Json

-- ==== predicates

/-- Each number in the value is a numeral. -/
inductive Spelled {τ : Type} : Json τ → Prop where
  | null : Spelled .null
  | bool (b : Bool) : Spelled (.bool b)
  | number {t : String} (h : Numeral t.toList) : Spelled (.number t)
  | string (t : τ) : Spelled (.string t)
  | array {items : List (Json τ)} (h : ∀ v ∈ items, Spelled v) :
      Spelled (.array items)
  | object {fields : List (τ × Json τ)} (h : ∀ f ∈ fields, Spelled f.2) :
      Spelled (.object fields)

/-- Each number in the value is a numeral and each object a table, its
names in ascending order. -/
inductive Canonical {τ : Type} [LT τ] : Json τ → Prop where
  | null : Canonical .null
  | bool (b : Bool) : Canonical (.bool b)
  | number {t : String} (h : Numeral t.toList) : Canonical (.number t)
  | string (t : τ) : Canonical (.string t)
  | array {items : List (Json τ)} (h : ∀ v ∈ items, Canonical v) :
      Canonical (.array items)
  | object {fields : List (τ × Json τ)}
      (ordered : fields.Pairwise fun a b => a.1 < b.1)
      (h : ∀ f ∈ fields, Canonical f.2) : Canonical (.object fields)

/-- A canonical value is spelled out. -/
theorem Canonical.spelled {τ : Type} [LT τ] {j : Json τ} (h : j.Canonical) :
    j.Spelled := by
  induction h with
  | null => exact .null
  | bool b => exact .bool b
  | number h => exact .number h
  | string s => exact .string s
  | array _ ih => exact .array ih
  | object _ _ ih => exact .object ih

namespace Source

/-- Each number in the source is a numeral. -/
inductive Spelled : Source → Prop where
  | null : Spelled .null
  | bool (b : Bool) : Spelled (.bool b)
  | number {t : String} (h : Numeral t.toList) : Spelled (.number t)
  | string (body : String) : Spelled (.string body)
  | array (text : String) {items : List Source} (h : ∀ v ∈ items, Spelled v) :
      Spelled (.array text items)
  | object (text : String) {fields : List (String × Source)}
      (h : ∀ f ∈ fields, Spelled f.2) : Spelled (.object text fields)

/-- The values of a spelled record are spelled. -/
theorem Spelled.fields {text : String} {fields : List (String × Source)}
    (h : Spelled (.object text fields)) : ∀ f ∈ fields, Spelled f.2 := by
  cases h with
  | object _ h => exact h

-- ==== reading

/-- The three readers at one bound; they call one another with the next
smaller one, so what they return is shown for all three together. -/
structure ReadsSpelled (rigour : Rigour) (fuel : Nat) : Prop where
  value : ∀ {cs rest s}, readValue? rigour fuel cs = some (s, rest) → Spelled s
  items : ∀ {cs rest vs}, readItems? rigour fuel cs = some (vs, rest) →
    ∀ v ∈ vs, Spelled v
  fields : ∀ {cs rest fs}, readFields? rigour fuel cs = some (fs, rest) →
    ∀ f ∈ fs, Spelled f.2

/-- A value that is read is spelled. -/
theorem ReadsSpelled.value_succ {rigour : Rigour} {fuel : Nat}
    (ih : ReadsSpelled rigour fuel) {cs rest : List Char} {s : Source}
    (h : readValue? rigour (fuel + 1) cs = some (s, rest)) : Spelled s := by
  rw [readValue?] at h
  split at h
  · cases h
    exact .null
  · cases h
    exact .bool true
  · cases h
    exact .bool false
  · obtain ⟨p, -, hp⟩ := Option.map_eq_some_iff.1 h
    cases hp
    exact .string _
  · split at h
    · cases h
      exact .array _ fun v hv => absurd hv List.not_mem_nil
    · obtain ⟨p, hp, heq⟩ := Option.map_eq_some_iff.1 h
      cases heq
      exact .array _ (ih.items hp)
  · split at h
    · cases h
      exact .object _ fun f hf => absurd hf List.not_mem_nil
    · obtain ⟨p, hp, heq⟩ := Option.map_eq_some_iff.1 h
      cases heq
      exact .object _ (ih.fields hp)
  · obtain ⟨p, hp, heq⟩ := Option.map_eq_some_iff.1 h
    cases heq
    exact .number (numeral_of_readNumber? hp)

/-- So are items. -/
theorem ReadsSpelled.items_succ {rigour : Rigour} {fuel : Nat}
    (ih : ReadsSpelled rigour fuel) {cs rest : List Char} {vs : List Source}
    (h : readItems? rigour (fuel + 1) cs = some (vs, rest)) :
    ∀ v ∈ vs, Spelled v := by
  rw [readItems?] at h
  obtain ⟨⟨item, r⟩, hitem, h⟩ := Option.bind_eq_some_iff.1 h
  have hfirst := ih.value hitem
  dsimp only at h
  split at h
  · obtain ⟨⟨more, r'⟩, hmore, h⟩ := Option.bind_eq_some_iff.1 h
    cases h
    intro v hv
    rcases List.mem_cons.1 hv with rfl | hv
    · exact hfirst
    · exact ih.items hmore v hv
  · cases h
    intro v hv
    rw [List.mem_singleton.1 hv]
    exact hfirst
  · cases h

/-- So are fields. -/
theorem ReadsSpelled.fields_succ {rigour : Rigour} {fuel : Nat}
    (ih : ReadsSpelled rigour fuel) {cs rest : List Char}
    {fs : List (String × Source)}
    (h : readFields? rigour (fuel + 1) cs = some (fs, rest)) :
    ∀ f ∈ fs, Spelled f.2 := by
  rw [readFields?] at h
  split at h
  · obtain ⟨⟨name, r⟩, -, h⟩ := Option.bind_eq_some_iff.1 h
    dsimp only at h
    split at h
    · obtain ⟨⟨item, r'⟩, hitem, h⟩ := Option.bind_eq_some_iff.1 h
      have hfirst := ih.value hitem
      dsimp only at h
      split at h
      · obtain ⟨⟨more, r''⟩, hmore, h⟩ := Option.bind_eq_some_iff.1 h
        cases h
        intro f hf
        rcases List.mem_cons.1 hf with rfl | hf
        · exact hfirst
        · exact ih.fields hmore f hf
      · cases h
        intro f hf
        rw [List.mem_singleton.1 hf]
        exact hfirst
      · cases h
    · cases h
  · cases h

/-- The three readers, by induction on the fuel. -/
theorem readsSpelled (rigour : Rigour) (fuel : Nat) :
    ReadsSpelled rigour fuel := by
  induction fuel with
  | zero =>
      constructor
      · intro cs rest s h
        cases h
      · intro cs rest vs h
        cases h
      · intro cs rest fs h
        cases h
  | succ fuel ih => exact ⟨ih.value_succ, ih.items_succ, ih.fields_succ⟩

/-- The first value of a text is spelled. -/
theorem spelled_of_readFirst? {rigour : Rigour} {text : String} {s : Source}
    (h : readFirst? rigour text = some s) : Spelled s := by
  obtain ⟨p, hp, rfl⟩ := Option.map_eq_some_iff.1 h
  exact (readsSpelled rigour _).value hp

/-- So is that of a whole text. -/
theorem spelled_of_read? {rigour : Rigour} {text : String} {s : Source}
    (h : read? rigour text = some s) : Spelled s := by
  unfold read? at h
  dsimp only at h
  split at h
  · next v rest hv =>
    split at h
    · cases h
      exact (readsSpelled rigour _).value hv
    · cases h
  · cases h

-- ==== meaning

/-- The values of a list's items, one by one. -/
theorem exists_of_values? {items : List Source} {js : List Json}
    (h : values? items = some js) {j : Json} (hj : j ∈ js) :
    ∃ v ∈ items, value? v = some j := by
  induction items generalizing js with
  | nil =>
      cases h
      cases hj
  | cons v rest ih =>
      obtain ⟨w, hw, h⟩ := Option.bind_eq_some_iff.1 h
      obtain ⟨ws, hws, h⟩ := Option.bind_eq_some_iff.1 h
      cases h
      rcases List.mem_cons.1 hj with rfl | hj
      · exact ⟨v, List.mem_cons_self, hw⟩
      · obtain ⟨x, hx, hxj⟩ := ih hws hj
        exact ⟨x, List.mem_cons_of_mem _ hx, hxj⟩

/-- The values of an object's fields, one by one. -/
theorem exists_of_members? {fields : List (String × Source)}
    {fs : List (String × Json)} (h : members? fields = some fs)
    {f : String × Json} (hf : f ∈ fs) :
    ∃ g ∈ fields, value? g.2 = some f.2 := by
  induction fields generalizing fs with
  | nil =>
      cases h
      cases hf
  | cons g rest ih =>
      obtain ⟨key, -, h⟩ := Option.bind_eq_some_iff.1 h
      obtain ⟨w, hw, h⟩ := Option.bind_eq_some_iff.1 h
      obtain ⟨ws, hws, h⟩ := Option.bind_eq_some_iff.1 h
      cases h
      rcases List.mem_cons.1 hf with rfl | hf
      · exact ⟨g, List.mem_cons_self, hw⟩
      · obtain ⟨x, hx, hxf⟩ := ih hws hf
        exact ⟨x, List.mem_cons_of_mem _ hx, hxf⟩

/-- A spelled source has a canonical value. -/
theorem Spelled.canonical {s : Source} (hs : Spelled s) {j : Json}
    (h : value? s = some j) : j.Canonical := by
  induction hs generalizing j with
  | null =>
      cases h
      exact .null
  | bool b =>
      cases h
      exact .bool b
  | number ht =>
      cases h
      exact .number ht
  | string body =>
      obtain ⟨t, -, rfl⟩ := Option.map_eq_some_iff.1 h
      exact .string t
  | array text _ ih =>
      obtain ⟨js, hjs, rfl⟩ := Option.map_eq_some_iff.1 h
      refine .array fun v hv => ?_
      obtain ⟨x, hx, hxv⟩ := exists_of_values? hjs hv
      exact ih x hx hxv
  | object text _ ih =>
      obtain ⟨fs, hfs, rfl⟩ := Option.map_eq_some_iff.1 h
      refine .object (Assoc.ascending_ofList fs) fun f hf => ?_
      obtain ⟨g, hg, hgf⟩ :=
        exists_of_members? hfs (Assoc.mem_of_mem_ofList hf)
      exact ih g hg hgf

/-- So do its fields. -/
theorem Spelled.canonical_members {fields : List (String × Source)}
    (hfields : ∀ f ∈ fields, Spelled f.2) {fs : List (String × Json)}
    (h : members? fields = some fs) : ∀ f ∈ fs, f.2.Canonical := by
  intro f hf
  obtain ⟨g, hg, hgf⟩ := exists_of_members? h hf
  exact (hfields g hg).canonical hgf

end Source

end Json

end PromptGraph

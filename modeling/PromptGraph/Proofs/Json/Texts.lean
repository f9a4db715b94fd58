/-
The texts in a JSON value: the strings and the names of the fields, at
any depth. A value with other texts in their place has the same shape
(`map`), and is the same value when each of them is the text it replaces
(`map_eq_self`).
-/
import Mathlib.Data.List.Basic
import PromptGraph.Json.Basic

namespace PromptGraph.Json

variable {τ σ : Type}

/-- What holds of a list or an object whenever it holds of its members,
and of every other value, holds of all values. -/
theorem induction {P : Json τ → Prop} (null : P .null)
    (bool : ∀ b, P (.bool b)) (number : ∀ t, P (.number t))
    (string : ∀ t, P (.string t))
    (array : ∀ vs, (∀ v ∈ vs, P v) → P (.array vs))
    (object : ∀ fs, (∀ f ∈ fs, P f.2) → P (.object fs)) (j : Json τ) : P j := by
  refine @Json.rec τ P (fun vs => ∀ v ∈ vs, P v) (fun fs => ∀ f ∈ fs, P f.2)
    (fun f => P f.2) null bool number string array object ?_ ?_ ?_ ?_ ?_ j
  · exact fun v hv => absurd hv List.not_mem_nil
  · exact fun v vs hv hvs => List.forall_mem_cons.2 ⟨hv, hvs⟩
  · exact fun f hf => absurd hf List.not_mem_nil
  · exact fun f fs hf hfs => List.forall_mem_cons.2 ⟨hf, hfs⟩
  · exact fun _ _ hv => hv

-- ==== mapping

mutual

/-- The value with each text replaced. -/
def map (f : τ → σ) : Json τ → Json σ
  | null => .null
  | bool b => .bool b
  | number t => .number t
  | string t => .string (f t)
  | array vs => .array (mapItems f vs)
  | object fs => .object (mapFields f fs)

def mapItems (f : τ → σ) : List (Json τ) → List (Json σ)
  | [] => []
  | v :: rest => map f v :: mapItems f rest

def mapFields (f : τ → σ) : List (τ × Json τ) → List (σ × Json σ)
  | [] => []
  | (k, v) :: rest => (f k, map f v) :: mapFields f rest

end

theorem mapItems_eq (f : τ → σ) (vs : List (Json τ)) :
    mapItems f vs = vs.map (map f) := by
  induction vs with
  | nil => rfl
  | cons v vs ih => rw [mapItems, ih, List.map_cons]

theorem mapFields_eq (f : τ → σ) (fs : List (τ × Json τ)) :
    mapFields f fs = fs.map (Prod.map f (map f)) := by
  induction fs with
  | nil => rfl
  | cons p fs ih =>
      obtain ⟨k, v⟩ := p
      rw [mapFields, ih, List.map_cons, Prod.map_apply]

/-- A list is changed item by item. -/
theorem map_array (f : τ → σ) (vs : List (Json τ)) :
    (array vs).map f = .array (vs.map (map f)) := by
  rw [map, mapItems_eq]

/-- A record is changed field by field. -/
theorem map_object (f : τ → σ) (fs : List (τ × Json τ)) :
    (object fs).map f = .object (fs.map (Prod.map f (map f))) := by
  rw [map, mapFields_eq]

-- ==== texts

mutual

/-- The texts of a value in the order they stand. -/
def texts : Json τ → List τ
  | null => []
  | bool _ => []
  | number _ => []
  | string t => [t]
  | array vs => itemTexts vs
  | object fs => fieldTexts fs

def itemTexts : List (Json τ) → List τ
  | [] => []
  | v :: rest => texts v ++ itemTexts rest

def fieldTexts : List (τ × Json τ) → List τ
  | [] => []
  | (k, v) :: rest => k :: (texts v ++ fieldTexts rest)

end

theorem itemTexts_eq (vs : List (Json τ)) : itemTexts vs = vs.flatMap texts := by
  induction vs with
  | nil => rfl
  | cons v vs ih => rw [itemTexts, ih, List.flatMap_cons]

theorem fieldTexts_eq (fs : List (τ × Json τ)) :
    fieldTexts fs = fs.flatMap fun f => f.1 :: f.2.texts := by
  induction fs with
  | nil => rfl
  | cons p fs ih =>
      obtain ⟨k, v⟩ := p
      rw [fieldTexts, ih, List.flatMap_cons, List.cons_append]

/-- The texts of a list are those of its items. -/
theorem mem_texts_array {vs : List (Json τ)} {t : τ} :
    t ∈ (array vs).texts ↔ ∃ v ∈ vs, t ∈ v.texts := by
  rw [texts, itemTexts_eq, List.mem_flatMap]

/-- Those of a record are its names and those of its values. -/
theorem mem_texts_object {fs : List (τ × Json τ)} {t : τ} :
    t ∈ (object fs).texts ↔ ∃ f ∈ fs, t = f.1 ∨ t ∈ f.2.texts := by
  rw [texts, fieldTexts_eq, List.mem_flatMap]
  simp only [List.mem_cons]

/-- A change is made to every text. -/
theorem texts_map (f : τ → σ) (j : Json τ) : (j.map f).texts = j.texts.map f := by
  induction j using induction with
  | null => rfl
  | bool b => rfl
  | number t => rfl
  | string t => rfl
  | array vs ih =>
      rw [map_array, texts, itemTexts_eq, texts, itemTexts_eq, List.flatMap_map,
        List.map_flatMap]
      exact List.flatMap_congr ih
  | object fs ih =>
      rw [map_object, texts, fieldTexts_eq, texts, fieldTexts_eq, List.flatMap_map,
        List.map_flatMap]
      exact List.flatMap_congr fun p hp => congrArg (f p.1 :: ·) (ih p hp)

/-- Two changes are one. -/
theorem map_map {ρ : Type} (f : τ → σ) (g : σ → ρ) (j : Json τ) :
    (j.map f).map g = j.map (g ∘ f) := by
  induction j using induction with
  | null => rfl
  | bool b => rfl
  | number t => rfl
  | string t => rfl
  | array vs ih =>
      rw [map_array, map_array, map_array, List.map_map]
      exact congrArg array (List.map_congr_left ih)
  | object fs ih =>
      rw [map_object, map_object, map_object, List.map_map]
      exact congrArg object (List.map_congr_left fun p hp => Prod.ext rfl (ih p hp))

/-- A replacement that keeps each text of a value keeps the value. -/
theorem map_eq_self {f : τ → τ} {j : Json τ} (h : ∀ t ∈ j.texts, f t = t) :
    j.map f = j := by
  induction j using induction with
  | null => rfl
  | bool b => rfl
  | number t => rfl
  | string t => rw [map, h t List.mem_cons_self]
  | array vs ih =>
      have hitems : ∀ v ∈ vs, map f v = v := fun v hv =>
        ih v hv fun t ht => h t (mem_texts_array.2 ⟨v, hv, ht⟩)
      rw [map_array, List.map_congr_left hitems, List.map_id']
  | object fs ih =>
      have hfields : ∀ p ∈ fs, Prod.map f (map f) p = p := fun p hp =>
        Prod.ext (h p.1 (mem_texts_object.2 ⟨p, hp, .inl rfl⟩))
          (ih p hp fun t ht => h t (mem_texts_object.2 ⟨p, hp, .inr ht⟩))
      rw [map_object, List.map_congr_left hfields, List.map_id']

end PromptGraph.Json

/-
Reasoning about decodings. `Ensures` is what holds of the value whenever
a decoding gets through, `Yields` that it gets through with a value and
passes nothing over. Both go through the combinators by one rule each,
so a reader is followed field by field and its state is never opened
again.

`Amounts` is what a decoding comes to, a value or nothing, whatever it
fails for. It goes through the combinators as well, since nothing that was
passed over is ever forgotten, so that different ways to read the same can
be compared.
-/
import Mathlib.Data.List.Forall2
import PromptGraph.Json.Decode

namespace PromptGraph.Json.Decode

variable {ε α β ρ : Type}

-- ==== ensures

/-- What holds of the value whenever the decoding gets through. -/
def Ensures (x : Decode ε α) (P : α → Prop) : Prop :=
  ∀ b b' a, StateT.run x b = .ok (a, b') → P a

namespace Ensures

variable {P : α → Prop} {Q : β → Prop} {x : Decode ε α}

/-- What holds of every value is ensured. -/
theorem of_forall (h : ∀ a, P a) : Ensures x P :=
  fun _ _ a _ => h a

theorem pure {a : α} (h : P a) : Ensures (pure a : Decode ε α) P := by
  intro b b' c hc
  cases hc
  exact h

/-- What one step ensures the next may use. -/
theorem bind {f : α → Decode ε β} (hx : Ensures x P)
    (hf : ∀ a, P a → Ensures (f a) Q) : Ensures (x >>= f) Q := by
  intro b b' c hc
  rw [StateT.run_bind] at hc
  cases hxb : StateT.run x b with
  | error e =>
      rw [hxb] at hc
      cases hc
  | ok p =>
      rw [hxb] at hc
      exact hf p.1 (hx _ _ _ hxb) _ _ _ hc

theorem map {f : α → β} (hx : Ensures x P) (hf : ∀ a, P a → Q (f a)) :
    Ensures (f <$> x) Q := by
  rw [← bind_pure_comp]
  exact hx.bind fun a ha => .pure (hf a ha)

theorem throw (e : Fault ε) : Ensures (throw e : Decode ε α) P := by
  intro b b' c hc
  cases hc

theorem skip {old : α} (h : P old) : Ensures (skip old : Decode ε α) P := by
  intro b b' c hc
  cases hc
  exact h

/-- What is there is ensured. -/
theorem ofOption {o : Option α} (h : ∀ a, o = some a → P a) :
    Ensures (ofOption o : Decode ε α) P := by
  cases o with
  | none => exact throw _
  | some a => exact pure (h a rfl)

/-- What is ensured holds of the result. -/
theorem run (hx : Ensures x P) {a : α} (h : x.run = .ok a) : P a := by
  unfold Decode.run at h
  split at h
  · next hxb =>
    cases h
    exact hx _ _ _ hxb
  · cases h
  · cases h

/-- Sealing a decoding keeps what it ensures. -/
theorem sealed (hx : Ensures x P) : Ensures x.sealed P := by
  unfold Decode.sealed
  split
  · next hrun => exact pure (hx.run hrun)
  · exact throw _

/-- An invariant of a record, kept by each of its fields. `S` is what is
known of the sources of the fields. -/
theorem fields {rigour : Rigour} {names : List String}
    {put : ρ → String → Source → Decode ε ρ} {I : ρ → Prop} {S : Source → Prop}
    (hput : ∀ r name v, I r → S v → Ensures (put r name v) I)
    {fs : List (String × Source)} (hfs : ∀ f ∈ fs, S f.2) {r : ρ} (hr : I r) :
    Ensures (fields rigour names put r fs) I := by
  induction fs generalizing r with
  | nil => exact pure hr
  | cons f rest ih =>
      have hrest : ∀ f ∈ rest, S f.2 := fun g hg =>
        hfs g (List.mem_cons_of_mem _ hg)
      unfold Decode.fields
      refine bind (of_forall fun _ => trivial) fun key _ => ?_
      split
      · next n _ =>
        exact (hput r n f.2 hr (hfs f List.mem_cons_self)).bind
          fun r' hr' => ih hrest hr'
      · exact ih hrest hr

/-- An invariant of every field holds of a record. -/
theorem record {rigour : Rigour} {names : List String}
    {put : ρ → String → Source → Decode ε ρ} {I : ρ → Prop} {S : Source → Prop}
    (hput : ∀ r name v, I r → S v → Ensures (put r name v) I) {v : Source}
    (hv : ∀ text fs, v = .object text fs → ∀ f ∈ fs, S f.2) {old : ρ}
    (hold : I old) : Ensures (record rigour names put old v) I := by
  cases v with
  | null => exact pure hold
  | object text fs => exact fields hput (hv text fs rfl) hold
  | bool b => exact skip hold
  | number t => exact skip hold
  | string t => exact skip hold
  | array text vs => exact skip hold

/-- What holds of the zero and is kept by the reading of an item holds
of every item of a list. -/
theorem items {zero : α} {item : α → Source → Decode ε α} (hzero : P zero)
    (hitem : ∀ a v, P a → Ensures (item a v) P) {vs : List Source}
    {old : List α} (hold : ∀ a ∈ old, P a) :
    Ensures (items zero item old vs) fun l => ∀ a ∈ l, P a := by
  induction vs generalizing old with
  | nil => exact pure fun a ha => absurd ha List.not_mem_nil
  | cons v rest ih =>
      have hhead : P (old.headD zero) := by
        cases old with
        | nil => exact hzero
        | cons a old => exact hold a List.mem_cons_self
      have htail : ∀ a ∈ old.tail, P a := fun a ha =>
        hold a (List.mem_of_mem_tail ha)
      unfold Decode.items
      refine (hitem _ v hhead).bind fun a ha => ?_
      refine (ih htail).bind fun l hl => pure fun x hx => ?_
      rcases List.mem_cons.1 hx with rfl | hx
      · exact ha
      · exact hl x hx

/-- What every item ensures holds of a list. -/
theorem list {zero : α} {item : α → Source → Decode ε α} (hzero : P zero)
    (hitem : ∀ a v, P a → Ensures (item a v) P) {old : Option (List α)}
    (hold : ∀ a ∈ old.getD [], P a) (v : Source) :
    Ensures (list zero item old v) fun l => ∀ a ∈ l.getD [], P a := by
  cases v with
  | null => exact pure fun a ha => absurd ha List.not_mem_nil
  | array text vs => exact (items hzero hitem hold).map fun l hl => hl
  | bool b => exact skip hold
  | number t => exact skip hold
  | string t => exact skip hold
  | object text fs => exact skip hold

end Ensures

/-- Fields are read one after another. -/
theorem fields_append (rigour : Rigour) (names : List String)
    (put : ρ → String → Source → Decode ε ρ) (fs gs : List (String × Source))
    (r : ρ) :
    fields rigour names put r (fs ++ gs)
      = fields rigour names put r fs >>= fun r => fields rigour names put r gs := by
  induction fs generalizing r with
  | nil =>
      rw [List.nil_append, fields, pure_bind]
  | cons f fs ih =>
      obtain ⟨name, v⟩ := f
      rw [List.cons_append, fields, fields, bind_assoc]
      refine congrArg _ (funext fun key => ?_)
      split
      · rw [bind_assoc]
        exact congrArg _ (funext fun r => ih r)
      · exact ih r

-- ==== yields

/-- The decoding gets through with this value and passes nothing over. -/
def Yields (x : Decode ε α) (a : α) : Prop :=
  ∀ b, StateT.run x b = .ok (a, b)

namespace Yields

theorem pure (a : α) : Yields (pure a : Decode ε α) a := fun _ => rfl

variable {x : Decode ε α} {a : α}

/-- Two steps yield what the second does. -/
theorem bind {f : α → Decode ε β} {c : β} (hx : Yields x a)
    (hf : Yields (f a) c) : Yields (x >>= f) c := by
  intro b
  rw [StateT.run_bind, hx b]
  exact hf b

theorem map (hx : Yields x a) (f : α → β) :
    Yields (f <$> x) (f a) := by
  rw [← bind_pure_comp]
  exact hx.bind (.pure _)

/-- What is there is yielded. -/
theorem ofOption {o : Option α} (h : o = some a) :
    Yields (ofOption o : Decode ε α) a := by
  rw [h]
  exact pure a

/-- What is yielded is the result. -/
theorem run (h : Yields x a) : x.run = .ok a := by
  unfold Decode.run
  rw [h false]

/-- Sealing a decoding keeps what it yields. -/
theorem sealed (h : Yields x a) :
    Yields x.sealed a := by
  unfold Decode.sealed
  rw [h.run]
  exact pure a

/-- A field with a name of the record is put into it. -/
theorem fields_cons {rigour : Rigour} {names : List String}
    {put : ρ → String → Source → Decode ε ρ} {name key n : String} {v : Source}
    {fs : List (String × Source)} {r r' r'' : ρ}
    (hkey : Source.unescape? name = some key)
    (hfield : fieldFor? rigour names key = some n) (hput : Yields (put r n v) r')
    (hrest : Yields (fields rigour names put r' fs) r'') :
    Yields (fields rigour names put r ((name, v) :: fs)) r'' := by
  unfold Decode.fields
  refine (ofOption hkey).bind ?_
  rw [hfield]
  exact hput.bind hrest

/-- A field with another name is left out. -/
theorem fields_cons_other {rigour : Rigour} {names : List String}
    {put : ρ → String → Source → Decode ε ρ} {name key : String} {v : Source}
    {fs : List (String × Source)} {r r' : ρ}
    (hkey : Source.unescape? name = some key)
    (hfield : fieldFor? rigour names key = none)
    (hrest : Yields (fields rigour names put r fs) r') :
    Yields (fields rigour names put r ((name, v) :: fs)) r' := by
  unfold Decode.fields
  refine (ofOption hkey).bind ?_
  rw [hfield]
  exact hrest

end Yields

-- ==== amounts

/-- In the end there is nothing but `o`: its value, if it has one, is what
the decoding gets through with, passing nothing over. What was passed over
before is not forgotten either. -/
structure Amounts (x : Decode ε α) (o : Option α) : Prop where
  through : ∀ a, StateT.run x false = .ok (a, false) ↔ o = some a
  keeps : ∀ a b, StateT.run x true = .ok (a, b) → b = true

namespace Amounts

theorem pure (a : α) : Amounts (pure a : Decode ε α) (some a) where
  through c := by
    refine ⟨fun h => ?_, fun h => ?_⟩
    · cases h
      rfl
    · cases h
      rfl
  keeps c b h := by
    cases h
    rfl

/-- A failure amounts to nothing. -/
theorem throw (e : Fault ε) : Amounts (throw e : Decode ε α) none where
  through c := ⟨fun h => (by cases h), fun h => (by cases h)⟩
  keeps c b h := by cases h

/-- So does a value that is skipped. -/
theorem skip (old : α) : Amounts (skip old : Decode ε α) none where
  through c := ⟨fun h => (by cases h), fun h => (by cases h)⟩
  keeps c b h := by
    cases h
    rfl

variable {x : Decode ε α} {o : Option α}

/-- Two steps amount to what both do. -/
theorem bind {f : α → Decode ε β} {p : α → Option β} (hx : Amounts x o)
    (hf : ∀ a, Amounts (f a) (p a)) :
    Amounts (x >>= f) (o.bind p) where
  through c := by
    rw [StateT.run_bind, Option.bind_eq_some_iff]
    constructor
    · intro h
      cases hrun : StateT.run x false with
      | error e =>
          rw [hrun] at h
          cases h
      | ok r =>
          obtain ⟨a, b⟩ := r
          rw [hrun] at h
          cases b with
          | false => exact ⟨a, (hx.through a).1 hrun, ((hf a).through c).1 h⟩
          | true => cases (hf a).keeps c false h
    · intro h
      obtain ⟨a, ha, hc⟩ := h
      rw [(hx.through a).2 ha]
      exact ((hf a).through c).2 hc
  keeps c b h := by
    rw [StateT.run_bind] at h
    cases hrun : StateT.run x true with
    | error e =>
        rw [hrun] at h
        cases h
    | ok r =>
        obtain ⟨a, b'⟩ := r
        rw [hrun, hx.keeps a b' hrun] at h
        exact (hf a).keeps c b h

/-- What is made of the value. -/
theorem into (hx : Amounts x o) (g : α → β) :
    Amounts (x >>= fun a => Pure.pure (g a)) (o.map g) := by
  rw [Option.map_eq_bind]
  exact hx.bind fun a => pure (g a)

/-- A record is filled with one field after another, if all of them are
its own. -/
theorem fields {rigour : Rigour} {names : List String}
    {put : ρ → String → Source → Decode ε ρ} {fill : ρ → String × Source → Option ρ}
    {fs : List (String × Source)}
    (hkey : ∀ f ∈ fs, f.1 ∈ names ∧ Source.unescape? f.1 = some f.1)
    (hput : ∀ r, ∀ f ∈ fs, Amounts (put r f.1 f.2) (fill r f)) (r : ρ) :
    Amounts (fields rigour names put r fs) (fs.foldlM fill r) := by
  induction fs generalizing r with
  | nil => exact pure r
  | cons f fs ih =>
      obtain ⟨hname, hplain⟩ := hkey f List.mem_cons_self
      have hfield : fieldFor? rigour names f.1 = some f.1 :=
        if_pos (List.contains_iff_mem.2 hname)
      have hstep : Decode.fields rigour names put r (f :: fs)
          = put r f.1 f.2 >>= fun r => Decode.fields rigour names put r fs := by
        rw [Decode.fields, hplain, Decode.ofOption, pure_bind, hfield]
      rw [hstep, List.foldlM_cons]
      refine (hput r f List.mem_cons_self).bind fun r' => ih ?_ ?_ r'
      · exact fun g hg => hkey g (List.mem_cons_of_mem _ hg)
      · exact fun r g hg => hput r g (List.mem_cons_of_mem _ hg)

/-- The result is what the decoding amounts to. -/
theorem toOption_run (h : Amounts x o) :
    x.run.toOption = o := by
  refine Option.ext fun a => ?_
  rw [← h.through a]
  unfold Decode.run
  rcases StateT.run x false with e | ⟨c, _ | _⟩
  · simp [Except.toOption]
  · simp [Except.toOption]
  · simp [Except.toOption]

end Amounts

end PromptGraph.Json.Decode

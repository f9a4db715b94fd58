/-
Many conversions tell one tracer what happens to them, and their signals
come in any order. The spans of a conversion do not show it: they are
what they would be if the tracer heard of nothing else.

Two tracers are run side by side, one that hears everything and one that
hears only the signals of one conversion. `Alongside` says what they
have in common as far as that conversion goes. A signal of another
conversion keeps it (`Alongside.foreign`), since both tables are written
under that conversion's name; a signal of its own keeps it and ends the
same spans on both sides (`Alongside.own`). Only the numbers that tell
spans apart differ, as others are counted in between. They are paired one
to one, and so a parent is the same span, not just one of the same name.

Main statement: `conversions_do_not_mix`.
-/
import Mathlib.Data.List.Forall2
import PromptGraph.Proofs.Assoc
import PromptGraph.Telemetry.Tracing

namespace PromptGraph.Telemetry

-- ==== runs

/-- Takes signals one after the other, and tells all spans that are over
with them. -/
def Tracer.run (t : Tracer) : List Signal → Tracer × List EndedSpan
  | [] => (t, [])
  | s :: rest =>
    let (t, ended) := t.handle s
    let (t, later) := t.run rest
    (t, ended ++ later)

/-- A run is its first signal and the rest. -/
theorem Tracer.run_cons (t : Tracer) (s : Signal) (rest : List Signal) :
    t.run (s :: rest)
      = (((t.handle s).1.run rest).1,
        (t.handle s).2 ++ ((t.handle s).1.run rest).2) := rfl

/-- A run goes on from where it was. -/
theorem Tracer.run_append (t : Tracer) (before after : List Signal) :
    (t.run (before ++ after)).1 = ((t.run before).1.run after).1 := by
  induction before generalizing t with
  | nil => rfl
  | cons s before ih =>
      rw [List.cons_append, run_cons, run_cons]
      exact ih _

-- ==== whose a span is

/-- The conversion that a span is about, as its attributes tell. -/
def Span.conversion? (s : Span) : Option String :=
  match s.attributes.get? "promptc.convert_id" with
  | some (.text c) => some c
  | _ => none

/-- The spans that are about a conversion. -/
def spansAbout (c : String) (ended : List EndedSpan) : List EndedSpan :=
  ended.filter fun e => e.span.conversion? = some c

/-- The root span names its conversion. -/
theorem conversion?_rootSpan (number : Nat) (s : Signal) :
    (Tracer.rootSpan number s).conversion? = some s.conversion := by
  simp [Span.conversion?, Tracer.rootSpan, Assoc.ofList, Assoc.get?_insert]

/-- So does the span of an instance. -/
theorem conversion?_instanceSpan (number : Nat)
    (above : Option SpanContext) (s : Signal) :
    (Tracer.instanceSpan number above s).span.conversion?
      = some s.conversion := by
  simp [Span.conversion?, Tracer.instanceSpan, Assoc.ofList,
    Assoc.get?_insert]

/-- A mark leaves the conversion. -/
theorem conversion?_mark (span : Span) (m : Mark) :
    (span.mark m).conversion? = span.conversion? := by
  simp only [Span.conversion?, Span.mark]

/-- What a conversion's end adds to its span leaves its id alone. -/
theorem conversion?_finishedSpan (span : Span) (s : Signal) :
    (Tracer.finishedSpan span s).span.conversion? = span.conversion? := by
  simp [Span.conversion?, Tracer.finishedSpan, Span.describe,
    Tracer.outcome, Assoc.merge, Assoc.get?_insert]

/-- Every span under way is about the conversion that it is kept for. -/
def Tracer.Labelled (t : Tracer) : Prop :=
  ∀ c span, t.span? c = some span → span.conversion? = some c

variable {t : Tracer} {c : String}

/-- A span under its own conversion keeps the labels. -/
theorem Tracer.Labelled.insert (h : t.Labelled) {span : Span}
    (hspan : span.conversion? = some c) (contexts : Assoc SpanContext)
    (started : Nat) :
    Labelled ⟨t.spans.insert c span, contexts, started⟩ := by
  intro c' span' hget
  have hget : Assoc.get? (t.spans.insert c span) c' = some span' := hget
  rw [Assoc.get?_insert] at hget
  split at hget
  · next hc =>
    cases hget
    rw [← hc]
    exact hspan
  · exact h c' span' hget

/-- So does any signal. -/
theorem Tracer.Labelled.handle (h : t.Labelled) (s : Signal) :
    (t.handle s).1.Labelled := by
  unfold Tracer.handle
  split
  · exact h.insert (conversion?_rootSpan _ _) _ _
  · exact h
  · split
    · next span hspan =>
      refine h.insert ?_ _ _
      rw [conversion?_mark]
      exact h _ span hspan
    · exact h
  · split
    · intro c' span' hget
      have hget : Assoc.get? (t.spans.erase s.conversion) c' = some span' :=
        hget
      rw [Assoc.get?_erase] at hget
      split at hget
      · cases hget
      · exact h c' span' hget
    · exact h
  · exact h

variable {s : Signal}

/-- A signal ends spans of its own conversion only. -/
theorem Tracer.Labelled.ended (h : t.Labelled) {e : EndedSpan}
    (he : e ∈ (t.handle s).2) :
    e.span.conversion? = some s.conversion := by
  unfold Tracer.handle at he
  split at he
  · cases he
  · rw [List.mem_singleton.1 he]
    exact conversion?_instanceSpan _ _ _
  · split at he
    · cases he
    · cases he
  · split at he
    · next span hspan =>
      rw [List.mem_singleton.1 he, conversion?_finishedSpan]
      exact h _ span hspan
    · cases he
  · cases he

/-- What a signal ends is about its conversion. -/
theorem Tracer.Labelled.spansAbout_own (h : t.Labelled) (s : Signal) :
    spansAbout s.conversion (t.handle s).2 = (t.handle s).2 := by
  apply List.filter_eq_self.2
  intro e he
  rw [h.ended he]
  exact decide_eq_true rfl

/-- It ends nothing of another. -/
theorem Tracer.Labelled.spansAbout_foreign (h : t.Labelled)
    (hc : s.conversion ≠ c) :
    spansAbout c (t.handle s).2 = [] := by
  apply List.filter_eq_nil_iff.2
  intro e he
  rw [h.ended he]
  simpa using hc

variable {signals : List Signal}

/-- Whatever a run ends is about the conversion of one of its signals. -/
theorem Tracer.Labelled.run_ended (h : t.Labelled) {e : EndedSpan}
    (he : e ∈ (t.run signals).2) :
    ∃ s ∈ signals, e.span.conversion? = some s.conversion := by
  induction signals generalizing t with
  | nil => cases he
  | cons s signals ih =>
      rw [run_cons] at he
      rcases List.mem_append.1 he with he | he
      · exact ⟨s, List.mem_cons_self, h.ended he⟩
      · obtain ⟨r, hr, heq⟩ := ih (h.handle s) he
        exact ⟨r, List.mem_cons_of_mem s hr, heq⟩

-- ==== same but for numbers

/-- Each number is paired with one number, on both sides. -/
def OneToOne (ρ : List (Nat × Nat)) : Prop :=
  (ρ.map Prod.fst).Nodup ∧ (ρ.map Prod.snd).Nodup

/-- The same span is meant, up to paired numbers. -/
structure SpanContext.Same (ρ : List (Nat × Nat)) (x y : SpanContext) :
    Prop where
  number : (x.number, y.number) ∈ ρ
  name : y.name = x.name

/-- The same span, up to paired numbers: its own and that of the span
above. -/
structure Span.Same (ρ : List (Nat × Nat)) (x y : Span) : Prop where
  number : (x.number, y.number) ∈ ρ
  above : Option.Rel (SpanContext.Same ρ) x.above y.above
  name : y.name = x.name
  start : y.start = x.start
  attributes : y.attributes = x.attributes
  marks : y.marks = x.marks
  status : y.status = x.status

structure EndedSpan.Same (ρ : List (Nat × Nat)) (x y : EndedSpan) :
    Prop where
  span : x.span.Same ρ y.span
  stop : y.stop = x.stop

section
variable {ρ ρ' : List (Nat × Nat)} (hρ : ρ ⊆ ρ')
include hρ

theorem SpanContext.Same.mono {x y : SpanContext} (h : x.Same ρ y) :
    x.Same ρ' y := ⟨hρ h.number, h.name⟩

theorem sameContext?_mono {x y : Option SpanContext}
    (h : Option.Rel (SpanContext.Same ρ) x y) :
    Option.Rel (SpanContext.Same ρ') x y := by
  cases h with
  | none => exact .none
  | some h => exact .some (h.mono hρ)

/-- Spans stay the same under more numbers. -/
theorem Span.Same.mono {x y : Span} (h : x.Same ρ y) : x.Same ρ' y :=
  { h with number := hρ h.number, above := sameContext?_mono hρ h.above }

theorem sameSpan?_mono {x y : Option Span}
    (h : Option.Rel (Span.Same ρ) x y) : Option.Rel (Span.Same ρ') x y := by
  cases h with
  | none => exact .none
  | some h => exact .some (h.mono hρ)

/-- Ended spans stay the same as well. -/
theorem EndedSpan.Same.mono {x y : EndedSpan} (h : x.Same ρ y) :
    x.Same ρ' y := ⟨h.span.mono hρ, h.stop⟩

end

section
variable {ρ : List (Nat × Nat)} {x y : Span} (h : x.Same ρ y)
include h

theorem Span.Same.context : x.context.Same ρ y.context :=
  ⟨h.number, h.name⟩

/-- A mark keeps spans the same. -/
theorem Span.Same.mark (m : Mark) : (x.mark m).Same ρ (y.mark m) := by
  obtain ⟨number, above, name, start, attributes, marks, status⟩ := h
  unfold Span.mark
  rw [marks]
  exact ⟨number, above, name, start, attributes, rfl, status⟩

/-- So does the end. -/
theorem Span.Same.finished (s : Signal) :
    (Tracer.finishedSpan x s).Same ρ (Tracer.finishedSpan y s) where
  span := { h with
    attributes := by
      simp only [Tracer.finishedSpan, Span.describe, h.attributes]
    status := rfl }
  stop := rfl

end

-- ==== side by side

/-- What a tracer that hears of one conversion only, `u`, and a tracer
that hears of others too, `t`, have of that conversion. -/
structure Alongside (c : String) (ρ : List (Nat × Nat)) (u t : Tracer) :
    Prop where
  span : Option.Rel (Span.Same ρ) (u.span? c) (t.span? c)
  context : Option.Rel (SpanContext.Same ρ) (u.context? c) (t.context? c)
  oneToOne : OneToOne ρ
  alone : ∀ x ∈ ρ, x.1 < u.started
  together : ∀ x ∈ ρ, x.2 < t.started

/-- The numbers of the next spans on both sides are not paired yet. -/
theorem Alongside.oneToOne_next {ρ : List (Nat × Nat)} {u t : Tracer}
    (h : Alongside c ρ u t) :
    OneToOne ((u.started, t.started) :: ρ) := by
  constructor
  · refine List.nodup_cons.2 ⟨fun hmem => ?_, h.oneToOne.1⟩
    obtain ⟨x, hx, heq⟩ := List.mem_map.1 hmem
    have := h.alone x hx
    omega
  · refine List.nodup_cons.2 ⟨fun hmem => ?_, h.oneToOne.2⟩
    obtain ⟨x, hx, heq⟩ := List.mem_map.1 hmem
    have := h.together x hx
    omega

/-- Both sides start a span. -/
theorem Alongside.next {ρ : List (Nat × Nat)} {u t u' t' : Tracer}
    (h : Alongside c ρ u t) (hu : u'.started = u.started + 1)
    (ht : t'.started = t.started + 1)
    (span : Option.Rel (Span.Same ((u.started, t.started) :: ρ))
      (u'.span? c) (t'.span? c))
    (context : Option.Rel (SpanContext.Same ((u.started, t.started) :: ρ))
      (u'.context? c) (t'.context? c)) :
    Alongside c ((u.started, t.started) :: ρ) u' t' := by
  refine ⟨span, context, h.oneToOne_next, fun x hx => ?_, fun x hx => ?_⟩
  · rcases List.mem_cons.1 hx with rfl | hx
    · simp [hu]
    · have := h.alone x hx
      omega
  · rcases List.mem_cons.1 hx with rfl | hx
    · simp [ht]
    · have := h.together x hx
      omega

/-- A signal of another conversion changes nothing for this one. -/
theorem Alongside.foreign {ρ : List (Nat × Nat)} {u t : Tracer}
    (h : Alongside c ρ u t) (hs : s.conversion ≠ c) :
    Alongside c ρ u (t.handle s).1 := by
  have hspan : (t.handle s).1.span? c = t.span? c := by
    unfold Tracer.handle
    split
    · exact Assoc.get?_insert_of_ne _ _ hs
    · rfl
    · split
      · exact Assoc.get?_insert_of_ne _ _ hs
      · rfl
    · split
      · exact (Assoc.get?_erase _ _ _).trans (if_neg hs)
      · rfl
    · rfl
  have hcontext : (t.handle s).1.context? c = t.context? c := by
    unfold Tracer.handle
    split
    · exact Assoc.get?_insert_of_ne _ _ hs
    · rfl
    · split
      · rfl
      · rfl
    · split
      · exact (Assoc.get?_erase _ _ _).trans (if_neg hs)
      · rfl
    · rfl
  have hstarted : t.started ≤ (t.handle s).1.started := by
    unfold Tracer.handle
    split
    · exact Nat.le_succ _
    · exact Nat.le_succ _
    · split
      · exact Nat.le_refl _
      · exact Nat.le_refl _
    · split
      · exact Nat.le_refl _
      · exact Nat.le_refl _
    · exact Nat.le_refl _
  refine ⟨?_, ?_, h.oneToOne, h.alone, fun x hx => ?_⟩
  · rw [hspan]
    exact h.span
  · rw [hcontext]
    exact h.context
  · have := h.together x hx
    omega

/-- A signal of this conversion does the same on both sides. -/
theorem Alongside.own {ρ : List (Nat × Nat)} {u t : Tracer}
    (h : Alongside c ρ u t) (hs : s.conversion = c) :
    ∃ ρ', ρ ⊆ ρ' ∧ Alongside c ρ' (u.handle s).1 (t.handle s).1
      ∧ List.Forall₂ (EndedSpan.Same ρ') (u.handle s).2 (t.handle s).2 := by
  subst hs
  have hnext : ρ ⊆ (u.started, t.started) :: ρ := List.subset_cons_self _ _
  have hspan := h.span
  cases hkind : s.kind with
  | started =>
      have hroot : (Tracer.rootSpan u.started s).Same
          ((u.started, t.started) :: ρ) (Tracer.rootSpan t.started s) :=
        ⟨List.mem_cons_self, .none, rfl, rfl, rfl, rfl, rfl⟩
      simp only [Tracer.handle, hkind]
      refine ⟨_, hnext, h.next rfl rfl ?_ ?_, .nil⟩
      · unfold Tracer.span?
        rw [Assoc.get?_insert_self, Assoc.get?_insert_self]
        exact .some hroot
      · unfold Tracer.context?
        rw [Assoc.get?_insert_self, Assoc.get?_insert_self]
        exact .some hroot.context
  | expanded =>
      have habove := sameContext?_mono hnext h.context
      simp only [Tracer.handle, hkind]
      refine ⟨_, hnext, h.next rfl rfl (sameSpan?_mono hnext hspan) habove,
        .cons ?_ .nil⟩
      exact ⟨⟨List.mem_cons_self, habove, rfl, rfl, rfl, rfl, rfl⟩, rfl⟩
  | dropped =>
      simp only [Tracer.handle, hkind]
      generalize u.span? s.conversion = x, t.span? s.conversion = y
        at hspan
      cases hspan with
      | none => exact ⟨ρ, List.Subset.refl ρ, h, .nil⟩
      | some hsame =>
          refine ⟨ρ, List.Subset.refl ρ, ⟨?_, h.context, h.oneToOne,
            h.alone, h.together⟩, .nil⟩
          unfold Tracer.span?
          rw [Assoc.get?_insert_self, Assoc.get?_insert_self]
          exact .some (hsame.mark _)
  | finished =>
      simp only [Tracer.handle, hkind]
      generalize u.span? s.conversion = x, t.span? s.conversion = y
        at hspan
      cases hspan with
      | none => exact ⟨ρ, List.Subset.refl ρ, h, .nil⟩
      | some hsame =>
          refine ⟨ρ, List.Subset.refl ρ, ⟨?_, ?_, h.oneToOne, h.alone,
            h.together⟩, .cons (hsame.finished s) .nil⟩
          · unfold Tracer.span?
            simp [Assoc.get?_erase]
          · unfold Tracer.context?
            simp [Assoc.get?_erase]
  | other =>
      simp only [Tracer.handle, hkind]
      exact ⟨ρ, List.Subset.refl ρ, h, .nil⟩

/-- A whole run, and the run of one conversion's signals out of it. -/
theorem Alongside.run {ρ : List (Nat × Nat)} {u t : Tracer}
    (h : Alongside c ρ u t) (ht : t.Labelled) (signals : List Signal) :
    let own := signals.filter fun s => s.conversion = c
    ∃ ρ', ρ ⊆ ρ' ∧ Alongside c ρ' (u.run own).1 (t.run signals).1
      ∧ List.Forall₂ (EndedSpan.Same ρ') (u.run own).2
          (spansAbout c (t.run signals).2) := by
  induction signals generalizing ρ u t with
  | nil => exact ⟨ρ, List.Subset.refl ρ, h, .nil⟩
  | cons s signals ih =>
      dsimp only at ih ⊢
      have habout : spansAbout c (t.run (s :: signals)).2
          = spansAbout c (t.handle s).2
            ++ spansAbout c ((t.handle s).1.run signals).2 :=
        List.filter_append _ _
      rw [habout]
      by_cases hs : s.conversion = c
      · rw [List.filter_cons_of_pos (by simpa using hs)]
        obtain ⟨ρ₁, hρ₁, hstep, hended⟩ := h.own hs
        obtain ⟨ρ₂, hρ₂, hrun, hlater⟩ := ih hstep (ht.handle s)
        rw [← hs, ht.spansAbout_own s, hs, Tracer.run_cons, Tracer.run_cons]
        refine ⟨ρ₂, List.Subset.trans hρ₁ hρ₂, hrun,
          List.rel_append ?_ hlater⟩
        exact hended.imp fun _ _ hsame => hsame.mono hρ₂
      · rw [List.filter_cons_of_neg (by simpa using hs),
          ht.spansAbout_foreign hs, Tracer.run_cons]
        exact ih (h.foreign hs) (ht.handle s)

-- ==== nothing left under way

/-- The two tables are about the same conversions. -/
def Tracer.InStep (t : Tracer) : Prop :=
  ∀ c, t.span? c = none → t.context? c = none

/-- A signal keeps the tables in step. -/
theorem Tracer.InStep.handle (h : t.InStep) (s : Signal) :
    (t.handle s).1.InStep := by
  intro c
  unfold Tracer.handle
  split
  · intro hspan
    simp only [span?, Assoc.get?_insert] at hspan
    split at hspan
    · cases hspan
    · next hc => exact (Assoc.get?_insert_of_ne _ _ hc).trans (h c hspan)
  · exact h c
  · split
    · intro hspan
      simp only [span?, Assoc.get?_insert] at hspan
      split at hspan
      · cases hspan
      · exact h c hspan
    · exact h c
  · split
    · intro hspan
      simp only [span?, context?, Assoc.get?_erase] at hspan ⊢
      split at hspan
      · next hc => exact if_pos hc
      · next hc => exact (if_neg hc).trans (h c hspan)
    · exact h c
  · exact h c

/-- So does a run. -/
theorem Tracer.InStep.run (h : t.InStep) (signals : List Signal) :
    (t.run signals).1.InStep := by
  induction signals generalizing t with
  | nil => exact h
  | cons s signals ih => exact ih (h.handle s)

/-- After its end a conversion is not under way, whether it was or not. -/
theorem Tracer.span?_finished (t : Tracer) (h : s.kind = .finished) :
    (t.handle s).1.span? s.conversion = none := by
  simp only [Tracer.handle, h]
  split
  · exact (Assoc.get?_erase _ _ _).trans (if_pos rfl)
  · next hspan => exact hspan

/-- The last signal is that of a conversion's end. -/
def Complete (signals : List Signal) : Prop :=
  ∃ before last, signals = before ++ [last] ∧ last.kind = .finished

/-- A complete stream leaves no span open. -/
theorem Complete.over (h : Complete signals)
    (hown : ∀ s ∈ signals, s.conversion = c) (t : Tracer) :
    (t.run signals).1.span? c = none := by
  obtain ⟨before, last, rfl, hlast⟩ := h
  rw [Tracer.run_append, ← hown last (by simp)]
  exact Tracer.span?_finished _ hlast

-- ==== interleavings

/-- The signals of several conversions in one order: each signal is the
next one of some conversion, until none has any left. -/
inductive Interleaving : List (String × List Signal) → List Signal → Prop
  | nil {streams : List (String × List Signal)}
      (done : ∀ x ∈ streams, x.2 = []) : Interleaving streams []
  | cons {before after : List (String × List Signal)} {c : String}
      {s : Signal} {own rest : List Signal}
      (later : Interleaving (before ++ (c, own) :: after) rest) :
      Interleaving (before ++ (c, s :: own) :: after) (s :: rest)

/-- Every signal of a stream is about its conversion. -/
def Separate (streams : List (String × List Signal)) : Prop :=
  (streams.map Prod.fst).Nodup
    ∧ ∀ x ∈ streams, ∀ s ∈ x.2, s.conversion = x.1

variable {streams : List (String × List Signal)}

/-- What an interleaving holds of a conversion is its stream. -/
theorem Interleaving.filter_eq (h : Interleaving streams signals)
    (hs : Separate streams) {x : String × List Signal} (hx : x ∈ streams) :
    signals.filter (fun s => s.conversion = x.1) = x.2 := by
  induction h generalizing x with
  | nil done => exact (done x hx).symm
  | @cons before after c s own rest later ih =>
      obtain ⟨hids, hown⟩ := hs
      have hc : s.conversion = c :=
        hown (c, s :: own) (by simp) s List.mem_cons_self
      have hrest : Separate (before ++ (c, own) :: after) := by
        refine ⟨by simpa using hids, fun y hy r hr => ?_⟩
        rcases List.mem_append.1 hy with hy | hy
        · exact hown y (List.mem_append_left _ hy) r hr
        · rcases List.mem_cons.1 hy with rfl | hy
          · exact hown (c, s :: own) (by simp) r (List.mem_cons_of_mem _ hr)
          · exact hown y (by simp [hy]) r hr
      -- a stream other than the one that moves has another name
      have hother : ∀ y ∈ before ++ after, y.1 ≠ c := by
        rintro y hy rfl
        rw [List.map_append, List.map_cons] at hids
        have hfresh := (List.nodup_cons.1 (List.nodup_middle.1 hids)).1
        rw [← List.map_append] at hfresh
        exact hfresh (List.mem_map.2 ⟨y, hy, rfl⟩)
      rcases List.mem_append.1 hx with hmem | hmem
      · rw [List.filter_cons_of_neg, ih hrest (List.mem_append_left _ hmem)]
        have := hother x (List.mem_append_left _ hmem)
        simpa [hc] using this.symm
      · rcases List.mem_cons.1 hmem with rfl | hmem
        · rw [List.filter_cons_of_pos (by simpa using hc)]
          exact congrArg (s :: ·) (ih (x := (c, own)) hrest (by simp))
        · rw [List.filter_cons_of_neg, ih hrest (by simp [hmem])]
          have := hother x (List.mem_append_right _ hmem)
          simpa [hc] using this.symm

/-- Every signal of an interleaving is one of a stream. -/
theorem Interleaving.conversion_mem (h : Interleaving streams signals)
    (hs : ∀ x ∈ streams, ∀ s ∈ x.2, s.conversion = x.1) (hmem : s ∈ signals) :
    s.conversion ∈ streams.map Prod.fst := by
  induction h with
  | nil => cases hmem
  | @cons before after c r own rest later ih =>
      rcases List.mem_cons.1 hmem with rfl | hmem
      · rw [hs (c, s :: own) (by simp) s List.mem_cons_self]
        simp
      · have hlater := ih (fun x hx q hq => ?_) hmem
        · simpa using hlater
        · rcases List.mem_append.1 hx with hx | hx
          · exact hs x (List.mem_append_left _ hx) q hq
          · rcases List.mem_cons.1 hx with rfl | hx
            · exact hs (c, r :: own) (by simp) q (List.mem_cons_of_mem _ hq)
            · exact hs x (by simp [hx]) q hq

/-- A tracer that has heard nothing, next to another. -/
theorem alongside_new (c : String) : Alongside c [] {} {} :=
  ⟨.none, .none, ⟨List.nodup_nil, List.nodup_nil⟩, nofun, nofun⟩

/-- At the end of an interleaving of complete streams no conversion is
under way. -/
theorem Interleaving.span?_eq_none (h : Interleaving streams signals)
    (hs : Separate streams) (hdone : ∀ x ∈ streams, Complete x.2) (c : String) :
    (Tracer.run {} signals).1.span? c = none := by
  obtain ⟨ρ, -, hrun, -⟩ := (alongside_new c).run nofun signals
  have hspan := hrun.span
  suffices halone : (Tracer.run {}
      (signals.filter fun s => s.conversion = c)).1.span? c = none by
    rw [halone] at hspan
    cases hspan' : (Tracer.run {} signals).1.span? c with
    | none => rfl
    | some span =>
        rw [hspan'] at hspan
        cases hspan
  by_cases hc : c ∈ streams.map Prod.fst
  · obtain ⟨x, hx, rfl⟩ := List.mem_map.1 hc
    rw [h.filter_eq hs hx]
    exact (hdone x hx).over (hs.2 x hx) {}
  · -- nobody ever spoke of it
    have hnone : signals.filter (fun s => s.conversion = c) = [] := by
      apply List.filter_eq_nil_iff.2
      intro s hmem heq
      apply hc
      rw [← of_decide_eq_true heq]
      exact h.conversion_mem hs.2 hmem
    rw [hnone]
    rfl

/-- Conversions do not mix. Whatever the order in which one tracer hears
of several conversions, it records of each the spans that it would
record if it heard of that one alone, in the same order and each below
the same span; the span of a conversion under way is the same too. It
records nothing else. Once every conversion has come to its end, none is
under way. -/
theorem conversions_do_not_mix {streams : List (String × List Signal)}
    {signals : List Signal} (hs : Separate streams)
    (h : Interleaving streams signals) :
    let together := Tracer.run {} signals
    (∀ x ∈ streams, ∃ ρ, OneToOne ρ ∧
      let alone := Tracer.run {} x.2
      List.Forall₂ (EndedSpan.Same ρ) alone.2 (spansAbout x.1 together.2)
        ∧ Option.Rel (Span.Same ρ) (alone.1.span? x.1)
            (together.1.span? x.1))
      ∧ (∀ e ∈ together.2, ∃ x ∈ streams, e.span.conversion? = some x.1)
      ∧ ((∀ x ∈ streams, Complete x.2) →
          together.1.spans = [] ∧ together.1.contexts = []) := by
  intro together
  refine ⟨fun x hx => ?_, fun e he => ?_, fun hdone => ?_⟩
  · obtain ⟨ρ, -, hrun, hended⟩ := (alongside_new x.1).run nofun signals
    rw [h.filter_eq hs hx] at hrun hended
    exact ⟨ρ, hrun.oneToOne, hended, hrun.span⟩
  · obtain ⟨s, hmem, heq⟩ := Tracer.Labelled.run_ended (t := {}) nofun he
    obtain ⟨x, hx, hname⟩ := List.mem_map.1 (h.conversion_mem hs.2 hmem)
    exact ⟨x, hx, by rw [heq, hname]⟩
  · have hspan := h.span?_eq_none hs hdone
    have hstep : together.1.InStep := Tracer.InStep.run (fun _ _ => rfl) _
    exact ⟨Assoc.eq_nil_of_get? hspan,
      Assoc.eq_nil_of_get? fun c => hstep c (hspan c)⟩

/-- Two conversions that run at once: one drops a node, the other expands
an instance. -/
def dropAndNest : List (String × List Signal) :=
  [("drop", [⟨.started, "drop", "", "", 1, ⟨0⟩, [("nodes", .number 2)]⟩,
      ⟨.dropped, "drop", "4", "Note", 3, ⟨0⟩, [("reason", .text "muted")]⟩,
      ⟨.finished, "drop", "", "", 6, ⟨5⟩, [("entries", .number 1)]⟩]),
    ("nest", [⟨.started, "nest", "", "", 2, ⟨0⟩, [("source", .text "w")]⟩,
      ⟨.expanded, "nest", "7", "D", 5, ⟨1⟩, [("depth", .number 1)]⟩,
      ⟨.finished, "nest", "", "", 7, ⟨5⟩, []⟩])]

/-- The signals of both as they come, taken in turns. -/
def dropAndNestWoven : List Signal :=
  [dropAndNest[0].2[0], dropAndNest[1].2[0], dropAndNest[0].2[1],
    dropAndNest[1].2[1], dropAndNest[0].2[2], dropAndNest[1].2[2]]

/-- Two conversions, one with a drop and one nested. -/
theorem conversions_do_not_mix_dropAndNest :
    Separate dropAndNest ∧ Interleaving dropAndNest dropAndNestWoven
      ∧ (∀ x ∈ dropAndNest, Complete x.2)
      ∧ (∃ ρ, OneToOne ρ
        ∧ List.Forall₂ (EndedSpan.Same ρ) (Tracer.run {} dropAndNest[1].2).2
            (spansAbout "nest" (Tracer.run {} dropAndNestWoven).2))
      ∧ (Tracer.run {} dropAndNestWoven).1.spans = []
      ∧ (spansAbout "nest" (Tracer.run {} dropAndNestWoven).2).map
          (fun e => (e.span.number, e.span.name, e.span.parent))
        = [(2, "instance:7", "convert:w"), (1, "convert:w", "")] := by
  have hs : Separate dropAndNest := by
    unfold Separate
    decide
  have h : Interleaving dropAndNest dropAndNestWoven := by
    apply @Interleaving.cons [] _ "drop"
    apply @Interleaving.cons [("drop", _)] _ "nest"
    apply @Interleaving.cons [] _ "drop"
    apply @Interleaving.cons [("drop", _)] _ "nest"
    apply @Interleaving.cons [] _ "drop"
    apply @Interleaving.cons [("drop", _)] _ "nest"
    exact .nil (by simp)
  have hdone : ∀ x ∈ dropAndNest, Complete x.2 := by
    intro x hx
    simp only [dropAndNest, List.mem_cons, List.not_mem_nil, or_false] at hx
    rcases hx with rfl | rfl
    · exact ⟨[_, _], _, rfl, rfl⟩
    · exact ⟨[_, _], _, rfl, rfl⟩
  obtain ⟨hsame, -, hover⟩ := conversions_do_not_mix hs h
  obtain ⟨ρ, hρ, hended, -⟩ := hsame dropAndNest[1] (by simp)
  exact ⟨hs, h, hdone, ⟨ρ, hρ, hended⟩, (hover hdone).1, by decide⟩

end PromptGraph.Telemetry

/-
What a run delivers. A workflow is compiled and checked, its graph is
edited as asked, and the edited graph is printed or submitted
(`once_eq`). The check comes before the edits. So it says nothing about
references that overrides write, and it does say everything else: an
edited graph has errors only by such a reference.

The world is any monad that can do what a command asks of it, so what is
handed on cannot be read off a result. `Action.Ensures` says it of the
action: its values might as well come with a proof.
-/
import PromptGraph.Command.Rehearsal
import PromptGraph.Command.Run
import PromptGraph.Proofs.Execution.Edit
import PromptGraph.Proofs.Flatten.Idempotence

namespace PromptGraph.Command

open Execution (Graph Ref)
open Relation (ReflTransGen)

variable {m : Type → Type} [World m] {α β : Type}

-- ==== ensuring

/-- Whatever the world does, a value that the action gives has the
property. -/
def Action.Ensures (x : Action m α) (P : α → Prop) : Prop :=
  ∃ y : Action m { a // P a }, x = Subtype.val <$> y

namespace Action.Ensures

variable [LawfulMonad m] {P P' : α → Prop} {Q : β → Prop}

theorem pure {a : α} (h : P a) : Ensures (Pure.pure a : Action m α) P := by
  refine ⟨Pure.pure ⟨a, h⟩, ?_⟩
  rw [map_pure]

/-- A failure gives no value. -/
theorem throw (e : Failure) : Ensures (throw e : Action m α) P := by
  refine ⟨MonadExcept.throw e, ExceptT.ext ?_⟩
  rw [ExceptT.run_map, ExceptT.run_throw, ExceptT.run_throw, map_pure]
  rfl

/-- Two steps ensure what the second does. -/
theorem bind {x : Action m α} {f : α → Action m β} (hx : x.Ensures P)
    (hf : ∀ a, P a → (f a).Ensures Q) : Ensures (x >>= f) Q := by
  obtain ⟨y, rfl⟩ := hx
  choose k hk using hf
  refine ⟨y >>= fun a => k a.1 a.2, ?_⟩
  rw [map_bind, bind_map_left]
  refine congrArg _ (funext fun a => ?_)
  exact hk a.1 a.2

theorem mono {x : Action m α} (hx : x.Ensures P) (h : ∀ a, P a → P' a) :
    x.Ensures P' := by
  rw [← bind_pure x]
  exact hx.bind fun a ha => .pure (h a ha)

/-- Nothing has to be known of the first value. -/
theorem after (x : Action m α) {f : α → Action m β}
    (hf : ∀ a, (f a).Ensures Q) : Ensures (x >>= f) Q := by
  have hx : x.Ensures fun _ => True := by
    refine ⟨(⟨·, trivial⟩) <$> x, ?_⟩
    rw [← comp_map]
    exact (id_map x).symm
  exact hx.bind fun a _ => hf a

end Action.Ensures

-- ==== compiling

theorem canonical_convertWorkflow (registry : Registry) (table : NodeTable)
    (source : String) (w : Editor.Workflow) :
    (Flatten.convertWorkflow registry table source w).graph.Canonical := by
  have horder := Flatten.ascending_graph registry table source w
  exact ⟨horder, fun e he => (Flatten.settled_entry (horder.mem_iff.1 he)).1⟩

variable [LawfulMonad m]

/-- A compiled graph is in order, from whatever text it comes. -/
theorem canonical_compile (s : Session) (name : String)
    (o : Session.CompileOptions) :
    (s.compile name o : Action m _).Ensures
      fun c => c.result.graph.Canonical := by
  unfold Session.compile
  refine .after _ fun ⟨path, text, format⟩ => ?_
  cases format with
  | execution =>
      dsimp only
      split
      · exact .throw _
      · next result h =>
        exact .after _ fun _ => .pure (Flatten.printable_of_convert h).toCanonical
  | editor =>
      dsimp -zeta only
      split
      · exact .throw _
      · refine .after _ fun w => ?_
        extract_lets convert
        have hconvert : ∀ table, (convert table).Ensures
            fun c => c.result.graph.Canonical := fun table =>
          .after _ fun _ => .pure (canonical_convertWorkflow _ _ _ _)
        split
        · exact .after _ hconvert
        · exact .after _ hconvert

namespace Run

-- ==== editing

/-- Only an image that is asked for is put into a loader. -/
def ImageSet (r : Registry) (o : Options) (g g' : Graph) : Prop :=
  if o.image = "" then g' = g
  else ∃ loader reference, imageLoader? r g = some loader
    ∧ g' = withImage loader reference g

/-- What the edits make of a converted graph: a text for its encoders,
then the overrides, which have to name entries, then the image, and at
last the dates. -/
def Edited (r : Registry) (o : Options) (g g' : Graph) : Prop :=
  ∃ g₁ g₂ now, withOverrides o.overrides (withPrompt r o.prompt g).1 = .ok g₁
    ∧ ImageSet r o g₁ g₂ ∧ g' = (g₂.resolveDates now).1

/-- An upload is put into the first loader. -/
theorem imageSet_upload (s : Session) (o : Options) (g : Graph)
    (himage : o.image ≠ "") :
    (prepare.withUpload s o g : Action m _).Ensures
      (ImageSet s.registry o g) := by
  have hset : ∀ loader reference, imageLoader? s.registry g = some loader →
      ImageSet s.registry o g (withImage loader reference g) := by
    intro loader reference hloader
    unfold ImageSet
    rw [if_neg himage]
    exact ⟨loader, reference, hloader, rfl⟩
  unfold prepare.withUpload
  split
  · next loader hloader =>
    split
    · exact .pure (hset loader _ hloader)
    · refine .after _ fun client => .after _ fun answer => ?_
      split
      · exact .pure (hset loader _ hloader)
      · exact .after _ fun _ => .throw _
  · exact .throw _

/-- A graph is prepared by the edits. What is logged on the way has no
part in it. -/
theorem edited_prepare (s : Session) (o : Options) (g : Graph) :
    (prepare s o g : Action m _).Ensures (Edited s.registry o g) := by
  unfold prepare
  split
  next g₀ changed hprompt =>
  extract_lets dated imaged overridden
  have hdated : ∀ g₁ g₂, withOverrides o.overrides g₀ = .ok g₁ →
      ImageSet s.registry o g₁ g₂ →
      (dated g₂).Ensures (Edited s.registry o g) := by
    intro g₁ g₂ h₁ h₂
    refine .after _ fun now => ?_
    have hedited : Edited s.registry o g (g₂.resolveDates (dateOf now)).1 :=
      ⟨g₁, g₂, dateOf now, by rw [hprompt]; exact h₁, h₂, rfl⟩
    split
    next g₃ count hdates =>
    rw [hdates] at hedited
    dsimp only
    split
    · exact .after _ fun _ => .pure hedited
    · exact .pure hedited
  have himaged : ∀ g₁, withOverrides o.overrides g₀ = .ok g₁ →
      (imaged g₁).Ensures (Edited s.registry o g) := by
    intro g₁ h₁
    dsimp only [imaged]
    split
    · next himage =>
      rw [pure_bind]
      refine hdated g₁ g₁ h₁ ?_
      unfold ImageSet
      rw [if_pos himage]
    · next himage =>
      exact (imageSet_upload s o g₁ himage).bind fun g₂ h₂ =>
        hdated g₁ g₂ h₁ h₂
  have hoverridden : ∀ u, (overridden u).Ensures (Edited s.registry o g) := by
    intro u
    dsimp only [overridden]
    split
    · next g₁ h₁ =>
      rw [pure_bind]
      exact himaged g₁ h₁
    · exact (Action.Ensures.throw _).bind fun _ h => False.elim h
  split
  · split
    · exact .after _ hoverridden
    · exact .after _ hoverridden
  · exact hoverridden ()

/-- A prompt is an edit. -/
theorem edits_withPrompt (r : Registry) (prompt : String) (g : Graph)
    {new : String → String → Ref → Prop} :
    g.Edits new (withPrompt r prompt g).1 := by
  unfold withPrompt
  split
  · exact .refl g
  · exact g.edits_setText _ _

variable {g g' : Graph}

/-- So are overrides. -/
theorem edits_withOverrides {o : Execution.Overrides}
    (h : withOverrides o g = .ok g') : g.Edits o.Write g' := by
  unfold withOverrides at h
  split at h
  · cases h
    exact .refl g
  · split at h
    · next g₁ happly =>
      cases h
      have hedits := g.edits_applyOverrides o
      rw [happly] at hedits
      exact hedits
    · cases h

/-- So is an image. -/
theorem edits_imageSet {r : Registry} {o : Options}
    {new : String → String → Ref → Prop} (h : ImageSet r o g g') :
    g.Edits new g' := by
  unfold ImageSet at h
  split at h
  · rw [h]
    exact .refl g
  · obtain ⟨loader, reference, -, rfl⟩ := h
    unfold withImage
    split
    · next e he => exact Graph.edits_setInput he
    · exact .refl g

/-- The only new references are those that overrides write. -/
theorem Edited.edits {r : Registry} {o : Options} (h : Edited r o g g') :
    g.Edits o.overrides.Write g' := by
  obtain ⟨g₁, g₂, now, h₁, h₂, rfl⟩ := h
  have hoverrides := (edits_withPrompt r o.prompt g).trans (edits_withOverrides h₁)
  exact (hoverrides.trans (edits_imageSet h₂)).trans (g₂.edits_resolveDates now)

-- ==== delivery

/-- A run up to the graph that it delivers. -/
def prepared (s : Session) (o : Options) :
    Action m (Session.Compiled × Graph) := do
  let c ← s.compile o.workflow o.compile
  let ds := c.result.diagnostics
  if !ds.isEmpty && !s.quiet then err (reportText ds)
  let problems := c.result.graph.validate
  if hasErrors problems then
    err (reportText problems)
    fail .validation "converted graph is not executable"
  return (c, ← prepare s o c.result.graph.copy)

/-- Prints the graph in a dry run, and otherwise submits it. -/
def deliver (s : Session) (o : Options) (path : String) (g : Graph) :
    Action m (List String) := do
  if o.dryRun then
    out (g.pretty ++ "\n")
    return []
  execute s o path g

/-- A run prepares and delivers. -/
theorem once_eq (s : Session) (o : Options) :
    (once s o : Action m _)
      = prepared s o >>= fun x => deliver s o x.1.path x.2 := by
  unfold once prepared
  rw [bind_assoc]
  refine congrArg _ (funext fun c => ?_)
  dsimp only
  split
  · split
    · simp [deliver]
    · simp [deliver]
  · split
    · simp [deliver]
    · simp [deliver]

/-- What is known of the graph that a run delivers for a compiled
workflow: the check was made before the edits. -/
structure Prepares (s : Session) (o : Options) (c : Session.Compiled)
    (g : Graph) : Prop where
  canonical : c.result.graph.Canonical
  checked : hasErrors c.result.graph.validate = false
  edited : Edited s.registry o c.result.graph.copy g

/-- What is delivered was prepared. -/
theorem prepares_prepared (s : Session) (o : Options) :
    (prepared s o : Action m _).Ensures fun x => Prepares s o x.1 x.2 := by
  unfold prepared
  refine (canonical_compile s o.workflow o.compile).bind fun c hc => ?_
  extract_lets ds problems edit check
  have hedit : hasErrors problems = false →
      ∀ u, (edit u).Ensures fun x => Prepares s o x.1 x.2 := fun hok u =>
    (edited_prepare s o _).bind fun g hg => .pure ⟨hc, hok, hg⟩
  have hcheck : ∀ u, (check u).Ensures fun x => Prepares s o x.1 x.2 := by
    intro u
    dsimp only [check]
    split
    · exact .after _ fun _ => .bind (.throw _) fun _ h => False.elim h
    · next hok => exact hedit (eq_false_of_ne_true hok) ()
  split
  · exact .after _ hcheck
  · exact hcheck ()

/-- A run ends with the delivery of one graph. This graph is the
converted one after the edits, the converted one had no errors, and the
delivered one has errors exactly if overrides wrote a reference into it
that names no entry or that leads back to the entry that holds it. In
particular it has none if no override value is written like a
reference. -/
theorem delivered_errors_from_overrides (s : Session) (o : Options) :
    (once s o : Action m _)
        = prepared s o >>= (fun x => deliver s o x.1.path x.2)
      ∧ (prepared s o : Action m _).Ensures fun x =>
          hasErrors x.1.result.graph.validate = false
          ∧ Edited s.registry o x.1.result.graph.copy x.2
          ∧ (hasErrors x.2.validate = true
            ↔ ∃ id name r, o.overrides.Write id name r ∧ x.2.Reads id name r
                ∧ (Assoc.contains x.2 r.node = false
                  ∨ ReflTransGen x.2.Feeds id r.node)) := by
  refine ⟨once_eq s o, (prepares_prepared s o).mono fun x hx => ?_⟩
  have hedits := x.1.result.graph.edits_copy.trans hx.edited.edits
  exact ⟨hx.checked, hx.edited, hedits.hasErrors_iff hx.canonical hx.checked⟩

-- ==== a fox

/-- A place with one graph, which encodes an empty text. -/
def foxWorld : Rehearsal where
  disk := { root := .directory [("fox.json", .file
    "\x7b\"1\": \x7b\"class_type\": \"Encode\", \"inputs\": \x7b\"text\": \"\"\x7d\x7d\x7d".toUTF8)] }

def foxSession : Session where
  settings := {}
  registry := ⟨[{ type := "Encode", category := Category.textEncoder }]⟩

/-- A dry run with a dated prompt, and an override of the encoder. -/
def foxOptions (input : String) (v : Json) : Options where
  workflow := "fox.json"
  prompt := "a fox, %date:yyyy%"
  overrides := [("1", [(input, v)])]
  dryRun := true

def foxRun (o : Options) : Except Failure (List String) × Rehearsal :=
  (once foxSession o : Action Rehearsed _).run.run foxWorld

/-- A number is no reference. The run ends well, and what it delivers can
be executed. -/
theorem delivered_errors_from_overrides_fox :
    (foxRun (foxOptions "seed" (.number "7"))).1.toOption = some []
      ∧ (prepared foxSession (foxOptions "seed" (.number "7"))
          : Action Rehearsed _).Ensures
            fun x => hasErrors x.2.validate = false := by
  refine ⟨by decide +kernel, ?_⟩
  refine (delivered_errors_from_overrides _ _).2.mono fun x hx => ?_
  rw [← Bool.not_eq_true, hx.2.2]
  rintro ⟨id, name, r, ⟨updates, v, hid, hname, hr⟩, -⟩
  obtain ⟨rfl, rfl⟩ := Prod.mk.inj (List.mem_singleton.1 hid)
  obtain ⟨rfl, rfl⟩ := Prod.mk.inj (List.mem_singleton.1 hname)
  cases hr

/-- The encoder with the text of the run and a reference to nothing. -/
def strayFox : Graph :=
  [("1", {
    classType := "Encode"
    inputs := some [("clip", .ref ⟨"99", 0⟩),
      ("text", .literal (.string "a fox, 2023"))] })]

/-- A reference to nothing passes, because the check is over when it is
written: the run ends well, and what it prints cannot be executed. -/
theorem override_delivers_dangling :
    let run := foxRun (foxOptions "clip" (.array [.string "99", .number "0"]))
    run.1.toOption = some [] ∧ run.2.out = strayFox.pretty ++ "\n"
      ∧ hasErrors strayFox.validate = true := by
  decide +kernel

end Run

end PromptGraph.Command

/-
Where the files of a job are saved.

The server chooses the names and the folders. Of a name only the last
component is taken, but a folder is taken as it is. So a file stays in
the directory it should be saved in exactly if the way that its folder
and its name describe stays there (`Path.inside_join_iff`), and a folder
with two dots in it may lead out.

What is written cannot be read off a result, since the world is any
monad. It is told by what makes no difference: an action that writes to
some paths only is the same action in a world in which writing anywhere
else does something else (`WritesOnly`).
-/
import PromptGraph.Command.Rehearsal
import PromptGraph.Command.Run
import PromptGraph.Proofs.Path

namespace PromptGraph.Command

variable {m : Type → Type} [World m]

-- ==== writing

/-- The world in which writing does something else. -/
@[reducible]
def writing (write : String → ByteArray → m (Except FileError Unit)) : World m :=
  { (inferInstance : World m) with write }

/-- The action writes to allowed paths only: it is the same whatever
writing to another path would do. -/
def WritesOnly (allowed : String → Prop) (x : World m → m α) : Prop :=
  ∀ write, (∀ p, allowed p → write p = Files.write p) →
    x (writing write) = x inferInstance

namespace WritesOnly

variable {allowed wider : String → Prop} {x : World m → m α}

/-- More may be allowed. -/
theorem mono (hx : WritesOnly allowed x) (h : ∀ p, allowed p → wider p) :
    WritesOnly wider x :=
  fun write hwrite => hx write fun p hp => hwrite p (h p hp)

/-- Two steps write what both may. -/
theorem bind {f : World m → α → m β} (hx : WritesOnly allowed x)
    (hf : ∀ a, WritesOnly allowed fun w => f w a) :
    WritesOnly allowed fun w : World m => x w >>= f w := by
  intro write hwrite
  have hnext : f (writing write) = f inferInstance :=
    funext fun a => hf a write hwrite
  show x (writing write) >>= f (writing write) = _
  rw [hx write hwrite, hnext]

end WritesOnly

-- ==== telling

/-- If the action ends well, this is its value. -/
def Tells (x : m (Except ε α)) (a : α) : Prop :=
  Except.map (fun _ => a) <$> x = x

namespace Tells

variable [LawfulMonad m] {x : m (Except ε α)} {a : α} {b : β}

/-- What is told at once. -/
theorem of_pure {r : Except ε α} (h : r.map (fun _ => a) = r) :
    Tells (pure r : m _) a := by
  unfold Tells
  rw [map_pure, h]

theorem after (x : m γ) {f : γ → m (Except ε α)} (hf : ∀ c, Tells (f c) a) :
    Tells (x >>= f) a := by
  unfold Tells
  rw [map_bind]
  exact congrArg _ (funext hf)

/-- What follows may go by the value. -/
theorem bind {f : Except ε α → m (Except ε β)} (hx : Tells x a)
    (hf : ∀ r : Except ε α, Tells (f (r.map fun _ => a)) b) :
    Tells (x >>= f) b := by
  rw [← show _ = x from hx, bind_map_left]
  exact after x hf

end Tells

namespace Run

open Server (JobRecord RemoteFile)
open PromptGraph.Path (Inside Way wayTo IsName isAbsolute components cleanComponents)

variable (client : Server.Client) (deadline : Deadline) (promptId dir : String)

-- ==== saving

/-- What follows on the answer of the server about a job. -/
def saveRecord : Except Server.Error JobRecord →
    m (Except SaveError (List String))
  | .error e => return .error (.server e)
  | .ok record => do
      if record.files.isEmpty then
        Console.log ⟨.warn, "prompt finished without output files",
          [("prompt_id", promptId)]⟩
      saveFiles client deadline dir record.files

theorem saveOutputs_eq :
    (saveOutputs client deadline promptId dir : m _)
      = client.history deadline promptId
          >>= saveRecord client deadline promptId dir := by
  unfold saveOutputs
  refine congrArg _ (funext fun answer => ?_)
  cases answer with
  | error e => rfl
  | ok record => rfl

/-- Saving a file writes its target. -/
theorem writesOnly_saveFile (f : RemoteFile) :
    WritesOnly (· = target dir f)
      fun w : World m => @saveFile m w client deadline dir f := by
  refine .bind (fun _ _ => rfl) fun answer => ?_
  cases answer with
  | error e => exact fun _ _ => rfl
  | ok content =>
      refine .bind (fun _ _ => rfl) fun made => ?_
      cases made with
      | error e => exact fun _ _ => rfl
      | ok _ =>
          refine .bind (fun write hwrite => ?_) fun _ _ _ => rfl
          exact congrFun (hwrite _ rfl) content

/-- Saving files writes theirs. -/
theorem writesOnly_saveFiles (files : List RemoteFile) :
    WritesOnly (fun p => ∃ f ∈ files, p = target dir f)
      fun w : World m => @saveFiles m w client deadline dir files := by
  induction files with
  | nil => exact fun _ _ => rfl
  | cons f files ih =>
      refine .bind ?_ fun saved => ?_
      · exact (writesOnly_saveFile client deadline dir f).mono
          fun p hp => ⟨f, List.mem_cons_self, hp⟩
      · cases saved with
        | error e => exact fun _ _ => rfl
        | ok path =>
            refine .bind (ih.mono ?_) fun _ _ _ => rfl
            exact fun p ⟨g, hg, hp⟩ => ⟨g, List.mem_cons_of_mem f hg, hp⟩

/-- So does saving a record. -/
theorem writesOnly_saveRecord (record : JobRecord) :
    WritesOnly (fun p => ∃ f ∈ record.files, p = target dir f)
      fun w : World m =>
        @saveRecord m w client deadline promptId dir (.ok record) := by
  have hsave := writesOnly_saveFiles (m := m) client deadline dir record.files
  unfold saveRecord
  dsimp only
  split
  · exact .bind (fun _ _ => rfl) fun _ => hsave
  · exact hsave

variable [LawfulMonad m]

/-- Saving tells where the file went. -/
theorem tells_saveFile (f : RemoteFile) :
    Tells (saveFile client deadline dir f : m _) (target dir f) := by
  refine .after _ fun answer => ?_
  cases answer with
  | error e => exact .of_pure rfl
  | ok content =>
      refine .after _ fun made => ?_
      cases made with
      | error e => exact .of_pure rfl
      | ok _ =>
          refine .after _ fun written => ?_
          cases written with
          | error e => exact .of_pure rfl
          | ok _ => exact .after _ fun _ => .of_pure rfl

/-- So it does for several files. -/
theorem tells_saveFiles (files : List RemoteFile) :
    Tells (saveFiles client deadline dir files : m _)
      (files.map (target dir)) := by
  induction files with
  | nil => exact .of_pure rfl
  | cons f files ih =>
      refine (tells_saveFile client deadline dir f).bind fun saved => ?_
      cases saved with
      | error e => exact .of_pure rfl
      | ok path =>
          refine ih.bind fun rest => .of_pure ?_
          cases rest with
          | error e => rfl
          | ok paths => rfl

theorem tells_saveRecord (record : JobRecord) :
    Tells (saveRecord client deadline promptId dir (.ok record) : m _)
      (record.files.map (target dir)) := by
  have hsave := tells_saveFiles (m := m) client deadline dir record.files
  unfold saveRecord
  dsimp only
  split
  · exact .after _ fun _ => hsave
  · exact hsave

-- ==== staying

/-- The way that the folder and the name of a file describe stays in the
directory. -/
def StaysIn (f : RemoteFile) : Prop :=
  (dir ≠ "" ∨ isAbsolute f.folder = false)
    ∧ (Way.of (cleanComponents dir)).Stays (isAbsolute dir)
        (wayTo f.folder (Path.base f.name))

instance (f : RemoteFile) : Decidable (StaysIn dir f) :=
  inferInstanceAs (Decidable (_ ∧ _))

/-- When a target lies in the folder. -/
theorem inside_target_iff (f : RemoteFile) :
    Inside dir (target dir f) ↔ StaysIn dir f :=
  Path.inside_join_iff dir f.folder (Path.base_ne_empty f.name)
    Path.base_eq_slash_of_isAbsolute

/-- What the server answers decides where its files are saved, and the
files of a record are written to their targets and nowhere else. A target
lies inside the directory exactly if the way of its file stays there. So
everything is written inside if all ways stay; and a way stays if it has
no two dots in its folder, and a name. -/
theorem outputs_inside_iff_ways_stay :
    (saveOutputs client deadline promptId dir : m _)
        = client.history deadline promptId
            >>= saveRecord client deadline promptId dir
      ∧ (∀ e, WritesOnly (fun _ => False) fun w : World m =>
          @saveRecord m w client deadline promptId dir (.error e))
      ∧ (∀ record : JobRecord,
          WritesOnly (fun p => ∃ f ∈ record.files, p = target dir f)
              (fun w : World m =>
                @saveRecord m w client deadline promptId dir (.ok record))
            ∧ Tells (saveRecord client deadline promptId dir (.ok record) : m _)
                (record.files.map (target dir))
            ∧ ((∀ f ∈ record.files, StaysIn dir f) →
                WritesOnly (Inside dir) fun w : World m =>
                  @saveRecord m w client deadline promptId dir (.ok record)))
      ∧ ∀ f : RemoteFile, (Inside dir (target dir f) ↔ StaysIn dir f)
          ∧ (".." ∉ components f.folder → IsName (Path.base f.name) →
              (StaysIn dir f ↔ dir ≠ "" ∨ isAbsolute f.folder = false)) := by
  refine ⟨saveOutputs_eq client deadline promptId dir, fun _ _ _ => rfl,
    fun record => ?_, fun f => ⟨inside_target_iff dir f, ?_⟩⟩
  · have hwrites :=
      writesOnly_saveRecord (m := m) client deadline promptId dir record
    refine ⟨hwrites, tells_saveRecord client deadline promptId dir record, ?_⟩
    intro hstay
    refine hwrites.mono ?_
    rintro p ⟨f, hf, rfl⟩
    exact (inside_target_iff dir f).2 (hstay f hf)
  · intro hfolder hname
    obtain ⟨hup, hdown⟩ := Path.wayTo_down hfolder hname
    exact and_iff_left (Way.stays_of_down _ hup hdown)

-- ==== a small server

/-- Files of one node. -/
def listing (files : List (String × String)) : JobRecord where
  outputs := some [("4", some [("images", .array "" (files.map fun (name, folder) =>
    .object "" [("filename", .string name), ("subfolder", .string folder)]))])]

def smallClient : Server.Client where
  base := { scheme := "http", host := "srv:1" }
  id := "c"

/-- Names may climb as they like, and folders may come back. -/
theorem outputs_inside_iff_ways_stay_nested :
    let record := listing [("../../evil.png", "a/b"), ("x.png", "../out/c")]
    record.files.map (target "out") = ["out/a/b/evil.png", "out/c/x.png"]
      ∧ (∀ f ∈ record.files, StaysIn "out" f)
      ∧ WritesOnly (Inside "out") fun w : World Rehearsed =>
          @saveRecord Rehearsed w smallClient none "p1" "out" (.ok record) := by
  have hstay : ∀ f ∈ (listing [("../../evil.png", "a/b"),
      ("x.png", "../out/c")]).files, StaysIn "out" f := by
    decide +kernel
  refine ⟨by decide +kernel, hstay, ?_⟩
  exact ((outputs_inside_iff_ways_stay smallClient none "p1" "out").2.2.1
    _).2.2 hstay

/-- A server that has one file, which it says is in the folder above. -/
def strayServer : Rehearsal where
  server := { routes := [
    ("/history/p1", [.answer ⟨200, ("\x7b\"p1\": \x7b\"outputs\": \x7b\"4\": \x7b\"images\": "
      ++ "[\x7b\"filename\": \"up.png\", \"subfolder\": \"..\"\x7d]\x7d\x7d\x7d\x7d").toUTF8⟩]),
    ("/view", [.answer ⟨200, "IMG".toUTF8⟩])] }

/-- It is saved beside the directory. -/
theorem output_saved_beside_directory :
    let run := (saveOutputs smallClient none "p1" "out" : Rehearsed _).run
      strayServer
    run.1.toOption = some ["up.png"]
      ∧ (run.2.disk.read "up.png").toOption = some "IMG".toUTF8
      ∧ ¬ cleanComponents "out" <+: cleanComponents "up.png" := by
  decide +kernel

end Run

end PromptGraph.Command

/-
A wait between two answers. Whoever waits for a job asks the world one
question after another: for a stream, for the record of the job, for a
frame, for the next frame. `Replay` is a world that knows only what was
answered so far. Run in it, `Client.wait` comes to its next question or
returns (`Client.position`); the lemmas say where it is after each kind
of answer.
-/
import PromptGraph.Server.Wait

namespace PromptGraph.Server

open Web (Frame Network StreamEnd SendError Response Request Address)

-- ==== replay

/-- What is asked of the world while waiting. -/
inductive Question where
  | dial (a : Address)
  | send (r : Request)
  | frame

inductive Answer where
  | dialled (r : Except SendError Unit)
  | response (r : Except SendError Response)
  | frame (r : Except StreamEnd Frame)

/-- Where an action is after some answers: at a question that has none
yet, or at its end with the answers that it did not need. -/
inductive Turn (α : Type) where
  | wants (q : Question)
  | done (a : α) (rest : List Answer)

/-- An action that hears the answers of the world one after another. -/
structure Replay (α : Type) where
  run : List Answer → Turn α

namespace Replay

variable {ν α β : Type}

instance : Monad Replay where
  pure a := ⟨fun heard => .done a heard⟩
  bind x f := ⟨fun heard =>
    match x.run heard with
    | .wants q => .wants q
    | .done a rest => (f a).run rest⟩

/-- Frames are read up to the first that settles the matter. -/
def listen (judge : Frame → List ν × Option α) :
    List Answer → Turn (Except StreamEnd α)
  | .frame (.ok f) :: rest =>
    match (judge f).2 with
    | some a => .done (.ok a) rest
    | none => listen judge rest
  | .frame (.error e) :: rest => .done (.error e) rest
  | _ => .wants .frame

/-- What is noted while frames are read is told to nobody. -/
instance : Network Replay where
  Stream := Unit
  send _ r := ⟨fun heard =>
    match heard with
    | .response a :: rest => .done a rest
    | _ => .wants (.send r)⟩
  dial _ a := ⟨fun heard =>
    match heard with
    | .dialled r :: rest => .done r rest
    | _ => .wants (.dial a)⟩
  listen _ _ judge _ := ⟨listen judge⟩

/-- Nobody looks at what is written. -/
instance : Console Replay where
  out _ := pure ()
  err _ := pure ()
  openLog _ := pure ()
  log _ := pure ()

/-- An action goes on with the answers that its first part left. -/
theorem run_bind {x : Replay α} {a : α} {heard rest : List Answer}
    (h : x.run heard = .done a rest) (f : α → Replay β) :
    (x >>= f).run heard = (f a).run rest := by
  show (match x.run heard with
    | .wants q => Turn.wants q
    | .done a rest => (f a).run rest) = _
  rw [h]

/-- An action wants what its first part wants. -/
theorem run_bind_wants {x : Replay α} {q : Question} {heard : List Answer}
    (h : x.run heard = .wants q) (f : α → Replay β) :
    (x >>= f).run heard = .wants q := by
  show (match x.run heard with
    | .wants q => Turn.wants q
    | .done a rest => (f a).run rest) = _
  rw [h]

theorem listen_frame (judge : Frame → List ν × Option α) (f : Frame)
    (rest : List Answer) :
    listen judge (.frame (.ok f) :: rest)
      = match (judge f).2 with
        | some a => .done (.ok a) rest
        | none => listen judge rest := rfl

/-- Frames as they are heard. -/
def frames (fs : List Frame) : List Answer :=
  fs.map fun f => .frame (.ok f)

/-- Frames that settle nothing are passed over. -/
theorem listen_append {judge : Frame → List ν × Option α} {fs : List Frame}
    (h : ∀ f ∈ fs, (judge f).2 = none) (rest : List Answer) :
    listen judge (frames fs ++ rest) = listen judge rest := by
  induction fs with
  | nil => rfl
  | cons f fs ih =>
      show listen judge (.frame (.ok f) :: (frames fs ++ rest)) = _
      rw [listen_frame, h f List.mem_cons_self]
      exact ih fun g hg => h g (List.mem_cons_of_mem _ hg)

/-- A frame that settles the matter ends the reading, if none before it
does. -/
theorem listen_settles {judge : Frame → List ν × Option α} {f : Frame}
    {a : α} (hf : (judge f).2 = some a) (fs : List Frame) :
    ∃ r rest, listen judge (frames (fs ++ [f])) = .done r rest := by
  induction fs with
  | nil =>
      refine ⟨.ok a, [], ?_⟩
      show listen judge [.frame (.ok f)] = _
      rw [listen_frame, hf]
  | cons g fs ih =>
      obtain ⟨r, rest, hr⟩ := ih
      show ∃ r rest, listen judge (.frame (.ok g) :: frames (fs ++ [f]))
        = .done r rest
      rw [listen_frame]
      cases (judge g).2 with
      | some b => exact ⟨.ok b, _, rfl⟩
      | none => exact ⟨r, rest, hr⟩

end Replay

-- ==== position

/-- How the record of a job is asked for. -/
def Client.historyRequest (c : Client) (promptId : String) : Request :=
  c.request ("/history/" ++ Web.escape .segment promptId) []

/-- Where the wait for a job is after these answers. -/
def Client.position (c : Client) (deadline : Deadline) (promptId : String)
    (heard : List Answer) : Turn (Except Error Unit) :=
  (c.wait deadline promptId fun _ => pure () : Replay _).run heard

/-- How the job went, if the answer to the request for its record says
that it is over. -/
def recorded? (promptId : String) (a : Except SendError Response) :
    Option Outcome :=
  match a with
  | .error _ => none
  | .ok response =>
    if Web.isSuccess response.status then
      match JobRecord.find promptId (Text.ofBytes response.body) with
      | .ok record => record.outcome? promptId
      | .error _ => none
    else none

/-- What a wait returns when its stream settles the matter or ends. -/
def heardEnd : Except StreamEnd Outcome → Except Error Unit
  | .ok o => o.toExcept
  | .error (.interrupted cause) => .error (.interrupted cause)
  | .error cause => .error (.stream cause)

/-- Where a wait is when its stream is there. -/
def Turn.heardEnd : Turn (Except StreamEnd Outcome) →
    Turn (Except Error Unit)
  | .wants q => .wants q
  | .done r rest => .done (Server.heardEnd r) rest

variable {c : Client} {deadline : Deadline} {promptId : String}

/-- What is made of the answer to a request. -/
def performed (r : Request) :
    Except SendError Response → Except RequestError ByteArray
  | .error cause => .error (.unsent r.method r.address cause)
  | .ok answer =>
    if Web.isSuccess answer.status then .ok answer.body
    else .error
      (.refused (.ofAnswer answer.status (Text.ofBytes answer.body)))

theorem run_perform (r : Request) (a : Except SendError Response)
    (rest : List Answer) :
    (Client.perform deadline r : Replay _).run (.response a :: rest)
      = .done (performed r a) rest := by
  have hsend : (Network.send deadline r : Replay _).run
      (.response a :: rest) = .done a rest := rfl
  unfold Client.perform performed
  refine (Replay.run_bind hsend _).trans ?_
  cases a with
  | error cause => rfl
  | ok answer =>
      dsimp only
      split
      · rfl
      · rfl

/-- The record that the answer to the request for it holds. -/
def recordIn (c : Client) (promptId : String)
    (a : Except SendError Response) : Except Error JobRecord :=
  match performed (c.historyRequest promptId) a with
  | .error cause => .error (.request "history" cause)
  | .ok body => JobRecord.find promptId (Text.ofBytes body)

theorem run_history (a : Except SendError Response) (rest : List Answer) :
    (c.history deadline promptId : Replay _).run (.response a :: rest)
      = .done (recordIn c promptId a) rest := by
  have hask : (Client.ask deadline (c.historyRequest promptId) :
      Replay _).run (.response a :: rest)
      = .done ((performed (c.historyRequest promptId) a).map Text.ofBytes)
          rest :=
    Replay.run_bind (run_perform _ a rest) _
  unfold Client.history recordIn
  refine (Replay.run_bind hask _).trans ?_
  cases performed (c.historyRequest promptId) a with
  | error cause => rfl
  | ok body => rfl

/-- The job is over by its record exactly if the answer says so. -/
theorem recorded?_eq (a : Except SendError Response) :
    recorded? promptId a
      = match recordIn c promptId a with
        | .ok record => record.outcome? promptId
        | .error _ => none := by
  unfold recorded? recordIn performed
  cases a with
  | error e => rfl
  | ok response =>
      dsimp only
      by_cases hsuccess : Web.isSuccess response.status = true
      · rw [if_pos hsuccess, if_pos hsuccess]
      · rw [if_neg hsuccess, if_neg hsuccess]

theorem position_nil (h : c.base.user.isSome = false) :
    c.position deadline promptId [] = .wants (.dial c.streamAddress) := by
  unfold Client.position Client.wait Client.dial
  rw [h]
  rfl

theorem position_named (h : c.base.user.isSome = true)
    (heard : List Answer) :
    ∃ r, c.position deadline promptId heard = .done r heard := by
  unfold Client.position Client.wait Client.dial
  rw [h]
  exact ⟨_, rfl⟩

theorem position_refused (h : c.base.user.isSome = false) (e : SendError)
    (rest : List Answer) :
    c.position deadline promptId (.dialled (.error e) :: rest)
      = .done (.error (.openStream e)) rest := by
  unfold Client.position Client.wait Client.dial
  rw [h]
  rfl

theorem position_opened (h : c.base.user.isSome = false) :
    c.position deadline promptId [.dialled (.ok ())]
      = .wants (.send (c.historyRequest promptId)) := by
  unfold Client.position Client.wait Client.dial
  rw [h]
  rfl

/-- A wait ends as its stream does. -/
theorem run_listen_bind
    {k : Except StreamEnd Outcome → Replay (Except Error Unit)}
    (hk : ∀ r rest, (k r).run rest = .done (heardEnd r) rest)
    (note : Note → Replay Unit) (rest : List Answer) :
    ((Network.listen deadline () (judge promptId) note :
        Replay (Except StreamEnd Outcome)) >>= k).run rest
      = (Replay.listen (judge promptId) rest).heardEnd := by
  have hlisten : (Network.listen deadline () (judge promptId) note :
      Replay (Except StreamEnd Outcome)).run rest
      = Replay.listen (judge promptId) rest := rfl
  cases hturn : Replay.listen (judge promptId) rest with
  | wants q => exact Replay.run_bind_wants (hlisten.trans hturn) k
  | done r rest' =>
      exact (Replay.run_bind (hlisten.trans hturn) k).trans (hk r rest')

theorem run_heardEnd (r : Except StreamEnd Outcome) (rest : List Answer) :
    (match r with
      | .ok o => pure o.toExcept
      | .error (.interrupted cause) => pure (.error (.interrupted cause))
      | .error cause => pure (.error (.stream cause)) :
        Replay (Except Error Unit)).run rest
      = .done (heardEnd r) rest := by
  cases r with
  | ok o => rfl
  | error cause => cases cause <;> rfl

/-- What a wait does with a record, and after it. -/
theorem position_answered (h : c.base.user.isSome = false)
    (a : Except SendError Response) (rest : List Answer) :
    c.position deadline promptId
        (.dialled (.ok ()) :: .response a :: rest)
      = match recorded? promptId a with
        | some o => .done o.toExcept rest
        | none => (Replay.listen (judge promptId) rest).heardEnd := by
  have hdial : (c.dial deadline : Replay _).run
      (.dialled (.ok ()) :: .response a :: rest)
      = .done (.ok ()) (.response a :: rest) := by
    unfold Client.dial
    rw [h]
    rfl
  unfold Client.position Client.wait
  rw [Replay.run_bind hdial, recorded?_eq (c := c)]
  refine (Replay.run_bind (run_history a rest) _).trans ?_
  cases recordIn c promptId a with
  | error e =>
      cases e <;> exact run_listen_bind run_heardEnd _ rest
  | ok record =>
      dsimp only
      cases record.outcome? promptId with
      | some o => rfl
      | none => exact run_listen_bind run_heardEnd _ rest

end PromptGraph.Server

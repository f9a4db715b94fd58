/-
Waiting for a job never misses its end.

The wait asks for its stream, for the record of the job and for frames,
and stands between any two answers where `Client.position` says. Around
it is a server (`Step`). When the job is over it first makes a record of
it readable and then announces the end to whoever is connected at that
moment. Its steps and those of the wait come in any order, with any other
traffic on the stream.

One fact keeps the wait on course (`Stage`): once the record was asked
for in vain, an end that is announced is among the frames still to be
read. The record can be asked for in vain only before it is readable, and
then the stream is open already; and no other frame takes the end away,
since frames are read in order and those that do not end the wait are
passed over.
-/
import Mathlib.Logic.Relation
import Mathlib.Tactic.ByContra
import PromptGraph.Proofs.Server.Judgement
import PromptGraph.Proofs.Server.Replay

namespace PromptGraph.Server

open Relation (ReflTransGen)
open Web (Frame StreamEnd SendError Response Request Address)

variable {c : Client} {deadline : Deadline} {promptId : String}

-- ==== how a job ends

/-- The answer holds a record of the job which says that it is over. -/
def Finished (promptId : String) (a : Except SendError Response) : Prop :=
  ∃ response record, a = .ok response
    ∧ Web.isSuccess response.status = true
    ∧ JobRecord.find promptId (Text.ofBytes response.body) = .ok record
    ∧ (record.status.failed = true ∨ record.status.completed = true)

/-- A record without an end. -/
theorem outcome?_eq_none_iff {record : JobRecord} :
    record.outcome? promptId = none
      ↔ ¬ (record.status.failed = true ∨ record.status.completed = true) := by
  unfold JobRecord.outcome?
  by_cases hfailed : record.status.failed = true
  · simp [hfailed]
  · by_cases hcompleted : record.status.completed = true
    · simp [hfailed, hcompleted]
    · simp [hfailed, hcompleted]

variable {a : Except SendError Response}

/-- A wait returns at the record exactly if this says that the job is
over. -/
theorem recorded?_eq_none_iff :
    recorded? promptId a = none ↔ ¬ Finished promptId a := by
  unfold recorded? Finished
  cases a with
  | error e => simp
  | ok response =>
      dsimp only
      by_cases hsuccess : Web.isSuccess response.status = true
      · rw [if_pos hsuccess]
        cases hfind : JobRecord.find promptId
            (Text.ofBytes response.body) with
        | error e => simp [hfind]
        | ok record => simp [hfind, hsuccess, outcome?_eq_none_iff]
      · simp [hsuccess]

/-- A finished record has an outcome. -/
theorem Finished.recorded (h : Finished promptId a) :
    ∃ o, recorded? promptId a = some o :=
  Option.ne_none_iff_exists'.1 fun hnone => recorded?_eq_none_iff.1 hnone h

/-- The frame announces that the job is over: it is a message with the id
of the job and with data of the right kind, and says that nothing is
executed any more, or that the job succeeded, failed or was stopped. -/
def Announces (promptId : String) (f : Frame) : Prop :=
  ∃ content s, f = .text content ∧ StatusMessage.ofText? content = some s
    ∧ ((s.type = "execution_error"
        ∧ ∃ failure, s.failure? = some failure
          ∧ failure.promptId = promptId)
      ∨ ∃ progress, s.progress? = some progress
        ∧ progress.promptId = promptId
        ∧ ((s.type = "executing" ∧ progress.node = none)
          ∨ s.type = "execution_success"
          ∨ s.type = "execution_interrupted"))

variable {f : Frame}

/-- A frame that announces the end of the job ends the wait. -/
theorem Announces.settles (h : Announces promptId f) :
    ∃ o, (judge promptId f).2 = some o := by
  obtain ⟨content, s, rfl, hs, hend⟩ := h
  suffices hends : ∃ o, MessageEnds promptId s o by
    obtain ⟨o, ho⟩ := hends
    exact ⟨o, judge_eq_some_iff.2 ⟨content, s, rfl, hs, ho⟩⟩
  rcases hend with ⟨htype, failure, hfailure, hid⟩ | ⟨p, hp, hid, hend⟩
  · exact ⟨_, .failed htype hfailure hid⟩
  · rcases hend with ⟨htype, hnode⟩ | htype | htype
    · exact ⟨_, .idle htype hp hid hnode⟩
    · exact ⟨_, .success htype hp hid⟩
    · exact ⟨_, .stopped htype hp (.inr hid)⟩

-- ==== interleaving

/-- What has become of a job: it is not over, a record of it can be read,
its end has been announced. -/
inductive Phase where
  | running
  | recorded
  | announced

/-- The job, the stream and the wait for the job at some moment. -/
structure Moment where
  phase : Phase
  connected : Bool := false
  /-- What was sent on the stream and is not read yet. -/
  queue : List Frame := []
  /-- What the server has answered and the wait has not heard yet. -/
  reply : Option (Except SendError Response) := none
  heard : List Answer := []

namespace Moment

/-- A frame is sent to whoever is connected. -/
def deliver (s : Moment) (f : Frame) : Moment :=
  if s.connected then { s with queue := s.queue ++ [f] } else s

def hear (s : Moment) (a : Answer) : Moment :=
  { s with heard := s.heard ++ [a] }

/-- The answer to the request for the record, once it is given. -/
def answer? (s : Moment) : Option (Except SendError Response) :=
  match s.heard with
  | .dialled _ :: .response a :: _ => some a
  | _ => s.reply

/-- The wait is at this question. -/
def Wants (c : Client) (deadline : Deadline) (promptId : String)
    (s : Moment) (q : Question) : Prop :=
  c.position deadline promptId s.heard = .wants q

def Returned (c : Client) (deadline : Deadline) (promptId : String)
    (s : Moment) : Prop :=
  ∃ r rest, c.position deadline promptId s.heard = .done r rest

/-- An end that is announced is still to be read. -/
def Owes (promptId : String) (s : Moment) : Prop :=
  s.phase = .announced → ∃ f ∈ s.queue, Announces promptId f

end Moment

/-- What may happen next. The server records that the job is over and
then announces it. It sends other frames at any time. Who is connected
gets what is sent, also before the wait hears that its stream is open.
A request is answered at some moment and the answer heard at a later one;
once the job is recorded, the answer to a request for its record holds
it, and any other may be anything. The stream may break off. -/
inductive Step (c : Client) (deadline : Deadline) (promptId : String) :
    Moment → Moment → Prop where
  | record {s : Moment} (h : s.phase = .running) :
      Step c deadline promptId s { s with phase := .recorded }
  | announce {s : Moment} {f : Frame} (h : s.phase = .recorded)
      (hf : Announces promptId f) :
      Step c deadline promptId s { s.deliver f with phase := .announced }
  | traffic {s : Moment} (f : Frame) :
      Step c deadline promptId s (s.deliver f)
  | connect {s : Moment} {a : Address}
      (h : s.Wants c deadline promptId (.dial a)) :
      Step c deadline promptId s { s with connected := true }
  | opened {s : Moment} {a : Address}
      (h : s.Wants c deadline promptId (.dial a))
      (hconnected : s.connected = true) :
      Step c deadline promptId s (s.hear (.dialled (.ok ())))
  | refused {s : Moment} {a : Address}
      (h : s.Wants c deadline promptId (.dial a)) (e : SendError) :
      Step c deadline promptId s (s.hear (.dialled (.error e)))
  | answer {s : Moment} {r : Request}
      (h : s.Wants c deadline promptId (.send r)) (hreply : s.reply = none)
      (a : Except SendError Response)
      (htrue : r = c.historyRequest promptId → s.phase ≠ .running →
        Finished promptId a) :
      Step c deadline promptId s { s with reply := some a }
  | receive {s : Moment} {r : Request} {a : Except SendError Response}
      (h : s.Wants c deadline promptId (.send r))
      (hreply : s.reply = some a) :
      Step c deadline promptId s { s.hear (.response a) with reply := none }
  | read {s : Moment} {f : Frame} {rest : List Frame}
      (h : s.Wants c deadline promptId .frame)
      (hqueue : s.queue = f :: rest) :
      Step c deadline promptId s
        { s.hear (.frame (.ok f)) with queue := rest }
  | broken {s : Moment} (h : s.Wants c deadline promptId .frame)
      (e : StreamEnd) :
      Step c deadline promptId s (s.hear (.frame (.error e)))

-- ==== on course

/-- The wait has not heard anything. -/
structure Moment.Unopened (s : Moment) : Prop where
  heard : s.heard = []
  reply : s.reply = none

/-- The wait has a stream and asks for the record. If the answer is given
and is in vain, the end of the job is owed. -/
structure Moment.Opened (promptId : String) (s : Moment) : Prop where
  heard : s.heard = [.dialled (.ok ())]
  connected : s.connected = true
  owes : ∀ a, s.reply = some a → ¬ Finished promptId a → s.Owes promptId

/-- The wait has asked for the record in vain and follows its stream. -/
structure Moment.Listening (promptId : String) (s : Moment)
    (a : Except SendError Response) (fs : List Frame) : Prop where
  heard : s.heard = .dialled (.ok ()) :: .response a :: Replay.frames fs
  connected : s.connected = true
  reply : s.reply = none
  vain : ¬ Finished promptId a
  passed : ∀ f ∈ fs, (judge promptId f).2 = none
  owes : s.Owes promptId

/-- Where the wait stands. -/
inductive Stage (c : Client) (deadline : Deadline) (promptId : String)
    (s : Moment) : Prop where
  | returned (h : s.Returned c deadline promptId)
  | unopened (h : s.Unopened)
  | opened (h : s.Opened promptId)
  | listening (a : Except SendError Response) (fs : List Frame)
      (h : s.Listening promptId a fs)

variable {s s' : Moment}

/-- After an answer without a finished record and frames that settle
nothing, the wait goes on as its stream does. -/
theorem position_listening (deadline : Deadline)
    (h : c.base.user.isSome = false) (ha : ¬ Finished promptId a)
    {fs : List Frame} (hfs : ∀ f ∈ fs, (judge promptId f).2 = none)
    (rest : List Answer) :
    c.position deadline promptId
        (.dialled (.ok ()) :: .response a :: (Replay.frames fs ++ rest))
      = (Replay.listen (judge promptId) rest).heardEnd := by
  rw [position_answered h, recorded?_eq_none_iff.2 ha]
  dsimp only
  rw [Replay.listen_append hfs]

/-- A wait that asks something has not returned. -/
theorem Moment.Wants.not_returned {q : Question}
    (hq : s.Wants c deadline promptId q) :
    ¬ s.Returned c deadline promptId := by
  intro h
  obtain ⟨r, rest, hdone⟩ := h
  unfold Moment.Wants at hq
  rw [hdone] at hq
  cases hq

/-- A wait that asks something stands where it asks that. -/
theorem Stage.of_wants (h : c.base.user.isSome = false)
    (hs : Stage c deadline promptId s) {q : Question}
    (hq : s.Wants c deadline promptId q) :
    match q with
    | .dial _ => s.Unopened
    | .send r => r = c.historyRequest promptId ∧ s.Opened promptId
    | .frame => ∃ a fs, s.Listening promptId a fs := by
  cases hs with
  | returned hdone => exact absurd hdone hq.not_returned
  | unopened hs =>
      unfold Moment.Wants at hq
      rw [hs.heard, position_nil h] at hq
      cases hq
      exact hs
  | opened hs =>
      unfold Moment.Wants at hq
      rw [hs.heard, position_opened h] at hq
      cases hq
      exact ⟨rfl, hs⟩
  | listening a fs hs =>
      have hpos := position_listening deadline h hs.vain hs.passed []
      unfold Moment.Wants at hq
      rw [List.append_nil, ← hs.heard, hq] at hpos
      cases hpos
      exact ⟨a, fs, hs⟩

-- ==== one step

/-- What the wait does not hear of keeps the stage, if the end of the job
stays owed to whoever is connected. -/
theorem Stage.unheard (hs : Stage c deadline promptId s)
    (hheard : s'.heard = s.heard) (hreply : s'.reply = s.reply)
    (hconnected : s.connected = true → s'.connected = true)
    (howes : s.connected = true → s.Owes promptId → s'.Owes promptId) :
    Stage c deadline promptId s' := by
  cases hs with
  | returned hdone =>
      refine .returned ?_
      unfold Moment.Returned
      rw [hheard]
      exact hdone
  | unopened hs =>
      exact .unopened ⟨hheard.trans hs.heard, hreply.trans hs.reply⟩
  | opened hs =>
      refine .opened ⟨hheard.trans hs.heard, hconnected hs.connected, ?_⟩
      intro a ha hvain
      rw [hreply] at ha
      exact howes hs.connected (hs.owes a ha hvain)
  | listening a fs hs =>
      exact .listening a fs ⟨hheard.trans hs.heard, hconnected hs.connected,
        hreply.trans hs.reply, hs.vain, hs.passed,
        howes hs.connected hs.owes⟩

theorem deliver_eq (h : s.connected = true) (f : Frame) :
    s.deliver f = { s with queue := s.queue ++ [f] } := by
  unfold Moment.deliver
  rw [if_pos h]

/-- A frame on the stream takes none of the others away. -/
theorem Stage.deliver (hs : Stage c deadline promptId s) (f : Frame) :
    Stage c deadline promptId (s.deliver f) := by
  by_cases hc : s.connected = true
  · rw [deliver_eq hc]
    refine hs.unheard rfl rfl id fun _ howes hphase => ?_
    obtain ⟨g, hg, hannounces⟩ := howes hphase
    exact ⟨g, List.mem_append_left _ hg, hannounces⟩
  · unfold Moment.deliver
    rw [if_neg hc]
    exact hs

/-- Who is connected gets the announcement. -/
theorem Stage.announce (hs : Stage c deadline promptId s)
    (hf : Announces promptId f) :
    Stage c deadline promptId { s.deliver f with phase := .announced } := by
  by_cases hc : s.connected = true
  · rw [deliver_eq hc]
    refine hs.unheard rfl rfl id fun _ _ _ => ⟨f, ?_, hf⟩
    exact List.mem_append_right _ (List.mem_singleton.2 rfl)
  · unfold Moment.deliver
    rw [if_neg hc]
    exact hs.unheard rfl rfl id fun h => absurd h hc

/-- An answer is in vain only while the job is running, and then its end
is not announced yet. -/
theorem Moment.Opened.answer (hs : s.Opened promptId)
    (htrue : s.phase ≠ .running → Finished promptId a) :
    Moment.Opened promptId { s with reply := some a } := by
  refine ⟨hs.heard, hs.connected, fun a' ha hvain hphase => ?_⟩
  cases ha
  refine absurd (htrue fun hrunning => ?_) hvain
  have hannounced : s.phase = .announced := hphase
  rw [hrunning] at hannounced
  cases hannounced

/-- With the answer the wait returns, or it follows its stream. -/
theorem Moment.Opened.receive (h : c.base.user.isSome = false)
    (hs : s.Opened promptId) (ha : s.reply = some a) :
    Stage c deadline promptId
      { s.hear (.response a) with reply := none } := by
  have hheard : (s.hear (.response a)).heard
      = [.dialled (.ok ()), .response a] := by
    show s.heard ++ _ = _
    rw [hs.heard]
    rfl
  by_cases hfinished : Finished promptId a
  · refine .returned ?_
    obtain ⟨o, ho⟩ := hfinished.recorded
    refine ⟨o.toExcept, [], ?_⟩
    show c.position deadline promptId (s.hear (.response a)).heard = _
    rw [hheard, position_answered h, ho]
  · exact .listening a [] ⟨hheard, hs.connected, rfl,
      hfinished, fun _ hf => absurd hf List.not_mem_nil,
      hs.owes a ha hfinished⟩

/-- With a frame the wait returns, or it goes on to the next; then the
frame was not the one that is owed. -/
theorem Moment.Listening.read (h : c.base.user.isSome = false)
    {fs : List Frame} (hs : s.Listening promptId a fs) {rest : List Frame}
    (hqueue : s.queue = f :: rest) :
    Stage c deadline promptId
      { s.hear (.frame (.ok f)) with queue := rest } := by
  have hheard : (s.hear (.frame (.ok f))).heard
      = .dialled (.ok ()) :: .response a
        :: (Replay.frames fs ++ [.frame (.ok f)]) := by
    show s.heard ++ _ = _
    rw [hs.heard]
    rfl
  cases hjudge : (judge promptId f).2 with
  | some o =>
      refine .returned ⟨heardEnd (.ok o), [], ?_⟩
      show c.position deadline promptId (s.hear (.frame (.ok f))).heard = _
      rw [hheard, position_listening deadline h hs.vain hs.passed,
        Replay.listen_frame, hjudge]
      rfl
  | none =>
      refine .listening a (fs ++ [f]) ⟨?_, hs.connected,
        hs.reply, hs.vain, fun g hg => ?_, fun hphase => ?_⟩
      · rw [Replay.frames, List.map_append]
        exact hheard
      · rcases List.mem_append.1 hg with hg | hg
        · exact hs.passed g hg
        · rw [List.mem_singleton.1 hg]
          exact hjudge
      · obtain ⟨g, hg, hannounces⟩ := hs.owes hphase
        rw [hqueue] at hg
        rcases List.mem_cons.1 hg with rfl | hg
        · obtain ⟨o, ho⟩ := hannounces.settles
          rw [hjudge] at ho
          cases ho
        · exact ⟨g, hg, hannounces⟩

/-- With a user in its address a wait returns at once. -/
theorem returned_of_named (h : c.base.user.isSome = true) (s : Moment) :
    s.Returned c deadline promptId := by
  obtain ⟨r, hr⟩ := position_named h s.heard
  exact ⟨r, _, hr⟩

/-- A wait that goes on has no user in its address. -/
theorem user_of_open (h : ¬ s.Returned c deadline promptId) :
    c.base.user.isSome = false := by
  cases hnamed : c.base.user.isSome with
  | false => rfl
  | true => exact absurd (returned_of_named hnamed s) h

/-- Every step keeps the wait on course. -/
theorem Stage.step (hs : Stage c deadline promptId s)
    (hstep : Step c deadline promptId s s') :
    Stage c deadline promptId s' := by
  cases h : c.base.user.isSome with
  | true => exact .returned (returned_of_named h s')
  | false =>
  cases hstep with
  | record hphase => exact hs.unheard rfl rfl id fun _ _ => nofun
  | announce hphase hf => exact hs.announce hf
  | traffic f => exact hs.deliver f
  | connect hq => exact hs.unheard rfl rfl (fun _ => rfl) fun _ howes => howes
  | opened hq hconnected =>
      have hstart := hs.of_wants h hq
      refine .opened ⟨?_, hconnected, fun a ha => ?_⟩
      · show s.heard ++ _ = _
        rw [hstart.heard]
        rfl
      · have hnone : s.reply = some a := ha
        rw [hstart.reply] at hnone
        cases hnone
  | refused hq e =>
      have hstart := hs.of_wants h hq
      refine .returned ⟨.error (.openStream e), [], ?_⟩
      show c.position deadline promptId (s.heard ++ _) = _
      rw [hstart.heard]
      exact position_refused h e []
  | answer hq hreply a htrue =>
      obtain ⟨hr, hopened⟩ := hs.of_wants h hq
      exact .opened (hopened.answer (htrue hr))
  | receive hq hreply =>
      exact (hs.of_wants h hq).2.receive h hreply
  | read hq hqueue =>
      obtain ⟨a, fs, hlistening⟩ := hs.of_wants h hq
      exact hlistening.read h hqueue
  | broken hq e =>
      obtain ⟨a, fs, hlistening⟩ := hs.of_wants h hq
      refine .returned ⟨heardEnd (.error e), [], ?_⟩
      show c.position deadline promptId (s.heard ++ _) = _
      rw [hlistening.heard]
      exact position_listening deadline h hlistening.vain hlistening.passed
        [.frame (.error e)]

-- ==== every moment

/-- The wait is on course whatever happens. -/
theorem Stage.of_run {phase : Phase}
    (hrun : ReflTransGen (Step c deadline promptId) { phase } s) :
    Stage c deadline promptId s := by
  induction hrun with
  | refl => exact .unopened ⟨rfl, rfl⟩
  | tail _ hstep ih => exact ih.step hstep

/-- A wait whose request was answered hears the answer next or follows
its stream. -/
theorem Stage.of_answer (hs : Stage c deadline promptId s)
    (hopen : ¬ s.Returned c deadline promptId) (ha : s.answer? = some a) :
    (s.Opened promptId ∧ s.reply = some a)
      ∨ ∃ fs, s.Listening promptId a fs := by
  unfold Moment.answer? at ha
  cases hs with
  | returned hdone => exact absurd hdone hopen
  | unopened hs =>
      rw [hs.heard] at ha
      dsimp only at ha
      rw [hs.reply] at ha
      cases ha
  | opened hs =>
      rw [hs.heard] at ha
      exact Or.inl ⟨hs, ha⟩
  | listening a' fs hs =>
      rw [hs.heard] at ha
      cases ha
      exact Or.inr ⟨fs, hs⟩

/-- Once the record was asked for in vain, an announced end is still to
be read, and reading up to it ends the wait. -/
theorem Stage.ahead (hs : Stage c deadline promptId s)
    (hphase : s.phase = .announced) (hopen : ¬ s.Returned c deadline promptId)
    (ha : s.answer? = some a) (hvain : ¬ Finished promptId a) :
    ∃ before f after, s.queue = before ++ f :: after
      ∧ Announces promptId f
      ∧ ∃ r rest, c.position deadline promptId
          (s.heard ++ s.reply.toList.map .response
            ++ Replay.frames (before ++ [f])) = .done r rest := by
  have h := user_of_open hopen
  -- what is left is the same with the answer on its way or heard
  suffices hmain : s.Owes promptId ∧ ∃ fs,
      (∀ f ∈ fs, (judge promptId f).2 = none)
        ∧ s.heard ++ s.reply.toList.map .response
          = .dialled (.ok ()) :: .response a :: Replay.frames fs by
    obtain ⟨howes, fs, hpassed, hheard⟩ := hmain
    obtain ⟨f, hf, hannounces⟩ := howes hphase
    obtain ⟨before, after, hqueue⟩ := List.append_of_mem hf
    obtain ⟨o, ho⟩ := hannounces.settles
    obtain ⟨r, rest, hr⟩ := Replay.listen_settles ho before
    refine ⟨before, f, after, hqueue, hannounces, heardEnd r, rest, ?_⟩
    rw [hheard]
    refine (position_listening deadline h hvain hpassed _).trans ?_
    rw [hr]
    rfl
  rcases hs.of_answer hopen ha with ⟨hs, hreply⟩ | ⟨fs, hs⟩
  · refine ⟨hs.owes a hreply hvain, [], List.forall_mem_nil _, ?_⟩
    rw [hs.heard, hreply]
    rfl
  · refine ⟨hs.owes, fs, hs.passed, ?_⟩
    rw [hs.heard, hs.reply]
    exact List.append_nil _

/-- With the record of a finished job the wait returns. -/
theorem Stage.returns (hs : Stage c deadline promptId s)
    (hopen : ¬ s.Returned c deadline promptId) (ha : s.answer? = some a)
    (hfinished : Finished promptId a) :
    ∃ r rest, c.position deadline promptId
      (s.heard ++ s.reply.toList.map .response) = .done r rest := by
  have h := user_of_open hopen
  rcases hs.of_answer hopen ha with ⟨hs, hreply⟩ | ⟨fs, hs⟩
  · obtain ⟨o, ho⟩ := hfinished.recorded
    refine ⟨o.toExcept, [], ?_⟩
    rw [hs.heard, hreply]
    refine (position_answered h a []).trans ?_
    rw [ho]
  · exact absurd hfinished hs.vain

variable (c deadline promptId) in
/-- A wait never misses the end of its job. In whatever order the job
ends and the wait goes on, and whatever else is sent on the stream, there
is no moment at which the end has been announced, the wait goes on, its
request for the record was answered without one of a finished job, and no
announcement is left to be read. And once the end has been announced and
the request answered, nothing more has to be sent: the wait returns when
it has heard the answer and read some of the frames that are there. -/
theorem wait_never_misses_end {phase : Phase} {s : Moment}
    (hrun : ReflTransGen (Step c deadline promptId) { phase } s) :
    ¬ (s.phase = .announced ∧ ¬ s.Returned c deadline promptId
        ∧ (∃ a, s.answer? = some a ∧ ¬ Finished promptId a)
        ∧ ∀ f ∈ s.queue, ¬ Announces promptId f)
    ∧ (s.phase = .announced → ¬ s.Returned c deadline promptId →
        ∀ a, s.answer? = some a →
        ∃ fs, fs <+: s.queue
          ∧ ∃ r rest, c.position deadline promptId
              (s.heard ++ s.reply.toList.map .response
                ++ Replay.frames fs) = .done r rest) := by
  have hs := Stage.of_run hrun
  refine ⟨fun hlost => ?_, fun hphase hopen a ha => ?_⟩
  · obtain ⟨hphase, hopen, ⟨a, ha, hvain⟩, hnone⟩ := hlost
    obtain ⟨before, f, after, hqueue, hannounces, -⟩ :=
      hs.ahead hphase hopen ha hvain
    refine hnone f ?_ hannounces
    rw [hqueue]
    exact List.mem_append_right _ List.mem_cons_self
  · by_cases hfinished : Finished promptId a
    · obtain ⟨r, rest, hr⟩ := hs.returns hopen ha hfinished
      refine ⟨[], List.nil_prefix, r, rest, ?_⟩
      rw [Replay.frames, List.map_nil, List.append_nil]
      exact hr
    · obtain ⟨before, f, after, hqueue, -, r, rest, hr⟩ :=
        hs.ahead hphase hopen ha hfinished
      refine ⟨before ++ [f], ⟨after, ?_⟩, r, rest, hr⟩
      rw [hqueue, List.append_assoc]
      rfl

/-- The message that nothing is executed any more for a job. -/
def idleText : String :=
  "\x7b\"type\": \"executing\", \"data\": \x7b\"node\": null, "
    ++ "\"prompt_id\": \"p\"\x7d\x7d"

/-- Going idle announces the end. -/
theorem announces_idle : Announces "p" (.text idleText) := by
  have hrun : (StatusMessage.ofText? idleText).any (fun s =>
      s.type == "executing" && s.progress?.any fun p =>
        p.promptId == "p" && p.node.isNone) = true := by
    decide +kernel
  obtain ⟨s, hs, htest⟩ := (Option.any_eq_true _ _).1 hrun
  rw [Bool.and_eq_true, beq_iff_eq, Option.any_eq_true] at htest
  obtain ⟨htype, p, hp, hfields⟩ := htest
  rw [Bool.and_eq_true, beq_iff_eq, Option.isNone_iff_eq_none] at hfields
  exact ⟨idleText, s, rfl, hs, Or.inr ⟨p, hp, hfields.1,
    Or.inl ⟨htype, hfields.2⟩⟩⟩

/-- A client of a server on this machine. -/
def someClient : Client :=
  { base := { scheme := "http", host := "127.0.0.1:8188" }, id := "me" }

/-- The answer that there is no record. -/
def noRecord : Except SendError Response := .ok { status := 404 }

theorem noRecord_vain (promptId : String) : ¬ Finished promptId noRecord := by
  intro h
  obtain ⟨response, record, hok, hsuccess, -⟩ := h
  cases hok
  cases hsuccess

/-- With its stream open, a wait asks for the record. -/
theorem wants_record (phase : Phase) :
    Moment.Wants someClient none "p"
      { phase, connected := true, heard := [.dialled (.ok ())] }
      (.send (someClient.historyRequest "p")) :=
  position_opened rfl

/-- The record is asked for while the job is running, and the job ends
when the answer has just been given; a picture comes before the
announcement. -/
def lateEnd : Moment where
  phase := .announced
  connected := true
  queue := [.binary, .text idleText]
  heard := [.dialled (.ok ()), .response noRecord]

/-- A job that ends during the wait. -/
theorem lateEnd_reached : ReflTransGen (Step someClient none "p")
    { phase := .running } lateEnd := by
  refine .head (.connect (position_nil rfl)) ?_
  refine .head (.opened (position_nil rfl) rfl) ?_
  refine .head (.answer (wants_record .running) rfl noRecord
    fun _ h => absurd rfl h) ?_
  refine .head (.record rfl) ?_
  refine .head (.traffic .binary) ?_
  refine .head (.announce rfl announces_idle) ?_
  exact .single (.receive (position_opened rfl) rfl)

/-- The record of a job that is over. -/
def doneText : String :=
  "\x7b\"p\": \x7b\"status\": \x7b\"completed\": true\x7d\x7d\x7d"

def doneRecord : Except SendError Response := .ok { body := doneText.toUTF8 }

theorem finished_doneRecord : Finished "p" doneRecord := by
  have hrun : (JobRecord.find "p"
      (Text.ofBytes doneText.toUTF8)).toOption.any (·.status.completed)
        = true := by
    decide +kernel
  cases hfind : JobRecord.find "p" (Text.ofBytes doneText.toUTF8) with
  | ok record =>
      rw [hfind] at hrun
      exact ⟨_, record, rfl, by decide, hfind, Or.inr hrun⟩
  | error e =>
      rw [hfind] at hrun
      cases hrun

/-- The job was over before anybody asked, and its record is on the
way. -/
def earlyEnd : Moment where
  phase := .announced
  connected := true
  reply := some doneRecord
  heard := [.dialled (.ok ())]

/-- The job ended before the wait. -/
theorem earlyEnd_reached : ReflTransGen (Step someClient none "p")
    { phase := .announced } earlyEnd := by
  refine .head (.connect (position_nil rfl)) ?_
  refine .head (.opened (position_nil rfl) rfl) ?_
  exact .single (.answer (wants_record .announced) rfl doneRecord
    fun _ _ => finished_doneRecord)

/-- With the late end the wait goes on to its stream, and returns when it
has read the announcement behind the picture at the latest; with the
early one it returns when it hears the answer. -/
theorem wait_never_misses_end_lateEnd :
    (ReflTransGen (Step someClient none "p") { phase := .running } lateEnd
      ∧ ¬ lateEnd.Returned someClient none "p"
      ∧ ¬ Finished "p" noRecord
      ∧ (∃ f ∈ lateEnd.queue, Announces "p" f)
      ∧ ∃ fs, fs <+: lateEnd.queue
        ∧ ∃ r rest, someClient.position none "p"
            (lateEnd.heard ++ Replay.frames fs) = .done r rest)
    ∧ ReflTransGen (Step someClient none "p") { phase := .announced } earlyEnd
      ∧ ¬ earlyEnd.Returned someClient none "p"
      ∧ ∃ r rest, someClient.position none "p"
          (earlyEnd.heard ++ [.response doneRecord]) = .done r rest := by
  have hvain := noRecord_vain "p"
  have hlistening : lateEnd.Wants someClient none "p" .frame :=
    position_listening none rfl hvain (List.forall_mem_nil _) []
  have hlate := hlistening.not_returned
  have hasking : earlyEnd.Wants someClient none "p"
      (.send (someClient.historyRequest "p")) := position_opened rfl
  have hearly := hasking.not_returned
  obtain ⟨hleft, hends⟩ :=
    wait_never_misses_end someClient none "p" lateEnd_reached
  refine ⟨⟨lateEnd_reached, hlate, hvain, ?_, ?_⟩, earlyEnd_reached, hearly,
    ?_⟩
  · by_contra hnone
    refine hleft ⟨rfl, hlate, ⟨noRecord, rfl, hvain⟩, fun f hf hf' => ?_⟩
    exact hnone ⟨f, hf, hf'⟩
  · exact hends rfl hlate noRecord rfl
  · obtain ⟨fs, hfs, hdone⟩ :=
      (wait_never_misses_end someClient none "p" earlyEnd_reached).2 rfl
        hearly doneRecord rfl
    rw [List.prefix_nil.1 hfs] at hdone
    exact hdone

end PromptGraph.Server

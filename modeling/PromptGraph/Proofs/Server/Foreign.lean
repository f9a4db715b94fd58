/-
Traffic that is not for us.

Two streams that differ in foreign frames only lead to the same end of a
wait, with the same news on the way. Following the frames is the same
(`follow_concerning`), so what is left is that nothing else looks at them:
the stream is opened without them (`Rehearsal.dial_cases`), and asking for
the record is the same whatever frames are to come and whatever was told
before (`Rehearsal.Blind`).

What a wait comes to is a matter of its record, of the frames left and of
the end of the stream (`Decided`), in this order.
-/
import PromptGraph.Command.Rehearsal
import PromptGraph.Proofs.Server.Judgement
import PromptGraph.Proofs.Server.Replay

-- ==== blindness

namespace PromptGraph.Rehearsal

open Server (Client)

variable {α β : Type} {x : Rehearsed α}

/-- An action goes on in the world that its first part leaves. -/
theorem run_bind {a : α} {w w₁ : Rehearsal} (h : x.run w = (a, w₁))
    (f : α → Rehearsed β) :
    (x >>= f).run w = (f a).run w₁ := by
  show (f (x.run w).1).run (x.run w).2 = _
  rw [h]

/-- The same world with another stream, and other news told so far. -/
def recast (w : Rehearsal) (stream : Option StreamScript)
    (updates : List Server.Update) : Rehearsal :=
  { w with server := { w.server with stream }, updates }

/-- The action looks neither at the stream nor at what was told, and leaves
both alone. -/
def Blind (x : Rehearsed α) : Prop :=
  ∀ w stream updates, x.run (w.recast stream updates)
    = ((x.run w).1, (x.run w).2.recast stream updates)

namespace Blind

/-- What does nothing is blind. -/
theorem pure (a : α) : Blind (Pure.pure a : Rehearsed α) := fun _ _ _ => rfl

/-- Two blind steps are blind. -/
theorem bind {f : α → Rehearsed β} (hx : Blind x) (hf : ∀ a, Blind (f a)) :
    Blind (x >>= f) := by
  intro w stream updates
  show (f (x.run (w.recast stream updates)).1).run
    (x.run (w.recast stream updates)).2 = _
  rw [hx, hf]
  rfl

/-- A blind step tells no news. -/
theorem updates_eq (hx : Blind x) (w : Rehearsal) :
    (x.run w).2.updates = w.updates := by
  have hself := hx w w.server.stream w.updates
  exact congrArg (fun r => r.2.updates) hself

end Blind

/-- Looking at the clock is blind. -/
theorem blind_interruption (deadline : Deadline) :
    Blind (Clock.interruption deadline) := by
  unfold Clock.interruption
  refine .bind (fun _ _ _ => rfl) fun cancelled => ?_
  split
  · exact .pure _
  · cases deadline with
    | none => exact .pure _
    | some t => exact .bind (fun _ _ _ => rfl) fun _ => .pure _

/-- So is the log. -/
theorem blind_log (line : Log.Line) : Blind (Console.log line) := by
  intro w stream updates
  show ((), if line.passes w.least then _ else _) = ((), recast (if _ then _ else _) _ _)
  split
  · rfl
  · rfl

theorem reply_recast (w : Rehearsal) (stream : Option StreamScript)
    (updates : List Server.Update) (path : String) :
    (w.recast stream updates).server.reply path
      = ({ (w.server.reply path).1 with stream }, (w.server.reply path).2) := by
  show ServerScript.reply { w.server with stream } path = _
  unfold ServerScript.reply
  dsimp only
  split
  · rfl
  · rfl
  · rfl

/-- A request is blind. -/
theorem blind_send (deadline : Deadline) (r : Web.Request) :
    Blind (send deadline r) := by
  unfold send
  refine .bind (blind_interruption deadline) fun stopped => ?_
  cases stopped with
  | some cause => exact .pure _
  | none =>
      refine .bind (fun _ _ _ => rfl) fun _ => ?_
      refine .bind (fun w stream updates => ?_) fun reply => ?_
      · simp only [StateT.run_modifyGet]
        rw [reply_recast]
        rfl
      · cases reply with
        | answer response => exact .pure _
        | failure reason => exact .pure _

/-- So is asking for the record. -/
theorem blind_history (c : Client) (deadline : Deadline) (promptId : String) :
    Blind (c.history deadline promptId) := by
  unfold Client.history Client.ask Client.perform
  refine .bind (.bind (.bind (blind_send _ _) fun answer => ?_) fun _ => .pure _)
    fun body => ?_
  · cases answer with
    | error cause => exact .pure _
    | ok answer =>
        dsimp only
        split
        · exact .pure _
        · exact .pure _
  · cases body with
    | error cause => exact .pure _
    | ok body => exact .pure _

/-- What comes of dialling a stream that is there, in the world after the
clock was looked at. -/
def dialled (address : Web.Address) (script : StreamScript)
    (updates : List Server.Update) :
    Option Interruption × Rehearsal →
      Except Web.SendError StreamScript × Rehearsal
  | (some cause, w) =>
    (.error (.interrupted cause), w.recast (some script) updates)
  | (none, w) =>
    (if script.refused then .error (.failed "websocket: bad handshake")
      else .ok script,
      recast { w with contacts := w.contacts ++ [.dialled address] }
        (some script) updates)

/-- Dialling opens the stream of the script. -/
theorem run_dial (deadline : Deadline) (address : Web.Address) (w : Rehearsal)
    (script : StreamScript) (updates : List Server.Update) :
    (dial deadline address).run (w.recast (some script) updates)
      = dialled address script updates
          ((Clock.interruption deadline : Rehearsed _).run w) := by
  unfold dial
  rw [StateT.run_bind, blind_interruption]
  generalize (Clock.interruption deadline : Rehearsed _).run w = looked
  obtain ⟨stopped, w₁⟩ := looked
  obtain ⟨refused, frames, ending⟩ := script
  cases stopped with
  | some cause => rfl
  | none =>
      cases refused with
      | true => rfl
      | false => rfl

theorem run_clientDial {c : Client} (h : c.base.user.isSome = false)
    {deadline : Deadline} {w w₁ : Rehearsal}
    {r : Except Web.SendError StreamScript}
    (hdial : (dial deadline c.streamAddress).run w = (r, w₁)) :
    (c.dial deadline : Rehearsed _).run w = (r.mapError .openStream, w₁) := by
  unfold Client.dial
  rw [h]
  refine (run_bind hdial _).trans ?_
  cases r with
  | error cause => rfl
  | ok stream => rfl

/-- Opening the stream goes by whether it is refused, not by what it
carries. -/
theorem dial_cases (c : Client) (deadline : Deadline) (w : Rehearsal)
    (refused : Bool) :
    ∃ w₁ : Rehearsal,
      (∃ e, ∀ script updates, script.refused = refused →
        (c.dial deadline : Rehearsed _).run (w.recast (some script) updates)
          = (.error e, w₁.recast (some script) updates))
      ∨ ∀ script updates, script.refused = refused →
          (c.dial deadline : Rehearsed _).run (w.recast (some script) updates)
            = (.ok script, w₁.recast (some script) updates) := by
  cases huser : c.base.user.isSome with
  | true =>
      refine ⟨w, .inl ⟨.openStream (.failed "malformed ws or wss URL"), ?_⟩⟩
      intro script updates _
      unfold Client.dial
      rw [huser]
      rfl
  | false =>
      obtain ⟨stopped, w₁, hlook⟩ : ∃ stopped w₁,
          (Clock.interruption deadline : Rehearsed _).run w = (stopped, w₁) :=
        ⟨_, _, rfl⟩
      have hrun := fun script updates =>
        (run_dial deadline c.streamAddress w script updates).trans
          (congrArg _ hlook)
      cases stopped with
      | some cause =>
          refine ⟨w₁, .inl ⟨.openStream (.interrupted cause), ?_⟩⟩
          intro script updates _
          exact run_clientDial huser (hrun script updates)
      | none =>
          refine ⟨{ w₁ with
            contacts := w₁.contacts ++ [.dialled c.streamAddress] }, ?_⟩
          cases refused with
          | true =>
              refine .inl ⟨.openStream (.failed "websocket: bad handshake"), ?_⟩
              intro script updates hrefused
              rw [run_clientDial huser (hrun script updates), hrefused]
              rfl
          | false =>
              refine .inr ?_
              intro script updates hrefused
              rw [run_clientDial huser (hrun script updates), hrefused]
              rfl

-- ==== listening

open Server (Note Outcome JobRecord judge news heardEnd)

/-- What becomes of a note: an update is told, and a text that is no
message is logged. -/
def hearNote : Note → Rehearsed Unit
  | .update u => hear u
  | .undecodable =>
    Console.log ⟨.debug, "undecodable status message",
      [("error", Text.complaint)]⟩

/-- The notes are told as they come. -/
theorem updates_hearNotes (notes : List Note) (w : Rehearsal) :
    ((notes.forM hearNote).run w).2.updates = w.updates ++ news notes := by
  induction notes generalizing w with
  | nil => exact (List.append_nil _).symm
  | cons n notes ih =>
      obtain ⟨w₁, hfirst⟩ : ∃ w₁, (hearNote n).run w = ((), w₁) := ⟨_, rfl⟩
      show ((hearNote n >>= fun _ => notes.forM hearNote).run w).2.updates = _
      rw [run_bind hfirst, ih]
      cases n with
      | update u =>
          cases hfirst
          exact List.append_assoc _ _ _
      | undecodable =>
          have hupdates : ((hearNote .undecodable).run w).2.updates
              = w.updates := (blind_log _).updates_eq w
          rw [hfirst] at hupdates
          rw [hupdates]
          rfl

/-- How the frames of a stream settle the matter, or how it ends. -/
def settled (promptId : String) (script : StreamScript) :
    Except Web.StreamEnd Outcome :=
  match (Web.follow (judge promptId) script.frames).2 with
  | some o => .ok o
  | none => .error (script.ending.getD (.interrupted .expired))

/-- Listening follows the frames. -/
theorem run_listen (deadline : Deadline) (promptId : String)
    (script : StreamScript) (w : Rehearsal) :
    ∃ w₁, (listen deadline script (judge promptId) hearNote).run w
        = (settled promptId script, w₁)
      ∧ w₁.updates
        = w.updates ++ news (Web.follow (judge promptId) script.frames).1 := by
  unfold listen settled
  obtain ⟨notes, outcome⟩ := Web.follow (judge promptId) script.frames
  dsimp only
  rw [← updates_hearNotes]
  obtain ⟨w₁, hnotes⟩ : ∃ w₁, (notes.forM hearNote).run w = ((), w₁) := ⟨_, rfl⟩
  rw [run_bind hnotes, hnotes]
  cases outcome with
  | some o => exact ⟨_, rfl, rfl⟩
  | none =>
      cases script.ending with
      | some ending => exact ⟨_, rfl, rfl⟩
      | none => exact ⟨_, rfl, rfl⟩

-- ==== waiting

variable {c : Client} {deadline : Deadline} {promptId : String}
  {w w₁ w₂ : Rehearsal} {script : StreamScript}

/-- A wait that cannot dial fails. -/
theorem run_wait_of_error {e : Server.Error}
    (h : (c.dial deadline : Rehearsed _).run w = (.error e, w₁)) :
    (c.wait deadline promptId hear : Rehearsed _).run w = (.error e, w₁) :=
  run_bind h _

/-- A record that says that the job is over is the end of the wait. -/
theorem run_wait_of_finished {record : JobRecord} {o : Outcome}
    (h : (c.dial deadline : Rehearsed _).run w = (.ok script, w₁))
    (hrecord : (c.history deadline promptId : Rehearsed _).run w₁
      = (.ok record, w₂))
    (ho : record.outcome? promptId = some o) :
    (c.wait deadline promptId hear : Rehearsed _).run w = (o.toExcept, w₂) := by
  refine (run_bind h _).trans ((run_bind hrecord _).trans ?_)
  dsimp only
  rw [ho]
  rfl

/-- What is made of the end of a stream. -/
theorem run_heardEnd (r : Except Web.StreamEnd Outcome) (w : Rehearsal) :
    (match r with
      | .ok o => pure o.toExcept
      | .error (.interrupted cause) => pure (.error (.interrupted cause))
      | .error cause => pure (.error (.stream cause)) :
        Rehearsed (Except Server.Error Unit)).run w = (heardEnd r, w) := by
  cases r with
  | ok o => rfl
  | error cause => cases cause <;> rfl

theorem run_listen_bind
    {k : Except Web.StreamEnd Outcome → Rehearsed (Except Server.Error Unit)}
    (hk : ∀ r w, (k r).run w = (heardEnd r, w)) (w : Rehearsal) :
    ∃ w₁, (listen deadline script (judge promptId) hearNote >>= k).run w
        = (heardEnd (settled promptId script), w₁)
      ∧ w₁.updates
        = w.updates ++ news (Web.follow (judge promptId) script.frames).1 := by
  obtain ⟨w₁, hlisten, hupdates⟩ := run_listen deadline promptId script w
  exact ⟨w₁, (run_bind hlisten k).trans (hk _ _), hupdates⟩

/-- A line in the log is no news. -/
theorem run_log_bind {a : α} {us : List Server.Update}
    (hx : ∀ w, ∃ w₁, x.run w = (a, w₁) ∧ w₁.updates = w.updates ++ us)
    (line : Log.Line) (w : Rehearsal) :
    ∃ w₁, ((Console.log line : Rehearsed Unit) >>= fun _ => x).run w = (a, w₁)
      ∧ w₁.updates = w.updates ++ us := by
  obtain ⟨w₁, hx, hupdates⟩ := hx ((Console.log line : Rehearsed Unit).run w).2
  rw [(blind_log line).updates_eq] at hupdates
  exact ⟨w₁, hx, hupdates⟩

/-- Otherwise the stream decides. -/
theorem run_wait_of_unfinished {answer : Except Server.Error JobRecord}
    (h : (c.dial deadline : Rehearsed _).run w = (.ok script, w₁))
    (hrecord : (c.history deadline promptId : Rehearsed _).run w₁
      = (answer, w₂))
    (hopen : ∀ record, answer = .ok record → record.outcome? promptId = none) :
    ∃ w₃, (c.wait deadline promptId hear : Rehearsed _).run w
        = (heardEnd (settled promptId script), w₃)
      ∧ w₃.updates
        = w₂.updates ++ news (Web.follow (judge promptId) script.frames).1 := by
  unfold Client.wait
  rw [run_bind h]
  dsimp only
  rw [run_bind hrecord]
  cases answer with
  | ok record =>
      dsimp only
      rw [hopen record rfl]
      exact run_listen_bind run_heardEnd w₂
  | error e =>
      cases e with
      | unknownJob id => exact run_listen_bind run_heardEnd w₂
      | _ => exact run_log_bind (run_listen_bind run_heardEnd) _ w₂

end PromptGraph.Rehearsal

-- ==== decision

namespace PromptGraph.Server

open Web (Frame StreamEnd)

/-- The answer holds no record, or one of a job that is not over. -/
def Unfinished (answer : Except Error JobRecord) : Prop :=
  ∀ record, answer = .ok record →
    record.status.failed = false ∧ record.status.completed = false

/-- What a wait comes to once its stream is open, and the news on the way.
The record decides if it says that the job is over. If not, the first
frame does that ends the wait, and if there is none, the end of the
stream. -/
inductive Decided (promptId : String) (answer : Except Error JobRecord)
    (frames : List Frame) (close : StreamEnd) :
    Except Error Unit → List Update → Prop
  | failed {record : JobRecord} (h : answer = .ok record)
      (hfailed : record.status.failed = true) :
      Decided promptId answer frames close
        (.error (.failed { promptId, message := record.failureMessage })) []
  | completed {record : JobRecord} (h : answer = .ok record)
      (hfailed : record.status.failed = false)
      (hcompleted : record.status.completed = true) :
      Decided promptId answer frames close (.ok ()) []
  | message {before after : List Frame} {f : Frame} {o : Outcome}
      (hopen : Unfinished answer) (hframes : frames = before ++ f :: after)
      (hbefore : ∀ g ∈ before, ∀ o, ¬ Ends promptId g o)
      (hf : Ends promptId f o) :
      Decided promptId answer frames close o.toExcept
        ((before ++ [f]).flatMap (updatesOf promptId))
  | closed (hopen : Unfinished answer)
      (hframes : ∀ f ∈ frames, ∀ o, ¬ Ends promptId f o) :
      Decided promptId answer frames close (heardEnd (.error close))
        (frames.flatMap (updatesOf promptId))

variable {promptId : String} {answer : Except Error JobRecord}
  {frames : List Frame}

theorem Unfinished.outcome? (h : Unfinished answer) (record : JobRecord)
    (hrecord : answer = .ok record) : record.outcome? promptId = none := by
  obtain ⟨hfailed, hcompleted⟩ := h record hrecord
  unfold JobRecord.outcome?
  simp [hfailed, hcompleted]

/-- A stream has a first frame that ends the wait, or none. -/
theorem exists_first_end (promptId : String) (frames : List Frame) :
    (∀ f ∈ frames, ∀ o, ¬ Ends promptId f o)
      ∨ ∃ before f after o, frames = before ++ f :: after
          ∧ (∀ g ∈ before, ∀ o, ¬ Ends promptId g o) ∧ Ends promptId f o := by
  induction frames with
  | nil => exact .inl fun f hf => absurd hf List.not_mem_nil
  | cons f frames ih =>
      by_cases hends : ∃ o, Ends promptId f o
      · obtain ⟨o, ho⟩ := hends
        refine .inr ⟨[], f, frames, o, rfl, ?_, ho⟩
        exact fun g hg => absurd hg List.not_mem_nil
      · rw [not_exists] at hends
        rcases ih with hnone | ⟨before, g, after, o, rfl, hbefore, ho⟩
        · exact .inl (List.forall_mem_cons.2 ⟨hends, hnone⟩)
        · refine .inr ⟨f :: before, g, after, o, rfl, ?_, ho⟩
          exact List.forall_mem_cons.2 ⟨hends, hbefore⟩

/-- Something decides. -/
theorem exists_decided (promptId : String) (answer : Except Error JobRecord)
    (frames : List Frame) (close : StreamEnd) :
    ∃ r us, Decided promptId answer frames close r us := by
  have hstream : Unfinished answer →
      ∃ r us, Decided promptId answer frames close r us := by
    intro hopen
    rcases exists_first_end promptId frames with
      hnone | ⟨before, f, after, o, hframes, hbefore, ho⟩
    · exact ⟨_, _, .closed hopen hnone⟩
    · exact ⟨_, _, .message hopen hframes hbefore ho⟩
  cases answer with
  | error e => exact hstream fun record h => by cases h
  | ok record =>
      cases hfailed : record.status.failed with
      | true => exact ⟨_, _, .failed rfl hfailed⟩
      | false =>
          cases hcompleted : record.status.completed with
          | true => exact ⟨_, _, .completed rfl hfailed hcompleted⟩
          | false =>
              refine hstream fun record' h => ?_
              cases h
              exact ⟨hfailed, hcompleted⟩

open Rehearsal (hear recast settled)

variable {c : Client} {deadline : Deadline} {w w₁ w₂ : Rehearsal}
  {script : StreamScript}

variable {r : Except Error Unit} {us : List Update}

/-- A wait comes to what is decided by its record and by the frames that
concern it. -/
theorem run_wait_of_decided
    (hdial : (c.dial deadline : Rehearsed _).run w = (.ok script, w₁))
    (hrecord : (c.history deadline promptId : Rehearsed _).run w₁
      = (answer, w₂))
    (h : Decided promptId answer (concerning promptId script.frames)
      (script.ending.getD (.interrupted .expired)) r us) :
    ∃ w₃, (c.wait deadline promptId hear : Rehearsed _).run w = (r, w₃)
      ∧ w₃.updates = w₂.updates ++ us := by
  obtain ⟨hend, hnews⟩ := follow_concerning promptId script.frames
  cases h with
  | failed h hfailed =>
      subst h
      refine ⟨w₂, ?_, (List.append_nil _).symm⟩
      refine Rehearsal.run_wait_of_finished hdial hrecord (o := .failed _) ?_
      unfold JobRecord.outcome?
      rw [if_pos hfailed]
  | completed h hfailed hcompleted =>
      subst h
      refine ⟨w₂, ?_, (List.append_nil _).symm⟩
      refine Rehearsal.run_wait_of_finished hdial hrecord (o := .done) ?_
      unfold JobRecord.outcome?
      simp [hfailed, hcompleted]
  | message hopen hframes hbefore hf =>
      obtain ⟨w₃, hwait, hupdates⟩ :=
        Rehearsal.run_wait_of_unfinished hdial hrecord hopen.outcome?
      refine ⟨w₃, ?_, ?_⟩
      · rw [hwait, settled, ← hend, hframes, (follow_append hbefore _).1,
          follow_ends _ hf]
        rfl
      · rw [hupdates, ← hnews, hframes, (follow_append hbefore _).2,
          follow_ends _ hf, news_judge, List.flatMap_append]
        simp
  | closed hopen hframes =>
      obtain ⟨w₃, hwait, hupdates⟩ :=
        Rehearsal.run_wait_of_unfinished hdial hrecord hopen.outcome?
      have hall := follow_append hframes []
      rw [List.append_nil] at hall
      refine ⟨w₃, ?_, ?_⟩
      · rw [hwait, settled, ← hend, hall.1]
        rfl
      · rw [hupdates, ← hnews, hall.2]
        rw [show news (Web.follow (judge promptId) []).1 = [] from rfl,
          List.append_nil]

-- ==== two streams

/-- The script of a stream with these frames. -/
def carrying (script : StreamScript) (frames : List Frame) : StreamScript :=
  { script with frames }

/-- The world in which the stream carries these frames. -/
def streaming (w : Rehearsal) (script : StreamScript) (frames : List Frame) :
    Rehearsal :=
  { w with server := { w.server with stream := some (carrying script frames) } }

/-- Waiting for a job in that world. -/
def waited (c : Client) (deadline : Deadline) (promptId : String)
    (w : Rehearsal) (script : StreamScript) (frames : List Frame) :
    Except Error Unit × Rehearsal :=
  (c.wait deadline promptId hear : Rehearsed _).run (streaming w script frames)

/-- What decides a wait once its stream was opened in the world `w₁`. -/
def Decides (c : Client) (deadline : Deadline) (promptId : String)
    (w₁ : Rehearsal) (script : StreamScript) (frames : List Frame) :
    Except Error Unit → List Update → Prop :=
  Decided promptId ((c.history deadline promptId : Rehearsed _).run w₁).1
    (concerning promptId frames) (script.ending.getD (.interrupted .expired))

/-- The frames that a stream carries do not matter for opening it. -/
theorem refused_or_opened (c : Client) (deadline : Deadline) (w : Rehearsal)
    (script : StreamScript) :
    ∃ w₁ : Rehearsal,
      (∃ e, ∀ fs, (c.dial deadline : Rehearsed _).run (streaming w script fs)
        = (.error e, w₁.recast (some (carrying script fs)) w.updates))
      ∨ ∀ fs, (c.dial deadline : Rehearsed _).run (streaming w script fs)
        = (.ok (carrying script fs),
            w₁.recast (some (carrying script fs)) w.updates) := by
  obtain ⟨w₁, ⟨e, hdial⟩ | hdial⟩ :=
    Rehearsal.dial_cases c deadline w script.refused
  · exact ⟨w₁, .inl ⟨e, fun fs => hdial (carrying script fs) w.updates rfl⟩⟩
  · exact ⟨w₁, .inr fun fs => hdial (carrying script fs) w.updates rfl⟩

theorem decides_recast {stream : Option StreamScript} {updates : List Update} :
    Decides c deadline promptId (w₁.recast stream updates) script frames r us
      ↔ Decides c deadline promptId w₁ script frames r us := by
  unfold Decides
  rw [Rehearsal.blind_history c deadline promptId w₁ stream updates]

theorem waited_of_decides
    (hdial : (c.dial deadline : Rehearsed _).run (streaming w script frames)
      = (.ok (carrying script frames),
          w₁.recast (some (carrying script frames)) w.updates))
    (h : Decides c deadline promptId w₁ script frames r us) :
    (waited c deadline promptId w script frames).1 = r
      ∧ (waited c deadline promptId w script frames).2.updates
        = w.updates ++ us := by
  obtain ⟨w₃, hwait, hupdates⟩ := run_wait_of_decided hdial
    (Rehearsal.blind_history c deadline promptId w₁ _ _) h
  rw [show waited c deadline promptId w script frames = _ from hwait]
  exact ⟨rfl, hupdates⟩

/-- Streams that differ in foreign frames only make no difference: a wait
ends in the same way and the same news is told. If the stream cannot be
opened, that is the end. If it can, the end and the news are what is
decided, and nothing else: by the record, by the first of the frames left
that ends the wait, or by the end of the stream. -/
theorem foreign_frames_ignored (c : Client) (deadline : Deadline)
    (promptId : String) (w : Rehearsal) (script : StreamScript)
    (frames : List Frame) :
    let heard := waited c deadline promptId w script
    (∀ frames', concerning promptId frames' = concerning promptId frames →
      (heard frames').1 = (heard frames).1
        ∧ (heard frames').2.updates = (heard frames).2.updates)
    ∧ (∀ e w₁, (c.dial deadline : Rehearsed _).run (streaming w script frames)
          = (.error e, w₁) →
        (heard frames).1 = .error e ∧ (heard frames).2.updates = w.updates)
    ∧ ∀ stream w₁,
        (c.dial deadline : Rehearsed _).run (streaming w script frames)
          = (.ok stream, w₁) →
        ∀ r us, Decides c deadline promptId w₁ script frames r us
          ↔ (heard frames).1 = r
            ∧ (heard frames).2.updates = w.updates ++ us := by
  intro heard
  obtain ⟨w₁, ⟨e, hrefused⟩ | hopened⟩ := refused_or_opened c deadline w script
  · have hheard : ∀ fs, heard fs
        = (.error e, w₁.recast (some (carrying script fs)) w.updates) :=
      fun fs => Rehearsal.run_wait_of_error (hrefused fs)
    refine ⟨fun frames' _ => ?_, fun e' w₁' h => ?_, fun stream w₁' h => ?_⟩
    · rw [hheard, hheard]
      exact ⟨rfl, rfl⟩
    · rw [hrefused] at h
      cases h
      rw [hheard]
      exact ⟨rfl, rfl⟩
    · rw [hrefused] at h
      cases h
  · obtain ⟨r, us, hdecides⟩ : ∃ r us,
        Decides c deadline promptId w₁ script frames r us :=
      exists_decided _ _ _ _
    obtain ⟨hr, hus⟩ := waited_of_decides (hopened frames) hdecides
    refine ⟨fun frames' hsame => ?_, fun e' w₁' h => ?_,
      fun stream w₁' h r' us' => ?_⟩
    · rw [Decides, ← hsame] at hdecides
      obtain ⟨hr', hus'⟩ := waited_of_decides (hopened frames') hdecides
      exact ⟨hr'.trans hr.symm, hus'.trans hus.symm⟩
    · rw [hopened] at h
      cases h
    · rw [hopened] at h
      cases h
      rw [decides_recast]
      constructor
      · exact waited_of_decides (hopened frames)
      · rintro ⟨hr', hus'⟩
        -- what is decided is what was heard, so it is the same
        rw [← hr', ← List.append_cancel_left (hus.symm.trans hus'), hr]
        exact hdecides

/-- A job that works on a node and is done. -/
def quietFrames : List Frame :=
  [.text ("\x7b\"type\": \"executing\", "
      ++ "\"data\": \x7b\"prompt_id\": \"p1\", \"node\": \"5\"\x7d\x7d"),
    .text "\x7b\"type\": \"execution_success\", \"data\": \x7b\"prompt_id\": \"p1\"\x7d\x7d"]

/-- A picture, a text that is no message, data that cannot be read and the
end of another job. -/
def strayFrames : List Frame :=
  [.binary, .text "nope",
    .text "\x7b\"type\": \"executing\", \"data\": \x7b\"prompt_id\": 5\x7d\x7d",
    .text "\x7b\"type\": \"execution_error\", \"data\": \x7b\"prompt_id\": \"p2\"\x7d\x7d",
    .text "\x7b\"type\": \"execution_success\", \"data\": \x7b\"prompt_id\": \"p2\"\x7d\x7d"]

def strayClient : Client where
  base := { scheme := "http", host := "srv:1" }
  id := "c"

/-- What is heard of the job, with no record of it on the server. -/
def strayHeard (frames : List Frame) : Except Error Unit × Rehearsal :=
  waited strayClient none "p1" {} {} frames

/-- The end of the one job is not taken for that of the other. -/
theorem foreign_frames_ignored_stray :
    concerning "p1" (strayFrames ++ quietFrames) = concerning "p1" quietFrames
      ∧ (strayHeard quietFrames).1.toOption = some ()
      ∧ (strayHeard quietFrames).2.updates.map (·.node) = ["5", ""]
      ∧ (strayHeard (strayFrames ++ quietFrames)).1
        = (strayHeard quietFrames).1
      ∧ (strayHeard (strayFrames ++ quietFrames)).2.updates
        = (strayHeard quietFrames).2.updates := by
  have hstray : concerning "p1" strayFrames = [] := by decide +kernel
  have hsame : concerning "p1" (strayFrames ++ quietFrames)
      = concerning "p1" quietFrames := by
    unfold concerning at hstray ⊢
    rw [List.filter_append, hstray, List.nil_append]
  refine ⟨hsame, by decide +kernel, by decide +kernel, ?_⟩
  obtain ⟨hignored, -⟩ :=
    foreign_frames_ignored strayClient none "p1" {} {} quietFrames
  unfold strayHeard
  exact hignored (strayFrames ++ quietFrames) hsame

end PromptGraph.Server

/-
What a frame of the status stream means for the job that is waited for.

All that a frame can do is to bring news (`updatesOf`) and to end the wait
(`Ends`); both are said of the message in it, and judging it finds exactly
that (`news_judge`, `judge_eq_some_iff`). The stream of a server carries
pictures, the state of the queue and the messages of all its jobs, so most
frames do neither. Those that cannot be read, or name another job, are
foreign (`isForeign`), and following a stream is the same without them
(`follow_concerning`).
-/
import PromptGraph.Server.Wait

namespace PromptGraph.Server

open Web (Frame)

-- ==== frames

/-- The id of the job that a message is about, if its data can be read. -/
def StatusMessage.promptId? (s : StatusMessage) : Option String :=
  if s.type = "execution_error" then s.failure?.map (·.promptId)
  else s.progress?.map (·.promptId)

/-- The frame is no message that can be read, or it names another job. -/
def isForeign (promptId : String) : Frame → Bool
  | .binary => true
  | .text content =>
    match StatusMessage.ofText? content with
    | none => true
    | some s =>
      match s.promptId? with
      | none => true
      | some id => id ≠ "" && id ≠ promptId

/-- The frames that are left without the foreign ones. -/
def concerning (promptId : String) (fs : List Frame) : List Frame :=
  fs.filter fun f => !isForeign promptId f

/-- How a message ends the wait for a job. A stop that names no job
concerns everybody. -/
inductive MessageEnds (promptId : String) (s : StatusMessage) : Outcome → Prop
  | failed {failure : ExecutionFailure} (htype : s.type = "execution_error")
      (h : s.failure? = some failure) (hid : failure.promptId = promptId) :
      MessageEnds promptId s (.failed failure)
  | idle {p : Progress} (htype : s.type = "executing")
      (h : s.progress? = some p) (hid : p.promptId = promptId)
      (hnode : p.node = none) : MessageEnds promptId s .done
  | success {p : Progress} (htype : s.type = "execution_success")
      (h : s.progress? = some p) (hid : p.promptId = promptId) :
      MessageEnds promptId s .done
  | stopped {p : Progress} (htype : s.type = "execution_interrupted")
      (h : s.progress? = some p)
      (hid : p.promptId = "" ∨ p.promptId = promptId) :
      MessageEnds promptId s .stopped

/-- The frame ends the wait for a job. -/
def Ends (promptId : String) (f : Frame) (o : Outcome) : Prop :=
  ∃ content s, f = .text content ∧ StatusMessage.ofText? content = some s
    ∧ MessageEnds promptId s o

/-- The news of a job that a frame brings. -/
def updatesOf (promptId : String) : Frame → List Update
  | .binary => []
  | .text content =>
    match StatusMessage.ofText? content with
    | none => []
    | some s =>
      match s.progress? with
      | none => []
      | some p =>
        if s.type ≠ "execution_error" ∧ s.type ≠ "status"
            ∧ (p.promptId = "" ∨ p.promptId = promptId) then
          [.of s.type p]
        else []

-- ==== judgement

/-- The updates among some notes. -/
def news (notes : List Note) : List Update :=
  notes.filterMap fun
    | .update u => some u
    | .undecodable => none

variable {promptId : String}

theorem news_append (notes later : List Note) :
    news (notes ++ later) = news notes ++ news later :=
  List.filterMap_append

variable {s : StatusMessage}

/-- A message is judged by its content. -/
theorem judge_text {content : String}
    (h : StatusMessage.ofText? content = some s) :
    judge promptId (.text content) = judgeMessage promptId s := by
  unfold judge
  dsimp only
  rw [h]

/-- One that cannot be read is noted. -/
theorem judge_undecodable {content : String}
    (h : StatusMessage.ofText? content = none) :
    judge promptId (.text content) = ([.undecodable], none) := by
  unfold judge
  dsimp only
  rw [h]

/-- A failure ends the wait for its job. -/
theorem judgeMessage_of_error (h : s.type = "execution_error") :
    judgeMessage promptId s
      = ([], s.failure?.bind fun failure =>
          if failure.promptId = promptId then some (.failed failure)
          else none) := by
  unfold judgeMessage
  rw [if_pos h]
  cases s.failure? with
  | none => rfl
  | some failure =>
      dsimp only [Option.bind_some]
      split
      · rfl
      · rfl

/-- Progress of the job is told. -/
theorem judgeMessage_of_progress {p : Progress}
    (h : s.type ≠ "execution_error") (hp : s.progress? = some p)
    (hid : p.promptId = "" ∨ p.promptId = promptId) :
    judgeMessage promptId s
      = (if s.type = "status" then [] else [.update (.of s.type p)],
          ending promptId s.type p) := by
  unfold judgeMessage
  rw [if_neg h, hp]
  dsimp only
  rw [if_neg]
  rcases hid with hid | hid
  · simp [hid]
  · simp [hid]

/-- That of another is not. -/
theorem judgeMessage_of_foreign (h : s.type ≠ "execution_error")
    (hforeign : ∀ p, s.progress? = some p →
      ¬ (p.promptId = "" ∨ p.promptId = promptId)) :
    judgeMessage promptId s = ([], none) := by
  unfold judgeMessage
  rw [if_neg h]
  cases hp : s.progress? with
  | none => rfl
  | some p =>
      dsimp only
      rw [if_pos]
      have hid := hforeign p hp
      simpa using hid

variable {o : Outcome}

/-- An ending message ends the wait. -/
theorem messageEnds_of_ending {p : Progress} (hp : s.progress? = some p)
    (hid : p.promptId = "" ∨ p.promptId = promptId)
    (h : ending promptId s.type p = some o) : MessageEnds promptId s o := by
  unfold ending at h
  split at h
  · next htype =>
    rw [Option.ite_none_right_eq_some] at h
    obtain ⟨hboth, ho⟩ := h
    obtain ⟨hnode, hid⟩ := Bool.and_eq_true_iff.1 hboth
    cases ho
    exact .idle htype hp (of_decide_eq_true hid)
      (Option.isNone_iff_eq_none.1 hnode)
  · next htype =>
    rw [Option.ite_none_right_eq_some] at h
    obtain ⟨hid, ho⟩ := h
    cases ho
    exact .success htype hp hid
  · next htype =>
    cases h
    exact .stopped htype hp hid
  · cases h

/-- A message is judged to end the wait exactly if it does. -/
theorem judgeMessage_eq_some_iff :
    (judgeMessage promptId s).2 = some o ↔ MessageEnds promptId s o := by
  constructor
  · intro h
    by_cases htype : s.type = "execution_error"
    · rw [judgeMessage_of_error htype] at h
      obtain ⟨failure, hfailure, h⟩ := Option.bind_eq_some_iff.1 h
      rw [Option.ite_none_right_eq_some] at h
      obtain ⟨hid, ho⟩ := h
      cases ho
      exact .failed htype hfailure hid
    · by_cases hours : ∃ p, s.progress? = some p
          ∧ (p.promptId = "" ∨ p.promptId = promptId)
      · obtain ⟨p, hp, hid⟩ := hours
        rw [judgeMessage_of_progress htype hp hid] at h
        exact messageEnds_of_ending hp hid h
      · rw [judgeMessage_of_foreign htype
          fun p hp hid => hours ⟨p, hp, hid⟩] at h
        cases h
  · intro h
    cases h with
    | failed htype hfailure hid =>
        rw [judgeMessage_of_error htype, hfailure]
        exact if_pos hid
    | idle htype hp hid hnode =>
        rw [judgeMessage_of_progress (by rw [htype]; decide) hp (.inr hid), htype]
        simp [ending, hnode, hid]
    | success htype hp hid =>
        rw [judgeMessage_of_progress (by rw [htype]; decide) hp (.inr hid), htype]
        simp [ending, hid]
    | stopped htype hp hid =>
        rw [judgeMessage_of_progress (by rw [htype]; decide) hp hid, htype]
        rfl

variable {f : Frame}

/-- A frame is judged to end the wait if it does. -/
theorem judge_eq_some_iff :
    (judge promptId f).2 = some o ↔ Ends promptId f o := by
  constructor
  · intro h
    cases f with
    | binary => cases h
    | text content =>
        cases hs : StatusMessage.ofText? content with
        | none =>
            rw [judge_undecodable hs] at h
            cases h
        | some s =>
            rw [judge_text hs] at h
            exact ⟨content, s, rfl, hs, judgeMessage_eq_some_iff.1 h⟩
  · rintro ⟨content, s, rfl, hs, hends⟩
    rw [judge_text hs]
    exact judgeMessage_eq_some_iff.2 hends

/-- Otherwise the wait goes on. -/
theorem judge_eq_none_iff :
    (judge promptId f).2 = none ↔ ∀ o, ¬ Ends promptId f o := by
  rw [Option.eq_none_iff_forall_ne_some]
  exact forall_congr' fun o => not_congr judge_eq_some_iff

/-- The updates that a frame is judged to bring are its news. -/
theorem news_judge (f : Frame) :
    news (judge promptId f).1 = updatesOf promptId f := by
  cases f with
  | binary => rfl
  | text content =>
      unfold updatesOf
      dsimp only
      cases hs : StatusMessage.ofText? content with
      | none =>
          rw [judge_undecodable hs]
          rfl
      | some s =>
          rw [judge_text hs]
          dsimp only
          by_cases htype : s.type = "execution_error"
          · rw [judgeMessage_of_error htype]
            cases s.progress? with
            | none => rfl
            | some p => simp [htype, news]
          · cases hp : s.progress? with
            | none =>
                rw [judgeMessage_of_foreign htype (by simp [hp])]
                rfl
            | some p =>
                by_cases hid : p.promptId = "" ∨ p.promptId = promptId
                · rw [judgeMessage_of_progress htype hp hid]
                  by_cases hstatus : s.type = "status"
                  · simp [hstatus, news]
                  · simp [htype, hstatus, hid, news]
                · rw [judgeMessage_of_foreign htype
                    (by rw [hp]; rintro q ⟨⟩; exact hid)]
                  simp [hid, news]

/-- A foreign frame does not end the wait. -/
theorem not_ends_of_isForeign (h : isForeign promptId f = true) (o : Outcome) :
    ¬ Ends promptId f o := by
  rintro ⟨content, s, rfl, hs, hends⟩
  unfold isForeign at h
  dsimp only at h
  rw [hs] at h
  dsimp only at h
  unfold StatusMessage.promptId? at h
  cases hends with
  | failed htype hfailure hid => simp [htype, hfailure, hid] at h
  | idle htype hp hid _ => simp [htype, hp, hid] at h
  | success htype hp hid => simp [htype, hp, hid] at h
  | stopped htype hp hid =>
      rcases hid with hid | hid
      · simp [htype, hp, hid] at h
      · simp [htype, hp, hid] at h

/-- A foreign frame is no news. -/
theorem updatesOf_of_isForeign (h : isForeign promptId f = true) :
    updatesOf promptId f = [] := by
  cases f with
  | binary => rfl
  | text content =>
      unfold updatesOf
      unfold isForeign at h
      dsimp only at h ⊢
      cases hs : StatusMessage.ofText? content with
      | none => rfl
      | some s =>
          rw [hs] at h
          dsimp only at h ⊢
          cases hp : s.progress? with
          | none => rfl
          | some p =>
              dsimp only
              rw [if_neg]
              rintro ⟨htype, -, hid⟩
              unfold StatusMessage.promptId? at h
              rcases hid with hid | hid
              · simp [htype, hp, hid] at h
              · simp [htype, hp, hid] at h

-- ==== following

/-- A frame that does not end it is passed. -/
theorem follow_cons (fs : List Frame) (h : ∀ o, ¬ Ends promptId f o) :
    Web.follow (judge promptId) (f :: fs)
      = ((judge promptId f).1 ++ (Web.follow (judge promptId) fs).1,
          (Web.follow (judge promptId) fs).2) := by
  have hnone := judge_eq_none_iff.2 h
  rw [Web.follow]
  split
  · next notes o heq =>
    rw [heq] at hnone
    cases hnone
  · next notes heq => rw [heq]

/-- One that ends it is the last. -/
theorem follow_ends (fs : List Frame) (h : Ends promptId f o) :
    Web.follow (judge promptId) (f :: fs) = ((judge promptId f).1, some o) := by
  have hsome := judge_eq_some_iff.2 h
  rw [Web.follow]
  split
  · next notes o' heq =>
    rw [heq] at hsome ⊢
    exact congrArg _ hsome
  · next notes heq =>
    rw [heq] at hsome
    cases hsome

/-- Frames that do not end the wait are passed over, and their news is
told. -/
theorem follow_append {before : List Frame}
    (h : ∀ f ∈ before, ∀ o, ¬ Ends promptId f o) (fs : List Frame) :
    (Web.follow (judge promptId) (before ++ fs)).2
        = (Web.follow (judge promptId) fs).2
      ∧ news (Web.follow (judge promptId) (before ++ fs)).1
        = before.flatMap (updatesOf promptId)
          ++ news (Web.follow (judge promptId) fs).1 := by
  induction before with
  | nil => exact ⟨rfl, rfl⟩
  | cons f before ih =>
      obtain ⟨hend, hnews⟩ := ih fun g hg => h g (List.mem_cons_of_mem f hg)
      rw [List.cons_append, follow_cons _ (h f List.mem_cons_self)]
      refine ⟨hend, ?_⟩
      rw [news_append, hnews, news_judge, List.flatMap_cons, List.append_assoc]

/-- Foreign frames make no difference. -/
theorem follow_concerning (promptId : String) (fs : List Frame) :
    (Web.follow (judge promptId) (concerning promptId fs)).2
        = (Web.follow (judge promptId) fs).2
      ∧ news (Web.follow (judge promptId) (concerning promptId fs)).1
        = news (Web.follow (judge promptId) fs).1 := by
  induction fs with
  | nil => exact ⟨rfl, rfl⟩
  | cons f fs ih =>
      unfold concerning at ih ⊢
      by_cases hforeign : isForeign promptId f = true
      · rw [List.filter_cons_of_neg (by simp [hforeign]),
          follow_cons fs (not_ends_of_isForeign hforeign), news_append, news_judge,
          updatesOf_of_isForeign hforeign]
        exact ih
      · rw [List.filter_cons_of_pos (by simp [hforeign])]
        by_cases hends : ∃ o, Ends promptId f o
        · obtain ⟨o, ho⟩ := hends
          rw [follow_ends _ ho, follow_ends _ ho]
          exact ⟨rfl, rfl⟩
        · rw [not_exists] at hends
          rw [follow_cons _ hends, follow_cons _ hends, news_append, news_append,
            ih.2]
          exact ⟨ih.1, rfl⟩

end PromptGraph.Server

import HeyNilo.VoiceStop
import HeyNilo.VoiceTranscribing

namespace HeyNilo

/-- The states of a question that is worked on. -/
def PipelineState.isBusy : PipelineState → Bool
  | .transcribing | .thinking | .speaking => true
  | _ => false

namespace VoicePipeline

open Machine

/-- Since when the pipeline listens for the next question: the coroutines of the questions before,
by their ids, and whether one of them has moved the state on. -/
structure NextQuery where
  isOpen : Bool
  old : List Nat
  hijacked : Bool
deriving DecidableEq, Repr

/-- The coroutine returns to `LISTENING` after an answer: the completion wait, a restart or
`restartForNewQuestion`. -/
def Task.returns : Task → Bool
  | .completionWait | .restartDelay _ | .recordingDelay (.restart _) => true
  | .newQuestion | .newQuestionDelay | .recordingDelay .newQuestion => true
  | _ => false

/-- The step changes the state to one of a question that is worked on. -/
def movesState (s t : VoicePipeline) : Bool := s.movesTo t PipelineState.isBusy

/-- The history of a step: it opens the wait for the next question, closes it with a
`SPEECH_START`, and finds the coroutines that an old one launched. -/
def NextQuery.next (q : NextQuery) (s : VoicePipeline) (e : Event) : NextQuery :=
  match s.step e with
  | none => q
  | some t =>
    match e with
    | .frame frame =>
      { q with isOpen := q.isOpen && !(s.reachesVAD frame && frame.vad = .speechStart) }
    | .run i outcome =>
      match s.jobs[i]? with
      | none => q
      | some job =>
        let isOld := job.id ∈ q.old
        let hijacked := q.hijacked || (q.isOpen && isOld && s.movesState t)
        if !job.cancelled && job.task.returns && s.taskListens job.task outcome then
          { isOpen := true, old := t.jobs.map Job.id, hijacked := hijacked }
        else
          let launched := t.jobs.filter fun other => s.nextId ≤ other.id
          { q with
            old := if isOld then q.old ++ launched.map Job.id else q.old
            hijacked := hijacked }
    | _ => q

/-- The pipeline with the history of its returns to `LISTENING`. -/
def listenNext : VoicePipeline × NextQuery → Event → Option (VoicePipeline × NextQuery) :=
  withHistory step NextQuery.next

/-- No step of an earlier question has moved the state while the pipeline waits for the next. -/
def NotHijacked (c : VoicePipeline × NextQuery) : Prop := c.2.hijacked = false

instance (c : VoicePipeline × NextQuery) : Decidable (NotHijacked c) :=
  inferInstanceAs (Decidable (_ = _))

/-- The step of a coroutine goes to a state of a question that is worked on. -/
def taskMoves (s : VoicePipeline) : Task → Outcome → Bool
  | .stt point, .resume _ => !s.sttStays point && s.currentState ≠ .thinking
  | .provider point, outcome => !s.providerStays point outcome && s.currentState ≠ .speaking
  | .legacy point, outcome => !s.legacyStays point outcome && s.currentState ≠ .speaking
  | .reinitTTS, .resume answers =>
    answers.reinitSuccess && s.speaks answers.ttsReady && s.currentState ≠ .speaking
  | _, _ => false

/-- The steps of earlier questions that move the state while the pipeline waits for the next. -/
def hijacks (s : VoicePipeline) (q : NextQuery) : Event → Bool
  | .run i outcome =>
    match s.jobs[i]? with
    | some job =>
      q.isOpen && (job.id ∈ q.old) && (!job.cancelled && s.taskMoves job.task outcome)
    | none => false
  | _ => false

/-- Whether some acts enter, from a state, another one of a question that is worked on. -/
abbrev entersBusy : PipelineState → List Act → Bool := enters PipelineState.isBusy

section Busy

variable {s t : VoicePipeline} {state : PipelineState} {as bs : List Act}

theorem movesState_of_acts (hopen : s.isListeningForNextQuery = false)
    (ht : t.core = s.core.acts as) : s.movesState t = entersBusy s.currentState as :=
  movesTo_of_acts hopen ht PipelineState.isBusy

theorem entersBusy_quiet (h : Only Act.isQuiet as) : entersBusy state as = false := by
  induction as generalizing state with
  | nil => rfl
  | cons a as ih =>
    obtain ⟨ha, has⟩ := List.forall_mem_cons.mp h
    cases a with
    | enter newState =>
      show (newState.isBusy && decide (state ≠ newState) || entersBusy newState as) = false
      rw [ih has, Bool.or_false]
      cases newState <;> first | rfl | cases ha
    | _ => exact ih has

theorem entersBusy_append_quiet (h : Only Act.isQuiet bs) :
    entersBusy state (as ++ bs) = entersBusy state as := by
  induction as generalizing state with
  | nil => exact entersBusy_quiet h
  | cons a as ih =>
    cases a with
    | enter newState =>
      show (_ || entersBusy newState (as ++ bs)) = (_ || entersBusy newState as)
      rw [ih]
    | _ => exact ih

theorem entersBusy_startStreamingTTSActs (ready : Bool) :
    entersBusy state (s.startStreamingTTSActs ready) =
      (s.speaks ready && decide (state ≠ .speaking)) := by
  unfold startStreamingTTSActs speaks ttsIdle
  split
  next hactive => simp [hactive, entersBusy, enters]
  next hactive =>
    split
    next hready => simp_all [entersBusy, enters]
    next hready =>
      split
      next hstreaming => simp [hstreaming, entersBusy, enters]
      next hstreaming => simp_all [entersBusy, enters, PipelineState.isBusy]

theorem entersBusy_answerActs (ready : Bool) :
    entersBusy state (s.answerActs ready) = (s.speaks ready && decide (state ≠ .speaking)) := by
  unfold answerActs
  split
  next => exact entersBusy_startStreamingTTSActs ready
  next hidle => simp [speaks, hidle, entersBusy, enters]

theorem entersBusy_safetyNetActs (answers : Answers) (rest : AfterBlank) :
    entersBusy state (s.safetyNetActs answers rest) =
      (!(isBlank s.finalBubbleText || !s.speaks answers.ttsReady) && decide (state ≠ .speaking)) := by
  unfold safetyNetActs
  split
  next hblank => simp [hblank, entersBusy_quiet (quiet_restartListeningActs _)]
  next hblank =>
    dsimp only
    rw [entersBusy_append_quiet (quiet_afterRestartActs _), entersBusy_answerActs,
      eq_false_of_ne_true hblank]
    simp

theorem entersBusy_resumeSTTActs (point : SttPoint) (outcome : Outcome) :
    entersBusy s.currentState (s.resumeSTTActs point outcome) =
      s.taskMoves (.stt point) outcome := by
  have hquiet {as : List Act} (h : Only Act.isQuiet as) : entersBusy s.currentState as = false :=
    entersBusy_quiet h
  cases point with
  | transcribe =>
    have hacts : Only Act.isQuiet (s.resumeSTTActs .transcribe outcome) := by
      cases outcome with
      | transcription text => exact .ite (quiet_restartListeningActs _) .nil
      | throws => exact .of_all rfl
      | _ => exact .nil
    rw [hquiet hacts]
    cases outcome <;> rfl
  | transcribed text =>
    cases outcome with
    | resume answers =>
      show entersBusy s.currentState (if s.hasQueue then _ else _) =
        (!!s.hasQueue && decide (s.currentState ≠ .thinking))
      split
      next hqueue =>
        have hllm : entersBusy .thinking (s.processWithLLMActs answers.available ++ [.clear .stt]) =
            false := by
          rw [entersBusy_append_quiet (.of_all rfl)]
          unfold processWithLLMActs
          split_ifs <;> rfl
        show (PipelineState.isBusy .thinking && decide (s.currentState ≠ .thinking) ||
          entersBusy .thinking _) = _
        rw [hllm, hqueue, Bool.or_false]
        rfl
      next hqueue => rw [eq_false_of_ne_true hqueue]; rfl
    | _ => rfl
  | failed => cases outcome <;> rfl

theorem entersBusy_providerResponseActs (isFirstToken : Bool) (r : LLMResponse)
    (answers : Answers) :
    entersBusy s.currentState (s.providerResponseActs isFirstToken r answers) =
      s.taskMoves (.provider (.collect isFirstToken)) (.response r answers) := by
  have hspeaking {as : List Act} (h : entersBusy .speaking as = false) :
      entersBusy s.currentState (.enter .speaking :: as) = decide (s.currentState ≠ .speaking) := by
    show (PipelineState.isBusy .speaking && _ || entersBusy .speaking as) = _
    rw [h, Bool.or_false]
    rfl
  have hanswer (u : VoicePipeline) : entersBusy .speaking (u.answerActs answers.ttsReady) = false := by
    rw [entersBusy_answerActs]
    simp
  unfold providerResponseActs
  show _ = (!(r.isStreaming && isFirstToken || r.isError || !(r.isComplete || r.isStreaming)) &&
    decide (s.currentState ≠ .speaking))
  split
  next hfirst => simp [hfirst, entersBusy, enters]
  split
  next herror => simp [herror, entersBusy, enters, PipelineState.isBusy]
  split
  next hfirst herror hcomplete =>
    rw [hspeaking]
    · rw [eq_false_of_ne_true hfirst, eq_false_of_ne_true herror, hcomplete]
      rfl
    · split
      next => exact entersBusy_quiet (quiet_restartListeningActs _)
      next => exact hanswer _
  split
  next hfirst herror hcomplete hstreaming =>
    rw [hspeaking]
    · rw [eq_false_of_ne_true hfirst, eq_false_of_ne_true herror, hstreaming, Bool.or_true]
      rfl
    · split
      next => exact hanswer _
      next => rfl
  next hfirst herror hcomplete hstreaming =>
    rw [eq_false_of_ne_true hcomplete, eq_false_of_ne_true hstreaming, Bool.or_false,
      Bool.not_false, Bool.or_true]
    rfl

theorem entersBusy_resumeProviderActs (point : ProviderPoint) (outcome : Outcome) :
    entersBusy s.currentState (s.resumeProviderActs point outcome) =
      s.taskMoves (.provider point) outcome := by
  cases point with
  | collect isFirstToken =>
    cases outcome with
    | response r answers => exact entersBusy_providerResponseActs isFirstToken r answers
    | ended =>
      show entersBusy s.currentState (if s.isLLMResponseComplete then _ else _) = false
      split
      next => exact entersBusy_quiet (quiet_afterStreamActs.append (.of_all rfl))
      next => rfl
    | _ => rfl
  | net =>
    cases outcome with
    | resume answers =>
      exact entersBusy_safetyNetActs (s := s.onResponseUpdate s.finalBubbleText true) answers _
    | _ => rfl
  | failed =>
    cases outcome with
    | resume answers => exact entersBusy_quiet (quiet_restartListeningActs _)
    | _ => rfl
  | _ => cases outcome <;> rfl

theorem entersBusy_resumeLegacyActs {point : LegacyPoint} {outcome : Outcome} {resumed : Resumed}
    (hr : s.resumeLegacy point outcome = some resumed) :
    entersBusy s.currentState (s.resumeLegacyActs point outcome) =
      s.taskMoves (.legacy point) outcome := by
  cases point with
  | collect responseComplete =>
    cases outcome with
    | queueResponse r =>
      cases responseComplete with
      | true => cases hr
      | false =>
        show entersBusy s.currentState (legacyResponseActs r) =
          (!(r.error.isSome || r.isComplete || r.token.isNone) && decide (s.currentState ≠ .speaking))
        unfold legacyResponseActs
        split
        next herror => simp [herror, entersBusy, enters, PipelineState.isBusy]
        split
        next herror htoken =>
          cases htext : r.token <;> simp_all [entersBusy, enters, PipelineState.isBusy]
        next herror htoken =>
          cases hcomplete : r.isComplete <;> cases htext : r.token <;> simp_all [entersBusy, enters]
    | ended =>
      have hquiet : Only Act.isQuiet (s.resumeLegacyActs (.collect responseComplete) .ended) := by
        cases responseComplete with
        | false => exact .nil
        | true => exact quiet_afterStreamActs
      rw [entersBusy_quiet hquiet]
      rfl
    | _ => cases responseComplete <;> rfl
  | update responseComplete text =>
    cases outcome with
    | resume answers =>
      show entersBusy s.currentState
        (if !responseComplete && answers.hasCompleteSentence then s.answerActs answers.ttsReady else []) =
          (!(responseComplete || !(answers.hasCompleteSentence && s.speaks answers.ttsReady)) &&
            decide (s.currentState ≠ .speaking))
      split
      next hmay =>
        rw [entersBusy_answerActs]
        simp_all
      next hmay =>
        cases responseComplete <;> cases hsentence : answers.hasCompleteSentence <;>
          simp_all [entersBusy, enters]
    | _ => rfl
  | complete =>
    cases outcome with
    | resume answers =>
      let t := { s.cancel s.llmProviderJob with isLLMResponseComplete := true }
      show entersBusy s.currentState
        (if isBlank s.finalBubbleText then [] else t.answerActs answers.ttsReady) =
          (!(isBlank s.finalBubbleText || !t.speaks answers.ttsReady) &&
            decide (s.currentState ≠ .speaking))
      split
      next hblank => simp [hblank, entersBusy, enters]
      next hblank =>
        rw [entersBusy_answerActs, eq_false_of_ne_true hblank]
        simp
    | _ => rfl
  | net =>
    cases outcome with
    | resume answers =>
      exact entersBusy_safetyNetActs
        (s := { s.onResponseUpdate s.finalBubbleText true with isLLMResponseComplete := true })
        answers _
    | _ => rfl
  | failed =>
    cases outcome with
    | resume answers => exact entersBusy_quiet (quiet_restartListeningActs _)
    | _ => rfl
  | start => cases outcome <;> rfl

theorem entersBusy_resumeActs {task : Task} {outcome : Outcome} {resumed : Resumed}
    (hr : s.resume task outcome = some resumed) :
    entersBusy s.currentState (s.resumeActs task outcome) = s.taskMoves task outcome := by
  have hquiet (h : task.answers = false) (hmoves : s.taskMoves task outcome = false) :
      entersBusy s.currentState (s.resumeActs task outcome) = s.taskMoves task outcome := by
    rw [hmoves]
    exact entersBusy_quiet (quiet_resumeActs outcome h)
  cases task with
  | stt point => exact entersBusy_resumeSTTActs point outcome
  | provider point => exact entersBusy_resumeProviderActs point outcome
  | legacy point => exact entersBusy_resumeLegacyActs hr
  | reinitTTS =>
    cases outcome with
    | resume answers =>
      show entersBusy s.currentState
        (if answers.reinitSuccess then s.startStreamingTTSActs answers.ttsReady else []) =
          (answers.reinitSuccess && s.speaks answers.ttsReady && decide (s.currentState ≠ .speaking))
      split
      next hsuccess => rw [entersBusy_startStreamingTTSActs, hsuccess, Bool.true_and]
      next hsuccess => simp [hsuccess, entersBusy, enters]
    | _ => rfl
  | _ => exact hquiet rfl rfl

/-- A coroutine moves the state exactly when it is not cancelled and its point says so. -/
theorem movesState_run {i : Nat} {outcome : Outcome} {job : Job}
    (hopen : s.isListeningForNextQuery = false) (hjob : s.jobs[i]? = some job)
    (hr : s.run i outcome = some t) :
    s.movesState t = (!job.cancelled && s.taskMoves job.task outcome) := by
  rw [movesState_of_acts hopen (core_run hr)]
  unfold runActs
  rw [hjob]
  obtain ⟨other, hother, hr⟩ := Option.bind_eq_some_iff.mp hr
  cases Option.some.inj (hjob.symm.trans hother)
  dsimp only
  have hsuspend (next : Option Task) (as : List Act) :
      entersBusy s.currentState (as ++ [.suspend i next]) = entersBusy s.currentState as :=
    enters_suspend PipelineState.isBusy s.currentState as i next
  split at hr
  next hcancelled =>
    rw [if_pos hcancelled, hsuspend, hcancelled]
    exact entersBusy_quiet (quiet_endCancelledActs _ _)
  next hcancelled =>
    obtain ⟨resumed, hresume, rfl⟩ := Option.map_eq_some_iff.mp hr
    rw [if_neg hcancelled, hsuspend, eq_false_of_ne_true hcancelled, Bool.not_false, Bool.true_and]
    exact entersBusy_resumeActs hresume

theorem hijacked_next {q : NextQuery} {e : Event} (hopen : s.isListeningForNextQuery = false)
    (hs : s.step e = some t) : (q.next s e).hijacked = (q.hijacked || s.hijacks q e) := by
  unfold NextQuery.next
  rw [hs]
  cases e with
  | run i outcome =>
    obtain ⟨job, hjob, -⟩ := Option.bind_eq_some_iff.mp hs
    have hmoves := movesState_run hopen hjob hs
    have hhijacks : s.hijacks q (.run i outcome) =
        (q.isOpen && decide (job.id ∈ q.old) && s.movesState t) := by
      show (match s.jobs[i]? with | some job => _ | none => false) = _
      rw [hjob, hmoves]
    rw [hhijacks]
    dsimp only
    rw [hjob]
    dsimp only
    split
    next => rfl
    next => rfl
  | _ => exact (Bool.or_false _).symm

end Busy

/-- In a run no step of an earlier question moves the state while the pipeline waits for the next
one, exactly when no step of the run is one of `hijacks`. -/
theorem not_hijacked_iff {hasProvider hasQueue : Bool} {es : List Event}
    {t : VoicePipeline × NextQuery}
    (hr : Machine.run listenNext (start hasProvider hasQueue, ⟨false, [], false⟩) es = some t) :
    Always listenNext NotHijacked (start hasProvider hasQueue, ⟨false, [], false⟩) es ↔
      Meets listenNext (fun c e => c.1.hijacks c.2 e = false)
        (start hasProvider hasQueue, ⟨false, [], false⟩) es := by
  refine always_iff_meets
    (I := fun c => c.1.isListeningForNextQuery = false ∧ c.2.hijacked = false) ?_ ?_ ?_ ?_ hr
  · exact fun c hc => hc.2
  · rintro ⟨s, q⟩ e ⟨u, q'⟩ ⟨hopen, hnot⟩ hok hs
    obtain ⟨hstep, rfl⟩ := withHistory_iff.mp hs
    refine ⟨(step_later hstep).isListeningForNextQuery hopen, ?_⟩
    show (q.next s e).hijacked = false
    rw [hijacked_next hopen hstep, show q.hijacked = false from hnot,
      show s.hijacks q e = false from hok]
    rfl
  · rintro ⟨s, q⟩ e ⟨u, q'⟩ ⟨hopen, hnot⟩ hbad hs hkept
    obtain ⟨hstep, rfl⟩ := withHistory_iff.mp hs
    have hkept : (q.next s e).hijacked = false := hkept
    rw [hijacked_next hopen hstep, eq_true_of_ne_false hbad, Bool.or_true] at hkept
    cases hkept
  · exact ⟨rfl, rfl⟩

/-- A blank transcription returns to `LISTENING`, and the next question is worked on after its
`SPEECH_START` only. -/
theorem not_hijacked_blank :
    Always listenNext NotHijacked (start true true, ⟨false, [], false⟩)
      [.initialized, .startVoiceConversation, .run 0 (.resume {}),
        .run 0 (.resume { recordingStarted := true }),
        .frame ⟨512, .speechStart, false, true, false, false⟩,
        .frame ⟨512, .speechEnd, false, true, false, false⟩,
        .run 0 (.transcription []), .run 0 (.resume {}),
        .run 0 (.resume { recordingStarted := true }),
        .frame ⟨512, .speechStart, false, true, false, false⟩,
        .frame ⟨512, .speechEnd, false, true, false, false⟩,
        .run 0 (.transcription ['a']), .run 0 (.resume { available := true })] :=
  (@not_hijacked_iff true true _ _ rfl).mpr (by decide)

/-- The listening timeout restarts the recording while a transcription goes on: the answer to the
old question then moves the new `LISTENING` to `SPEAKING`. -/
theorem answer_hijacks_listening : ∃ s t,
    Machine.run listenNext (start true true, ⟨false, [], false⟩)
      [.initialized, .startVoiceConversation, .run 0 (.resume {}),
        .run 0 (.resume { recordingStarted := true }),
        .frame ⟨512, .speechStart, false, true, false, false⟩,
        .frame ⟨512, .speechEnd, false, true, false, false⟩,
        .frame ⟨512, .silence, true, false, false, false⟩,
        .run 0 (.transcription ['a']), .run 0 (.resume { available := true }),
        .run 0 (.resume {}), .run 0 (.resume {}),
        .run 0 (.resume {}), .run 0 (.response (.streaming []) {})] = some s ∧
    s.1.currentState = .listening ∧ s.2.isOpen = true ∧
    listenNext s (.run 0 (.response (.streaming ['b']) {})) = some t ∧
    t.1.currentState = .speaking ∧ ¬ NotHijacked t :=
  ⟨_, _, rfl, rfl, rfl, rfl, rfl, by decide⟩

end VoicePipeline

end HeyNilo

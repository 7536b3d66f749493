import HeyNilo.Machine
import HeyNilo.VoiceBuffers
import HeyNilo.VoiceCore
import HeyNilo.VoiceJobs

namespace HeyNilo.VoicePipeline

open Machine

/-- The STT job, also in a restart that it called. -/
def Task.isSTT : Task → Bool
  | .stt _ | .restartDelay .stt | .recordingDelay (.restart .stt) => true
  | _ => false

/-- A segment that was submitted is still being transcribed. -/
def transcribes (s : VoicePipeline) : Bool := s.jobs.any fun job => job.task.isSTT

/-- The step puts samples into the speech buffer while a segment is being transcribed. -/
def addsSamples (s : VoicePipeline) (e : Event) : Bool :=
  s.transcribes && (s.step e).any fun t => s.speechBuffer < t.speechBuffer

/-- The pipeline with the history of its speech buffer. -/
def capture : VoicePipeline × Bool → Event → Option (VoicePipeline × Bool) :=
  withHistory step fun added s e => added || s.addsSamples e

/-- While a segment is being transcribed the state hears nothing, and no samples were added. -/
def DeafWhileTranscribing (c : VoicePipeline × Bool) : Prop :=
  ¬ (c.1.transcribes = true ∧ c.1.hears = true) ∧ c.2 = false

instance (c : VoicePipeline × Bool) : Decidable (DeafWhileTranscribing c) :=
  inferInstanceAs (Decidable (_ ∧ _))

/-- A frame at the end of the speech submits the speech, and then the pipeline listens. -/
def frameListens (s : VoicePipeline) (frame : Frame) : Bool :=
  s.reachesVAD frame && frame.vad = .speechEnd && s.isCollectingSpeech &&
    (frame.longEnough && frameSize ≤ s.speechBuffer + frame.samples) && !s.isProcessingSTT

/-- A tap ends a short segment, or takes the speech before the onset for one. -/
def tapListens (s : VoicePipeline) (longEnough : Bool) : Bool :=
  if s.isCollectingSpeech && frameSize ≤ s.speechBuffer then !longEnough && s.isRunning
  else 4800 ≤ min s.preSpeechBuffer 32000 + s.speechBuffer && 0 < s.preSpeechBuffer

/-- The step of a coroutine goes to `LISTENING`. -/
def taskListens (s : VoicePipeline) : Task → Outcome → Bool
  | .startRecording, .resume _ | .restartDelay _, .resume _ => !s.isRecording && s.isRunning
  | .recordingDelay .newQuestion, .resume _ => true
  | .recordingDelay _, .resume _ => s.isRunning
  | .newQuestion, .resume _ => !s.isRecording && (s.isRunning || s.isInitialized)
  | .newQuestionDelay, .resume _ => if s.isRunning then !s.isRecording else s.isInitialized
  | .completionWait, .resume answers =>
    (s.isLLMResponseComplete && (s.ttsIdle && !answers.ttsSpeaking) || answers.timedOut) &&
      s.isRunning
  | _, _ => false

/-- The steps that listen, or add samples, while a segment is being transcribed. -/
def listensOn (s : VoicePipeline) : Event → Bool
  | .frame frame => s.frameListens frame
  | .startVoiceConversation => s.transcribes && s.isInitialized && !s.isRunning
  | .forceStopAndProcess longEnough => s.transcribes && s.tapListens longEnough
  | .run i outcome =>
    match s.jobs[i]? with
    | some job =>
      !job.cancelled && s.taskListens job.task outcome &&
        (s.jobs.eraseIdx i).any fun other => other.task.isSTT
    | none => false
  | _ => false

/-- Whether the state hears after some acts. -/
def hearsAfter : Bool → List Act → Bool
  | hears, [] => hears
  | _, .enter newState :: as =>
    hearsAfter (newState = .listening || newState = .speechDetected) as
  | hears, _ :: as => hearsAfter hears as

/-- The acts of a coroutine neither launch an STT job nor suspend one. -/
def Act.ofCoroutine : Act → Bool
  | .launch task | .start _ task => !task.isSTT
  | .suspend _ _ => false
  | _ => true

section Hears

variable {s : VoicePipeline} {hears : Bool}

theorem hearsAfter_append (as bs : List Act) :
    hearsAfter hears (as ++ bs) = hearsAfter (hearsAfter hears as) bs := by
  induction as generalizing hears with
  | nil => rfl
  | cons a as ih => cases a <;> exact ih

theorem hears_acts {c : PipelineCore} (hopen : c.isListeningForNextQuery = false) (as : List Act) :
    ((c.acts as).currentState = .listening || (c.acts as).currentState = .speechDetected : Bool) =
      hearsAfter (c.currentState = .listening || c.currentState = .speechDetected) as := by
  induction as generalizing c with
  | nil => rfl
  | cons a as ih =>
    rw [PipelineCore.acts_cons, ih (PipelineCore.act_open hopen a)]
    cases a with
    | enter newState =>
      show hearsAfter ((c.enter newState).currentState = .listening ||
        (c.enter newState).currentState = .speechDetected) as = _
      rw [PipelineCore.enter_currentState hopen]
      rfl
    | suspend i next => cases next <;> rfl
    | _ => rfl

theorem hearsAfter_listenActs : hearsAfter hears s.listenActs = (s.isRunning || hears) := by
  unfold listenActs
  cases s.isRunning <;> rfl

theorem hearsAfter_awaitCompletionActs : hearsAfter hears s.awaitCompletionActs = hears := by
  unfold awaitCompletionActs
  split <;> rfl

theorem hearsAfter_afterStreamActs : hearsAfter hears s.afterStreamActs = hears := by
  unfold afterStreamActs
  split
  next => rfl
  next => exact hearsAfter_awaitCompletionActs

theorem hearsAfter_afterRestartActs (rest : AfterRestart) :
    hearsAfter hears (s.afterRestartActs rest) = hears := by
  cases rest with
  | launched => rfl
  | stt => rfl
  | llm rest =>
    cases rest with
    | complete isFirstToken => rfl
    | providerNet =>
      show hearsAfter hears (s.afterStreamActs ++ [.clear .llm]) = hears
      rw [hearsAfter_append, hearsAfter_afterStreamActs]
      rfl
    | legacyNet => exact hearsAfter_afterStreamActs
    | failed => rfl

theorem hearsAfter_restartListeningActs (rest : AfterRestart) :
    hearsAfter hears (s.restartListeningActs rest) = hears := by
  unfold restartListeningActs
  split
  next => exact hearsAfter_afterRestartActs rest
  next => rfl

theorem transitionToListening_isRunning : s.transitionToListening.isRunning = s.isRunning := by
  have hstatus := congrArg PipelineStatus.isRunning (status_transitionToListening s)
  rw [hstatus]
  unfold PipelineStatus.listen
  split
  next => exact PipelineStatus.goTo_isRunning _ _
  next => rfl

theorem hearsAfter_recordNowActs (rest : AfterRecording) :
    hearsAfter hears (s.recordNowActs rest) =
      (s.isRunning || hears || decide (rest = .newQuestion)) := by
  let t := if s.currentState ≠ .listening then s.transitionToListening else s
  let u := { t.launch .record with pipelineJob := some t.nextId }
  have hrun : u.isRunning = s.isRunning := by
    show (if s.currentState ≠ .listening then s.transitionToListening else s).isRunning = _
    split
    next => exact transitionToListening_isRunning
    next => rfl
  have hrest (h : Bool) : hearsAfter h (u.afterRecordingActs rest) =
      if rest = .launched then h else s.isRunning || h || decide (rest = .newQuestion) := by
    cases rest with
    | launched => rfl
    | restart rest =>
      show hearsAfter h (u.listenActs ++ _) = _
      rw [hearsAfter_append, hearsAfter_listenActs, hearsAfter_afterRestartActs, hrun]
      simp
    | newQuestion => simp [afterRecordingActs, hearsAfter]
  show hearsAfter hears (s.listenActs ++ .start .recorder .record :: u.afterRecordingActs rest) = _
  rw [hearsAfter_append, hearsAfter_listenActs]
  show hearsAfter (s.isRunning || hears) (u.afterRecordingActs rest) = _
  rw [hrest]
  cases rest <;> cases s.isRunning <;> cases hears <;> rfl

theorem hearsAfter_startRecordingActs (rest : AfterRecording) :
    hearsAfter hears (s.startRecordingActs rest) =
      if s.isRecording then hears else s.isRunning || hears || decide (rest = .newQuestion) := by
  unfold startRecordingActs
  split
  next => rfl
  next => exact hearsAfter_recordNowActs rest

theorem hearsAfter_startVoiceConversationActs :
    hearsAfter hears s.startVoiceConversationActs =
      (s.isInitialized && !s.isRunning || hears) := by
  unfold startVoiceConversationActs
  cases s.isInitialized <;> cases s.isRunning <;> rfl

theorem hearsAfter_newQuestionGoActs : hearsAfter false s.newQuestionGoActs =
    if s.isRunning then !s.isRecording else s.isInitialized := by
  unfold newQuestionGoActs
  cases hrun : s.isRunning with
  | true =>
    rw [if_pos rfl, if_pos rfl, hearsAfter_startRecordingActs]
    cases s.isRecording <;> simp
  | false =>
    rw [if_neg Bool.false_ne_true, if_neg Bool.false_ne_true,
      hearsAfter_startVoiceConversationActs, hrun]
    simp

theorem hearsAfter_startStreamingTTSActs (ready : Bool) :
    hearsAfter false (s.startStreamingTTSActs ready) = false := by
  unfold startStreamingTTSActs
  split_ifs <;> rfl

theorem hearsAfter_answerActs (ready : Bool) :
    hearsAfter false (s.answerActs ready) = false := by
  unfold answerActs
  split
  next => exact hearsAfter_startStreamingTTSActs ready
  next => rfl

theorem hearsAfter_processWithLLMActs (available : Bool) :
    hearsAfter false (s.processWithLLMActs available) = false := by
  unfold processWithLLMActs
  split_ifs <;> rfl

theorem hearsAfter_providerResponseActs (isFirstToken : Bool) (r : LLMResponse)
    (answers : Answers) :
    hearsAfter false (s.providerResponseActs isFirstToken r answers) = false := by
  unfold providerResponseActs
  split
  next => rfl
  split
  next => rfl
  split
  next =>
    show hearsAfter false (if _ then _ else _) = false
    split
    next => exact hearsAfter_restartListeningActs _
    next => exact hearsAfter_answerActs _
  split
  next =>
    show hearsAfter false (if _ then _ else _) = false
    split
    next => exact hearsAfter_answerActs _
    next => rfl
  next => rfl

theorem hearsAfter_safetyNetActs (answers : Answers) (rest : AfterBlank) :
    hearsAfter false (s.safetyNetActs answers rest) = false := by
  unfold safetyNetActs
  split
  next => exact hearsAfter_restartListeningActs _
  next =>
    dsimp only
    rw [hearsAfter_append, hearsAfter_answerActs, hearsAfter_afterRestartActs]

theorem hearsAfter_completeWaitActs :
    hearsAfter false s.completeWaitActs = s.isRunning := by
  unfold completeWaitActs
  cases hrun : s.isRunning with
  | false => rfl
  | true =>
    show hearsAfter true (if s.isRecording then [] else _) = true
    split
    next => rfl
    next =>
      rw [hearsAfter_startRecordingActs]
      simp

theorem hearsAfter_resumeSTTActs (point : SttPoint) (outcome : Outcome) :
    hearsAfter false (s.resumeSTTActs point outcome) = false := by
  unfold resumeSTTActs
  split
  next =>
    split
    next => exact hearsAfter_restartListeningActs _
    next => rfl
  next => rfl
  next =>
    split
    next =>
      show hearsAfter false (s.processWithLLMActs _ ++ [.clear .stt]) = false
      rw [hearsAfter_append, hearsAfter_processWithLLMActs]
      rfl
    next => rfl
  next => rfl
  next => rfl

theorem hearsAfter_resumeProviderActs (point : ProviderPoint) (outcome : Outcome) :
    hearsAfter false (s.resumeProviderActs point outcome) = false := by
  unfold resumeProviderActs
  split
  next => exact hearsAfter_providerResponseActs _ _ _
  next =>
    split
    next => rw [hearsAfter_append, hearsAfter_afterStreamActs]; rfl
    next => rfl
  next => exact hearsAfter_safetyNetActs _ _
  next => exact hearsAfter_restartListeningActs _
  next => rfl
  next => rfl
  next => rfl
  next => rfl

theorem hearsAfter_resumeLegacyActs (point : LegacyPoint) (outcome : Outcome) :
    hearsAfter false (s.resumeLegacyActs point outcome) = false := by
  unfold resumeLegacyActs
  split
  next =>
    unfold legacyResponseActs
    split_ifs <;> rfl
  next =>
    split
    next => exact hearsAfter_afterStreamActs
    next => rfl
  next =>
    split
    next => exact hearsAfter_answerActs _
    next => rfl
  next =>
    show hearsAfter false (if _ then _ else _) = false
    split
    next => rfl
    next => exact hearsAfter_answerActs _
  next => exact hearsAfter_safetyNetActs _ _
  next => exact hearsAfter_restartListeningActs _
  next => rfl
  next => rfl
  next => rfl
  next => rfl

theorem hearsAfter_resumeTTSActs (point : TtsPoint) (outcome : Outcome) :
    hearsAfter false (s.resumeTTSActs point outcome) = false := by
  unfold resumeTTSActs
  split
  next => rfl
  next => split <;> rfl
  next => rfl
  next => rfl

/-- From a state that does not hear a coroutine goes to one that does exactly as its point says. -/
theorem hearsAfter_resumeActs (task : Task) (outcome : Outcome) :
    hearsAfter false (s.resumeActs task outcome) = s.taskListens task outcome := by
  cases task with
  | stt point => exact hearsAfter_resumeSTTActs point outcome
  | provider point => exact hearsAfter_resumeProviderActs point outcome
  | legacy point => exact hearsAfter_resumeLegacyActs point outcome
  | tts point => exact hearsAfter_resumeTTSActs point outcome
  | startRecording =>
    cases outcome with
    | resume answers =>
      show hearsAfter false (s.startRecordingActs .launched) = (!s.isRecording && s.isRunning)
      rw [hearsAfter_startRecordingActs]
      cases s.isRecording <;> simp
    | _ => rfl
  | recordingDelay rest =>
    cases outcome with
    | resume answers =>
      show hearsAfter false (s.recordNowActs rest) = _
      rw [hearsAfter_recordNowActs]
      cases rest <;> simp [taskListens]
    | _ => cases rest <;> rfl
  | restartListening =>
    cases outcome with
    | resume answers => exact hearsAfter_restartListeningActs .launched
    | _ => rfl
  | restartDelay rest =>
    cases outcome with
    | resume answers =>
      show hearsAfter false (s.startRecordingActs (.restart rest)) = (!s.isRecording && s.isRunning)
      rw [hearsAfter_startRecordingActs]
      cases s.isRecording <;> simp
    | _ => rfl
  | newQuestion =>
    cases outcome with
    | resume answers =>
      show hearsAfter false (if s.isRecording then [] else s.newQuestionGoActs) =
        (!s.isRecording && (s.isRunning || s.isInitialized))
      split
      next hrecording => rw [hrecording]; rfl
      next hrecording =>
        rw [hearsAfter_newQuestionGoActs, eq_false_of_ne_true hrecording]
        cases s.isRunning <;> simp
    | _ => rfl
  | newQuestionDelay =>
    cases outcome with
    | resume answers => exact hearsAfter_newQuestionGoActs
    | _ => rfl
  | reinitTTS =>
    cases outcome with
    | resume answers =>
      show hearsAfter false (if answers.reinitSuccess then _ else _) = false
      split
      next => exact hearsAfter_startStreamingTTSActs _
      next => rfl
    | _ => rfl
  | awaitCompletion =>
    cases outcome with
    | resume answers => exact hearsAfter_awaitCompletionActs
    | _ => rfl
  | completionWait =>
    cases outcome with
    | resume answers =>
      show hearsAfter false (s.resumeCompletionWaitActs answers) =
        ((s.isLLMResponseComplete && (s.ttsIdle && !answers.ttsSpeaking) || answers.timedOut) &&
          s.isRunning)
      unfold resumeCompletionWaitActs
      split
      next hdone => rw [hearsAfter_completeWaitActs, hdone, Bool.true_and]
      next hwait => rw [eq_false_of_ne_true hwait]; rfl
    | _ => rfl
  | record => rfl

theorem hearsAfter_endCancelledActs (task : Task) (outcome : Outcome) :
    hearsAfter false (s.endCancelledActs task outcome) = false := by
  have hrestart (rest : AfterRestart) : hearsAfter false (restartCancelledActs rest) = false := by
    unfold restartCancelledActs
    split <;> rfl
  cases task with
  | stt point =>
    show hearsAfter false (s.endSTTActs point outcome) = false
    unfold endSTTActs
    split
    next =>
      split
      next =>
        split
        next => rfl
        next => rw [hearsAfter_append, hearsAfter_restartListeningActs]; rfl
      next => rfl
    next => rfl
    next => rfl
    next => rfl
    next => rfl
  | provider point => cases point <;> rfl
  | legacy point => cases point <;> rfl
  | tts point => cases point <;> rfl
  | recordingDelay rest =>
    cases rest with
    | restart rest => exact hrestart rest
    | _ => rfl
  | restartDelay rest => exact hrestart rest
  | _ => rfl

end Hears

section Plain

variable {s : VoicePipeline}

/-- Every act of the list is one of a coroutine. -/
abbrev Plain (as : List Act) : Prop := Only Act.ofCoroutine as

theorem plain_of_answer {as : List Act} (h : Only Act.isAnswer as) : Plain as := by
  refine h.mono fun a ha => ?_
  unfold Act.isAnswer Act.isQuiet at ha
  split at ha
  all_goals first | rfl | (split at ha <;> first | rfl | cases ha)

theorem plain_listenActs : Plain s.listenActs := plain_of_answer quiet_listenActs.answer

theorem tasks_cancel (c : PipelineCore) (kind : JobKind) :
    (c.cancel kind).jobs.map Job.task = c.jobs.map Job.task := by
  unfold PipelineCore.cancel
  rw [List.map_map]
  refine List.map_congr_left fun job _ => ?_
  show (if c.handle kind = some job.id then { job with cancelled := true } else job).task = job.task
  split <;> rfl

/-- Such acts leave the tasks there are, and add none that transcribes. -/
theorem tasks_acts {c : PipelineCore} {as : List Act} (h : Plain as) :
    ∃ more, (c.acts as).jobs.map Job.task = c.jobs.map Job.task ++ more ∧
      more.any Task.isSTT = false := by
  induction as generalizing c with
  | nil => exact ⟨[], (List.append_nil _).symm, rfl⟩
  | cons a as ih =>
    obtain ⟨ha, has⟩ := List.forall_mem_cons.mp h
    have hact : ∃ more, (c.act a).jobs.map Job.task = c.jobs.map Job.task ++ more ∧
        more.any Task.isSTT = false := by
      cases a with
      | enter newState =>
        refine ⟨[], ?_, rfl⟩
        rw [List.append_nil]
        show (c.enter newState).jobs.map Job.task = _
        unfold PipelineCore.enter
        split_ifs <;> rfl
      | launch task =>
        refine ⟨[task], by simp [PipelineCore.act, PipelineCore.launch], ?_⟩
        simpa [Act.ofCoroutine] using ha
      | start kind task =>
        refine ⟨[task], by simp [PipelineCore.act, PipelineCore.launch, PipelineCore.setHandle], ?_⟩
        simpa [Act.ofCoroutine] using ha
      | suspend i next => cases ha
      | unguard => exact ⟨[], (List.append_nil _).symm, rfl⟩
      | clear kind => exact ⟨[], (List.append_nil _).symm, rfl⟩
      | cancel kind => exact ⟨[], by rw [List.append_nil]; exact tasks_cancel c kind, rfl⟩
      | stop kind => exact ⟨[], by rw [List.append_nil]; exact tasks_cancel c kind, rfl⟩
      | cancelAll => exact ⟨[], by simp [PipelineCore.act, Function.comp_def], rfl⟩
    obtain ⟨more, hmore, hno⟩ := hact
    obtain ⟨rest, hrest, hnone⟩ := ih (c := c.act a) has
    refine ⟨more ++ rest, ?_, ?_⟩
    · rw [PipelineCore.acts_cons, hrest, hmore, List.append_assoc]
    · rw [List.any_append, hno, hnone]
      rfl

end Plain

section Steps

variable {s t : VoicePipeline}

theorem transcribes_eq (s : VoicePipeline) :
    s.transcribes = (s.core.jobs.map Job.task).any Task.isSTT := by
  rw [List.any_map]
  rfl

theorem transcribes_of_plain {as : List Act} (ht : t.core = s.core.acts as) (h : Plain as) :
    t.transcribes = s.transcribes := by
  obtain ⟨more, hmore, hno⟩ := tasks_acts (c := s.core) h
  rw [transcribes_eq, ht, hmore, List.any_append, hno, Bool.or_false, ← transcribes_eq]

theorem hears_of_acts {as : List Act} (hopen : s.isListeningForNextQuery = false)
    (ht : t.core = s.core.acts as) : t.hears = hearsAfter s.hears as := by
  have hstate : t.core.currentState = (s.core.acts as).currentState :=
    congrArg PipelineCore.currentState ht
  show (t.core.currentState = .listening || t.core.currentState = .speechDetected : Bool) = _
  rw [hstate]
  exact hears_acts hopen as

/-- The state and the jobs after some acts of an event. -/
theorem quiet_of_plain {as : List Act} (hopen : s.isListeningForNextQuery = false)
    (ht : t.core = s.core.acts as) (h : Plain as) :
    (t.transcribes = true ∧ t.hears = true) ↔
      s.transcribes = true ∧ hearsAfter s.hears as = true := by
  rw [transcribes_of_plain ht h, hears_of_acts hopen ht]

section Next

variable {next : Task}

theorem afterRestart_next {rest : AfterRestart} (h : (s.afterRestart rest).2 = some next) :
    next.isSTT = false := by
  cases rest with
  | launched => cases h
  | stt => cases h
  | llm rest => cases rest <;> cases h; rfl

theorem recordNow_next {rest : AfterRecording} (h : (s.recordNow rest).2 = some next) :
    next.isSTT = false := by
  cases rest with
  | launched => cases h
  | restart rest => exact afterRestart_next h
  | newQuestion => cases h

theorem startRecording_next {rest : AfterRecording} (h : (s.startRecording rest).2 = some next) :
    next.isSTT = false ∨ s.isRecording = true ∧ next = .recordingDelay rest := by
  unfold startRecording at h
  split at h
  next hrecording => exact .inr ⟨hrecording, (Option.some.inj h).symm⟩
  next => exact .inl (recordNow_next h)

theorem restartListening_next {rest : AfterRestart} (h : (s.restartListening rest).2 = some next) :
    next.isSTT = false ∨ next = .restartDelay rest := by
  unfold restartListening at h
  split at h
  next => exact .inl (afterRestart_next h)
  split at h
  next => exact .inl (afterRestart_next h)
  next => exact .inr (Option.some.inj h).symm

theorem restartListening_llm_next {rest : AfterBlank}
    (h : (s.restartListening (.llm rest)).2 = some next) : next.isSTT = false := by
  rcases restartListening_next h with hno | rfl
  · exact hno
  · rfl

theorem safetyNet_next {answers : Answers} {rest : AfterBlank}
    (h : (s.safetyNet answers rest).2 = some next) : next.isSTT = false := by
  unfold safetyNet at h
  split at h
  next => exact restartListening_llm_next h
  next => exact afterRestart_next h

theorem resumeProvider_next {point : ProviderPoint} {outcome : Outcome} {resumed : Resumed}
    (hr : s.resumeProvider point outcome = some resumed) (hnext : resumed.2 = some next) :
    next.isSTT = false := by
  unfold resumeProvider at hr
  split at hr
  next => cases Option.some.inj hr; cases hnext; rfl
  next =>
    cases Option.some.inj hr
    unfold providerResponse at hnext
    split at hnext
    next => cases hnext; rfl
    split at hnext
    next => cases hnext; rfl
    split at hnext
    next =>
      dsimp only at hnext
      split at hnext
      next => exact restartListening_llm_next hnext
      split at hnext
      next => cases hnext; rfl
      next => cases hnext; rfl
    split at hnext
    next => cases hnext; rfl
    next => cases hnext; rfl
  next =>
    split at hr
    next => cases Option.some.inj hr; cases hnext
    next => cases Option.some.inj hr; cases hnext; rfl
  next => cases Option.some.inj hr; cases hnext; rfl
  next => cases Option.some.inj hr; cases hnext; rfl
  next => cases Option.some.inj hr; exact safetyNet_next hnext
  next => cases Option.some.inj hr; exact restartListening_llm_next hnext
  next => cases hr
  next => cases hr
  next => cases Option.some.inj hr; cases hnext; rfl
  next => cases hr

theorem resumeLegacy_next {point : LegacyPoint} {outcome : Outcome} {resumed : Resumed}
    (hr : s.resumeLegacy point outcome = some resumed) (hnext : resumed.2 = some next) :
    next.isSTT = false := by
  unfold resumeLegacy at hr
  split at hr
  next => cases Option.some.inj hr; cases hnext; rfl
  next =>
    cases Option.some.inj hr
    unfold legacyResponse at hnext
    split at hnext
    next => cases hnext; rfl
    split at hnext
    next => cases hnext; rfl
    split at hnext
    next => cases hnext; rfl
    next => cases hnext; rfl
  next =>
    split at hr
    next => cases Option.some.inj hr; cases hnext
    next => cases Option.some.inj hr; cases hnext; rfl
  next => cases Option.some.inj hr; cases hnext; rfl
  next => cases Option.some.inj hr; cases hnext; rfl
  next => cases Option.some.inj hr; exact safetyNet_next hnext
  next =>
    cases Option.some.inj hr
    rcases restartListening_next hnext with hno | rfl
    · exact hno
    · rfl
  next => cases hr
  next => cases hr
  next => cases Option.some.inj hr; cases hnext; rfl
  next => cases hr

theorem resumeTTS_next {point : TtsPoint} {outcome : Outcome} {resumed : Resumed}
    (hr : s.resumeTTS point outcome = some resumed) (hnext : resumed.2 = some next) :
    next.isSTT = false := by
  unfold resumeTTS at hr
  split at hr
  next => cases Option.some.inj hr; cases hnext
  next =>
    split at hr
    next =>
      split at hr
      next => cases Option.some.inj hr; cases hnext; rfl
      next => cases Option.some.inj hr; cases hnext
    next => cases Option.some.inj hr; cases hnext; rfl
  next => cases Option.some.inj hr; cases hnext
  next => cases hr

theorem newQuestionGo_next (h : s.newQuestionGo.2 = some next) : next.isSTT = false := by
  unfold newQuestionGo at h
  split at h
  next =>
    rcases startRecording_next h with hno | ⟨-, rfl⟩
    · exact hno
    · rfl
  next => cases h

theorem completeWait_next (h : s.completeWait.2 = some next) : next.isSTT = false := by
  have hlisten (u : VoicePipeline)
      (hu : (if u.isRecording then ((u, none) : Resumed) else u.startRecording .launched).2 =
        some next) : next.isSTT = false := by
    split at hu
    next => cases hu
    next =>
      rcases startRecording_next hu with hno | ⟨-, rfl⟩
      · exact hno
      · rfl
  unfold completeWait at h
  split at h
  next => cases h
  next => exact hlisten _ h

/-- A coroutine goes on as an STT job only from a point of one, and not in `LISTENING`. -/
theorem isSTT_of_next {task : Task} {outcome : Outcome} {resumed : Resumed}
    (hr : s.resume task outcome = some resumed) (hnext : resumed.2 = some next)
    (hstt : next.isSTT = true) : task.isSTT = true ∧ s.taskListens task outcome = false := by
  have hno (hfalse : next.isSTT = false) :
      task.isSTT = true ∧ s.taskListens task outcome = false := by
    rw [hstt] at hfalse
    cases hfalse
  unfold resume at hr
  split at hr
  next => exact ⟨rfl, rfl⟩
  next => exact hno (resumeProvider_next hr hnext)
  next => exact hno (resumeLegacy_next hr hnext)
  next => exact hno (resumeTTS_next hr hnext)
  next =>
    cases Option.some.inj hr
    rcases startRecording_next hnext with hfalse | ⟨-, rfl⟩
    · exact hno hfalse
    · cases hstt
  next => cases Option.some.inj hr; exact hno (recordNow_next hnext)
  next => cases Option.some.inj hr; cases hnext
  next =>
    cases Option.some.inj hr
    rcases restartListening_next hnext with hfalse | rfl
    · exact hno hfalse
    · cases hstt
  next rest answers =>
    cases Option.some.inj hr
    rcases startRecording_next hnext with hfalse | ⟨hrecording, rfl⟩
    · exact hno hfalse
    · cases rest with
      | stt => exact ⟨rfl, by simp [taskListens, hrecording]⟩
      | _ => cases hstt
  next =>
    split at hr
    next => cases Option.some.inj hr; cases hnext; cases hstt
    next => cases Option.some.inj hr; exact hno (newQuestionGo_next hnext)
  next => cases Option.some.inj hr; exact hno (newQuestionGo_next hnext)
  next => cases Option.some.inj hr; cases hnext
  next => cases Option.some.inj hr; cases hnext
  next answers =>
    cases Option.some.inj hr
    unfold resumeCompletionWait at hnext
    dsimp only at hnext
    split at hnext
    next => exact hno (completeWait_next hnext)
    next => cases hnext; cases hstt
  next => cases hr

end Next

theorem transcribes_suspend_none (u : VoicePipeline) (i : Nat) :
    (u.suspend i none).transcribes = ((u.jobs.map Job.task).eraseIdx i).any Task.isSTT := by
  rw [transcribes_eq, List.eraseIdx_map]
  rfl

/-- What is left of the transcriptions when the coroutine at a place is done. -/
theorem transcribes_run_done {i : Nat} {job : Job} {as : List Act} {u : VoicePipeline}
    (hjob : s.jobs[i]? = some job) (hu : u.core = s.core.acts as) (h : Plain as) :
    (u.suspend i none).transcribes = (s.jobs.eraseIdx i).any fun other => other.task.isSTT := by
  obtain ⟨more, hmore, hno⟩ := tasks_acts (c := s.core) h
  have htasks : u.jobs.map Job.task = s.jobs.map Job.task ++ more := by
    show u.core.jobs.map Job.task = _
    rw [hu, hmore]
    rfl
  have hlt : i < (s.jobs.map Job.task).length := by
    rw [List.length_map]
    exact (List.getElem?_eq_some_iff.mp hjob).1
  rw [transcribes_suspend_none, htasks, List.eraseIdx_append_of_lt_length hlt, List.any_append, hno,
    Bool.or_false, List.eraseIdx_map, List.any_map]
  rfl

theorem any_set {α : Type*} {p : α → Bool} {xs : List α} {i : Nat} (hi : i < xs.length) (x : α) :
    (xs.set i x).any p = ((xs.eraseIdx i).any p || p x) := by
  rw [List.set_eq_take_append_cons_drop, if_pos hi, List.eraseIdx_eq_take_drop_succ,
    List.any_append, List.any_append, List.any_cons]
  cases (xs.take i).any p <;> cases p x <;> cases (xs.drop (i + 1)).any p <;> rfl

theorem transcribes_run_next {i : Nat} {job : Job} {as : List Act} {u : VoicePipeline} {next : Task}
    (hjob : s.jobs[i]? = some job) (hu : u.core = s.core.acts as) (h : Plain as) :
    (u.suspend i (some next)).transcribes =
      (((s.jobs.eraseIdx i).any fun other => other.task.isSTT) || next.isSTT) := by
  have hdone := transcribes_run_done hjob hu h
  rw [transcribes_suspend_none] at hdone
  have hlt : i < (u.jobs.map Job.task).length := by
    obtain ⟨more, hmore, -⟩ := tasks_acts (c := s.core) h
    have htasks : u.jobs.map Job.task = s.jobs.map Job.task ++ more := by
      show u.core.jobs.map Job.task = _
      rw [hu, hmore]
      rfl
    have hlt := (List.getElem?_eq_some_iff.mp hjob).1
    rw [htasks, List.length_append, List.length_map]
    omega
  have hset : (u.jobs.modify i fun job => { job with task := next }).map Job.task =
      (u.jobs.map Job.task).set i next := by
    refine List.ext_getElem? fun j => ?_
    rw [List.getElem?_map, List.getElem?_modify, List.getElem?_set]
    by_cases hij : i = j
    · subst hij
      rw [List.length_map] at hlt
      simp [hlt]
    · simp [hij]
  rw [transcribes_eq]
  show ((u.jobs.modify i fun job => { job with task := next }).map Job.task).any Task.isSTT = _
  rw [hset, any_set hlt, hdone]

/-- The invariant behind `DeafWhileTranscribing`. -/
structure Deaf (s : VoicePipeline) : Prop where
  isListeningForNextQuery : s.isListeningForNextQuery = false
  quiet : ¬ (s.transcribes = true ∧ s.hears = true)

theorem Deaf.hears (h : Deaf s) (hstt : s.transcribes = true) : s.hears = false :=
  eq_false_of_ne_true fun hhears => h.quiet ⟨hstt, hhears⟩

theorem Deaf.open (h : Deaf s) {e : Event} (hs : s.step e = some t) :
    t.isListeningForNextQuery = false :=
  (step_later hs).isListeningForNextQuery h.isListeningForNextQuery

/-- Events that enter no state and submit nothing. -/
theorem quiet_of_idle {as : List Act} (h : Deaf s) (ht : t.core = s.core.acts as)
    (hplain : Plain as) (hsame : hearsAfter s.hears as = s.hears) :
    ¬ (t.transcribes = true ∧ t.hears = true) := by
  rw [quiet_of_plain h.isListeningForNextQuery ht hplain, hsame]
  exact h.quiet

theorem quiet_of_deaf {as : List Act} (h : Deaf s) (ht : t.core = s.core.acts as)
    (hdeaf : hearsAfter s.hears as = false) : ¬ (t.transcribes = true ∧ t.hears = true) := by
  rw [hears_of_acts h.isListeningForNextQuery ht, hdeaf]
  exact fun hboth => Bool.noConfusion hboth.2

theorem quiet_submitActs (h : Deaf s) (ht : t.core = s.core.acts s.submitActs) :
    ¬ (t.transcribes = true ∧ t.hears = true) := by
  unfold submitActs at ht
  split at ht
  next => exact quiet_of_idle h ht Only.nil rfl
  next => exact quiet_of_deaf h ht rfl

theorem quiet_stopConversation (h : Deaf s) :
    ¬ (s.stopConversation.transcribes = true ∧ s.stopConversation.hears = true) := by
  have ht := core_stopConversation s
  unfold stopConversationActs at ht
  split at ht
  next => exact quiet_of_idle h ht Only.nil rfl
  next =>
    refine quiet_of_deaf h ht ?_
    unfold processSpeechSegmentActs submitActs
    split_ifs <;> rfl

theorem quiet_run_iff {i : Nat} {outcome : Outcome} (h : Deaf s)
    (hr : s.run i outcome = some t) :
    (t.transcribes = true ∧ t.hears = true) ↔ s.listensOn (.run i outcome) = true := by
  have hcore := core_run hr
  obtain ⟨job, hjob, hr⟩ := Option.bind_eq_some_iff.mp hr
  have hlistens : s.listensOn (.run i outcome) =
      (!job.cancelled && s.taskListens job.task outcome &&
        (s.jobs.eraseIdx i).any fun other => other.task.isSTT) := by
    show (match s.jobs[i]? with | some job => _ | none => false) = _
    rw [hjob]
  -- a transcription that is left was there before, and then the state did not hear
  have hbefore (hleft : ((s.jobs.eraseIdx i).any fun other => other.task.isSTT) = true) :
      s.hears = false := by
    refine h.hears ?_
    obtain ⟨other, hmem, hstt⟩ := List.any_eq_true.mp hleft
    exact List.any_eq_true.mpr ⟨other, List.mem_of_mem_eraseIdx hmem, hstt⟩
  rw [hears_of_acts h.isListeningForNextQuery hcore, hlistens]
  unfold runActs
  rw [hjob]
  dsimp only
  split at hr
  next hcancelled =>
    cases Option.some.inj hr
    rw [if_pos hcancelled, hearsAfter_append,
      transcribes_run_done hjob (core_endCancelled s _ _) (plain_of_answer (quiet_endCancelledActs _ _).answer), hcancelled]
    simp only [Bool.not_true, Bool.false_and, Bool.false_eq_true, iff_false]
    rintro ⟨hleft, hhears⟩
    rw [hbefore hleft, hearsAfter_endCancelledActs] at hhears
    cases hhears
  next hcancelled =>
    obtain ⟨resumed, hresume, rfl⟩ := Option.map_eq_some_iff.mp hr
    rw [if_neg hcancelled, hearsAfter_append, eq_false_of_ne_true hcancelled, Bool.not_false,
      Bool.true_and, Bool.and_eq_true]
    show _ ∧ hearsAfter s.hears (s.resumeActs job.task outcome) = true ↔ _
    have hplain := plain_of_answer (answer_resumeActs (s := s) job.task outcome)
    have hacts := hearsAfter_resumeActs (s := s) job.task outcome
    cases hnext : resumed.2 with
    | none =>
      rw [transcribes_run_done hjob (core_resume hresume) hplain]
      constructor
      · rintro ⟨hleft, hhears⟩
        rw [hbefore hleft, hacts] at hhears
        exact ⟨hhears, hleft⟩
      · rintro ⟨hlisten, hleft⟩
        rw [hbefore hleft, hacts]
        exact ⟨hleft, hlisten⟩
    | some next =>
      rw [transcribes_run_next hjob (core_resume hresume) hplain]
      constructor
      · rintro ⟨hleft, hhears⟩
        rw [Bool.or_eq_true] at hleft
        rcases hleft with hleft | hstt
        · rw [hbefore hleft, hacts] at hhears
          exact ⟨hhears, hleft⟩
        · obtain ⟨htask, hlisten⟩ := isSTT_of_next hresume hnext hstt
          have hself : s.transcribes = true :=
            List.any_eq_true.mpr ⟨job, List.mem_of_getElem? hjob, htask⟩
          rw [h.hears hself, hacts, hlisten] at hhears
          cases hhears
      · rintro ⟨hlisten, hleft⟩
        rw [hbefore hleft, hacts, hleft]
        exact ⟨rfl, hlisten⟩

theorem onAudioData_speech {frame : Frame} (h : s.reachesVAD frame = false) :
    (s.onAudioData frame).speechBuffer = s.speechBuffer := by
  unfold reachesVAD at h
  unfold onAudioData
  split
  next hrun =>
    unfold processAudioWithVAD
    split
    next => rfl
    split
    next => rfl
    split
    next => rfl
    split
    next => rfl
    next hspeaking htts htimeout hhears => simp_all
  next => rfl

/-- A submitted segment is being transcribed, whatever a coroutine does next. -/
theorem transcribes_of_submit {as : List Act} (hplain : Plain as)
    (ht : t.core = s.core.acts (.enter .transcribing :: .start .stt (.stt .transcribe) :: as)) :
    t.transcribes = true := by
  let c := (s.core.enter .transcribing).act (.start .stt (.stt .transcribe))
  obtain ⟨more, hmore, -⟩ := tasks_acts (c := c) hplain
  have htasks : c.jobs.map Job.task =
      (s.core.enter .transcribing).jobs.map Job.task ++ [.stt .transcribe] := by
    simp [c, PipelineCore.act, PipelineCore.launch, PipelineCore.setHandle]
  rw [transcribes_eq, ht]
  show ((c.acts as).jobs.map Job.task).any Task.isSTT = true
  rw [hmore, htasks]
  simp [Task.isSTT]

theorem quiet_endSegmentActs (h : Deaf s) (hfree : s.transcribes = false) {longEnough : Bool}
    {speechBuffer : Nat} (ht : t.core = s.core.acts (s.endSegmentActs longEnough speechBuffer)) :
    ¬ (t.transcribes = true ∧ t.hears = true) := by
  unfold endSegmentActs at ht
  split at ht
  next => exact quiet_submitActs h ht
  next =>
    rw [transcribes_of_plain ht plain_listenActs, hfree]
    exact fun hboth => Bool.noConfusion hboth.1

theorem quiet_vad_iff (h : Deaf s) {frame : Frame} (hfree : s.transcribes = false)
    (hrun : s.isRunning = true) (ht : t.core = s.core.acts (s.vadActs frame)) :
    (t.transcribes = true ∧ t.hears = true) ↔
      (frame.vad = .speechEnd && s.isCollectingSpeech &&
        (frame.longEnough && frameSize ≤ s.speechBuffer + frame.samples) &&
          !s.isProcessingSTT : Bool) = true := by
  have hnot {as : List Act} (hplain : Plain as) (hcore : t.core = s.core.acts as) :
      ¬ (t.transcribes = true ∧ t.hears = true) := by
    rw [transcribes_of_plain hcore hplain, hfree]
    exact fun hboth => Bool.noConfusion hboth.1
  unfold vadActs at ht
  cases hvad : frame.vad with
  | speechStart =>
    rw [hvad] at ht
    have hplain : Plain (if !s.isCollectingSpeech then [.unguard, .enter .speechDetected] else []) :=
      Only.ite (.of_all rfl) Only.nil
    simpa using hnot hplain ht
  | speech =>
    rw [hvad] at ht
    dsimp only at ht
    split at ht
    next => simpa using quiet_endSegmentActs h hfree ht
    next => simpa using hnot Only.nil ht
  | speechEnd =>
    rw [hvad] at ht
    dsimp only at ht
    cases hcollect : s.isCollectingSpeech with
    | false =>
      rw [hcollect, if_neg Bool.false_ne_true] at ht
      simpa using hnot Only.nil ht
    | true =>
      rw [hcollect, if_pos rfl] at ht
      cases hlong : (frame.longEnough && frameSize ≤ s.speechBuffer + frame.samples : Bool) with
      | false =>
        rw [hlong, if_neg Bool.false_ne_true] at ht
        simpa using hnot plain_listenActs ht
      | true =>
        rw [hlong, if_pos rfl] at ht
        unfold submitActs at ht
        cases hbusy : s.isProcessingSTT with
        | true =>
          rw [hbusy, if_pos rfl] at ht
          simpa using hnot plain_listenActs ht
        | false =>
          rw [hbusy, if_neg Bool.false_ne_true] at ht
          have hstt : t.transcribes = true := transcribes_of_submit plain_listenActs ht
          have hhears : t.hears = true := by
            rw [hears_of_acts h.isListeningForNextQuery ht, hearsAfter_append,
              hearsAfter_listenActs, hrun]
            rfl
          simp [hstt, hhears]
  | silence =>
    rw [hvad] at ht
    dsimp only at ht
    split at ht
    next => simpa using quiet_endSegmentActs h hfree ht
    next => simpa using hnot Only.nil ht

theorem quiet_frame_iff (h : Deaf s) (frame : Frame) :
    ((s.onAudioData frame).transcribes = true ∧ (s.onAudioData frame).hears = true) ↔
      s.frameListens frame = true := by
  have ht := core_onAudioData s frame
  unfold frameActs at ht
  have hlistens : s.frameListens frame = (s.reachesVAD frame &&
      (frame.vad = .speechEnd && s.isCollectingSpeech &&
        (frame.longEnough && frameSize ≤ s.speechBuffer + frame.samples) &&
          !s.isProcessingSTT : Bool)) := by
    unfold frameListens
    simp only [Bool.and_assoc]
  rw [hlistens]
  cases hreaches : s.reachesVAD frame with
  | true =>
    rw [hreaches, if_pos rfl] at ht
    have hfacts : s.hears = true ∧ s.isRunning = true := by
      unfold reachesVAD at hreaches
      unfold VoicePipeline.hears
      simp_all
    have hfree : s.transcribes = false :=
      eq_false_of_ne_true fun hstt => h.quiet ⟨hstt, hfacts.1⟩
    rw [Bool.true_and]
    exact quiet_vad_iff h hfree hfacts.2 ht
  | false =>
    rw [hreaches, if_neg Bool.false_ne_true] at ht
    have hquiet : ¬ ((s.onAudioData frame).transcribes = true ∧ (s.onAudioData frame).hears = true) := by
      split at ht
      next => exact quiet_of_idle h ht (.of_all rfl) rfl
      next => exact quiet_of_idle h ht Only.nil rfl
    simpa using hquiet

theorem processSpeechSegment_speech (s : VoicePipeline) :
    s.processSpeechSegment.speechBuffer = s.speechBuffer := by
  unfold processSpeechSegment
  split
  next => rfl
  split
  next => rfl
  next =>
    have hspeech := transitionToState_speech
      { s with consecutiveSilenceFrames := 0, isProcessingSTT := true } .transcribing
    have hbuffer := congrArg SpeechCapture.speechBuffer hspeech
    exact hbuffer

theorem transitionToListening_clear (s : VoicePipeline) :
    s.clearBuffers.transitionToListening.speechBuffer = 0 :=
  congrArg SpeechCapture.speechBuffer (transitionToListening_speech s.clearBuffers)

theorem stopConversation_speech (s : VoicePipeline) :
    s.stopConversation.speechBuffer ≤ s.speechBuffer := by
  unfold stopConversation
  split
  next => exact Nat.le_refl _
  next => exact Nat.zero_le _

theorem not_addsSamples {e : Event} (hs : s.step e = some t) (h : t.speechBuffer ≤ s.speechBuffer) :
    s.addsSamples e = false := by
  unfold addsSamples
  rw [hs, Option.any_some, decide_eq_false (Nat.not_lt.mpr h), Bool.and_false]

theorem forceEndSpeechSegment_speech (s : VoicePipeline) (longEnough : Bool) :
    (s.forceEndSpeechSegment longEnough).speechBuffer ≤ s.speechBuffer := by
  unfold forceEndSpeechSegment
  split
  next => exact Nat.le_refl _
  split
  next => exact Nat.le_of_eq (processSpeechSegment_speech s)
  next =>
    rw [transitionToListening_clear]
    exact Nat.zero_le _

/-- A tap listens, or adds samples, during a transcription exactly as `tapListens` says. -/
theorem tap_iff (h : Deaf s) (longEnough : Bool) :
    ((s.forceStopAndProcess longEnough).transcribes = true ∧
        (s.forceStopAndProcess longEnough).hears = true ∨
      s.addsSamples (.forceStopAndProcess longEnough) = true) ↔
        (s.transcribes && s.tapListens longEnough) = true := by
  have hs : s.step (.forceStopAndProcess longEnough) = some (s.forceStopAndProcess longEnough) := rfl
  unfold tapListens
  by_cases hspeech : (s.isCollectingSpeech && frameSize ≤ s.speechBuffer : Bool) = true
  · have htap : s.forceStopAndProcess longEnough = s.forceEndSpeechSegment longEnough :=
      if_pos hspeech
    have ht := core_forceEndSpeechSegment s longEnough
    have hcollect : s.isCollectingSpeech = true := by simp_all
    have hlong : frameSize ≤ s.speechBuffer := by simp_all
    have hacts : s.forceEndSpeechSegmentActs longEnough =
        if longEnough then s.submitActs else s.listenActs := by
      unfold forceEndSpeechSegmentActs endSegmentActs
      simp [hcollect, hlong]
    rw [not_addsSamples hs (htap ▸ forceEndSpeechSegment_speech s longEnough), htap, if_pos hspeech]
    rw [hacts] at ht
    cases longEnough with
    | true =>
      rw [if_pos rfl] at ht
      simpa using quiet_submitActs h ht
    | false =>
      rw [if_neg Bool.false_ne_true] at ht
      rw [quiet_of_plain h.isListeningForNextQuery ht plain_listenActs, hearsAfter_listenActs]
      have hquiet := h.quiet
      revert hquiet
      cases s.transcribes <;> cases s.hears <;> cases s.isRunning <;> simp
  · rw [if_neg hspeech]
    let combined := min s.preSpeechBuffer 32000 + s.speechBuffer
    by_cases henough : 4800 ≤ combined
    · have htap : s.forceStopAndProcess longEnough =
          { s with speechBuffer := combined }.processSpeechSegment := by
        unfold forceStopAndProcess
        rw [if_neg hspeech]
        exact if_pos henough
      have ht := core_forceStopAndProcess s longEnough
      unfold forceStopAndProcessActs at ht
      rw [if_neg hspeech, if_pos henough] at ht
      have hbuffer : (s.forceStopAndProcess longEnough).speechBuffer = combined := by
        rw [htap, processSpeechSegment_speech]
      have hadds : s.addsSamples (.forceStopAndProcess longEnough) =
          (s.transcribes && decide (0 < s.preSpeechBuffer)) := by
        unfold addsSamples
        rw [hs, Option.any_some, hbuffer]
        congr 1
        exact decide_eq_decide.mpr (by omega)
      have hquiet := quiet_submitActs h ht
      rw [hadds, decide_eq_true henough, Bool.true_and]
      simpa using fun hstt hhears => absurd ⟨hstt, hhears⟩ hquiet
    · have htap : s.forceStopAndProcess longEnough = s.stopConversation := by
        unfold forceStopAndProcess
        rw [if_neg hspeech]
        exact if_neg henough
      have hquiet := quiet_stopConversation h
      rw [not_addsSamples hs (htap ▸ stopConversation_speech s), htap, decide_eq_false henough]
      simpa using hquiet

/-- A step listens, or adds samples, during a transcription exactly as `listensOn` says. -/
theorem step_deaf_iff (h : Deaf s) {e : Event} (hs : s.step e = some t) :
    (t.transcribes = true ∧ t.hears = true ∨ s.addsSamples e = true) ↔ s.listensOn e = true := by
  have hidle {as : List Act} (ht : t.core = s.core.acts as) (hplain : Plain as)
      (hsame : hearsAfter s.hears as = s.hears) (hspeech : t.speechBuffer ≤ s.speechBuffer) :
      (t.transcribes = true ∧ t.hears = true ∨ s.addsSamples e = true) ↔ false = true := by
    rw [not_addsSamples hs hspeech]
    simpa using quiet_of_idle h ht hplain hsame
  have ht := core_step hs
  cases e with
  | initialized =>
    refine hidle ht Only.nil rfl ?_
    cases Option.some.inj hs
    split
    next => exact Nat.le_refl _
    next => exact Nat.le_refl _
  | startVoiceConversation =>
    have hspeech : t.speechBuffer ≤ s.speechBuffer := by
      cases Option.some.inj hs
      rcases (startVoiceConversation_settles s).buffers with ⟨hsame, -⟩ | ⟨hclear, -⟩
      · exact Nat.le_of_eq hsame
      · rw [hclear]
        exact Nat.zero_le _
    have hplain : Plain s.startVoiceConversationActs := Only.ite Only.nil (.of_all rfl)
    rw [not_addsSamples hs hspeech, quiet_of_plain h.isListeningForNextQuery ht hplain]
    show (s.transcribes = true ∧ hearsAfter s.hears s.startVoiceConversationActs = true ∨
      false = true) ↔ (s.transcribes && s.isInitialized && !s.isRunning) = true
    rw [hearsAfter_startVoiceConversationActs]
    have hquiet := h.quiet
    revert hquiet
    cases s.transcribes <;> cases s.hears <;> cases s.isInitialized <;> cases s.isRunning <;> simp
  | stopConversation =>
    cases Option.some.inj hs
    rw [not_addsSamples hs (stopConversation_speech s)]
    simpa [listensOn] using quiet_stopConversation h
  | forceStopAndProcess longEnough =>
    cases Option.some.inj hs
    exact tap_iff h longEnough
  | stopTTS => exact hidle ht (.of_all rfl) rfl (by cases Option.some.inj hs; exact Nat.le_refl _)
  | stopGeneration =>
    exact hidle ht (.of_all rfl) rfl (by cases Option.some.inj hs; exact Nat.le_refl _)
  | clearResponse => exact hidle ht Only.nil rfl (by cases Option.some.inj hs; exact Nat.le_refl _)
  | restartForNewQuestion =>
    exact hidle ht (.of_all rfl) rfl (by cases Option.some.inj hs; exact Nat.zero_le _)
  | release => exact hidle ht (.of_all rfl) rfl (by cases Option.some.inj hs; exact Nat.le_refl _)
  | frame frame =>
    cases Option.some.inj hs
    rw [quiet_frame_iff h frame]
    have hadds : s.addsSamples (.frame frame) = false := by
      cases hstt : s.transcribes with
      | false =>
        unfold addsSamples
        rw [hstt]
        rfl
      | true =>
        have hreaches : s.reachesVAD frame = false := by
          have hdeaf := h.hears hstt
          unfold VoicePipeline.hears at hdeaf
          unfold reachesVAD
          rw [hdeaf, Bool.and_false]
        exact not_addsSamples hs (Nat.le_of_eq (onAudioData_speech hreaches))
    rw [hadds]
    simp [listensOn]
  | run i outcome =>
    have hspeech : t.speechBuffer ≤ s.speechBuffer := by
      rcases (run_settles hs).buffers with ⟨hsame, -⟩ | ⟨hclear, -⟩
      · exact Nat.le_of_eq hsame
      · rw [hclear]
        exact Nat.zero_le _
    rw [not_addsSamples hs hspeech, quiet_run_iff h hs]
    simp

end Steps

/-- The pipeline never listens while a segment is being transcribed, in a run, exactly when no step
of the run listens on during a transcription. -/
theorem deaf_while_transcribing_iff {hasProvider hasQueue : Bool} {es : List Event}
    {t : VoicePipeline × Bool}
    (hr : Machine.run capture (start hasProvider hasQueue, false) es = some t) :
    Always capture DeafWhileTranscribing (start hasProvider hasQueue, false) es ↔
      Meets capture (fun c e => c.1.listensOn e = false) (start hasProvider hasQueue, false) es := by
  refine always_iff_meets (I := fun c => Deaf c.1 ∧ c.2 = false) ?_ ?_ ?_ ?_ hr
  · exact fun c hc => ⟨hc.1.quiet, hc.2⟩
  · rintro ⟨s, added⟩ e ⟨u, added'⟩ ⟨hdeaf, hadded⟩ hok hs
    obtain ⟨hstep, rfl⟩ := withHistory_iff.mp hs
    have hiff := step_deaf_iff hdeaf hstep
    rw [show s.listensOn e = false from hok] at hiff
    have hnot : ¬ (u.transcribes = true ∧ u.hears = true ∨ s.addsSamples e = true) :=
      fun hbad => Bool.noConfusion (hiff.mp hbad)
    refine ⟨⟨hdeaf.open hstep, fun hboth => hnot (.inl hboth)⟩, ?_⟩
    show (added || s.addsSamples e) = false
    rw [show added = false from hadded, Bool.false_or]
    exact eq_false_of_ne_true fun hadds => hnot (.inr hadds)
  · rintro ⟨s, added⟩ e ⟨u, added'⟩ ⟨hdeaf, hadded⟩ hbad hs ⟨hquiet, hnone⟩
    obtain ⟨hstep, rfl⟩ := withHistory_iff.mp hs
    have hlistens : s.listensOn e = true := eq_true_of_ne_false hbad
    rcases (step_deaf_iff hdeaf hstep).mpr hlistens with hboth | hadds
    · exact hquiet hboth
    · have hnone : (added || s.addsSamples e) = false := hnone
      rw [hadds, Bool.or_true] at hnone
      cases hnone
  · exact ⟨⟨rfl, fun hboth => Bool.noConfusion hboth.1⟩, rfl⟩

/-- A question whose end is found by a pause: the frames of silence end the segment. -/
theorem deaf_while_transcribing_pause :
    Always capture DeafWhileTranscribing (start true true, false)
      ([.initialized, .startVoiceConversation,
        .frame ⟨512, .speechStart, false, true, false, false⟩] ++
        List.replicate 18 (.frame ⟨512, .silence, false, true, false, false⟩)) :=
  (@deaf_while_transcribing_iff true true _ _ rfl).mpr (by decide)

/-- The end of the speech submits the segment, and the pipeline listens while it is transcribed. -/
theorem speech_end_listens : ∃ s,
    Machine.run capture (start true true, false)
      [.initialized, .startVoiceConversation,
        .frame ⟨512, .speechStart, false, true, false, false⟩,
        .frame ⟨512, .speechEnd, false, true, false, false⟩] = some s ∧
    s.1.transcribes = true ∧ s.1.currentState = .listening ∧ ¬ DeafWhileTranscribing s :=
  ⟨_, rfl, rfl, rfl, by decide⟩

end HeyNilo.VoicePipeline

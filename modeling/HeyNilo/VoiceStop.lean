import HeyNilo.VoiceStatus

namespace HeyNilo

def PipelineState.isStopped : PipelineState → Bool
  | .idle | .error => true
  | _ => false

namespace PipelineStatus

/-- The pipeline is stopped, and no state change after the first `changes` ones and no recording
after the first `recordings` ones says otherwise. -/
def StoppedSince (changes recordings : Nat) (f : PipelineStatus) : Prop :=
  f.isRunning = false ∧ f.currentState.isStopped = true ∧
    (∀ state ∈ f.stateChanges.drop changes, state.isStopped = true) ∧ f.recordings = recordings

instance (changes recordings : Nat) (f : PipelineStatus) :
    Decidable (StoppedSince changes recordings f) :=
  inferInstanceAs (Decidable (_ ∧ _ ∧ _ ∧ _))

variable {n m : Nat} {f g : PipelineStatus}

/-- The invariant behind `StoppedSince`. -/
structure Resting (n m : Nat) (f : PipelineStatus) : Prop where
  stopped : StoppedSince n m f
  since : n ≤ f.stateChanges.length
  isListeningForNextQuery : f.isListeningForNextQuery = false

def halt (f : PipelineStatus) : PipelineStatus := { f with isRunning := false }

theorem goTo_resting (h : Resting n m f) {newState : PipelineState}
    (hs : newState.isStopped = true) : Resting n m (f.goTo newState) := by
  obtain ⟨⟨hrun, hcur, hall, hrec⟩, hsince, hopen⟩ := h
  unfold goTo
  split
  next => exact ⟨⟨hrun, hcur, hall, hrec⟩, hsince, hopen⟩
  split
  next => exact ⟨⟨hrun, hcur, hall, hrec⟩, hsince, hopen⟩
  next =>
    refine ⟨⟨hrun, hs, ?_, hrec⟩, ?_, hopen⟩
    · intro state hmem
      rw [List.drop_append_of_le_length hsince, List.mem_append, List.mem_singleton] at hmem
      rcases hmem with hmem | rfl
      · exact hall state hmem
      · exact hs
    · simp only [List.length_append, List.length_singleton]
      omega

theorem goTo_currentState (hopen : f.isListeningForNextQuery = false) (newState : PipelineState) :
    (f.goTo newState).currentState = newState := by
  unfold goTo
  rw [if_neg (by simp [hopen])]
  split
  next h => exact h
  next => rfl

/-- A transition out of the stopped states stays on the record. -/
theorem goTo_breaks (h : Resting n m f) {newState : PipelineState}
    (hs : newState.isStopped = false) (hl : Later (f.goTo newState) g) : ¬ StoppedSince n m g := by
  have hne : f.currentState ≠ newState := by
    rintro rfl
    have hcur := h.stopped.2.1
    rw [hs] at hcur
    cases hcur
  have hgo : (f.goTo newState).stateChanges = f.stateChanges ++ [newState] := by
    simp [goTo, h.isListeningForNextQuery, hne]
  obtain ⟨more, hmore⟩ := hl.stateChanges
  rw [hgo] at hmore
  rintro ⟨-, -, hall, -⟩
  have hmem : newState ∈ g.stateChanges.drop n := by
    rw [← hmore, List.append_assoc, List.drop_append_of_le_length h.since]
    simp
  have hstopped := hall newState hmem
  rw [hs] at hstopped
  cases hstopped

/-- The step that led to `f` kept the pipeline stopped or not, as `stays` says. -/
def Decides (n m : Nat) (stays : Bool) (f : PipelineStatus) : Prop :=
  if stays then Resting n m f else ¬ StoppedSince n m f

theorem Decides.rests {stays : Bool} (hs : stays = true) (h : Resting n m f) :
    Decides n m stays f := by
  subst hs
  exact h

theorem Decides.breaks {stays : Bool} (hs : stays = false) (h : ¬ StoppedSince n m f) :
    Decides n m stays f := by
  subst hs
  exact h

end PipelineStatus

namespace VoicePipeline

open PipelineStatus

/-- The coroutine of an earlier `restartForNewQuestion` calls `startVoiceConversation` itself. -/
def taskCallsStart (s : VoicePipeline) : Task → Bool
  | .newQuestion => !s.isRecording && !s.isRunning
  | .newQuestionDelay => !s.isRunning
  | _ => false

/-- The step calls `startVoiceConversation` or `restartForNewQuestion`. -/
def callsStart (s : VoicePipeline) : Event → Bool
  | .startVoiceConversation | .restartForNewQuestion => true
  | .run i _ =>
    match s.jobs[i]? with
    | some job => !job.cancelled && s.taskCallsStart job.task
    | none => false
  | _ => false

/-- The stop starts no transcription of the speech so far; a stop without an effect finds the
pipeline in a stopped state. -/
def stopsQuietly (s : VoicePipeline) : Bool :=
  if s.isRunning then
    !(s.isCollectingSpeech && frameSize ≤ s.speechBuffer && !s.isProcessingSTT)
  else s.currentState.isStopped

/-- A tap has no speech to send to a transcription. -/
def tapStays (s : VoicePipeline) (longEnough : Bool) : Bool :=
  s.isProcessingSTT ||
    if s.isCollectingSpeech && frameSize ≤ s.speechBuffer then !longEnough
    else min s.preSpeechBuffer 32000 + s.speechBuffer < 4800

/-- A call of `startStreamingTTS` speaks. -/
def speaks (s : VoicePipeline) (ready : Bool) : Bool := s.ttsIdle && ready

/-- The transcription does not reach the LLM. -/
def sttStays (s : VoicePipeline) : SttPoint → Bool
  | .transcribed _ => !s.hasQueue
  | _ => true

/-- The response is the first token or an error, and the safety net does not speak. -/
def providerStays (s : VoicePipeline) : ProviderPoint → Outcome → Bool
  | .collect isFirstToken, .response r _ =>
    r.isStreaming && isFirstToken || r.isError || !(r.isComplete || r.isStreaming)
  | .net, .resume answers => isBlank s.finalBubbleText || !s.speaks answers.ttsReady
  | _, _ => true

def legacyStays (s : VoicePipeline) : LegacyPoint → Outcome → Bool
  | .collect _, .queueResponse r => r.error.isSome || r.isComplete || r.token.isNone
  | .update responseComplete _, .resume answers =>
    responseComplete || !(answers.hasCompleteSentence && s.speaks answers.ttsReady)
  | .complete, .resume answers =>
    isBlank s.finalBubbleText || !(s.cancel s.llmProviderJob).speaks answers.ttsReady
  | .net, .resume answers => isBlank s.finalBubbleText || !s.speaks answers.ttsReady
  | _, _ => true

/-- The TTS job does not come to its end. -/
def ttsStays (s : VoicePipeline) : TtsPoint → Outcome → Bool
  | .wait, .resume _ => false
  | _, .resume answers => !s.isLLMResponseComplete || answers.ttsReady
  | _, _ => false

/-- The step of a coroutine that is not cancelled starts no recording, brings no reply and ends no
TTS job. -/
def taskStays (s : VoicePipeline) : Task → Outcome → Bool
  | .stt point, _ => s.sttStays point
  | .provider point, outcome => s.providerStays point outcome
  | .legacy point, outcome => s.legacyStays point outcome
  | .tts point, outcome => s.ttsStays point outcome
  | .recordingDelay .newQuestion, _ => false
  | .record, _ => false
  | .reinitTTS, .resume answers => !(answers.reinitSuccess && s.speaks answers.ttsReady)
  | _, _ => true

/-- Only a cancelled TTS job that has started matters: it still runs its `finally` block. -/
def cancelledStays : Task → Bool
  | .tts .start => true
  | .tts _ => false
  | _ => true

/-- The step does nothing that brings a stopped pipeline back. -/
def staysStopped (s : VoicePipeline) : Event → Bool
  | .forceStopAndProcess longEnough => s.tapStays longEnough
  | .run i outcome =>
    match s.jobs[i]? with
    | some job => if job.cancelled then cancelledStays job.task else s.taskStays job.task outcome
    | none => true
  | _ => true

variable {n m : Nat} {s : VoicePipeline}

theorem transitionToState_resting (h : Resting n m s.toPipelineStatus) {newState : PipelineState}
    (hs : newState.isStopped = true) :
    Resting n m (s.transitionToState newState).toPipelineStatus := by
  rw [status_transitionToState]
  exact goTo_resting h hs

theorem transitionToState_breaks (h : Resting n m s.toPipelineStatus) (newState : PipelineState)
    (hs : newState.isStopped = false) {g : PipelineStatus}
    (hl : Later (s.transitionToState newState).toPipelineStatus g) : ¬ StoppedSince n m g := by
  rw [status_transitionToState] at hl
  exact goTo_breaks h hs hl

theorem transitionToListening_resting (h : Resting n m s.toPipelineStatus) :
    Resting n m s.transitionToListening.toPipelineStatus := by
  rw [status_transitionToListening, listen_of_not_running h.stopped.1]
  exact h

theorem afterRecording_resting (h : Resting n m s.toPipelineStatus) {rest : AfterRecording}
    (hrest : rest ≠ .newQuestion) : Resting n m (s.afterRecording rest).1.toPipelineStatus := by
  cases rest with
  | launched => exact h
  | restart rest =>
    simp only [afterRecording, status_afterRestart]
    exact transitionToListening_resting h
  | newQuestion => contradiction

theorem recordNow_resting (h : Resting n m s.toPipelineStatus) {rest : AfterRecording}
    (hrest : rest ≠ .newQuestion) : Resting n m (s.recordNow rest).1.toPipelineStatus := by
  have hlisten : Resting n m
      (if s.currentState ≠ .listening then s.transitionToListening else s).toPipelineStatus := by
    split
    next => exact transitionToListening_resting h
    next => exact h
  refine afterRecording_resting ?_ hrest
  exact hlisten

/-- After its delay the coroutine of `restartForNewQuestion` is listening, stopped or not. -/
theorem recordNow_breaks (h : Resting n m s.toPipelineStatus) :
    ¬ StoppedSince n m (s.recordNow .newQuestion).1.toPipelineStatus := by
  have hlisten : Resting n m
      (if s.currentState ≠ .listening then s.transitionToListening else s).toPipelineStatus := by
    split
    next => exact transitionToListening_resting h
    next => exact h
  refine transitionToState_breaks ?_ .listening rfl (.refl _)
  exact hlisten

theorem startRecording_resting (h : Resting n m s.toPipelineStatus) {rest : AfterRecording}
    (hrest : rest ≠ .newQuestion) : Resting n m (s.startRecording rest).1.toPipelineStatus := by
  unfold startRecording
  split
  next => exact h
  next => exact recordNow_resting h hrest

theorem restartListening_of_stopped (hrun : s.isRunning = false) (rest : AfterRestart) :
    s.restartListening rest = s.afterRestart rest := by
  simp [restartListening, hrun]

theorem restartListening_resting (h : Resting n m s.toPipelineStatus) (rest : AfterRestart) :
    Resting n m (s.restartListening rest).1.toPipelineStatus := by
  rw [restartListening_of_stopped h.stopped.1, status_afterRestart]
  exact h

theorem completeWait_resting (h : Resting n m s.toPipelineStatus) :
    Resting n m s.completeWait.1.toPipelineStatus := by
  have hrun : s.isRunning = false := h.stopped.1
  simpa [completeWait, hrun] using h

theorem startStreamingTTS_resting (h : Resting n m s.toPipelineStatus) {ready : Bool}
    (hs : s.speaks ready = false) : Resting n m (s.startStreamingTTS ready).toPipelineStatus := by
  simp only [speaks, ttsIdle, Bool.and_eq_false_iff] at hs
  unfold startStreamingTTS
  split
  next => exact h
  split
  next => exact h
  split
  next => exact h
  next hactive hready hstreaming => simp_all

theorem startStreamingTTS_breaks (h : Resting n m s.toPipelineStatus) {ready : Bool}
    (hs : s.speaks ready = true) {g : PipelineStatus}
    (hl : Later (s.startStreamingTTS ready).toPipelineStatus g) : ¬ StoppedSince n m g := by
  simp only [speaks, ttsIdle, Bool.and_eq_true, Bool.not_eq_true'] at hs
  obtain ⟨⟨hstreaming, hactive⟩, rfl⟩ := hs
  simp only [startStreamingTTS, hactive, hstreaming, Bool.false_eq_true, if_false, Bool.not_true]
    at hl
  refine transitionToState_breaks ?_ .speaking rfl hl
  exact h

theorem ttsFinally_breaks (s : VoicePipeline) : ¬ StoppedSince n m s.ttsFinally.toPipelineStatus := by
  rintro ⟨hrun, -⟩
  cases hrun

theorem processSpeechSegment_breaks (h : Resting n m s.toPipelineStatus)
    (hspeech : s.speechBuffer ≠ 0) (hfree : s.isProcessingSTT = false) :
    ¬ StoppedSince n m s.processSpeechSegment.toPipelineStatus := by
  simp only [processSpeechSegment, hspeech, hfree, if_false, Bool.false_eq_true]
  refine transitionToState_breaks ?_ .transcribing rfl (.refl _)
  exact h

theorem processSpeechSegment_busy (h : Resting n m s.toPipelineStatus)
    (hbusy : s.isProcessingSTT = true) :
    Resting n m s.processSpeechSegment.toPipelineStatus := by
  simpa [processSpeechSegment, hbusy] using h

theorem resumeSTT_decides (h : Resting n m s.toPipelineStatus) {point : SttPoint}
    {outcome : Outcome} {resumed : Resumed} (hr : s.resumeSTT point outcome = some resumed) :
    Decides n m (s.sttStays point) resumed.1.toPipelineStatus := by
  unfold resumeSTT at hr
  split at hr
  next =>
    split at hr
    next => cases Option.some.inj hr; exact .rests rfl (restartListening_resting h .stt)
    next => cases Option.some.inj hr; exact .rests rfl h
  next => cases Option.some.inj hr; exact .rests rfl (transitionToState_resting h rfl)
  next =>
    split at hr
    next hqueue =>
      cases Option.some.inj hr
      refine .breaks (by simp [sttStays, hqueue]) ?_
      refine transitionToState_breaks h .thinking rfl ?_
      exact processWithLLM_later (.refl _) _
    next hqueue =>
      cases Option.some.inj hr
      exact .rests (by simp [sttStays, hqueue]) h
  next => cases Option.some.inj hr; exact .rests rfl h
  next => cases hr

theorem safetyNet_decides (h : Resting n m s.toPipelineStatus) (answers : Answers)
    (rest : AfterBlank) :
    Decides n m (isBlank s.finalBubbleText || !s.speaks answers.ttsReady)
      (s.safetyNet answers rest).1.toPipelineStatus := by
  unfold safetyNet
  split
  next hblank => exact .rests (by simp [hblank]) (restartListening_resting h _)
  next hblank =>
    rw [status_afterRestart]
    cases hspeaks : s.speaks answers.ttsReady with
    | true =>
      refine .breaks (by simp [hblank]) ?_
      have hidle : s.ttsIdle = true := by
        simp only [speaks, Bool.and_eq_true] at hspeaks
        exact hspeaks.1
      rw [if_pos hidle]
      exact startStreamingTTS_breaks h hspeaks (.refl _)
    | false =>
      refine .rests (by simp) ?_
      split
      next => exact startStreamingTTS_resting h hspeaks
      next => exact h

theorem providerResponse_decides (h : Resting n m s.toPipelineStatus) (isFirstToken : Bool)
    (r : LLMResponse) (answers : Answers) :
    Decides n m (s.providerStays (.collect isFirstToken) (.response r answers))
      (s.providerResponse isFirstToken r answers).1.toPipelineStatus := by
  unfold providerResponse
  split
  next hfirst => exact .rests (by simp_all [providerStays]) h
  split
  next herror =>
    exact .rests (by simp [providerStays, herror]) (transitionToState_resting h rfl)
  split
  next hfirst herror hcomplete =>
    have hstays : s.providerStays (.collect isFirstToken) (.response r answers) = false := by
      simp_all [providerStays]
    refine .breaks hstays ?_
    have hrest : Resting n m { s with isLLMResponseComplete := true }.toPipelineStatus := h
    refine transitionToState_breaks hrest .speaking rfl ?_
    dsimp only
    split
    next =>
      refine restartListening_later ?_ _
      exact .refl _
    split
    next =>
      refine startStreamingTTS_later ?_ _
      exact .refl _
    next => exact .refl _
  split
  next hfirst herror hcomplete hstreaming =>
    have hstays : s.providerStays (.collect isFirstToken) (.response r answers) = false := by
      simp_all [providerStays]
    refine .breaks hstays ?_
    refine transitionToState_breaks h .speaking rfl ?_
    dsimp only
    split
    next =>
      refine startStreamingTTS_later ?_ _
      exact .refl _
    next => exact .refl _
  next hfirst herror hcomplete hstreaming =>
    exact .rests (by simp_all [providerStays]) h

theorem resumeProvider_decides (h : Resting n m s.toPipelineStatus) {point : ProviderPoint}
    {outcome : Outcome} {resumed : Resumed} (hr : s.resumeProvider point outcome = some resumed) :
    Decides n m (s.providerStays point outcome) resumed.1.toPipelineStatus := by
  unfold resumeProvider at hr
  split at hr
  next => cases Option.some.inj hr; exact .rests rfl h
  next => cases Option.some.inj hr; exact providerResponse_decides h _ _ _
  next =>
    split at hr
    next => cases Option.some.inj hr; exact .rests rfl (by simpa using h)
    next => cases Option.some.inj hr; exact .rests rfl h
  next => cases Option.some.inj hr; exact .rests rfl (by simpa using h)
  next => cases Option.some.inj hr; exact .rests rfl h
  next answers =>
    cases Option.some.inj hr
    have hupdate : Resting n m
        (s.onResponseUpdate s.finalBubbleText true).toPipelineStatus := h
    exact safetyNet_decides hupdate answers .providerNet
  next => cases Option.some.inj hr; exact .rests rfl (restartListening_resting h _)
  next => cases hr
  next => cases hr
  next =>
    cases Option.some.inj hr
    exact .rests (by simp [providerStays]) (transitionToState_resting h rfl)
  next => cases hr

theorem legacyResponse_decides (h : Resting n m s.toPipelineStatus) (responseComplete : Bool)
    (r : InferenceQueue.Response) :
    Decides n m (s.legacyStays (.collect responseComplete) (.queueResponse r))
      (s.legacyResponse r).1.toPipelineStatus := by
  unfold legacyResponse
  split
  next herror => exact .rests (by simp [legacyStays, herror]) (transitionToState_resting h rfl)
  split
  next herror hcomplete =>
    refine .rests (by simp [legacyStays, hcomplete]) ?_
    dsimp only
    split
    next => exact h
    next => exact h
  split
  next herror hcomplete token htoken =>
    refine .breaks (by simp_all [legacyStays]) ?_
    exact transitionToState_breaks h .speaking rfl (.refl _)
  next herror hcomplete htoken => exact .rests (by simp [legacyStays, htoken]) h

/-- What a step of the legacy job does that may start the TTS. -/
theorem startIf_decides (h : Resting n m s.toPipelineStatus) (may ready : Bool) :
    Decides n m (!(may && s.speaks ready))
      (if s.ttsIdle && may then s.startStreamingTTS ready else s).toPipelineStatus := by
  cases hspeaks : s.speaks ready with
  | true =>
    have hidle : s.ttsIdle = true := by
      simp only [speaks, Bool.and_eq_true] at hspeaks
      exact hspeaks.1
    cases may with
    | true =>
      refine .breaks rfl ?_
      rw [hidle]
      exact startStreamingTTS_breaks h hspeaks (.refl _)
    | false =>
      refine .rests rfl ?_
      rw [Bool.and_false]
      exact h
  | false =>
    refine .rests (by simp) ?_
    split
    next => exact startStreamingTTS_resting h hspeaks
    next => exact h

theorem resumeLegacy_decides (h : Resting n m s.toPipelineStatus) {point : LegacyPoint}
    {outcome : Outcome} {resumed : Resumed} (hr : s.resumeLegacy point outcome = some resumed) :
    Decides n m (s.legacyStays point outcome) resumed.1.toPipelineStatus := by
  unfold resumeLegacy at hr
  split at hr
  next => cases Option.some.inj hr; exact .rests rfl h
  next => cases Option.some.inj hr; exact legacyResponse_decides h _ _
  next =>
    split at hr
    next => cases Option.some.inj hr; exact .rests rfl (by simpa using h)
    next => cases Option.some.inj hr; exact .rests rfl h
  next responseComplete text answers =>
    cases Option.some.inj hr
    have hupdate : Resting n m (s.streamingUpdate text).toPipelineStatus := by simpa using h
    have hstart := startIf_decides hupdate (!responseComplete && answers.hasCompleteSentence)
      answers.ttsReady
    have hspeaks : (s.streamingUpdate text).speaks answers.ttsReady = s.speaks answers.ttsReady := by
      cases text <;> rfl
    rw [hspeaks] at hstart
    cases responseComplete with
    | true => exact .rests rfl (by simpa using h)
    | false => simpa [legacyStays, Bool.and_comm] using hstart
  next answers =>
    cases Option.some.inj hr
    have hdone : Resting n m { (s.onResponseUpdate s.finalBubbleText true).cancel s.llmProviderJob with
        isLLMResponseComplete := true }.toPipelineStatus := h
    have hstart := startIf_decides hdone (!isBlank s.finalBubbleText) answers.ttsReady
    rw [Bool.not_and, Bool.not_not] at hstart
    exact hstart
  next answers =>
    cases Option.some.inj hr
    have hdone : Resting n m { s.onResponseUpdate s.finalBubbleText true with
        isLLMResponseComplete := true }.toPipelineStatus := h
    exact safetyNet_decides hdone answers .legacyNet
  next => cases Option.some.inj hr; exact .rests rfl (restartListening_resting h _)
  next => cases hr
  next => cases hr
  next =>
    cases Option.some.inj hr
    exact .rests (by simp [legacyStays]) (transitionToState_resting h rfl)
  next => cases hr

theorem resumeTTS_decides (h : Resting n m s.toPipelineStatus) {point : TtsPoint}
    {outcome : Outcome} {resumed : Resumed} (hr : s.resumeTTS point outcome = some resumed) :
    Decides n m (s.ttsStays point outcome) resumed.1.toPipelineStatus := by
  unfold resumeTTS at hr
  split at hr
  next => cases Option.some.inj hr; exact .breaks rfl (ttsFinally_breaks s)
  next answers hpoint =>
    split at hr
    next hdone =>
      split at hr
      next hready => cases Option.some.inj hr; exact .rests (by simp [ttsStays, hready]) h
      next hready =>
        cases Option.some.inj hr
        exact .breaks (by simp [ttsStays, hdone, hready]) (ttsFinally_breaks s)
    next hdone => cases Option.some.inj hr; exact .rests (by simp [ttsStays, hdone]) h
  next =>
    cases Option.some.inj hr
    exact .breaks (by cases point <;> rfl) (ttsFinally_breaks s)
  next => cases hr

theorem resumeRecord_breaks (h : Resting n m s.toPipelineStatus) (recordingStarted : Bool) :
    ¬ StoppedSince n m (s.resumeRecord recordingStarted).toPipelineStatus := by
  have hrec : s.recordings = m := h.stopped.2.2.2
  rintro ⟨-, -, -, hnext⟩
  have hmore : (s.resumeRecord recordingStarted).recordings = s.recordings + 1 := by
    cases recordingStarted <;> rfl
  omega

theorem resumeCompletionWait_resting (h : Resting n m s.toPipelineStatus) (answers : Answers) :
    Resting n m (s.resumeCompletionWait answers).1.toPipelineStatus := by
  unfold resumeCompletionWait
  dsimp only
  split
  next => exact completeWait_resting h
  next => exact h

theorem resume_decides (h : Resting n m s.toPipelineStatus) {task : Task} {outcome : Outcome}
    {resumed : Resumed} (hstart : s.taskCallsStart task = false)
    (hr : s.resume task outcome = some resumed) :
    Decides n m (s.taskStays task outcome) resumed.1.toPipelineStatus := by
  have hrun : s.isRunning = false := h.stopped.1
  unfold resume at hr
  split at hr
  next => exact resumeSTT_decides h hr
  next => exact resumeProvider_decides h hr
  next => exact resumeLegacy_decides h hr
  next => exact resumeTTS_decides h hr
  next => cases Option.some.inj hr; exact .rests rfl (startRecording_resting h nofun)
  next rest _ =>
    cases Option.some.inj hr
    cases rest with
    | launched => exact .rests rfl (recordNow_resting h nofun)
    | restart rest => exact .rests rfl (recordNow_resting h nofun)
    | newQuestion => exact .breaks rfl (recordNow_breaks h)
  next => cases Option.some.inj hr; exact .breaks rfl (resumeRecord_breaks h _)
  next => cases Option.some.inj hr; exact .rests rfl (restartListening_resting h _)
  next => cases Option.some.inj hr; exact .rests rfl (startRecording_resting h nofun)
  next =>
    split at hr
    next => cases Option.some.inj hr; exact .rests rfl h
    next hrecording => simp [taskCallsStart, hrun, hrecording] at hstart
  next => simp [taskCallsStart, hrun] at hstart
  next answers =>
    cases Option.some.inj hr
    cases hreinit : answers.reinitSuccess with
    | true =>
      cases hspeaks : s.speaks answers.ttsReady with
      | true =>
        refine .breaks (by simp [taskStays, hreinit, hspeaks]) ?_
        exact startStreamingTTS_breaks h hspeaks (.refl _)
      | false =>
        refine .rests (by simp [taskStays, hspeaks]) ?_
        exact startStreamingTTS_resting h hspeaks
    | false => exact .rests (by simp [taskStays, hreinit]) h
  next => cases Option.some.inj hr; exact .rests rfl (by simpa using h)
  next => cases Option.some.inj hr; exact .rests rfl (resumeCompletionWait_resting h _)
  next => cases hr

theorem restartCancelled_resting (h : Resting n m s.toPipelineStatus) (rest : AfterRestart) :
    Resting n m (s.restartCancelled rest).toPipelineStatus := by
  unfold restartCancelled
  split
  next => exact h
  next => exact transitionToState_resting h rfl
  next => exact transitionToState_resting h rfl
  next => exact h
  next => simpa using h

theorem endSTT_resting (h : Resting n m s.toPipelineStatus) (point : SttPoint)
    (outcome : Outcome) : Resting n m (s.endSTT point outcome).toPipelineStatus := by
  unfold endSTT
  split
  next =>
    split
    next =>
      rw [restartListening_of_stopped h.stopped.1]
      exact h
    next => exact transitionToState_resting h rfl
  next => exact transitionToState_resting h rfl
  next => exact transitionToState_resting h rfl
  next => exact h
  next => exact h

theorem endCancelled_decides (h : Resting n m s.toPipelineStatus) (task : Task)
    (outcome : Outcome) :
    Decides n m (cancelledStays task) (s.endCancelled task outcome).toPipelineStatus := by
  unfold endCancelled
  split
  next =>
    refine .rests rfl (restartCancelled_resting ?_ _)
    exact h
  next =>
    refine .rests rfl (restartCancelled_resting ?_ _)
    exact h
  next => exact .rests rfl (endSTT_resting h _ _)
  next => exact .rests rfl h
  next => exact .rests rfl h
  next => exact .rests rfl (by simpa using h)
  next => exact .rests rfl h
  next => exact .rests rfl h
  next => exact .rests rfl (transitionToState_resting h rfl)
  next => exact .rests rfl h
  next point hpoint =>
    refine .breaks ?_ (ttsFinally_breaks s)
    cases point with
    | start => exact absurd rfl hpoint
    | loop => rfl
    | wait => rfl
  next =>
    refine .rests ?_ h
    unfold cancelledStays
    split
    next => rfl
    next => simp_all
    next => rfl

theorem run_decides (h : Resting n m s.toPipelineStatus) {i : Nat} {outcome : Outcome}
    {t : VoicePipeline} (hstart : s.callsStart (.run i outcome) = false)
    (hr : s.run i outcome = some t) :
    Decides n m (s.staysStopped (.run i outcome)) t.toPipelineStatus := by
  obtain ⟨job, hjob, hr⟩ := Option.bind_eq_some_iff.mp hr
  simp only [callsStart, hjob] at hstart
  simp only [staysStopped, hjob]
  split at hr
  next hcancelled =>
    cases Option.some.inj hr
    rw [if_pos hcancelled, status_suspend]
    exact endCancelled_decides h _ _
  next hcancelled =>
    obtain ⟨resumed, hresume, rfl⟩ := Option.map_eq_some_iff.mp hr
    rw [if_neg hcancelled, status_suspend]
    exact resume_decides h (by simpa [hcancelled] using hstart) hresume

theorem forceStopAndProcess_decides (h : Resting n m s.toPipelineStatus) (longEnough : Bool) :
    Decides n m (s.tapStays longEnough) (s.forceStopAndProcess longEnough).toPipelineStatus := by
  have hrun : s.isRunning = false := h.stopped.1
  unfold forceStopAndProcess forceEndSpeechSegment tapStays
  cases hbusy : s.isProcessingSTT with
  | true =>
    refine .rests rfl ?_
    split
    next =>
      split
      next => exact h
      split
      next => exact processSpeechSegment_busy h hbusy
      next => exact transitionToListening_resting h
    next =>
      dsimp only
      split
      next =>
        refine processSpeechSegment_busy ?_ rfl
        exact h
      next => simpa [stopConversation, hrun] using h
  | false =>
    rw [Bool.false_or]
    split
    next hspeech =>
      simp only [Bool.and_eq_true, decide_eq_true_eq] at hspeech
      obtain ⟨hcollecting, hlong⟩ := hspeech
      simp only [hcollecting, hlong, Bool.not_true, Bool.false_eq_true, if_false, decide_true,
        Bool.and_true]
      cases longEnough with
      | true =>
        refine .breaks rfl (processSpeechSegment_breaks h ?_ hbusy)
        have hframe : 0 < frameSize := by decide
        omega
      | false => exact .rests rfl (transitionToListening_resting h)
    next =>
      dsimp only
      split
      next henough =>
        refine .breaks (by simp only [decide_eq_false_iff_not]; omega) ?_
        refine processSpeechSegment_breaks ?_ ?_ rfl
        · exact h
        · dsimp only
          omega
      next henough =>
        refine .rests (by simp only [decide_eq_true_eq]; omega) ?_
        simpa [stopConversation, hrun] using h

theorem step_decides (h : Resting n m s.toPipelineStatus) {e : Event} {t : VoicePipeline}
    (hstart : s.callsStart e = false) (hs : s.step e = some t) :
    Decides n m (s.staysStopped e) t.toPipelineStatus := by
  have hrun : s.isRunning = false := h.stopped.1
  cases e with
  | initialized =>
    cases Option.some.inj hs
    split
    next => exact .rests rfl h
    next => exact .rests rfl h
  | startVoiceConversation => cases hstart
  | stopConversation =>
    cases Option.some.inj hs
    exact .rests rfl (by simpa [stopConversation, hrun] using h)
  | forceStopAndProcess longEnough =>
    cases Option.some.inj hs
    exact forceStopAndProcess_decides h longEnough
  | stopTTS => cases Option.some.inj hs; exact .rests rfl h
  | stopGeneration => cases Option.some.inj hs; exact .rests rfl h
  | clearResponse => cases Option.some.inj hs; exact .rests rfl h
  | restartForNewQuestion => cases hstart
  | release =>
    cases Option.some.inj hs
    obtain ⟨⟨_, hstopped⟩, hsince, hopen⟩ := h
    exact .rests rfl ⟨⟨rfl, hstopped⟩, hsince, hopen⟩
  | frame frame =>
    cases Option.some.inj hs
    exact .rests rfl (by simpa [onAudioData, hrun] using h)
  | run i outcome => exact run_decides h hstart hs

/-- The pipeline is stopped in `s` and was so since `t`. -/
def StayedStopped (t s : VoicePipeline) : Prop :=
  StoppedSince t.stateChanges.length t.recordings s.toPipelineStatus

instance (t s : VoicePipeline) : Decidable (StayedStopped t s) :=
  inferInstanceAs (Decidable (StoppedSince _ _ _))

/-- Where a stop of a running pipeline leaves it: in `TRANSCRIBING` if it processes the speech so
far. -/
theorem status_stopConversation (hrun : s.isRunning = true) :
    s.stopConversation.toPipelineStatus =
      if s.stopsQuietly then s.toPipelineStatus.halt.goTo .idle
      else (s.toPipelineStatus.halt.goTo .idle).goTo .transcribing := by
  have hidle : ({ s with isRunning := false }.transitionToState .idle).toPipelineStatus =
      s.toPipelineStatus.halt.goTo .idle := status_transitionToState _ .idle
  have hspeech := transitionToState_speech { s with isRunning := false } .idle
  unfold stopConversation stopsQuietly
  generalize { s with isRunning := false }.transitionToState .idle = t at hidle hspeech
  have hcollecting : t.isCollectingSpeech = s.isCollectingSpeech :=
    congrArg (·.isCollectingSpeech) hspeech
  have hbuffer : t.speechBuffer = s.speechBuffer := congrArg (·.speechBuffer) hspeech
  have hbusy : t.isProcessingSTT = s.isProcessingSTT := congrArg (·.isProcessingSTT) hspeech
  simp only [hrun, Bool.not_true, Bool.false_eq_true, if_false, if_true, status_resetStopped,
    hcollecting, hbuffer]
  cases hfinal : s.isCollectingSpeech && decide (frameSize ≤ s.speechBuffer) with
  | false =>
    simp only [Bool.false_eq_true, if_false, Bool.false_and, Bool.not_false, if_true]
    exact hidle
  | true =>
    have hlong : s.speechBuffer ≠ 0 := by
      simp only [Bool.and_eq_true, decide_eq_true_eq] at hfinal
      have hframe : 0 < frameSize := by decide
      omega
    cases hprocessing : s.isProcessingSTT with
    | true => simpa [processSpeechSegment, hbuffer, hbusy, hprocessing, hlong] using hidle
    | false =>
      rw [← hidle]
      simp [processSpeechSegment, hbusy, hprocessing, hlong]

theorem stopConversation_decides (hopen : s.isListeningForNextQuery = false) :
    Decides s.stopConversation.stateChanges.length s.stopConversation.recordings s.stopsQuietly
      s.stopConversation.toPipelineStatus := by
  have hopen' := (stopConversation_later (.refl s.toPipelineStatus)).isListeningForNextQuery hopen
  -- a stopped state is at rest since itself
  have hrest : s.stopConversation.isRunning = false →
      s.stopConversation.currentState.isStopped = true →
      Resting s.stopConversation.stateChanges.length s.stopConversation.recordings
        s.stopConversation.toPipelineStatus := by
    intro hrun hcur
    exact ⟨⟨hrun, hcur, by simp, rfl⟩, le_rfl, hopen'⟩
  cases hrun : s.isRunning with
  | false =>
    have hstop : s.stopConversation = s := by simp [stopConversation, hrun]
    rw [hstop] at hrest ⊢
    cases hcur : s.currentState.isStopped with
    | true => exact .rests (by simp [stopsQuietly, hrun, hcur]) (hrest hrun hcur)
    | false =>
      refine .breaks (by simp [stopsQuietly, hrun, hcur]) ?_
      rintro ⟨-, hstopped, -⟩
      rw [hcur] at hstopped
      cases hstopped
  | true =>
    have hstatus := status_stopConversation hrun
    cases hquiet : s.stopsQuietly with
    | true =>
      rw [hquiet, if_pos rfl] at hstatus
      refine .rests rfl (hrest ?_ ?_)
      · rw [hstatus, goTo_isRunning]
        rfl
      · rw [hstatus, goTo_currentState (f := s.toPipelineStatus.halt) hopen]
        rfl
    | false =>
      rw [hquiet, if_neg Bool.false_ne_true] at hstatus
      refine .breaks rfl ?_
      rintro ⟨-, hstopped, -⟩
      have hidle := (goTo_later s.toPipelineStatus.halt .idle).isListeningForNextQuery hopen
      rw [hstatus, goTo_currentState hidle] at hstopped
      cases hstopped

/-- A stopped conversation stays stopped up to the next start exactly when the stop starts no
transcription and no step after it brings the pipeline back. -/
theorem stays_stopped_iff {hasProvider hasQueue : Bool} {es fs : List Event} {s u : VoicePipeline}
    (hr : Machine.run step (start hasProvider hasQueue) es = some s)
    (hw : Machine.Meets step (fun s e => s.callsStart e = false) s.stopConversation fs)
    (hu : Machine.run step s.stopConversation fs = some u) :
    Machine.Always step (StayedStopped s.stopConversation) s.stopConversation fs ↔
      s.stopsQuietly = true ∧
        Machine.Meets step (fun s e => s.staysStopped e = true) s.stopConversation fs := by
  have hstop := stopConversation_decides (isListeningForNextQuery_of_run hr)
  cases hquiet : s.stopsQuietly with
  | true =>
    rw [hquiet] at hstop
    have hrest : Resting s.stopConversation.stateChanges.length s.stopConversation.recordings
        s.stopConversation.toPipelineStatus := hstop
    simp only [true_and]
    refine Machine.always_iff_meets_within
      (I := fun t => Resting s.stopConversation.stateChanges.length s.stopConversation.recordings
        t.toPipelineStatus) (fun t ht => Resting.stopped ht) ?_ ?_ hrest hw hu
    · intro t e v ht hstart hstays hv
      have hnext := step_decides ht hstart hv
      rw [hstays] at hnext
      exact hnext
    · intro t e v ht hstart hstays hv
      have hnext := step_decides ht hstart hv
      rw [eq_false_of_ne_true hstays] at hnext
      exact hnext
  | false =>
    rw [hquiet] at hstop
    simp only [Bool.false_eq_true, false_and, iff_false]
    intro halways
    have hhead : StayedStopped s.stopConversation s.stopConversation := Machine.always_head halways
    exact hstop hhead

/-- A stop while the microphone records: the pipeline stays stopped through what its user may still
call. -/
theorem stays_stopped_recording : ∃ s u,
    Machine.run step (start true true) [.initialized, .startVoiceConversation, .run 0 (.resume {}),
      .run 0 (.resume { recordingStarted := true })] = some s ∧
    Machine.run step s.stopConversation [.stopTTS, .stopGeneration, .forceStopAndProcess true,
      .release] = some u ∧
    Machine.Always step (StayedStopped s.stopConversation) s.stopConversation
      [.stopTTS, .stopGeneration, .forceStopAndProcess true, .release] :=
  ⟨_, _, rfl, rfl, (@stays_stopped_iff true true [.initialized, .startVoiceConversation,
    .run 0 (.resume {}), .run 0 (.resume { recordingStarted := true })] _ _ _ rfl (by decide)
    rfl).mpr ⟨by decide, by decide⟩⟩

/-- A stop right after a start: the coroutine that starts the recording goes on, and the microphone
records in a stopped pipeline. -/
theorem stop_does_not_stop_recording : ∃ s u,
    Machine.run step (start true true) [.initialized, .startVoiceConversation] = some s ∧
    Machine.Meets step (fun s e => s.callsStart e = false) s.stopConversation
      [.run 0 (.resume {}), .run 0 (.resume { recordingStarted := true })] ∧
    Machine.run step s.stopConversation
      [.run 0 (.resume {}), .run 0 (.resume { recordingStarted := true })] = some u ∧
    u.isRecording = true ∧ ¬ StayedStopped s.stopConversation u :=
  ⟨_, _, rfl, by decide, rfl, rfl, by decide⟩

end VoicePipeline

end HeyNilo

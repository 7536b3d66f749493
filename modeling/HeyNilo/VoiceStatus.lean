import HeyNilo.VoicePipeline

namespace HeyNilo

namespace PipelineStatus

def goTo (f : PipelineStatus) (newState : PipelineState) : PipelineStatus :=
  if f.isListeningForNextQuery ∧ newState ≠ .listening ∧ newState ≠ .idle ∧ newState ≠ .error then f
  else if f.currentState = newState then f
  else { f with currentState := newState, stateChanges := f.stateChanges ++ [newState] }

def listen (f : PipelineStatus) : PipelineStatus :=
  if f.isRunning && f.currentState ≠ .listening then f.goTo .listening else f

/-- What any step leaves true: the guard stays open and the state changes are only added to. -/
structure Later (f g : PipelineStatus) : Prop where
  isListeningForNextQuery : f.isListeningForNextQuery = false → g.isListeningForNextQuery = false
  stateChanges : f.stateChanges <+: g.stateChanges

theorem Later.refl (f : PipelineStatus) : Later f f := ⟨id, List.prefix_rfl⟩

theorem Later.trans {f g h : PipelineStatus} (hfg : Later f g) (hgh : Later g h) : Later f h :=
  ⟨hgh.isListeningForNextQuery ∘ hfg.isListeningForNextQuery,
    hfg.stateChanges.trans hgh.stateChanges⟩

theorem goTo_later (f : PipelineStatus) (newState : PipelineState) : Later f (f.goTo newState) := by
  unfold goTo
  split
  next => exact .refl f
  next =>
    split
    next => exact .refl f
    next => exact ⟨id, List.prefix_append _ _⟩

theorem listen_later (f : PipelineStatus) : Later f f.listen := by
  unfold listen
  split
  next => exact goTo_later f .listening
  next => exact .refl f

theorem listen_of_not_running {f : PipelineStatus} (h : f.isRunning = false) : f.listen = f := by
  simp [listen, h]

@[simp] theorem goTo_isRunning (f : PipelineStatus) (newState : PipelineState) :
    (f.goTo newState).isRunning = f.isRunning := by
  unfold goTo
  split_ifs <;> rfl

end PipelineStatus

namespace VoicePipeline

open PipelineStatus

section Status

variable (s : VoicePipeline)

@[simp] theorem status_transitionToState (newState : PipelineState) :
    (s.transitionToState newState).toPipelineStatus = s.toPipelineStatus.goTo newState := by
  unfold transitionToState setCurrentState goTo
  split_ifs <;> rfl

theorem transitionToState_speech (newState : PipelineState) :
    (s.transitionToState newState).toSpeechCapture = s.toSpeechCapture := by
  unfold transitionToState setCurrentState
  split_ifs <;> rfl

@[simp] theorem status_transitionToListening : s.transitionToListening.toPipelineStatus = s.toPipelineStatus.listen := by
  unfold transitionToListening
  rw [apply_ite toPipelineStatus, status_transitionToState]
  rfl

@[simp] theorem status_launch (task : Task) : (s.launch task).toPipelineStatus = s.toPipelineStatus := rfl

@[simp] theorem status_resetStopped : s.resetStopped.toPipelineStatus = s.toPipelineStatus := rfl

@[simp] theorem status_providerFinally : s.providerFinally.toPipelineStatus = s.toPipelineStatus := rfl

@[simp] theorem status_streamingUpdate (text : Option Text) :
    (s.streamingUpdate text).toPipelineStatus = s.toPipelineStatus := by
  cases text <;> rfl

@[simp] theorem status_awaitCompletionAndListen : s.awaitCompletionAndListen.toPipelineStatus = s.toPipelineStatus := by
  unfold awaitCompletionAndListen
  split <;> rfl

@[simp] theorem status_afterStream : s.afterStream.toPipelineStatus = s.toPipelineStatus := by
  unfold afterStream
  split
  next => rfl
  next => exact status_awaitCompletionAndListen s

@[simp] theorem status_afterRestart (rest : AfterRestart) : (s.afterRestart rest).1.toPipelineStatus = s.toPipelineStatus := by
  cases rest with
  | launched => rfl
  | stt => rfl
  | llm rest =>
    cases rest with
    | complete isFirstToken => rfl
    | providerNet => exact status_afterStream s
    | legacyNet => exact status_afterStream s
    | failed => rfl

@[simp] theorem status_suspend (i : Nat) (next : Option Task) : (s.suspend i next).toPipelineStatus = s.toPipelineStatus := by
  cases next <;> rfl

@[simp] theorem status_providerCancelled : s.providerCancelled.toPipelineStatus = s.toPipelineStatus := by
  unfold providerCancelled
  split <;> rfl

end Status

section Later

variable {f : PipelineStatus} {s : VoicePipeline}

theorem transitionToState_later (h : Later f s.toPipelineStatus) (newState : PipelineState) :
    Later f (s.transitionToState newState).toPipelineStatus := by
  rw [status_transitionToState]
  exact h.trans (goTo_later _ _)

theorem transitionToListening_later (h : Later f s.toPipelineStatus) :
    Later f s.transitionToListening.toPipelineStatus := by
  rw [status_transitionToListening]
  exact h.trans (listen_later _)

theorem processSpeechSegment_later (h : Later f s.toPipelineStatus) :
    Later f s.processSpeechSegment.toPipelineStatus := by
  unfold processSpeechSegment
  split
  next => exact h
  next =>
    split
    next => exact h
    next =>
      refine transitionToState_later ?_ .transcribing
      exact h

theorem forceEndSpeechSegment_later (h : Later f s.toPipelineStatus) (longEnough : Bool) :
    Later f (s.forceEndSpeechSegment longEnough).toPipelineStatus := by
  unfold forceEndSpeechSegment
  split
  next => exact h
  next =>
    split
    next => exact processSpeechSegment_later h
    next => exact transitionToListening_later h

theorem startVoiceConversation_later (h : Later f s.toPipelineStatus) :
    Later f s.startVoiceConversation.toPipelineStatus := by
  unfold startVoiceConversation
  split
  next => exact h
  next =>
    split
    next => exact h
    next =>
      refine transitionToListening_later ?_
      exact ⟨h.isListeningForNextQuery, h.stateChanges⟩

theorem stopConversation_later (h : Later f s.toPipelineStatus) : Later f s.stopConversation.toPipelineStatus := by
  unfold stopConversation
  split
  next => exact h
  next =>
    have hidle : Later f ({ s with isRunning := false }.transitionToState .idle).toPipelineStatus := by
      refine transitionToState_later ?_ .idle
      exact ⟨h.isListeningForNextQuery, h.stateChanges⟩
    rw [status_resetStopped]
    split
    next =>
      refine processSpeechSegment_later ?_
      exact hidle
    next => exact hidle

theorem forceStopAndProcess_later (h : Later f s.toPipelineStatus) (longEnough : Bool) :
    Later f (s.forceStopAndProcess longEnough).toPipelineStatus := by
  unfold forceStopAndProcess
  split
  next => exact forceEndSpeechSegment_later h longEnough
  next =>
    dsimp only
    split
    next => exact processSpeechSegment_later h
    next => exact stopConversation_later h

theorem processAudioWithVAD_later (h : Later f s.toPipelineStatus) (frame : Frame) :
    Later f (s.processAudioWithVAD frame).toPipelineStatus := by
  unfold processAudioWithVAD
  split
  next => exact h
  split
  next => exact h
  split
  next => exact h
  split
  next => exact h
  dsimp only
  split
  next =>
    split
    next =>
      refine transitionToState_later ?_ .speechDetected
      exact ⟨fun _ => rfl, h.stateChanges⟩
    next => exact h
  next =>
    split
    next =>
      split
      next =>
        refine forceEndSpeechSegment_later ?_ _
        exact h
      next => exact h
    next => exact h
  next =>
    split
    next =>
      split
      next => exact transitionToListening_later (processSpeechSegment_later h)
      next => exact transitionToListening_later h
    next => exact h
  next =>
    split
    next =>
      split
      next =>
        refine forceEndSpeechSegment_later ?_ _
        exact h
      next => exact h
    next => exact h

theorem onAudioData_later (h : Later f s.toPipelineStatus) (frame : Frame) :
    Later f (s.onAudioData frame).toPipelineStatus := by
  unfold onAudioData
  split
  next => exact processAudioWithVAD_later h frame
  next => exact h

theorem startStreamingTTS_later (h : Later f s.toPipelineStatus) (ready : Bool) :
    Later f (s.startStreamingTTS ready).toPipelineStatus := by
  unfold startStreamingTTS
  split
  next => exact h
  split
  next => exact h
  split
  next => exact h
  refine transitionToState_later ?_ .speaking
  exact h

theorem ttsFinally_later (h : Later f s.toPipelineStatus) : Later f s.ttsFinally.toPipelineStatus :=
  ⟨h.isListeningForNextQuery, h.stateChanges⟩

theorem afterRecording_later (h : Later f s.toPipelineStatus) (rest : AfterRecording) :
    Later f (s.afterRecording rest).1.toPipelineStatus := by
  cases rest with
  | launched => exact h
  | restart rest =>
    simp only [afterRecording, status_afterRestart]
    exact transitionToListening_later h
  | newQuestion => exact transitionToState_later h .listening

theorem recordNow_later (h : Later f s.toPipelineStatus) (rest : AfterRecording) :
    Later f (s.recordNow rest).1.toPipelineStatus := by
  have hlisten : Later f
      (if s.currentState ≠ .listening then s.transitionToListening else s).toPipelineStatus := by
    split
    next => exact transitionToListening_later h
    next => exact h
  refine afterRecording_later ?_ rest
  exact hlisten

theorem startRecording_later (h : Later f s.toPipelineStatus) (rest : AfterRecording) :
    Later f (s.startRecording rest).1.toPipelineStatus := by
  unfold startRecording
  split
  next => exact h
  next => exact recordNow_later h rest

theorem restartListening_later (h : Later f s.toPipelineStatus) (rest : AfterRestart) :
    Later f (s.restartListening rest).1.toPipelineStatus := by
  unfold restartListening
  split
  next => simpa using h
  split
  next => simpa using h
  exact h

theorem newQuestionGo_later (h : Later f s.toPipelineStatus) : Later f s.newQuestionGo.1.toPipelineStatus := by
  unfold newQuestionGo
  split
  next => exact startRecording_later h .newQuestion
  next => exact startVoiceConversation_later h

theorem processWithLLM_later (h : Later f s.toPipelineStatus) (available : Bool) :
    Later f (s.processWithLLM available).toPipelineStatus := by
  unfold processWithLLM
  split
  next =>
    split
    next => exact h
    next => exact transitionToState_later h .error
  next => exact h

theorem streamAnswer_later (h : Later f s.toPipelineStatus) (ready : Bool) :
    Later f (if s.ttsIdle then s.startStreamingTTS ready else s).toPipelineStatus := by
  split
  next => exact startStreamingTTS_later h ready
  next => exact h

theorem safetyNet_later (h : Later f s.toPipelineStatus) (answers : Answers) (rest : AfterBlank) :
    Later f (s.safetyNet answers rest).1.toPipelineStatus := by
  unfold safetyNet
  split
  next => exact restartListening_later h _
  next =>
    rw [status_afterRestart]
    exact streamAnswer_later h _

theorem providerResponse_later (h : Later f s.toPipelineStatus) (isFirstToken : Bool) (r : LLMResponse)
    (answers : Answers) : Later f (s.providerResponse isFirstToken r answers).1.toPipelineStatus := by
  unfold providerResponse
  split
  next => exact h
  split
  next => exact transitionToState_later h .error
  split
  next =>
    have hdone : Later f ({ s with isLLMResponseComplete := true }.transitionToState
        .speaking).setBubble.toPipelineStatus := by
      refine transitionToState_later ?_ .speaking
      exact h
    dsimp only
    split
    next => exact restartListening_later hdone _
    split
    next => exact startStreamingTTS_later hdone _
    next => exact hdone
  split
  next =>
    have htext : Later f (((s.transitionToState .speaking).appendToken
        (newToken (s.transitionToState .speaking).fullResponseText r.text)).setBubble).toPipelineStatus :=
      transitionToState_later h .speaking
    dsimp only
    split
    next => exact startStreamingTTS_later htext _
    next => exact htext
  next => exact h

theorem legacyResponse_later (h : Later f s.toPipelineStatus) (r : InferenceQueue.Response) :
    Later f (s.legacyResponse r).1.toPipelineStatus := by
  unfold legacyResponse
  split
  next => exact transitionToState_later h .error
  split
  next =>
    dsimp only
    split
    next => exact h
    next => exact h
  split
  next => exact transitionToState_later h .speaking
  next => exact h

theorem completeWait_later (h : Later f s.toPipelineStatus) : Later f s.completeWait.1.toPipelineStatus := by
  unfold completeWait
  split
  next => exact h
  next =>
    have hreset : Later f s.resetForUtterance.toPipelineStatus := h
    dsimp only
    split
    next =>
      have hlisten : Later f (s.resetForUtterance.transitionToState .listening).toPipelineStatus :=
        transitionToState_later hreset .listening
      split
      next => exact hlisten
      next => exact startRecording_later hlisten .launched
    next =>
      split
      next => exact hreset
      next => exact startRecording_later hreset .launched

theorem resumeSTT_later (h : Later f s.toPipelineStatus) {point : SttPoint} {outcome : Outcome}
    {resumed : Resumed} (hr : s.resumeSTT point outcome = some resumed) :
    Later f resumed.1.toPipelineStatus := by
  unfold resumeSTT at hr
  split at hr
  next =>
    split at hr
    next => cases Option.some.inj hr; exact restartListening_later h .stt
    next => cases Option.some.inj hr; exact h
  next => cases Option.some.inj hr; exact transitionToState_later h .error
  next =>
    split at hr
    next =>
      cases Option.some.inj hr
      exact processWithLLM_later (transitionToState_later h .thinking) _
    next => cases Option.some.inj hr; exact h
  next => cases Option.some.inj hr; exact h
  next => cases hr

theorem resumeProvider_later (h : Later f s.toPipelineStatus) {point : ProviderPoint}
    {outcome : Outcome} {resumed : Resumed} (hr : s.resumeProvider point outcome = some resumed) :
    Later f resumed.1.toPipelineStatus := by
  unfold resumeProvider at hr
  split at hr
  next => cases Option.some.inj hr; exact h
  next => cases Option.some.inj hr; exact providerResponse_later h _ _ _
  next =>
    split at hr
    next => cases Option.some.inj hr; simpa using h
    next => cases Option.some.inj hr; exact h
  next => cases Option.some.inj hr; simpa using h
  next => cases Option.some.inj hr; exact h
  next =>
    cases Option.some.inj hr
    refine safetyNet_later ?_ _ _
    exact h
  next => cases Option.some.inj hr; exact restartListening_later h _
  next => cases hr
  next => cases hr
  next => cases Option.some.inj hr; exact transitionToState_later h .error
  next => cases hr

theorem resumeLegacy_later (h : Later f s.toPipelineStatus) {point : LegacyPoint}
    {outcome : Outcome} {resumed : Resumed} (hr : s.resumeLegacy point outcome = some resumed) :
    Later f resumed.1.toPipelineStatus := by
  unfold resumeLegacy at hr
  split at hr
  next => cases Option.some.inj hr; exact h
  next => cases Option.some.inj hr; exact legacyResponse_later h _
  next =>
    split at hr
    next => cases Option.some.inj hr; simpa using h
    next => cases Option.some.inj hr; exact h
  next responseComplete text answers =>
    cases Option.some.inj hr
    have hupdate : Later f (s.streamingUpdate text).toPipelineStatus := by simpa using h
    dsimp only
    split
    next => exact startStreamingTTS_later hupdate _
    next => exact hupdate
  next =>
    cases Option.some.inj hr
    dsimp only
    split
    next =>
      refine startStreamingTTS_later ?_ _
      exact h
    next => exact h
  next =>
    cases Option.some.inj hr
    refine safetyNet_later ?_ _ _
    exact h
  next => cases Option.some.inj hr; exact restartListening_later h _
  next => cases hr
  next => cases hr
  next => cases Option.some.inj hr; exact transitionToState_later h .error
  next => cases hr

theorem resumeTTS_later (h : Later f s.toPipelineStatus) {point : TtsPoint} {outcome : Outcome}
    {resumed : Resumed} (hr : s.resumeTTS point outcome = some resumed) :
    Later f resumed.1.toPipelineStatus := by
  unfold resumeTTS at hr
  split at hr
  next => cases Option.some.inj hr; exact ttsFinally_later h
  next =>
    split at hr
    next =>
      split at hr
      next => cases Option.some.inj hr; exact h
      next => cases Option.some.inj hr; exact ttsFinally_later h
    next => cases Option.some.inj hr; exact h
  next => cases Option.some.inj hr; exact ttsFinally_later h
  next => cases hr

theorem resumeRecord_later (h : Later f s.toPipelineStatus) (recordingStarted : Bool) :
    Later f (s.resumeRecord recordingStarted).toPipelineStatus := by
  unfold resumeRecord
  dsimp only
  split
  next => exact ⟨h.isListeningForNextQuery, h.stateChanges⟩
  next => exact ⟨h.isListeningForNextQuery, h.stateChanges⟩

theorem resumeCompletionWait_later (h : Later f s.toPipelineStatus) (answers : Answers) :
    Later f (s.resumeCompletionWait answers).1.toPipelineStatus := by
  unfold resumeCompletionWait
  dsimp only
  split
  next => exact completeWait_later h
  next => exact h

theorem resume_later (h : Later f s.toPipelineStatus) {task : Task} {outcome : Outcome}
    {resumed : Resumed} (hr : s.resume task outcome = some resumed) :
    Later f resumed.1.toPipelineStatus := by
  unfold resume at hr
  split at hr
  next => exact resumeSTT_later h hr
  next => exact resumeProvider_later h hr
  next => exact resumeLegacy_later h hr
  next => exact resumeTTS_later h hr
  next => cases Option.some.inj hr; exact startRecording_later h .launched
  next => cases Option.some.inj hr; exact recordNow_later h _
  next => cases Option.some.inj hr; exact resumeRecord_later h _
  next => cases Option.some.inj hr; exact restartListening_later h .launched
  next => cases Option.some.inj hr; exact startRecording_later h _
  next =>
    split at hr
    next => cases Option.some.inj hr; exact h
    next => cases Option.some.inj hr; exact newQuestionGo_later h
  next => cases Option.some.inj hr; exact newQuestionGo_later h
  next =>
    cases Option.some.inj hr
    dsimp only
    split
    next => exact startStreamingTTS_later h _
    next => exact h
  next => cases Option.some.inj hr; simpa using h
  next => cases Option.some.inj hr; exact resumeCompletionWait_later h _
  next => cases hr

theorem restartCancelled_later (h : Later f s.toPipelineStatus) (rest : AfterRestart) :
    Later f (s.restartCancelled rest).toPipelineStatus := by
  unfold restartCancelled
  split
  next => exact h
  next => exact transitionToState_later h .error
  next => exact transitionToState_later h .error
  next => exact h
  next => simpa using h

theorem endSTT_later (h : Later f s.toPipelineStatus) (point : SttPoint) (outcome : Outcome) :
    Later f (s.endSTT point outcome).toPipelineStatus := by
  unfold endSTT
  split
  next =>
    split
    next =>
      have hrestart := restartListening_later h .stt
      split
      next heq => simpa [heq] using hrestart
      next heq =>
        refine restartCancelled_later ?_ .stt
        simpa [heq] using hrestart
    next => exact transitionToState_later h .error
  next => exact transitionToState_later h .error
  next => exact transitionToState_later h .error
  next => exact h
  next => exact h

theorem endCancelled_later (h : Later f s.toPipelineStatus) (task : Task) (outcome : Outcome) :
    Later f (s.endCancelled task outcome).toPipelineStatus := by
  unfold endCancelled
  split
  next =>
    refine restartCancelled_later ?_ _
    exact h
  next =>
    refine restartCancelled_later ?_ _
    exact h
  next => exact endSTT_later h _ _
  next => exact h
  next => exact h
  next => simpa using h
  next => exact h
  next => exact h
  next => exact transitionToState_later h .error
  next => exact h
  next => exact ttsFinally_later h
  next => exact h

theorem run_later {t : VoicePipeline} {i : Nat} {outcome : Outcome}
    (hr : s.run i outcome = some t) : Later s.toPipelineStatus t.toPipelineStatus := by
  obtain ⟨job, -, hr⟩ := Option.bind_eq_some_iff.mp hr
  split at hr
  next =>
    cases Option.some.inj hr
    rw [status_suspend]
    exact endCancelled_later (.refl _) _ _
  next =>
    obtain ⟨resumed, hresume, rfl⟩ := Option.map_eq_some_iff.mp hr
    rw [status_suspend]
    exact resume_later (.refl _) hresume

theorem step_later {t : VoicePipeline} {e : Event} (hs : s.step e = some t) :
    Later s.toPipelineStatus t.toPipelineStatus := by
  have hrefl := Later.refl s.toPipelineStatus
  cases e with
  | initialized =>
    cases Option.some.inj hs
    split
    next => exact hrefl
    next => exact hrefl
  | startVoiceConversation => cases Option.some.inj hs; exact startVoiceConversation_later hrefl
  | stopConversation => cases Option.some.inj hs; exact stopConversation_later hrefl
  | forceStopAndProcess longEnough =>
    cases Option.some.inj hs
    exact forceStopAndProcess_later hrefl longEnough
  | stopTTS => cases Option.some.inj hs; exact hrefl
  | stopGeneration => cases Option.some.inj hs; exact hrefl
  | clearResponse => cases Option.some.inj hs; exact hrefl
  | restartForNewQuestion => cases Option.some.inj hs; exact ⟨fun _ => rfl, List.prefix_rfl⟩
  | release => cases Option.some.inj hs; exact ⟨id, List.prefix_rfl⟩
  | frame frame => cases Option.some.inj hs; exact onAudioData_later hrefl frame
  | run i outcome => exact run_later hs

end Later

/-- Nothing sets the flag that guards the state, so it never holds a transition back. -/
theorem isListeningForNextQuery_of_run {hasProvider hasQueue : Bool} {es : List Event}
    {s : VoicePipeline} (hr : Machine.run step (start hasProvider hasQueue) es = some s) :
    s.isListeningForNextQuery = false :=
  Machine.run_preserves (I := fun s => s.isListeningForNextQuery = false)
    (fun _ _ _ h hs => (step_later hs).isListeningForNextQuery h) rfl hr

end VoicePipeline

end HeyNilo

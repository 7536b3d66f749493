import HeyNilo.VoiceStatus

namespace HeyNilo.VoicePipeline

/-- What a coroutine leaves of the speech so far: all of it or nothing, and no new transcription. -/
structure Settles (s t : VoicePipeline) : Prop where
  buffers : (t.speechBuffer = s.speechBuffer ∧ t.preSpeechBuffer = s.preSpeechBuffer ∧
      t.isCollectingSpeech = s.isCollectingSpeech) ∨
    (t.speechBuffer = 0 ∧ t.preSpeechBuffer = 0 ∧ t.isCollectingSpeech = false)
  isProcessingSTT : t.isProcessingSTT = true → s.isProcessingSTT = true

variable {s t u : VoicePipeline}

theorem Settles.of_speech (h : t.toSpeechCapture = s.toSpeechCapture) : Settles s t := by
  refine ⟨.inl ⟨?_, ?_, ?_⟩, ?_⟩
  · exact congrArg SpeechCapture.speechBuffer h
  · exact congrArg SpeechCapture.preSpeechBuffer h
  · exact congrArg SpeechCapture.isCollectingSpeech h
  · rw [congrArg SpeechCapture.isProcessingSTT h]
    exact id

theorem Settles.refl (s : VoicePipeline) : Settles s s := .of_speech rfl

theorem Settles.trans (hst : Settles s t) (htu : Settles t u) : Settles s u := by
  refine ⟨?_, hst.isProcessingSTT ∘ htu.isProcessingSTT⟩
  rcases htu.buffers with ⟨hspeech, hpre, hcollect⟩ | hclear
  · rw [hspeech, hpre, hcollect]
    exact hst.buffers
  · exact .inr hclear

/-- The flags of the recorder do not matter. -/
theorem Settles.of_kept (hspeech : t.speechBuffer = s.speechBuffer)
    (hpre : t.preSpeechBuffer = s.preSpeechBuffer)
    (hcollect : t.isCollectingSpeech = s.isCollectingSpeech)
    (hbusy : t.isProcessingSTT = true → s.isProcessingSTT = true) : Settles s t :=
  ⟨.inl ⟨hspeech, hpre, hcollect⟩, hbusy⟩

theorem Settles.of_cleared (hspeech : t.speechBuffer = 0) (hpre : t.preSpeechBuffer = 0)
    (hcollect : t.isCollectingSpeech = false)
    (hbusy : t.isProcessingSTT = true → s.isProcessingSTT = true) : Settles s t :=
  ⟨.inr ⟨hspeech, hpre, hcollect⟩, hbusy⟩

theorem transitionToState_settles (s : VoicePipeline) (newState : PipelineState) :
    Settles s (s.transitionToState newState) := .of_speech (transitionToState_speech s newState)

theorem transitionToListening_speech (s : VoicePipeline) :
    s.transitionToListening.toSpeechCapture = s.toSpeechCapture := by
  unfold transitionToListening
  dsimp only
  split
  next => exact transitionToState_speech _ .listening
  next => rfl

theorem transitionToListening_settles (s : VoicePipeline) : Settles s s.transitionToListening :=
  .of_speech (transitionToListening_speech s)

theorem stopRecorder_settles (s : VoicePipeline) : Settles s s.stopRecorder :=
  .of_kept rfl rfl rfl id

theorem startVoiceConversation_settles (s : VoicePipeline) : Settles s s.startVoiceConversation := by
  unfold startVoiceConversation
  split
  next => exact .refl s
  split
  next => exact .refl s
  next =>
    let u := { s with
      speechBuffer := 0
      preSpeechBuffer := 0
      isCollectingSpeech := false
      isRunning := true }
    have hu : Settles s u := .of_cleared rfl rfl rfl id
    have hlaunch : Settles u.transitionToListening
        (u.transitionToListening.launch .startRecording) := .of_speech rfl
    exact (hu.trans (transitionToListening_settles u)).trans hlaunch

theorem awaitCompletionAndListen_settles (s : VoicePipeline) :
    Settles s s.awaitCompletionAndListen := by
  unfold awaitCompletionAndListen
  split
  next => exact .refl s
  next => exact .of_speech rfl

theorem startStreamingTTS_settles (s : VoicePipeline) (ready : Bool) :
    Settles s (s.startStreamingTTS ready) := by
  unfold startStreamingTTS
  split
  next => exact .refl s
  split
  next => exact .of_speech rfl
  split
  next => exact .refl s
  next =>
    have hspeech := transitionToState_speech { s with isStreamingTTSActive := true } .speaking
    refine .of_cleared rfl rfl rfl ?_
    show (transitionToState { s with isStreamingTTSActive := true } .speaking).isProcessingSTT = true → _
    rw [congrArg SpeechCapture.isProcessingSTT hspeech]
    exact id

theorem answer_settles (s : VoicePipeline) (ready : Bool) :
    Settles s (if s.ttsIdle then s.startStreamingTTS ready else s) := by
  split
  next => exact startStreamingTTS_settles s ready
  next => exact .refl s

theorem ttsFinally_settles (s : VoicePipeline) : Settles s s.ttsFinally :=
  .of_cleared rfl rfl rfl nofun

theorem sttFinally_settles (s : VoicePipeline) : Settles s s.sttFinally :=
  .of_kept rfl rfl rfl nofun

theorem streamingUpdate_settles (s : VoicePipeline) (text : Option Text) :
    Settles s (s.streamingUpdate text) := by
  cases text <;> exact .of_speech rfl

theorem afterStream_settles (s : VoicePipeline) : Settles s s.afterStream := by
  unfold afterStream
  split
  next => exact .refl s
  next => exact awaitCompletionAndListen_settles s

theorem afterRestart_settles (s : VoicePipeline) (rest : AfterRestart) :
    Settles s (s.afterRestart rest).1 := by
  cases rest with
  | launched => exact .refl s
  | stt => exact sttFinally_settles s
  | llm rest =>
    cases rest with
    | complete isFirstToken => exact .refl s
    | providerNet => exact (afterStream_settles s).trans (.of_speech rfl)
    | legacyNet => exact afterStream_settles s
    | failed => exact .of_speech rfl

theorem afterRecording_settles (s : VoicePipeline) (rest : AfterRecording) :
    Settles s (s.afterRecording rest).1 := by
  cases rest with
  | launched => exact .refl s
  | restart rest =>
    have hflag : Settles s.transitionToListening
        { s.transitionToListening with isRestarting := false } := .of_kept rfl rfl rfl id
    exact ((transitionToListening_settles s).trans hflag).trans (afterRestart_settles _ rest)
  | newQuestion => exact transitionToState_settles s .listening

theorem recordNow_settles (s : VoicePipeline) (rest : AfterRecording) :
    Settles s (s.recordNow rest).1 := by
  let t := if s.currentState ≠ .listening then s.transitionToListening else s
  have ht : Settles s t := by
    show Settles s (if _ then _ else _)
    split
    next => exact transitionToListening_settles s
    next => exact .refl s
  have hlaunch : Settles t { t.launch .record with pipelineJob := some t.nextId } := .of_speech rfl
  exact (ht.trans hlaunch).trans (afterRecording_settles _ rest)

theorem startRecording_settles (s : VoicePipeline) (rest : AfterRecording) :
    Settles s (s.startRecording rest).1 := by
  unfold startRecording
  split
  next => exact stopRecorder_settles s
  next => exact recordNow_settles s rest

theorem resetForRestart_settles (s : VoicePipeline) : Settles s s.resetForRestart :=
  .of_cleared rfl rfl rfl nofun

theorem restartListening_settles (s : VoicePipeline) (rest : AfterRestart) :
    Settles s (s.restartListening rest).1 := by
  unfold restartListening
  split
  next => exact afterRestart_settles s rest
  split
  next => exact afterRestart_settles s rest
  next => exact resetForRestart_settles s

theorem newQuestionGo_settles (s : VoicePipeline) : Settles s s.newQuestionGo.1 := by
  unfold newQuestionGo
  split
  next => exact startRecording_settles s .newQuestion
  next => exact startVoiceConversation_settles s

theorem processWithLLM_settles (s : VoicePipeline) (available : Bool) :
    Settles s (s.processWithLLM available) := by
  unfold processWithLLM
  split
  next =>
    split
    next => exact .of_speech rfl
    next => exact (transitionToState_settles s .error).trans (.of_speech rfl)
  next => exact .of_speech rfl

theorem safetyNet_settles (s : VoicePipeline) (answers : Answers) (rest : AfterBlank) :
    Settles s (s.safetyNet answers rest).1 := by
  unfold safetyNet
  split
  next => exact restartListening_settles s _
  next => exact (answer_settles s _).trans (afterRestart_settles _ _)

theorem providerResponse_settles (s : VoicePipeline) (isFirstToken : Bool) (r : LLMResponse)
    (answers : Answers) : Settles s (s.providerResponse isFirstToken r answers).1 := by
  unfold providerResponse
  split
  next => exact .refl s
  split
  next => exact transitionToState_settles s .error
  split
  next =>
    let t := ({ s with isLLMResponseComplete := true }.transitionToState .speaking).setBubble
    have ht : Settles s t :=
      .of_speech (transitionToState_speech { s with isLLMResponseComplete := true } .speaking)
    dsimp only
    split
    next => exact ht.trans (restartListening_settles t _)
    split
    next => exact ht.trans (startStreamingTTS_settles t _)
    next => exact ht
  split
  next =>
    let t := s.transitionToState .speaking
    let u := (t.appendToken (newToken t.fullResponseText r.text)).setBubble
    have hu : Settles s u := .of_speech (transitionToState_speech s .speaking)
    dsimp only
    split
    next => exact hu.trans (startStreamingTTS_settles u _)
    next => exact hu
  next => exact .refl s

theorem legacyResponse_settles (s : VoicePipeline) (r : InferenceQueue.Response) :
    Settles s (s.legacyResponse r).1 := by
  unfold legacyResponse
  split
  next => exact transitionToState_settles s .error
  split
  next =>
    dsimp only
    split
    next => exact .of_speech rfl
    next => exact .of_speech rfl
  split
  next => exact .of_speech (transitionToState_speech s .speaking)
  next => exact .refl s

theorem completeWait_settles (s : VoicePipeline) : Settles s s.completeWait.1 := by
  unfold completeWait
  split
  next => exact .refl s
  next =>
    have hreset : Settles s s.resetForUtterance := .of_cleared rfl rfl rfl nofun
    have hlisten (u : VoicePipeline) : Settles u
        (if u.isRecording then ((u, none) : Resumed) else u.startRecording .launched).1 := by
      split
      next => exact .refl u
      next => exact startRecording_settles u .launched
    dsimp only
    split
    next => exact (hreset.trans (transitionToState_settles _ .listening)).trans (hlisten _)
    next => exact hreset.trans (hlisten _)

theorem resumeSTT_settles {point : SttPoint} {outcome : Outcome} {resumed : Resumed}
    (hr : s.resumeSTT point outcome = some resumed) : Settles s resumed.1 := by
  unfold resumeSTT at hr
  split at hr
  next =>
    split at hr
    next => cases Option.some.inj hr; exact restartListening_settles s .stt
    next => cases Option.some.inj hr; exact .refl s
  next => cases Option.some.inj hr; exact transitionToState_settles s .error
  next answers =>
    split at hr
    next =>
      cases Option.some.inj hr
      have hllm := processWithLLM_settles (s.transitionToState .thinking) answers.available
      exact ((transitionToState_settles s .thinking).trans hllm).trans (sttFinally_settles _)
    next => cases Option.some.inj hr; exact sttFinally_settles s
  next => cases Option.some.inj hr; exact sttFinally_settles s
  next => cases hr

theorem resumeProvider_settles {point : ProviderPoint} {outcome : Outcome} {resumed : Resumed}
    (hr : s.resumeProvider point outcome = some resumed) : Settles s resumed.1 := by
  unfold resumeProvider at hr
  split at hr
  next => cases Option.some.inj hr; exact .of_speech rfl
  next => cases Option.some.inj hr; exact providerResponse_settles s _ _ _
  next =>
    split at hr
    next => cases Option.some.inj hr; exact (afterStream_settles s).trans (.of_speech rfl)
    next => cases Option.some.inj hr; exact .of_speech rfl
  next => cases Option.some.inj hr; exact streamingUpdate_settles s _
  next => cases Option.some.inj hr; exact .of_speech rfl
  next =>
    cases Option.some.inj hr
    have hupdate : Settles s (s.onResponseUpdate s.finalBubbleText true) := .of_speech rfl
    exact hupdate.trans (safetyNet_settles _ _ _)
  next => cases Option.some.inj hr; exact restartListening_settles s _
  next => cases hr
  next => cases hr
  next => cases Option.some.inj hr; exact transitionToState_settles s .error
  next => cases hr

theorem resumeLegacy_settles {point : LegacyPoint} {outcome : Outcome} {resumed : Resumed}
    (hr : s.resumeLegacy point outcome = some resumed) : Settles s resumed.1 := by
  unfold resumeLegacy at hr
  split at hr
  next => cases Option.some.inj hr; exact .of_speech rfl
  next => cases Option.some.inj hr; exact legacyResponse_settles s _
  next =>
    split at hr
    next => cases Option.some.inj hr; exact afterStream_settles s
    next => cases Option.some.inj hr; exact .of_speech rfl
  next =>
    cases Option.some.inj hr
    have hupdate := streamingUpdate_settles s
    dsimp only
    split
    next => exact (hupdate _).trans (startStreamingTTS_settles _ _)
    next => exact hupdate _
  next =>
    cases Option.some.inj hr
    let u := s.onResponseUpdate s.finalBubbleText true
    let t := { u.cancel u.llmProviderJob with isLLMResponseComplete := true }
    have ht : Settles s t := .of_speech rfl
    dsimp only
    split
    next => exact ht.trans (startStreamingTTS_settles t _)
    next => exact ht
  next =>
    cases Option.some.inj hr
    have hupdate : Settles s { s.onResponseUpdate s.finalBubbleText true with
        isLLMResponseComplete := true } := .of_speech rfl
    exact hupdate.trans (safetyNet_settles _ _ _)
  next => cases Option.some.inj hr; exact restartListening_settles s .launched
  next => cases hr
  next => cases hr
  next => cases Option.some.inj hr; exact transitionToState_settles s .error
  next => cases hr

theorem resumeTTS_settles {point : TtsPoint} {outcome : Outcome} {resumed : Resumed}
    (hr : s.resumeTTS point outcome = some resumed) : Settles s resumed.1 := by
  unfold resumeTTS at hr
  split at hr
  next => cases Option.some.inj hr; exact ttsFinally_settles s
  next =>
    split at hr
    next =>
      split at hr
      next => cases Option.some.inj hr; exact .refl s
      next => cases Option.some.inj hr; exact ttsFinally_settles s
    next => cases Option.some.inj hr; exact .refl s
  next => cases Option.some.inj hr; exact ttsFinally_settles s
  next => cases hr

theorem resume_settles {task : Task} {outcome : Outcome} {resumed : Resumed}
    (hr : s.resume task outcome = some resumed) : Settles s resumed.1 := by
  unfold resume at hr
  split at hr
  next => exact resumeSTT_settles hr
  next => exact resumeProvider_settles hr
  next => exact resumeLegacy_settles hr
  next => exact resumeTTS_settles hr
  next => cases Option.some.inj hr; exact startRecording_settles s .launched
  next => cases Option.some.inj hr; exact recordNow_settles s _
  next answers =>
    cases Option.some.inj hr
    show Settles s (s.resumeRecord answers.recordingStarted)
    unfold resumeRecord
    dsimp only
    split
    next => exact .of_kept rfl rfl rfl id
    next => exact .of_speech rfl
  next => cases Option.some.inj hr; exact restartListening_settles s .launched
  next => cases Option.some.inj hr; exact startRecording_settles s _
  next =>
    split at hr
    next => cases Option.some.inj hr; exact .of_kept rfl rfl rfl id
    next => cases Option.some.inj hr; exact newQuestionGo_settles s
  next => cases Option.some.inj hr; exact newQuestionGo_settles s
  next =>
    cases Option.some.inj hr
    dsimp only
    split
    next => exact startStreamingTTS_settles s _
    next => exact .refl s
  next => cases Option.some.inj hr; exact awaitCompletionAndListen_settles s
  next =>
    cases Option.some.inj hr
    unfold resumeCompletionWait
    dsimp only
    split
    next => exact completeWait_settles s
    next => exact .refl s
  next => cases hr

theorem providerCancelled_settles (s : VoicePipeline) : Settles s s.providerCancelled := by
  unfold providerCancelled
  split
  next => exact .of_speech rfl
  next => exact .of_speech rfl

theorem restartCancelled_settles (s : VoicePipeline) (rest : AfterRestart) :
    Settles s (s.restartCancelled rest) := by
  have herror := transitionToState_settles s .error
  cases rest with
  | launched => exact .refl s
  | stt => exact herror.trans (sttFinally_settles _)
  | llm rest =>
    cases rest with
    | complete isFirstToken => exact providerCancelled_settles s
    | providerNet => exact providerCancelled_settles s
    | legacyNet => exact herror
    | failed => exact .of_speech rfl

theorem endSTT_settles (s : VoicePipeline) (point : SttPoint) (outcome : Outcome) :
    Settles s (s.endSTT point outcome) := by
  have herror := (transitionToState_settles s .error).trans (sttFinally_settles _)
  unfold endSTT
  split
  next =>
    split
    next =>
      have hrestart := restartListening_settles s .stt
      split
      next t heq =>
        rw [heq] at hrestart
        exact hrestart
      next t next heq =>
        rw [heq] at hrestart
        have hflag : Settles t { t with isRestarting := false } := .of_kept rfl rfl rfl id
        exact (hrestart.trans hflag).trans (restartCancelled_settles _ .stt)
    next => exact herror
  next => exact herror
  next => exact herror
  next => exact sttFinally_settles s
  next => exact .refl s

theorem endCancelled_settles (s : VoicePipeline) (task : Task) (outcome : Outcome) :
    Settles s (s.endCancelled task outcome) := by
  have hflag : Settles s { s with isRestarting := false } := .of_kept rfl rfl rfl id
  unfold endCancelled
  split
  next => exact hflag.trans (restartCancelled_settles _ _)
  next => exact hflag.trans (restartCancelled_settles _ _)
  next => exact endSTT_settles s _ _
  next => exact .refl s
  next => exact .of_speech rfl
  next => exact providerCancelled_settles s
  next => exact .refl s
  next => exact .refl s
  next => exact transitionToState_settles s .error
  next => exact .refl s
  next => exact ttsFinally_settles s
  next => exact .refl s

theorem suspend_settles (s : VoicePipeline) (i : Nat) (next : Option Task) :
    Settles s (s.suspend i next) := by
  cases next <;> exact .of_speech rfl

theorem run_settles {i : Nat} {outcome : Outcome} (hr : s.run i outcome = some t) :
    Settles s t := by
  obtain ⟨job, -, hr⟩ := Option.bind_eq_some_iff.mp hr
  split at hr
  next =>
    cases Option.some.inj hr
    exact (endCancelled_settles s _ _).trans (suspend_settles _ _ _)
  next =>
    obtain ⟨resumed, hresume, rfl⟩ := Option.map_eq_some_iff.mp hr
    exact (resume_settles hresume).trans (suspend_settles _ _ _)

end HeyNilo.VoicePipeline

import HeyNilo.VoiceActs

namespace HeyNilo.VoicePipeline

section Core

variable (s : VoicePipeline)

theorem core_pipelineJob (id : Option Nat) :
    { s with pipelineJob := id }.core = s.core.setHandle .recorder id := by
  unfold core PipelineCore.setHandle
  congr
  funext kind
  cases kind <;> rfl

theorem core_sttJob (id : Option Nat) :
    { s with sttJob := id }.core = s.core.setHandle .stt id := by
  unfold core PipelineCore.setHandle
  congr
  funext kind
  cases kind <;> rfl

theorem core_llmProviderJob (id : Option Nat) :
    { s with llmProviderJob := id }.core = s.core.setHandle .llm id := by
  unfold core PipelineCore.setHandle
  congr
  funext kind
  cases kind <;> rfl

theorem core_streamingTTSJob (id : Option Nat) :
    { s with streamingTTSJob := id }.core = s.core.setHandle .tts id := by
  unfold core PipelineCore.setHandle
  congr
  funext kind
  cases kind <;> rfl

theorem core_completionWaitJob (id : Option Nat) :
    { s with completionWaitJob := id }.core = s.core.setHandle .wait id := by
  unfold core PipelineCore.setHandle
  congr
  funext kind
  cases kind <;> rfl

theorem core_transitionToState (newState : PipelineState) :
    (s.transitionToState newState).core = s.core.enter newState := by
  unfold transitionToState setCurrentState PipelineCore.enter
  split_ifs <;> first | rfl | contradiction

theorem enter_of_state {c : PipelineCore} {newState : PipelineState}
    (h : c.currentState = newState) : c.enter newState = c := by
  unfold PipelineCore.enter
  split_ifs <;> rfl

theorem core_transitionToListening : s.transitionToListening.core = s.core.acts s.listenActs := by
  let t := { s with isStreamingTTSActive := false, isLLMResponseComplete := false }
  have ht : t.core = s.core := rfl
  show (if s.isRunning && decide (s.currentState ≠ .listening) then t.transitionToState .listening
    else t).core = _
  unfold listenActs
  cases hrun : s.isRunning with
  | false => rfl
  | true =>
    by_cases hstate : s.currentState = .listening
    · have henter : s.core.enter .listening = s.core := enter_of_state hstate
      simp only [hstate, ne_eq, not_true_eq_false, decide_false, Bool.and_false, if_true]
      exact henter.symm
    · simp only [hstate, ne_eq, not_false_eq_true, decide_true, Bool.and_true, if_true]
      rw [core_transitionToState, ht]
      rfl

theorem core_stopRecorder : s.stopRecorder.core = s.core.act (.stop .recorder) := by
  show { s.cancel s.pipelineJob with pipelineJob := none }.core = _
  rw [core_pipelineJob]
  rfl

theorem core_startVoiceConversation :
    s.startVoiceConversation.core = s.core.acts s.startVoiceConversationActs := by
  unfold startVoiceConversation startVoiceConversationActs
  split
  next hinit => simp [hinit]
  split
  next hrun => simp [hrun]
  next hinit hrun =>
    have hacts : (!s.isInitialized || s.isRunning) = false := by simp_all
    rw [hacts]
    let t := { s with
      speechBuffer := 0
      preSpeechBuffer := 0
      isCollectingSpeech := false
      isRunning := true }
    have ht : t.transitionToListening.core = s.core.acts [.enter .listening] :=
      core_transitionToListening t
    show t.transitionToListening.core.launch .startRecording = _
    rw [ht]
    rfl

/-- The launch of the transcription. -/
theorem core_submit {t : VoicePipeline} (ht : t.core = s.core) :
    { (t.transitionToState .transcribing).launch (.stt .transcribe) with
      sttJob := some (t.transitionToState .transcribing).nextId }.core =
        s.core.acts [.enter .transcribing, .start .stt (.stt .transcribe)] := by
  rw [core_sttJob]
  show ((t.transitionToState .transcribing).core.launch _).setHandle .stt
    (some (t.transitionToState .transcribing).core.nextId) = _
  rw [core_transitionToState, ht]
  rfl

theorem core_processSpeechSegment :
    s.processSpeechSegment.core = s.core.acts s.processSpeechSegmentActs := by
  unfold processSpeechSegment processSpeechSegmentActs
  split
  next => rfl
  unfold submitActs
  split
  next => rfl
  next => exact core_submit s rfl

theorem processSpeechSegmentActs_of_speech (hlong : frameSize ≤ s.speechBuffer) :
    s.processSpeechSegmentActs = s.submitActs := by
  have hne : s.speechBuffer ≠ 0 := by
    have hframe : 0 < frameSize := by decide
    omega
  exact if_neg hne

theorem submitActs_congr {t : VoicePipeline} (h : t.isProcessingSTT = s.isProcessingSTT) :
    t.submitActs = s.submitActs := by
  unfold submitActs
  rw [h]

theorem listenActs_congr {t : VoicePipeline} (h : t.isRunning = s.isRunning) :
    t.listenActs = s.listenActs := by
  unfold listenActs
  rw [h]

theorem core_forceEndSpeechSegment (longEnough : Bool) :
    (s.forceEndSpeechSegment longEnough).core =
      s.core.acts (s.forceEndSpeechSegmentActs longEnough) := by
  unfold forceEndSpeechSegment forceEndSpeechSegmentActs endSegmentActs
  split
  next => rfl
  split
  next hlong =>
    simp only [Bool.and_eq_true, decide_eq_true_eq] at hlong
    rw [core_processSpeechSegment, processSpeechSegmentActs_of_speech s hlong.2]
  next => exact core_transitionToListening s.clearBuffers

theorem core_resetStopped : s.resetStopped.core = s.core.act (.stop .recorder) := by
  let t := { s.clearBuffers with isProcessingSTT := false, isLLMResponseComplete := false }
  show { t.cancel t.pipelineJob with pipelineJob := none }.core = _
  rw [core_pipelineJob]
  rfl

theorem core_stopConversation :
    s.stopConversation.core = s.core.acts s.stopConversationActs := by
  unfold stopConversation stopConversationActs
  split
  next => rfl
  next hrun =>
    let t := { s with isRunning := false }.transitionToState .idle
    have ht : t.core = s.core.enter .idle := core_transitionToState { s with isRunning := false } .idle
    have hspeech : t.toSpeechCapture = s.toSpeechCapture := transitionToState_speech _ .idle
    let u := { t with isRecording := false }
    have hu : u.core = t.core := rfl
    have hcollect : t.isCollectingSpeech = s.isCollectingSpeech :=
      congrArg SpeechCapture.isCollectingSpeech hspeech
    have hbuffer : t.speechBuffer = s.speechBuffer := congrArg SpeechCapture.speechBuffer hspeech
    have hbusy : t.isProcessingSTT = s.isProcessingSTT :=
      congrArg SpeechCapture.isProcessingSTT hspeech
    have hsubmit : u.processSpeechSegmentActs = s.processSpeechSegmentActs := by
      show (if t.speechBuffer = 0 then [] else u.submitActs) = _
      rw [hbuffer, submitActs_congr s (t := u) hbusy]
      rfl
    show (if t.isCollectingSpeech && decide (frameSize ≤ t.speechBuffer) then
      u.processSpeechSegment else u).resetStopped.core = _
    rw [core_resetStopped, hcollect, hbuffer, PipelineCore.acts_cons, PipelineCore.acts_append]
    split
    next =>
      rw [core_processSpeechSegment, hsubmit, hu, ht]
      rfl
    next =>
      rw [hu, ht]
      rfl

theorem core_forceStopAndProcess (longEnough : Bool) :
    (s.forceStopAndProcess longEnough).core =
      s.core.acts (s.forceStopAndProcessActs longEnough) := by
  unfold forceStopAndProcess forceStopAndProcessActs
  split
  next => exact core_forceEndSpeechSegment s longEnough
  next =>
    dsimp only
    split
    next hlong =>
      let t := { s with speechBuffer := min s.preSpeechBuffer 32000 + s.speechBuffer }
      have ht : t.processSpeechSegment.core = s.core.acts t.processSpeechSegmentActs :=
        core_processSpeechSegment t
      have hne : min s.preSpeechBuffer 32000 + s.speechBuffer ≠ 0 := by omega
      have hacts : t.processSpeechSegmentActs = s.submitActs := if_neg hne
      rw [← hacts]
      exact ht
    next => exact core_stopConversation s

theorem core_stopTTS : s.stopTTS.core = s.core.act (.stop .tts) := by
  show { s.cancel s.streamingTTSJob with streamingTTSJob := none }.core = _
  rw [core_streamingTTSJob]
  rfl

theorem core_stopGeneration : s.stopGeneration.core = s.core.act (.stop .llm) := by
  show { s.cancel s.llmProviderJob with llmProviderJob := none }.core = _
  rw [core_llmProviderJob]
  rfl

theorem core_restartForNewQuestion :
    s.restartForNewQuestion.core = s.core.acts restartForNewQuestionActs := by
  let t := { s with isListeningForNextQuery := false }
  let u := { t.stopTTS.stopGeneration.clearBuffers with isProcessingSTT := false }.clearResponse
  have hu : u.core = t.stopTTS.stopGeneration.core := rfl
  have ht : t.core = s.core.act .unguard := rfl
  have hstop : { u.cancel u.sttJob with sttJob := none }.core = u.core.act (.stop .stt) := by
    rw [core_sttJob]
    rfl
  show { u.cancel u.sttJob with sttJob := none }.core.launch .newQuestion = _
  rw [hstop, hu, core_stopGeneration, core_stopTTS, ht]
  rfl

theorem core_release : s.release.core = s.core.acts [.clear .recorder, .cancelAll] := by
  let t := { s with pipelineJob := none }
  have ht : t.core = s.core.setHandle .recorder none := core_pipelineJob s none
  show t.core.act .cancelAll = _
  rw [ht]
  rfl

theorem processSpeechSegment_isRunning : s.processSpeechSegment.isRunning = s.isRunning := by
  unfold processSpeechSegment
  split
  next => rfl
  split
  next => rfl
  next =>
    let t := { s with consecutiveSilenceFrames := 0, isProcessingSTT := true }
    have hstatus := congrArg PipelineStatus.isRunning (status_transitionToState t .transcribing)
    rw [PipelineStatus.goTo_isRunning] at hstatus
    exact hstatus

theorem core_endSegment (t : VoicePipeline) (hcore : t.core = s.core)
    (hrun : t.isRunning = s.isRunning) (hcollect : t.isCollectingSpeech = true)
    (hbusy : t.isProcessingSTT = s.isProcessingSTT) (longEnough : Bool) :
    (t.forceEndSpeechSegment longEnough).core =
      s.core.acts (s.endSegmentActs longEnough t.speechBuffer) := by
  rw [core_forceEndSpeechSegment, hcore]
  unfold forceEndSpeechSegmentActs endSegmentActs
  rw [hcollect, Bool.not_true, if_neg Bool.false_ne_true, submitActs_congr s hbusy,
    listenActs_congr s hrun]

/-- A frame with the end of the speech listens again, whether the speech is processed or not. -/
theorem core_speechEnd (t : VoicePipeline) (hcore : t.core = s.core)
    (hrun : t.isRunning = s.isRunning) (hbusy : t.isProcessingSTT = s.isProcessingSTT)
    (longEnough : Bool) :
    (if longEnough && frameSize ≤ t.speechBuffer then t.processSpeechSegment
      else t).clearBuffers.transitionToListening.core = s.core.acts
        ((if longEnough && frameSize ≤ t.speechBuffer then s.submitActs else []) ++ s.listenActs) := by
  have hlisten {u : VoicePipeline} (hu : u.isRunning = s.isRunning) :
      u.clearBuffers.transitionToListening.core = u.core.acts s.listenActs := by
    have hcleared := core_transitionToListening u.clearBuffers
    rw [listenActs_congr s (t := u.clearBuffers) hu] at hcleared
    exact hcleared
  rw [PipelineCore.acts_append]
  split
  next hlong =>
    rw [hlisten ((processSpeechSegment_isRunning t).trans hrun), core_processSpeechSegment, hcore]
    simp only [Bool.and_eq_true, decide_eq_true_eq] at hlong
    rw [processSpeechSegmentActs_of_speech t hlong.2, submitActs_congr s hbusy]
  next =>
    rw [hlisten hrun, hcore]
    rfl

theorem core_processAudioWithVAD (frame : Frame) (hrun : s.isRunning = true) :
    (s.processAudioWithVAD frame).core = s.core.acts (s.frameActs frame) := by
  unfold processAudioWithVAD frameActs reachesVAD
  split
  next hspeaking => simp [hspeaking]
  split
  next htts => simp [htts]
  split
  next hspeaking htts htimeout =>
    simp only [Bool.and_eq_true, decide_eq_true_eq, Bool.not_eq_true'] at htimeout
    obtain ⟨⟨⟨hstate, hcollect⟩, hrestart⟩, htimeout⟩ := htimeout
    simp [hrun, htts, hstate, hcollect, hrestart, htimeout]
    rfl
  split
  next hspeaking htts htimeout hdeaf =>
    simp_all
  next hspeaking htts htimeout hhears =>
    have hstate : (decide (s.currentState = .listening) ||
        decide (s.currentState = .speechDetected)) = true := by
      by_contra hother
      simp_all
    have hreaches : (s.isRunning && !frame.ttsSpeaking &&
        !(s.currentState = .listening && !s.isCollectingSpeech && !s.isRestarting &&
          frame.listeningTimedOut) &&
            (s.currentState = .listening || s.currentState = .speechDetected)) = true := by
      rw [hstate, hrun, eq_false_of_ne_true htts, eq_false_of_ne_true htimeout]
      rfl
    rw [hreaches, if_pos rfl]
    let t := { s with preSpeechBuffer := min (s.preSpeechBuffer + frame.samples) maxPreSpeech }
    dsimp only
    unfold vadActs
    cases frame.vad with
    | speechStart =>
      dsimp only
      split
      next =>
        rw [core_transitionToState]
        rfl
      next => rfl
    | speech =>
      dsimp only
      by_cases hcollect : s.isCollectingSpeech = true
      · rw [if_pos hcollect, hcollect, Bool.true_and]
        let u := { t with
          speechBuffer := min (s.speechBuffer + frame.samples) maxBufferSize
          isCollectingSpeech := true
          consecutiveSilenceFrames := 0 }
        split
        next => exact core_endSegment s u rfl rfl rfl rfl frame.longEnough
        next => rfl
      · rw [if_neg hcollect, eq_false_of_ne_true hcollect]
        rfl
    | speechEnd =>
      dsimp only
      let u := { t with speechBuffer := s.speechBuffer + frame.samples }
      split
      next => exact core_speechEnd s u rfl rfl rfl frame.longEnough
      next => rfl
    | silence =>
      dsimp only
      by_cases hcollect : s.isCollectingSpeech = true
      · rw [if_pos hcollect, hcollect, Bool.true_and]
        simp only [decide_eq_true_eq]
        let u := { t with
          isCollectingSpeech := true
          consecutiveSilenceFrames := s.consecutiveSilenceFrames + 1 }
        split
        next => exact core_endSegment s u rfl rfl rfl rfl frame.longEnough
        next => rfl
      · rw [if_neg hcollect, eq_false_of_ne_true hcollect]
        rfl

theorem core_onAudioData (frame : Frame) :
    (s.onAudioData frame).core = s.core.acts (s.frameActs frame) := by
  unfold onAudioData
  split
  next hrun => exact core_processAudioWithVAD s frame hrun
  next hrun =>
    unfold frameActs reachesVAD
    rw [eq_false_of_ne_true hrun]
    rfl

theorem core_awaitCompletionAndListen :
    s.awaitCompletionAndListen.core = s.core.acts s.awaitCompletionActs := by
  unfold awaitCompletionAndListen awaitCompletionActs
  split
  next => rfl
  next =>
    rw [core_completionWaitJob]
    rfl

theorem core_startStreamingTTS (ready : Bool) :
    (s.startStreamingTTS ready).core = s.core.acts (s.startStreamingTTSActs ready) := by
  unfold startStreamingTTS startStreamingTTSActs
  split
  next => rfl
  split
  next => rfl
  split
  next => rfl
  next =>
    let t := { s with isStreamingTTSActive := true }
    have ht : (t.transitionToState .speaking).clearBuffers.core = s.core.enter .speaking :=
      core_transitionToState t .speaking
    rw [core_streamingTTSJob]
    show ((t.transitionToState .speaking).clearBuffers.core.launch _).setHandle .tts
      (some (t.transitionToState .speaking).clearBuffers.core.nextId) = _
    rw [ht]
    rfl

theorem core_answer (ready : Bool) :
    (if s.ttsIdle then s.startStreamingTTS ready else s).core = s.core.acts (s.answerActs ready) := by
  unfold answerActs
  split
  next => exact core_startStreamingTTS s ready
  next => rfl

theorem core_ttsFinally : s.ttsFinally.core = s.core.acts ttsFinallyActs := by
  let t := { s.clearBuffers with
    isStreamingTTSActive := false
    isProcessingSTT := false
    isRunning := true }
  have ht : { t with streamingTTSJob := none }.core = s.core.setHandle .tts none :=
    core_streamingTTSJob t none
  show { t with streamingTTSJob := none }.core.launch .awaitCompletion = _
  rw [ht]
  rfl

theorem core_sttFinally : s.sttFinally.core = s.core.act (.clear .stt) :=
  core_sttJob { s with isProcessingSTT := false } none

theorem core_providerFinally : s.providerFinally.core = s.core.act (.clear .llm) :=
  core_llmProviderJob s none

theorem core_providerCancelled : s.providerCancelled.core = s.core.act (.clear .llm) := by
  unfold providerCancelled
  split
  next => exact core_providerFinally s
  next => exact core_providerFinally s.setBubble

theorem core_afterStream : s.afterStream.core = s.core.acts s.afterStreamActs := by
  unfold afterStream afterStreamActs
  split
  next => rfl
  next => exact core_awaitCompletionAndListen s

theorem core_afterRestart (rest : AfterRestart) :
    (s.afterRestart rest).1.core = s.core.acts (s.afterRestartActs rest) := by
  cases rest with
  | launched => rfl
  | stt => exact core_sttFinally s
  | llm rest =>
    cases rest with
    | complete isFirstToken => rfl
    | providerNet =>
      show s.afterStream.providerFinally.core = s.core.acts (s.afterStreamActs ++ [.clear .llm])
      rw [core_providerFinally, core_afterStream, PipelineCore.acts_append]
      rfl
    | legacyNet => exact core_afterStream s
    | failed => exact core_providerFinally s

theorem core_afterRecording (rest : AfterRecording) :
    (s.afterRecording rest).1.core = s.core.acts (s.afterRecordingActs rest) := by
  cases rest with
  | launched => rfl
  | restart rest =>
    let t := { s.transitionToListening with isRestarting := false }
    have ht : t.core = s.core.acts s.listenActs := core_transitionToListening s
    show (t.afterRestart rest).1.core = s.core.acts (s.listenActs ++ t.afterRestartActs rest)
    rw [core_afterRestart, PipelineCore.acts_append, ht]
  | newQuestion => exact core_transitionToState s .listening

theorem core_recordNow (rest : AfterRecording) :
    (s.recordNow rest).1.core = s.core.acts (s.recordNowActs rest) := by
  let t := if s.currentState ≠ .listening then s.transitionToListening else s
  let u := { t.launch .record with pipelineJob := some t.nextId }
  have ht : t.core = s.core.acts s.listenActs := by
    by_cases hstate : s.currentState ≠ .listening
    · have heq : t = s.transitionToListening := if_pos hstate
      rw [heq]
      exact core_transitionToListening s
    · have heq : t = s := if_neg hstate
      have henter : s.core.enter .listening = s.core := enter_of_state (not_ne_iff.mp hstate)
      rw [heq]
      unfold listenActs
      split
      next => exact henter.symm
      next => rfl
  have hu : u.core = t.core.act (.start .recorder .record) := core_pipelineJob (t.launch .record) _
  show (u.afterRecording rest).1.core =
    s.core.acts (s.listenActs ++ .start .recorder .record :: u.afterRecordingActs rest)
  rw [core_afterRecording, hu, ht, PipelineCore.acts_append, PipelineCore.acts_cons]

theorem core_startRecording (rest : AfterRecording) :
    (s.startRecording rest).1.core = s.core.acts (s.startRecordingActs rest) := by
  unfold startRecording startRecordingActs
  split
  next => exact core_stopRecorder s
  next => exact core_recordNow s rest

theorem core_resetForRestart :
    s.resetForRestart.core = s.core.acts [.stop .wait, .stop .tts, .stop .recorder] := by
  let t := { s.cancel s.completionWaitJob with completionWaitJob := none }
  have ht : t.core = s.core.act (.stop .wait) := core_completionWaitJob (s.cancel s.completionWaitJob) none
  let u := { { t with isRestarting := true }.stopTTS.clearBuffers with
    isLLMResponseComplete := false
    isProcessingSTT := false
    fullResponseText := [] }
  have hu : u.core = t.core.act (.stop .tts) := core_stopTTS { t with isRestarting := true }
  show u.stopRecorder.core = _
  rw [core_stopRecorder, hu, ht]
  rfl

theorem core_restartListening (rest : AfterRestart) :
    (s.restartListening rest).1.core = s.core.acts (s.restartListeningActs rest) := by
  unfold restartListening restartListeningActs
  split
  next hrestart =>
    rw [hrestart]
    exact core_afterRestart s rest
  split
  next hrun =>
    rw [hrun, Bool.or_true]
    exact core_afterRestart s rest
  next hrestart hrun =>
    rw [eq_false_of_ne_true hrestart, eq_false_of_ne_true hrun]
    exact core_resetForRestart s

theorem core_newQuestionGo : s.newQuestionGo.1.core = s.core.acts s.newQuestionGoActs := by
  unfold newQuestionGo newQuestionGoActs
  split
  next => exact core_startRecording s .newQuestion
  next => exact core_startVoiceConversation s

theorem core_launchLLM (task : Task) :
    (s.launchLLM task).core = s.core.acts [.cancel .llm, .start .llm task] := by
  let t := s.cancel s.llmProviderJob
  show { t.launch task with llmProviderJob := some t.nextId }.core = _
  rw [core_llmProviderJob]
  rfl

theorem core_processWithLLM (available : Bool) :
    (s.processWithLLM available).core = s.core.acts (s.processWithLLMActs available) := by
  unfold processWithLLM processWithLLMActs
  split
  next =>
    split
    next => exact core_launchLLM s _
    next =>
      show (s.transitionToState .error).core.launch _ = _
      rw [core_transitionToState]
      rfl
  next => exact core_launchLLM s _

theorem core_providerResponse (isFirstToken : Bool) (r : LLMResponse) (answers : Answers) :
    (s.providerResponse isFirstToken r answers).1.core =
      s.core.acts (s.providerResponseActs isFirstToken r answers) := by
  unfold providerResponse providerResponseActs
  split
  next => rfl
  split
  next => exact core_transitionToState s .error
  split
  next =>
    let t := ({ s with isLLMResponseComplete := true }.transitionToState .speaking).setBubble
    have ht : t.core = s.core.act (.enter .speaking) :=
      core_transitionToState { s with isLLMResponseComplete := true } .speaking
    have hanswer := core_answer t answers.ttsReady
    dsimp only
    rw [PipelineCore.acts_cons, ← ht]
    split
    next => exact core_restartListening t _
    split
    next hidle =>
      rw [if_pos hidle] at hanswer
      exact hanswer
    next hidle =>
      rw [if_neg hidle] at hanswer
      exact hanswer
  split
  next =>
    let t := s.transitionToState .speaking
    let u := (t.appendToken (newToken t.fullResponseText r.text)).setBubble
    have ht : u.core = s.core.act (.enter .speaking) := core_transitionToState s .speaking
    have hanswer := core_answer u answers.ttsReady
    have hsame : u.answerActs answers.ttsReady = t.answerActs answers.ttsReady := rfl
    dsimp only
    rw [PipelineCore.acts_cons, ← ht]
    cases answers.hasCompleteSentence with
    | false =>
      rw [Bool.and_false]
      rfl
    | true =>
      rw [Bool.and_true, if_pos rfl, ← hsame]
      exact hanswer
  next => rfl

theorem core_legacyResponse (r : InferenceQueue.Response) :
    (s.legacyResponse r).1.core = s.core.acts (legacyResponseActs r) := by
  unfold legacyResponse legacyResponseActs
  split
  next => exact core_transitionToState s .error
  split
  next hcomplete =>
    rw [hcomplete]
    dsimp only
    split
    next => rfl
    next => rfl
  next hcomplete =>
    rw [eq_false_of_ne_true hcomplete]
    split
    next token htoken =>
      rw [htoken]
      exact core_transitionToState s .speaking
    next htoken =>
      rw [htoken]
      rfl

theorem core_safetyNet (answers : Answers) (rest : AfterBlank) :
    (s.safetyNet answers rest).1.core = s.core.acts (s.safetyNetActs answers rest) := by
  unfold safetyNet safetyNetActs
  split
  next => exact core_restartListening s _
  next =>
    dsimp only
    rw [core_afterRestart, core_answer, PipelineCore.acts_append]

theorem core_completeWait : s.completeWait.1.core = s.core.acts s.completeWaitActs := by
  unfold completeWait completeWaitActs
  split
  next => rfl
  next hrun =>
    let t := if s.currentState ≠ .listening then s.resetForUtterance.transitionToState .listening
      else s.resetForUtterance
    have ht : t.core = s.core.act (.enter .listening) ∧ t.isRecording = s.isRecording := by
      by_cases hstate : s.currentState ≠ .listening
      · have heq : t = s.resetForUtterance.transitionToState .listening := if_pos hstate
        rw [heq]
        have hspeech := transitionToState_speech s.resetForUtterance .listening
        have hrecording := congrArg SpeechCapture.isRecording hspeech
        exact ⟨core_transitionToState _ .listening, hrecording⟩
      · have heq : t = s.resetForUtterance := if_neg hstate
        rw [heq]
        exact ⟨(enter_of_state (c := s.core) (not_ne_iff.mp hstate)).symm, rfl⟩
    show (if t.isRecording then ((t, none) : Resumed) else t.startRecording .launched).1.core =
      s.core.acts (.enter .listening :: if s.isRecording then [] else t.startRecordingActs .launched)
    rw [ht.2, PipelineCore.acts_cons, ← ht.1]
    split
    next => rfl
    next => exact core_startRecording t .launched

variable {s}

theorem core_resumeSTT {point : SttPoint} {outcome : Outcome} {resumed : Resumed}
    (hr : s.resumeSTT point outcome = some resumed) :
    resumed.1.core = s.core.acts (s.resumeSTTActs point outcome) := by
  unfold resumeSTT at hr
  split at hr
  next text =>
    show resumed.1.core = s.core.acts (if isBlank text then s.restartListeningActs .stt else [])
    split at hr
    next hblank => cases Option.some.inj hr; rw [if_pos hblank]; exact core_restartListening s .stt
    next hblank => cases Option.some.inj hr; rw [if_neg hblank]; rfl
  next => cases Option.some.inj hr; exact core_transitionToState s .error
  next answers =>
    show resumed.1.core = s.core.acts
      (if s.hasQueue then .enter .thinking :: (s.processWithLLMActs answers.available ++ [.clear .stt])
      else [.clear .stt])
    split at hr
    next hqueue =>
      cases Option.some.inj hr
      let t := s.transitionToState .thinking
      have ht : t.core = s.core.act (.enter .thinking) := core_transitionToState s .thinking
      have hsame : t.processWithLLMActs answers.available = s.processWithLLMActs answers.available := by
        have hprovider : t.hasProvider = s.hasProvider := by
          show (transitionToState s .thinking).hasProvider = _
          unfold transitionToState setCurrentState
          split_ifs <;> rfl
        unfold processWithLLMActs
        rw [hprovider]
      rw [if_pos hqueue, PipelineCore.acts_cons, PipelineCore.acts_append, ← ht, ← hsame,
        ← core_processWithLLM]
      exact core_sttFinally _
    next hqueue => cases Option.some.inj hr; rw [if_neg hqueue]; exact core_sttFinally s
  next => cases Option.some.inj hr; exact core_sttFinally s
  next => cases hr

theorem core_resumeProvider {point : ProviderPoint} {outcome : Outcome} {resumed : Resumed}
    (hr : s.resumeProvider point outcome = some resumed) :
    resumed.1.core = s.core.acts (s.resumeProviderActs point outcome) := by
  unfold resumeProvider at hr
  split at hr
  next => cases Option.some.inj hr; rfl
  next => cases Option.some.inj hr; exact core_providerResponse s _ _ _
  next isFirstToken =>
    show resumed.1.core = s.core.acts
      (if s.isLLMResponseComplete then s.afterStreamActs ++ [.clear .llm] else [])
    split at hr
    next hcomplete =>
      cases Option.some.inj hr
      rw [if_pos hcomplete, PipelineCore.acts_append, ← core_afterStream]
      exact core_providerFinally s.afterStream
    next hcomplete =>
      cases Option.some.inj hr
      rw [if_neg hcomplete]
      rfl
  next isFirstToken text _ => cases Option.some.inj hr; cases text <;> rfl
  next => cases Option.some.inj hr; rfl
  next =>
    cases Option.some.inj hr
    exact core_safetyNet (s.onResponseUpdate s.finalBubbleText true) _ _
  next => cases Option.some.inj hr; exact core_restartListening s _
  next => cases hr
  next => cases hr
  next hstart hfailed =>
    cases Option.some.inj hr
    have hacts : s.resumeProviderActs point .throws = [.enter .error] := by
      cases point with
      | start => exact absurd rfl hstart
      | failed => exact absurd rfl hfailed
      | _ => rfl
    rw [hacts]
    exact core_transitionToState s .error
  next => cases hr

theorem core_resumeLegacy {point : LegacyPoint} {outcome : Outcome} {resumed : Resumed}
    (hr : s.resumeLegacy point outcome = some resumed) :
    resumed.1.core = s.core.acts (s.resumeLegacyActs point outcome) := by
  unfold resumeLegacy at hr
  split at hr
  next => cases Option.some.inj hr; rfl
  next => cases Option.some.inj hr; exact core_legacyResponse s _
  next responseComplete =>
    have hacts : s.resumeLegacyActs (.collect responseComplete) .ended =
        if responseComplete then s.afterStreamActs else [] := by
      cases responseComplete <;> rfl
    rw [hacts]
    split at hr
    next hcomplete => cases Option.some.inj hr; rw [if_pos hcomplete]; exact core_afterStream s
    next hcomplete => cases Option.some.inj hr; rw [if_neg hcomplete]; rfl
  next responseComplete text answers =>
    cases Option.some.inj hr
    let t := s.streamingUpdate text
    have ht : t.core = s.core ∧ t.answerActs answers.ttsReady = s.answerActs answers.ttsReady := by
      cases text <;> exact ⟨rfl, rfl⟩
    have hanswer := core_answer t answers.ttsReady
    rw [ht.1, ht.2] at hanswer
    show (if !responseComplete && t.ttsIdle && answers.hasCompleteSentence then
      t.startStreamingTTS answers.ttsReady else t).core = s.core.acts
        (if !responseComplete && answers.hasCompleteSentence then s.answerActs answers.ttsReady else [])
    cases responseComplete with
    | true => exact ht.1
    | false =>
      rw [Bool.not_false, Bool.true_and, Bool.true_and]
      cases answers.hasCompleteSentence with
      | false =>
        rw [Bool.and_false]
        exact ht.1
      | true =>
        rw [Bool.and_true, if_pos rfl]
        exact hanswer
  next answers =>
    cases Option.some.inj hr
    let u := s.onResponseUpdate s.finalBubbleText true
    let t := { u.cancel u.llmProviderJob with isLLMResponseComplete := true }
    have ht : t.core = s.core.act (.cancel .llm) := rfl
    have hanswer := core_answer t answers.ttsReady
    show (if t.ttsIdle && !isBlank s.finalBubbleText then t.startStreamingTTS answers.ttsReady
      else t).core = s.core.acts
        (.cancel .llm :: if isBlank s.finalBubbleText then [] else t.answerActs answers.ttsReady)
    rw [PipelineCore.acts_cons, ← ht]
    cases isBlank s.finalBubbleText with
    | true =>
      rw [Bool.not_true, Bool.and_false]
      rfl
    | false =>
      rw [Bool.not_false, Bool.and_true]
      exact hanswer
  next answers =>
    cases Option.some.inj hr
    exact core_safetyNet
      { s.onResponseUpdate s.finalBubbleText true with isLLMResponseComplete := true } _ _
  next => cases Option.some.inj hr; exact core_restartListening s .launched
  next => cases hr
  next => cases hr
  next hstart hfailed =>
    cases Option.some.inj hr
    have hacts : s.resumeLegacyActs point .throws = [.enter .error] := by
      cases point with
      | start => exact absurd rfl hstart
      | failed => exact absurd rfl hfailed
      | collect responseComplete => cases responseComplete <;> rfl
      | _ => rfl
    rw [hacts]
    exact core_transitionToState s .error
  next => cases hr

theorem core_resumeTTS {point : TtsPoint} {outcome : Outcome} {resumed : Resumed}
    (hr : s.resumeTTS point outcome = some resumed) :
    resumed.1.core = s.core.acts (s.resumeTTSActs point outcome) := by
  unfold resumeTTS at hr
  split at hr
  next => cases Option.some.inj hr; exact core_ttsFinally s
  next answers hwait =>
    have hacts : s.resumeTTSActs point (.resume answers) =
        if s.isLLMResponseComplete && !answers.ttsReady then ttsFinallyActs else [] := by
      cases point with
      | wait => exact absurd rfl hwait
      | _ => rfl
    rw [hacts]
    split at hr
    next hcomplete =>
      rw [hcomplete, Bool.true_and]
      split at hr
      next hready => cases Option.some.inj hr; rw [hready]; rfl
      next hready =>
        cases Option.some.inj hr
        rw [eq_false_of_ne_true hready]
        exact core_ttsFinally s
    next hcomplete =>
      cases Option.some.inj hr
      rw [eq_false_of_ne_true hcomplete]
      rfl
  next =>
    cases Option.some.inj hr
    have hacts : s.resumeTTSActs point .throws = ttsFinallyActs := by cases point <;> rfl
    rw [hacts]
    exact core_ttsFinally s
  next => cases hr

theorem core_resumeCompletionWait (answers : Answers) :
    (s.resumeCompletionWait answers).1.core = s.core.acts (s.resumeCompletionWaitActs answers) := by
  unfold resumeCompletionWait resumeCompletionWaitActs
  dsimp only
  split
  next => exact core_completeWait s
  next => rfl

theorem core_resume {task : Task} {outcome : Outcome} {resumed : Resumed}
    (hr : s.resume task outcome = some resumed) :
    resumed.1.core = s.core.acts (s.resumeActs task outcome) := by
  unfold resume at hr
  split at hr
  next => exact core_resumeSTT hr
  next => exact core_resumeProvider hr
  next => exact core_resumeLegacy hr
  next => exact core_resumeTTS hr
  next => cases Option.some.inj hr; exact core_startRecording s .launched
  next rest _ => cases Option.some.inj hr; exact core_recordNow s rest
  next answers =>
    cases Option.some.inj hr
    show (s.resumeRecord answers.recordingStarted).core = s.core
    unfold resumeRecord
    dsimp only
    split
    next => rfl
    next => rfl
  next => cases Option.some.inj hr; exact core_restartListening s .launched
  next rest _ => cases Option.some.inj hr; exact core_startRecording s (.restart rest)
  next =>
    show resumed.1.core = s.core.acts (if s.isRecording then [] else s.newQuestionGoActs)
    split at hr
    next hrecording => cases Option.some.inj hr; rw [if_pos hrecording]; rfl
    next hrecording => cases Option.some.inj hr; rw [if_neg hrecording]; exact core_newQuestionGo s
  next => cases Option.some.inj hr; exact core_newQuestionGo s
  next answers =>
    cases Option.some.inj hr
    show (if answers.reinitSuccess then s.startStreamingTTS answers.ttsReady else s).core =
      s.core.acts (if answers.reinitSuccess then s.startStreamingTTSActs answers.ttsReady else [])
    split
    next => exact core_startStreamingTTS s _
    next => rfl
  next => cases Option.some.inj hr; exact core_awaitCompletionAndListen s
  next answers => cases Option.some.inj hr; exact core_resumeCompletionWait answers
  next => cases hr

variable (s)

theorem core_restartCancelled (rest : AfterRestart) :
    (s.restartCancelled rest).core = s.core.acts (restartCancelledActs rest) := by
  cases rest with
  | launched => rfl
  | stt =>
    show (s.transitionToState .error).sttFinally.core = _
    rw [core_sttFinally, core_transitionToState]
    rfl
  | llm rest =>
    cases rest with
    | complete isFirstToken => exact core_providerCancelled s
    | providerNet => exact core_providerCancelled s
    | legacyNet => exact core_transitionToState s .error
    | failed => exact core_providerFinally s

theorem core_endSTT (point : SttPoint) (outcome : Outcome) :
    (s.endSTT point outcome).core = s.core.acts (s.endSTTActs point outcome) := by
  have herror : (s.transitionToState .error).sttFinally.core =
      s.core.acts [.enter .error, .clear .stt] := by
    rw [core_sttFinally, core_transitionToState]
    rfl
  cases point with
  | transcribe =>
    cases outcome with
    | transcription text =>
      unfold endSTT endSTTActs
      dsimp only
      split
      next hblank =>
        by_cases hreturns : (s.isRestarting || !s.isRunning) = true
        · have hrestart : s.restartListening .stt = (s.sttFinally, none) := by
            unfold restartListening
            simp only [Bool.or_eq_true] at hreturns
            split
            next => rfl
            next hfree => rw [if_pos (hreturns.resolve_left hfree)]; rfl
          rw [hrestart, if_pos hreturns]
          exact core_sttFinally s
        · have hrestart : s.restartListening .stt =
              (s.resetForRestart, some (.restartDelay .stt)) := by
            unfold restartListening
            simp only [Bool.or_eq_true, not_or] at hreturns
            rw [if_neg hreturns.1, if_neg hreturns.2]
          rw [hrestart, if_neg hreturns]
          let u := { s.resetForRestart with isRestarting := false }
          have hu : u.core = s.core.acts (s.restartListeningActs .stt) := by
            unfold restartListeningActs
            rw [if_neg hreturns]
            exact core_resetForRestart s
          show (u.restartCancelled .stt).core = _
          rw [core_restartCancelled, hu, ← PipelineCore.acts_append]
      next => exact herror
    | throws => exact herror
    | _ => rfl
  | transcribed text => exact herror
  | failed => exact core_sttFinally s

theorem core_endCancelled (task : Task) (outcome : Outcome) :
    (s.endCancelled task outcome).core = s.core.acts (s.endCancelledActs task outcome) := by
  cases task with
  | stt point => exact core_endSTT s point outcome
  | provider point =>
    cases point with
    | start => rfl
    | failed => exact core_providerFinally s
    | _ => exact core_providerCancelled s
  | legacy point =>
    cases point with
    | start => rfl
    | failed => rfl
    | _ => exact core_transitionToState s .error
  | tts point =>
    cases point with
    | start => rfl
    | _ => exact core_ttsFinally s
  | recordingDelay rest =>
    cases rest with
    | restart rest => exact core_restartCancelled { s with isRestarting := false } rest
    | _ => rfl
  | restartDelay rest => exact core_restartCancelled { s with isRestarting := false } rest
  | _ => rfl

theorem core_suspend (i : Nat) (next : Option Task) :
    (s.suspend i next).core = s.core.act (.suspend i next) := by
  cases next <;> rfl

variable {s}

theorem core_run {t : VoicePipeline} {i : Nat} {outcome : Outcome}
    (hr : s.run i outcome = some t) : t.core = s.core.acts (s.runActs i outcome) := by
  obtain ⟨job, hjob, hr⟩ := Option.bind_eq_some_iff.mp hr
  unfold runActs
  rw [hjob]
  dsimp only
  split at hr
  next hcancelled =>
    cases Option.some.inj hr
    rw [if_pos hcancelled, core_suspend, core_endCancelled, PipelineCore.acts_append]
    rfl
  next hcancelled =>
    obtain ⟨resumed, hresume, rfl⟩ := Option.map_eq_some_iff.mp hr
    rw [if_neg hcancelled, core_suspend, core_resume hresume, hresume, PipelineCore.acts_append]
    rfl

/-- What a step does to the state, the jobs and the handles are its acts, one after the other. -/
theorem core_step {t : VoicePipeline} {e : Event} (hs : s.step e = some t) :
    t.core = s.core.acts (s.stepActs e) := by
  cases e with
  | initialized =>
    cases Option.some.inj hs
    split
    next => rfl
    next => rfl
  | startVoiceConversation => cases Option.some.inj hs; exact core_startVoiceConversation s
  | stopConversation => cases Option.some.inj hs; exact core_stopConversation s
  | forceStopAndProcess longEnough =>
    cases Option.some.inj hs
    exact core_forceStopAndProcess s longEnough
  | stopTTS => cases Option.some.inj hs; exact core_stopTTS s
  | stopGeneration => cases Option.some.inj hs; exact core_stopGeneration s
  | clearResponse => cases Option.some.inj hs; rfl
  | restartForNewQuestion => cases Option.some.inj hs; exact core_restartForNewQuestion s
  | release => cases Option.some.inj hs; exact core_release s
  | frame frame => cases Option.some.inj hs; exact core_onAudioData s frame
  | run i outcome => exact core_run hs

end Core

end HeyNilo.VoicePipeline

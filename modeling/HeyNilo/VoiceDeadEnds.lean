import HeyNilo.VoiceHandover

namespace HeyNilo.VoicePipeline

/-- The state that a coroutine leaves behind where its step is its last one and nothing comes after
it: an error of the STT job or no queue for its text, the end of an LLM job without a reply, an engine
that does not come up again, and the start of the recorder. -/
def leaves (s : VoicePipeline) : Task → Outcome → Option PipelineState
  | .record, .resume answers => if answers.recordingStarted then some s.currentState else none
  | .stt (.transcribed _), .resume _ => if s.hasQueue then none else some s.currentState
  | .stt .failed, .resume _ => some s.currentState
  | .provider (.collect _), .ended =>
    if s.isLLMResponseComplete && isBlank s.finalBubbleText then some s.currentState else none
  | .legacy (.collect true), .ended =>
    if isBlank s.finalBubbleText then some s.currentState else none
  | .reinitTTS, .resume answers =>
    if answers.reinitSuccess &&
        !(answers.ttsReady && s.isStreamingTTSActive && !s.isActive s.streamingTTSJob) then none
    else some s.currentState
  | _, _ => none

/-- The same for a coroutine that was cancelled. The TTS job waits for a completion all the same; a
restart that is noticed to be cancelled has stopped the recorder. -/
def leavesCancelled (s : VoicePipeline) : Task → Outcome → Option PipelineState
  | .tts .loop, _ | .tts .wait, _ => none
  | .stt .transcribe, .transcription text =>
    if isBlank text then
      if s.isRestarting || !s.isRunning then some s.currentState else none
    else some .error
  | .stt .transcribe, .throws => some .error
  | .stt (.transcribed _), _ => some .error
  | .legacy .start, _ | .legacy .failed, _ => some s.currentState
  | .legacy _, _ => some .error
  | .restartDelay .stt, _ | .recordingDelay (.restart .stt), _ => some .error
  | .restartDelay (.llm .legacyNet), _ | .recordingDelay (.restart (.llm .legacyNet)), _ =>
    some .error
  | _, _ => some s.currentState

variable {s t : VoicePipeline} {i id : Nat} {task : Task} {r : Resumed}

section Coroutines

variable {answers : Answers} {outcome : Outcome}

theorem resumes_newQuestionGo (hw : Held s.work) (hi : s.work.posts[i]? = some (id, task))
    (htask : task.isPlain = true) : Resumes s i task none s.newQuestionGo := by
  obtain ⟨hwait, htts, hrestart⟩ := Task.isPlain_iff.mp htask
  unfold newQuestionGo
  split
  next =>
    refine resumes_startRecording hw (fun _ => resumes_recordNow_newQuestion hw hrestart) ?_ htts ?_
    · exact fun h => nomatch hwait.symm.trans h
    · exact fun h => nomatch hrestart.symm.trans h
  next hstopped =>
    have ho := startVoiceConversation_onward s
    exact .of_done hw ho.toGrown hrestart (.of_onward hi ho (eq_false_of_ne_true hstopped))

theorem processWithLLM_work (s : VoicePipeline) (available : Bool) :
    ∃ other : Task, other.isPending = true ∧
      (s.processWithLLM available).work = s.work.launch other := by
  unfold processWithLLM
  split
  next =>
    split
    next => exact ⟨_, rfl, work_launchLLM s _⟩
    next =>
      refine ⟨.restartListening, rfl, ?_⟩
      rw [work_launch, work_transitionToState]
  next => exact ⟨_, rfl, work_launchLLM s _⟩

theorem resumes_stt {point : SttPoint} (hw : Held s.work)
    (hi : s.work.posts[i]? = some (id, .stt point)) (h : s.resumeSTT point outcome = some r) :
    Resumes s i (.stt point) (s.leaves (.stt point) outcome) r := by
  cases point with
  | transcribe =>
    cases outcome with
    | transcription text =>
      show Resumes s i (.stt .transcribe) none r
      unfold resumeSTT at h
      dsimp only at h
      split at h
      next =>
        cases Option.some.inj h
        exact resumes_restartListening hw hi rfl .stt
      next =>
        cases Option.some.inj h
        exact .of_next hw (.refl s) rfl rfl
    | throws =>
      cases Option.some.inj h
      exact .of_next hw (.of_work (work_transitionToState s .error)) rfl rfl
    | _ => cases h
  | transcribed text =>
    cases outcome with
    | resume answers =>
      unfold resumeSTT at h
      unfold leaves
      dsimp only at h ⊢
      split at h
      next hqueue =>
        cases Option.some.inj h
        rw [if_pos hqueue]
        obtain ⟨other, hpending, hwork⟩ :=
          processWithLLM_work (s.transitionToState .thinking) answers.available
        have hlaunch : ((s.transitionToState .thinking).processWithLLM
            answers.available).sttFinally.work = s.work.launch other := by
          rw [work_sttFinally, hwork, work_transitionToState]
        exact .of_done hw (.of_launch other hlaunch) rfl (.of_launch hi hlaunch hpending)
      next hqueue =>
        cases Option.some.inj h
        rw [if_neg hqueue]
        exact .of_deadEnd hw rfl rfl (.inr fun hrecord => nomatch hrecord) rfl rfl
    | _ => cases h
  | failed =>
    cases outcome with
    | resume answers =>
      cases Option.some.inj h
      exact .of_deadEnd hw rfl rfl (.inr fun hrecord => nomatch hrecord) rfl rfl
    | _ => cases h

theorem resumes_providerResponse {point : ProviderPoint} (hw : Held s.work)
    (hi : s.work.posts[i]? = some (id, .provider point)) (isFirstToken : Bool)
    (response : LLMResponse) (answers : Answers) :
    Resumes s i (.provider point) none (s.providerResponse isFirstToken response answers) := by
  unfold providerResponse
  split
  next => exact .of_next hw (.refl s) rfl rfl
  split
  next => exact .of_next hw (.of_work (work_transitionToState s .error)) rfl rfl
  split
  next =>
    let u := ({ s with isLLMResponseComplete := true }.transitionToState .speaking).setBubble
    have hu : Grown s u := .of_work (work_transitionToState _ _)
    show Resumes s i (.provider point) none
      (if isBlank u.finalBubbleText then u.restartListening (.llm (.complete isFirstToken))
        else if u.ttsIdle then
          (u.startStreamingTTS answers.ttsReady, some (.provider (.complete isFirstToken)))
        else (u, some (.provider (.complete isFirstToken))))
    split
    next => exact (resumes_restartListening (hw.grown hu) (hu.post hi) rfl _).after hu
    split
    next => exact .of_next hw (hu.trans (startStreamingTTS_grown u _)) rfl rfl
    next => exact .of_next hw hu rfl rfl
  split
  next =>
    let u := ((s.transitionToState .speaking).appendToken
      (newToken (s.transitionToState .speaking).fullResponseText response.text)).setBubble
    have hu : Grown s u := .of_work (work_transitionToState s .speaking)
    exact .of_next hw (hu.trans (speakIfIdle_grown u _ _)) rfl rfl
  next => exact .of_next hw (.refl s) rfl rfl

/-- The safety net restarts, or it waits for the end of the speech. -/
theorem resumes_safetyNet (hw : Held s.work) (hi : s.work.posts[i]? = some (id, task))
    (htask : task.isPlain = true) (answers : Answers) {rest : AfterBlank}
    (hrest : rest = .providerNet ∨ rest = .legacyNet) :
    Resumes s i task none (s.safetyNet answers rest) := by
  obtain ⟨hwait, -, -⟩ := Task.isPlain_iff.mp htask
  unfold safetyNet
  split
  next => exact resumes_restartListening hw hi htask _
  next hblank =>
    let u := if s.ttsIdle then s.startStreamingTTS answers.ttsReady else s
    have hu : Grown s u := speakIfIdle_grown s _ _
    have hbubble : isBlank u.finalBubbleText = false := by
      have hsame : u.finalBubbleText = s.finalBubbleText := by
        show (if s.ttsIdle then s.startStreamingTTS answers.ttsReady else s).finalBubbleText = _
        split
        next => exact startStreamingTTS_finalBubbleText s _
        next => rfl
      rw [hsame]
      exact eq_false_of_ne_true hblank
    have hf := afterStream_follows (hw.grown hu) (hu.post hi) hwait hbubble
    refine (resumes_afterRestart (hw.grown hu) htask (.llm rest) ?_).after hu
    rcases hrest with rfl | rfl
    · exact hf
    · exact hf

theorem resumes_provider {point : ProviderPoint} (hw : Held s.work)
    (hi : s.work.posts[i]? = some (id, .provider point))
    (h : s.resumeProvider point outcome = some r) :
    Resumes s i (.provider point) (s.leaves (.provider point) outcome) r := by
  have hfail (u : ProviderPoint) :
      Resumes s i (.provider u) none (s.transitionToState .error, some (.provider .failed)) :=
    .of_next hw (.of_work (work_transitionToState s .error)) rfl rfl
  cases point with
  | start =>
    cases outcome with
    | resume answers =>
      cases Option.some.inj h
      exact .of_next hw (.of_work rfl) rfl rfl
    | _ => cases h
  | collect isFirstToken =>
    cases outcome with
    | response response answers =>
      cases Option.some.inj h
      exact resumes_providerResponse hw hi isFirstToken response answers
    | ended =>
      unfold resumeProvider at h
      unfold leaves
      dsimp only at h ⊢
      split at h
      next hdone =>
        cases Option.some.inj h
        rw [hdone, Bool.true_and]
        split
        next hblank =>
          rw [afterStream, if_pos hblank]
          exact .of_deadEnd hw rfl rfl (.inr fun hrecord => nomatch hrecord) rfl rfl
        next hblank =>
          have hf := afterStream_follows hw hi rfl (eq_false_of_ne_true hblank)
          have hg : Grown s s.afterStream.providerFinally :=
            (afterStream_grown s).trans (.of_work rfl)
          exact .of_done hw hg rfl hf
      next hdone =>
        cases Option.some.inj h
        rw [eq_false_of_ne_true hdone, Bool.false_and]
        exact .of_next hw (.of_work rfl) rfl rfl
    | throws =>
      cases Option.some.inj h
      exact hfail _
    | _ => cases h
  | update isFirstToken text =>
    cases outcome with
    | resume answers =>
      cases Option.some.inj h
      exact .of_next hw (.of_work (work_streamingUpdate s text)) rfl rfl
    | throws =>
      cases Option.some.inj h
      exact hfail _
    | _ => cases h
  | complete isFirstToken =>
    cases outcome with
    | resume answers =>
      cases Option.some.inj h
      exact .of_next hw (.of_work rfl) rfl rfl
    | throws =>
      cases Option.some.inj h
      exact hfail _
    | _ => cases h
  | net =>
    cases outcome with
    | resume answers =>
      cases Option.some.inj h
      let u := s.onResponseUpdate s.finalBubbleText true
      have hu : Grown s u := .of_work rfl
      exact (resumes_safetyNet (hw.grown hu) (hu.post hi) rfl answers (.inl rfl)).after hu
    | throws =>
      cases Option.some.inj h
      exact hfail _
    | _ => cases h
  | failed =>
    cases outcome with
    | resume answers =>
      cases Option.some.inj h
      exact resumes_restartListening hw hi rfl _
    | _ => cases h

theorem resumes_legacyResponse {point : LegacyPoint} (hw : Held s.work)
    (response : InferenceQueue.Response) :
    Resumes s i (.legacy point) none (s.legacyResponse response) := by
  unfold legacyResponse
  split
  next => exact .of_next hw (.of_work (work_transitionToState s .error)) rfl rfl
  split
  next =>
    dsimp only
    split
    next => exact .of_next hw (.of_work rfl) rfl rfl
    next => exact .of_next hw (.of_work rfl) rfl rfl
  split
  next => exact .of_next hw (.of_work (work_transitionToState s .speaking)) rfl rfl
  next => exact .of_next hw (.refl s) rfl rfl

theorem resumes_legacy {point : LegacyPoint} (hw : Held s.work)
    (hi : s.work.posts[i]? = some (id, .legacy point))
    (h : s.resumeLegacy point outcome = some r) :
    Resumes s i (.legacy point) (s.leaves (.legacy point) outcome) r := by
  have hfail (u : LegacyPoint) :
      Resumes s i (.legacy u) none (s.transitionToState .error, some (.legacy .failed)) :=
    .of_next hw (.of_work (work_transitionToState s .error)) rfl rfl
  cases point with
  | start =>
    cases outcome with
    | resume answers =>
      cases Option.some.inj h
      exact .of_next hw (.of_work rfl) rfl rfl
    | _ => cases h
  | collect responseComplete =>
    cases responseComplete with
    | false =>
      cases outcome with
      | queueResponse response =>
        cases Option.some.inj h
        exact resumes_legacyResponse hw response
      | ended =>
        cases Option.some.inj h
        exact .of_next hw (.of_work rfl) rfl rfl
      | throws =>
        cases Option.some.inj h
        exact hfail _
      | _ => cases h
    | true =>
      cases outcome with
      | ended =>
        cases Option.some.inj h
        unfold leaves
        dsimp only
        split
        next hblank =>
          rw [afterStream, if_pos hblank]
          exact .of_deadEnd hw rfl rfl (.inr fun hrecord => nomatch hrecord) rfl rfl
        next hblank =>
          have hf := afterStream_follows hw hi rfl (eq_false_of_ne_true hblank)
          exact .of_done hw (afterStream_grown s) rfl hf
      | throws =>
        cases Option.some.inj h
        exact hfail _
      | _ => cases h
  | update responseComplete text =>
    cases outcome with
    | resume answers =>
      cases Option.some.inj h
      have hu : Grown s (s.streamingUpdate text) := .of_work (work_streamingUpdate s text)
      exact .of_next hw (hu.trans (speakIfIdle_grown _ _ _)) rfl rfl
    | throws =>
      cases Option.some.inj h
      exact hfail _
    | _ => cases h
  | complete =>
    cases outcome with
    | resume answers =>
      cases Option.some.inj h
      let u := s.onResponseUpdate s.finalBubbleText true
      have hu : Grown s { u.cancel u.llmProviderJob with isLLMResponseComplete := true } :=
        .of_work (work_cancel u u.llmProviderJob)
      exact .of_next hw (hu.trans (speakIfIdle_grown _ _ _)) rfl rfl
    | throws =>
      cases Option.some.inj h
      exact hfail _
    | _ => cases h
  | net =>
    cases outcome with
    | resume answers =>
      cases Option.some.inj h
      let u : VoicePipeline :=
        { s.onResponseUpdate s.finalBubbleText true with isLLMResponseComplete := true }
      have hu : Grown s u := .of_work rfl
      exact (resumes_safetyNet (hw.grown hu) (hu.post hi) rfl answers (.inr rfl)).after hu
    | throws =>
      cases Option.some.inj h
      exact hfail _
    | _ => cases h
  | failed =>
    cases outcome with
    | resume answers =>
      cases Option.some.inj h
      exact resumes_restartListening hw hi rfl _
    | _ => cases h

theorem work_ttsFinally (s : VoicePipeline) :
    s.ttsFinally.work = { s.work with streamingTTSJob := none }.launch .awaitCompletion := by
  let u := { s.clearBuffers with
    isStreamingTTSActive := false
    streamingTTSJob := none
    isProcessingSTT := false
    isRunning := true }
  show (u.launch .awaitCompletion).work = _
  rw [work_launch]
  rfl

theorem ttsFinally_grown (s : VoicePipeline) : Grown s s.ttsFinally := by
  refine ⟨fun hsound => ?_, ?_, ?_⟩
  all_goals rw [work_ttsFinally]
  · have hdrop := hsound.sublist (v := { s.work with streamingTTSJob := none })
      (List.Sublist.refl _) rfl (.inl rfl) (.inr rfl)
    exact hdrop.launch .awaitCompletion
  · exact List.prefix_append _ _
  · rfl

theorem ttsFinally_follows (hi : s.work.posts[i]? = some (id, task)) : Follows i s.ttsFinally := by
  have hposts : s.ttsFinally.work.posts = s.work.posts ++ [(s.work.nextId, .awaitCompletion)] := by
    rw [work_ttsFinally]
    rfl
  exact .of_last hi hposts rfl

theorem resumes_tts {point : TtsPoint} (hw : Held s.work)
    (hi : s.work.posts[i]? = some (id, .tts point)) (h : s.resumeTTS point outcome = some r) :
    Resumes s i (.tts point) (s.leaves (.tts point) outcome) r := by
  have hnext (next : TtsPoint) : Resumes s i (.tts point) none (s, some (.tts next)) :=
    .of_kind hw (.refl s) rfl rfl (fun h => by cases h) (fun _ => rfl)
  have hdone : Resumes s i (.tts point) none (s.ttsFinally, none) :=
    .of_done hw (ttsFinally_grown s) rfl (ttsFinally_follows hi)
  -- in its loop and before it the job does the same
  have hloop (answers : Answers) (hr : (if s.isLLMResponseComplete then
      if answers.ttsReady then some (s, some (Task.tts .wait)) else some (s.ttsFinally, none)
      else some (s, some (.tts .loop))) = some r) : Resumes s i (.tts point) none r := by
    split at hr
    next =>
      split at hr
      next => cases Option.some.inj hr; exact hnext .wait
      next => cases Option.some.inj hr; exact hdone
    next => cases Option.some.inj hr; exact hnext .loop
  cases outcome with
  | resume answers =>
    cases point with
    | start => exact hloop answers h
    | loop => exact hloop answers h
    | wait => cases Option.some.inj h; exact hdone
  | throws =>
    cases point with
    | start => cases Option.some.inj h; exact hdone
    | loop => cases Option.some.inj h; exact hdone
    | wait => cases Option.some.inj h; exact hdone
  | _ => cases point <;> cases h

theorem resumes_completionWait (hw : Held s.work) (answers : Answers) :
    Resumes s i .completionWait none (s.resumeCompletionWait answers) := by
  unfold resumeCompletionWait
  dsimp only
  split
  next =>
    unfold completeWait
    split
    next hstopped =>
      exact .of_done hw (.refl s) rfl (.inl (by simpa using hstopped))
    next =>
      let u := if s.resetForUtterance.currentState ≠ .listening then
        s.resetForUtterance.transitionToState .listening else s.resetForUtterance
      have hwork : u.work = s.work := by
        show (if _ then _ else _ : VoicePipeline).work = _
        split
        next => rw [work_transitionToState, work_resetForUtterance]
        next => rfl
      have hhears : u.currentState = .listening := by
        show (if _ then _ else _ : VoicePipeline).currentState = _
        split
        next => exact transitionToState_listening _
        next hstate => simpa using hstate
      have hg : Grown s u := .of_work hwork
      show Resumes s i .completionWait none
        (if u.isRecording then (u, none) else u.startRecording .launched)
      split
      next =>
        refine .of_done hw hg rfl (.of_listening (.inr ?_))
        simp [hears, hhears]
      next =>
        have hu := hw.grown hg
        refine (resumes_startRecording hu (fun _ => resumes_recordNow_launched hu rfl) ?_ rfl ?_).after hg
        · exact fun _ => rfl
        · exact fun h => by cases h
  next => exact .of_kind hw (.refl s) rfl rfl (fun _ => rfl) (fun h => by cases h)

theorem resumes_record (hw : Held s.work) (answers : Answers) :
    Resumes s i .record (s.leaves .record (.resume answers))
      (s.resumeRecord answers.recordingStarted, none) := by
  unfold resumeRecord leaves
  dsimp only
  split
  next =>
    refine ⟨List.prefix_rfl, ?_, fun _ h => (nomatch h), fun hrestarting => .inr ⟨hrestarting, rfl⟩,
      rfl, rfl, rfl, ?_, rfl⟩
    · exact hw.sound.sublist (List.Sublist.refl _) rfl (.inl rfl) (.inl rfl)
    · simp
  next => exact .of_done hw (.of_work rfl) rfl (.inl rfl)

theorem resumes_reinitTTS (hw : Held s.work) (hi : s.work.posts[i]? = some (id, .reinitTTS))
    (answers : Answers) :
    Resumes s i .reinitTTS (s.leaves .reinitTTS (.resume answers))
      (if answers.reinitSuccess then s.startStreamingTTS answers.ttsReady else s, none) := by
  unfold leaves
  dsimp only
  by_cases hsuccess : answers.reinitSuccess = true
  · rw [if_pos hsuccess, hsuccess, Bool.true_and]
    by_cases hheld :
        (answers.ttsReady && s.isStreamingTTSActive && !s.isActive s.streamingTTSJob) = true
    · rw [hheld]
      -- the speech is held to be active, so nothing starts it
      have hthree := hheld
      simp only [Bool.and_eq_true, Bool.not_eq_true'] at hthree
      obtain ⟨⟨hready, hspeaking⟩, hidle⟩ := hthree
      have hsame : s.startStreamingTTS answers.ttsReady = s := by
        unfold startStreamingTTS
        rw [if_neg (by simp [hidle]), if_neg (by simp [hready]), if_pos hspeaking]
      rw [hsame]
      exact .of_deadEnd hw rfl rfl (.inr fun hrecord => nomatch hrecord) rfl rfl
    · have hopen := eq_false_of_ne_true hheld
      rw [hopen]
      exact .of_done hw (startStreamingTTS_grown s _) rfl (startStreamingTTS_follows hw hi rfl hopen)
  · rw [if_neg hsuccess, eq_false_of_ne_true hsuccess, Bool.false_and]
    exact .of_deadEnd hw rfl rfl (.inr fun hrecord => nomatch hrecord) rfl rfl

/-- Every coroutine goes on, has something go on, or comes to one of its dead ends. -/
theorem resumes (hw : Held s.work) (hi : s.work.posts[i]? = some (id, task))
    (h : s.resume task outcome = some r) : Resumes s i task (s.leaves task outcome) r := by
  cases task with
  | stt point => exact resumes_stt hw hi h
  | provider point => exact resumes_provider hw hi h
  | legacy point => exact resumes_legacy hw hi h
  | tts point => exact resumes_tts hw hi h
  | startRecording =>
    cases outcome with
    | resume answers =>
      cases Option.some.inj h
      exact resumes_startRecording hw (fun _ => resumes_recordNow_launched hw rfl) (fun _ => rfl) rfl
        (fun h => nomatch h)
    | _ => cases h
  | recordingDelay rest =>
    cases outcome with
    | resume answers =>
      cases Option.some.inj h
      cases rest with
      | launched => exact resumes_recordNow_launched hw rfl
      | restart rest => exact resumes_recordNow_restart hw rfl rfl rest
      | newQuestion => exact resumes_recordNow_newQuestion hw rfl
    | _ => cases h
  | record =>
    cases outcome with
    | resume answers =>
      cases Option.some.inj h
      exact resumes_record hw answers
    | _ => cases h
  | restartListening =>
    cases outcome with
    | resume answers =>
      cases Option.some.inj h
      exact resumes_restartListening hw hi rfl .launched
    | _ => cases h
  | restartDelay rest =>
    cases outcome with
    | resume answers =>
      cases Option.some.inj h
      exact resumes_startRecording hw (fun _ => resumes_recordNow_restart hw rfl rfl rest)
        (fun h => nomatch h) rfl (fun _ => rfl)
    | _ => cases h
  | newQuestion =>
    cases outcome with
    | resume answers =>
      unfold resume at h
      dsimp only at h
      split at h
      next =>
        cases Option.some.inj h
        have hg : Grown s { s with isRecording := false } := .of_stop rfl
        exact .of_next hw hg rfl rfl
      next =>
        cases Option.some.inj h
        exact resumes_newQuestionGo hw hi rfl
    | _ => cases h
  | newQuestionDelay =>
    cases outcome with
    | resume answers =>
      cases Option.some.inj h
      exact resumes_newQuestionGo hw hi rfl
    | _ => cases h
  | reinitTTS =>
    cases outcome with
    | resume answers =>
      cases Option.some.inj h
      exact resumes_reinitTTS hw hi answers
    | _ => cases h
  | awaitCompletion =>
    cases outcome with
    | resume answers =>
      cases Option.some.inj h
      exact .of_done hw (awaitCompletionAndListen_grown s) rfl
        (awaitCompletionAndListen_follows hw hi rfl)
    | _ => cases h
  | completionWait =>
    cases outcome with
    | resume answers =>
      cases Option.some.inj h
      exact resumes_completionWait hw answers
    | _ => cases h

end Coroutines

end HeyNilo.VoicePipeline

import HeyNilo.VoiceStatus
import Mathlib.Data.List.InsertIdx

namespace HeyNilo

open VoicePipeline

/-- What a pipeline's coroutines are at, and what its handles and flags say about them. -/
structure PipelineWork where
  isRecording : Bool
  isRestarting : Bool
  posts : List (Nat × Task)
  nextId : Nat
  completionWaitJob : Option Nat
  streamingTTSJob : Option Nat

namespace VoicePipeline

def work (s : VoicePipeline) : PipelineWork where
  isRecording := s.isRecording
  isRestarting := s.isRestarting
  posts := s.jobs.map fun job => (job.id, job.task)
  nextId := s.nextId
  completionWaitJob := s.completionWaitJob
  streamingTTSJob := s.streamingTTSJob

/-- The completion wait, also in the delay before it records again. -/
def Task.isWait : Task → Bool
  | .completionWait => true
  | .recordingDelay .launched => true
  | _ => false

def Task.isTts : Task → Bool
  | .tts _ => true
  | _ => false

/-- A restart in one of its delays. -/
def Task.isRestart : Task → Bool
  | .restartDelay _ => true
  | .recordingDelay (.restart _) => true
  | _ => false

end VoicePipeline

namespace PipelineWork

def launch (w : PipelineWork) (task : Task) : PipelineWork :=
  { w with posts := w.posts ++ [(w.nextId, task)], nextId := w.nextId + 1 }

/-- Ids are given out in order, and the handles are those of jobs of their kind. -/
structure Sound (w : PipelineWork) : Prop where
  ids : ∀ post ∈ w.posts, post.1 < w.nextId
  waits : ∀ id, w.completionWaitJob = some id → id < w.nextId ∧
    ∀ post ∈ w.posts, post.1 = id → post.2.isWait = true
  speaks : ∀ id, w.streamingTTSJob = some id → id < w.nextId ∧
    ∀ post ∈ w.posts, post.1 = id → post.2.isTts = true

variable {w : PipelineWork}

theorem Sound.launch (h : w.Sound) (task : Task) : (w.launch task).Sound := by
  -- the new id is above every handle
  have hnew {id : Nat} {kind : Task → Bool} (hid : id < w.nextId)
      (hposts : ∀ post ∈ w.posts, post.1 = id → kind post.2 = true) :
      ∀ post ∈ w.posts ++ [(w.nextId, task)], post.1 = id → kind post.2 = true := by
    intro post hpost hpostId
    rcases List.mem_append.mp hpost with hpost | hpost
    · exact hposts post hpost hpostId
    · cases List.mem_singleton.mp hpost
      have heq : w.nextId = id := hpostId
      omega
  constructor
  · intro post hpost
    show post.1 < w.nextId + 1
    rcases List.mem_append.mp hpost with hpost | hpost
    · exact Nat.lt_succ_of_lt (h.ids post hpost)
    · cases List.mem_singleton.mp hpost
      exact Nat.lt_succ_self _
  · intro id hhandle
    obtain ⟨hid, hposts⟩ := h.waits id hhandle
    exact ⟨Nat.lt_succ_of_lt hid, hnew hid hposts⟩
  · intro id hhandle
    obtain ⟨hid, hposts⟩ := h.speaks id hhandle
    exact ⟨Nat.lt_succ_of_lt hid, hnew hid hposts⟩

theorem Sound.handle (h : w.Sound) {task : Task} {kind : Task → Bool} (hkind : kind task = true) :
    w.nextId < (w.launch task).nextId ∧
      ∀ post ∈ (w.launch task).posts, post.1 = w.nextId → kind post.2 = true := by
  refine ⟨Nat.lt_succ_self _, fun post hpost hid => ?_⟩
  rcases List.mem_append.mp hpost with hpost | hpost
  · have hlt := h.ids post hpost
    omega
  · cases List.mem_singleton.mp hpost
    exact hkind

theorem Sound.launchWait (h : w.Sound) :
    { w.launch .completionWait with completionWaitJob := some w.nextId }.Sound := by
  have hlaunch := h.launch .completionWait
  refine ⟨hlaunch.ids, fun id hid => ?_, hlaunch.speaks⟩
  cases Option.some.inj hid
  exact h.handle rfl

theorem Sound.launchTts (h : w.Sound) (point : TtsPoint) :
    { w.launch (.tts point) with streamingTTSJob := some w.nextId }.Sound := by
  have hlaunch := h.launch (.tts point)
  refine ⟨hlaunch.ids, hlaunch.waits, fun id hid => ?_⟩
  cases Option.some.inj hid
  exact h.handle rfl

/-- Jobs that end, and handles that are dropped, leave the rest sound. -/
theorem Sound.sublist {v : PipelineWork} (h : w.Sound) (hposts : List.Sublist v.posts w.posts)
    (hnext : v.nextId = w.nextId)
    (hwait : v.completionWaitJob = w.completionWaitJob ∨ v.completionWaitJob = none)
    (htts : v.streamingTTSJob = w.streamingTTSJob ∨ v.streamingTTSJob = none) : v.Sound := by
  constructor
  · intro post hpost
    rw [hnext]
    exact h.ids post (hposts.subset hpost)
  · intro id hid
    rcases hwait with hwait | hwait
    · obtain ⟨hlt, hall⟩ := h.waits id (hwait ▸ hid)
      exact ⟨hnext ▸ hlt, fun post hpost => hall post (hposts.subset hpost)⟩
    · rw [hwait] at hid
      cases hid
  · intro id hid
    rcases htts with htts | htts
    · obtain ⟨hlt, hall⟩ := h.speaks id (htts ▸ hid)
      exact ⟨hnext ▸ hlt, fun post hpost => hall post (hposts.subset hpost)⟩
    · rw [htts] at hid
      cases hid

end PipelineWork

namespace VoicePipeline

section Work

variable (s : VoicePipeline)

@[simp] theorem work_transitionToState (newState : PipelineState) :
    (s.transitionToState newState).work = s.work := by
  unfold transitionToState setCurrentState
  split_ifs <;> rfl

@[simp] theorem work_transitionToListening : s.transitionToListening.work = s.work := by
  unfold transitionToListening
  rw [apply_ite work, work_transitionToState]
  split <;> rfl

@[simp] theorem work_launch (task : Task) : (s.launch task).work = s.work.launch task := by
  simp [work, launch, PipelineWork.launch]

@[simp] theorem work_cancel (handle : Option Nat) : (s.cancel handle).work = s.work := by
  have hposts : (s.cancel handle).jobs.map (fun job => (job.id, job.task)) =
      s.jobs.map fun job => (job.id, job.task) := by
    unfold cancel
    rw [List.map_map]
    refine List.map_congr_left fun job _ => ?_
    show ((if handle = some job.id then { job with cancelled := true } else job).id,
      (if handle = some job.id then { job with cancelled := true } else job).task) = _
    split <;> rfl
  unfold work
  rw [hposts]
  rfl

theorem work_stopTTS : s.stopTTS.work = { s.work with streamingTTSJob := none } := by
  show { (s.cancel s.streamingTTSJob).work with streamingTTSJob := none } = _
  rw [work_cancel]

theorem work_stopRecorder : s.stopRecorder.work = { s.work with isRecording := false } := by
  show { (s.cancel s.pipelineJob).work with isRecording := false } = _
  rw [work_cancel]

@[simp] theorem work_resetStopped : s.resetStopped.work = s.work := by
  show (s.cancel s.pipelineJob).work = _
  rw [work_cancel]

@[simp] theorem work_stopGeneration : s.stopGeneration.work = s.work := by
  show (s.cancel s.llmProviderJob).work = _
  rw [work_cancel]

@[simp] theorem work_streamingUpdate (text : Option Text) :
    (s.streamingUpdate text).work = s.work := by
  cases text <;> rfl

@[simp] theorem work_sttFinally : s.sttFinally.work = s.work := rfl

@[simp] theorem work_resetForUtterance : s.resetForUtterance.work = s.work := rfl

@[simp] theorem work_providerCancelled : s.providerCancelled.work = s.work := by
  unfold providerCancelled
  split <;> rfl

@[simp] theorem work_launchLLM (task : Task) : (s.launchLLM task).work = s.work.launch task := by
  show ((s.cancel s.llmProviderJob).launch task).work = _
  rw [work_launch, work_cancel]

theorem work_resetForRestart : s.resetForRestart.work =
    { s.work with
      isRecording := false
      isRestarting := true
      completionWaitJob := none
      streamingTTSJob := none } := by
  unfold resetForRestart
  dsimp only
  rw [work_stopRecorder]
  show { (stopTTS _).work with isRecording := false } = _
  rw [work_stopTTS]
  show { (s.cancel s.completionWaitJob).work with
    isRecording := false
    isRestarting := true
    completionWaitJob := none
    streamingTTSJob := none } = _
  rw [work_cancel]

theorem work_suspend_none (i : Nat) :
    (s.suspend i none).work = { s.work with posts := s.work.posts.eraseIdx i } := by
  unfold work suspend
  dsimp only
  rw [List.eraseIdx_map]

variable {s} in
theorem work_suspend_some {i id : Nat} {old : Task} (hi : s.work.posts[i]? = some (id, old))
    (task : Task) :
    (s.suspend i (some task)).work = { s.work with posts := s.work.posts.set i (id, task) } := by
  have hmap : (s.jobs[i]?).map (fun job => (job.id, job.task)) = some (id, old) := by
    rw [← List.getElem?_map]
    exact hi
  obtain ⟨job, hjob, hpost⟩ := Option.map_eq_some_iff.mp hmap
  obtain ⟨rfl, rfl⟩ := Prod.mk.inj hpost
  have hposts : (s.jobs.modify i fun job => { job with task := task }).map
      (fun job => (job.id, job.task)) =
        (s.jobs.map fun job => (job.id, job.task)).set i (job.id, task) := by
    refine List.ext_getElem? fun j => ?_
    rw [List.getElem?_map, List.getElem?_modify, List.getElem?_set, List.getElem?_map]
    by_cases hij : i = j
    · subst hij
      obtain ⟨hlt, hget⟩ := List.getElem?_eq_some_iff.mp hjob
      simp [hlt, hget]
    · simp [hij]
  unfold work suspend
  dsimp only
  rw [hposts]

end Work

/-- The state is one in which frames of the microphone are looked at. -/
def hears (s : VoicePipeline) : Bool :=
  s.currentState = .listening || s.currentState = .speechDetected

/-- A coroutine from which the pipeline goes on by itself: all but the one that starts the
recorder. -/
def Task.isPending (task : Task) : Bool := task ≠ .record

theorem getElem?_kept {α : Type*} {xs ys : List α} (h : xs <+: ys) {j : Nat} {x : α}
    (hx : xs[j]? = some x) : ys[j]? = some x := by
  obtain ⟨rest, rfl⟩ := h
  obtain ⟨hlt, -⟩ := List.getElem?_eq_some_iff.mp hx
  rw [List.getElem?_append_left hlt]
  exact hx

/-- Jobs may be launched; the rest of the work stays as it is. -/
structure Grown (s t : VoicePipeline) : Prop where
  sound : s.work.Sound → t.work.Sound
  posts : s.work.posts <+: t.work.posts
  isRestarting : t.work.isRestarting = s.work.isRestarting

section Grown

variable {s t u : VoicePipeline}

theorem Grown.of_work (h : t.work = s.work) : Grown s t := by
  refine ⟨?_, ?_, ?_⟩
  · rw [h]
    exact fun hsound => hsound
  · rw [h]
  · rw [h]

theorem Grown.refl (s : VoicePipeline) : Grown s s := .of_work rfl

theorem Grown.trans (hst : Grown s t) (htu : Grown t u) : Grown s u :=
  ⟨htu.sound ∘ hst.sound, hst.posts.trans htu.posts, htu.isRestarting.trans hst.isRestarting⟩

theorem Grown.of_launch (task : Task) (h : t.work = s.work.launch task) : Grown s t := by
  refine ⟨?_, ?_, ?_⟩
  · rw [h]
    exact fun hsound => hsound.launch task
  · rw [h]
    exact List.prefix_append _ _
  · rw [h]
    rfl

theorem Grown.of_stop (h : t.work = { s.work with isRecording := false }) : Grown s t := by
  refine ⟨?_, ?_, ?_⟩
  · rw [h]
    exact fun hsound => hsound.sublist (List.Sublist.refl _) rfl (.inl rfl) (.inl rfl)
  · rw [h]
  · rw [h]

end Grown

/-- What an operation makes of the pipeline: it may launch jobs, and it stops the pipeline, makes it
listen, launches a job that goes on, or leaves state and recorder as they are. -/
structure Onward (s t : VoicePipeline) : Prop extends Grown s t where
  rest : t.isRunning = false ∨ t.hears = true ∨
    (∃ j post, s.work.posts.length ≤ j ∧ t.work.posts[j]? = some post ∧ post.2.isPending = true) ∨
      (t.isRunning = s.isRunning ∧ t.work.isRecording = s.work.isRecording ∧
        t.currentState = s.currentState)

section Onward

variable {s t u : VoicePipeline}

theorem Onward.refl (s : VoicePipeline) : Onward s s :=
  ⟨.refl s, .inr (.inr (.inr ⟨rfl, rfl, rfl⟩))⟩

theorem hears_congr (h : t.currentState = s.currentState) : t.hears = s.hears := by
  unfold hears
  rw [h]

theorem Onward.trans (hst : Onward s t) (htu : Onward t u) : Onward s u := by
  refine ⟨hst.toGrown.trans htu.toGrown, ?_⟩
  rcases htu.rest with hstop | hhears | ⟨j, post, hj, hpost, hpending⟩ | ⟨hrun, hrecord, hstate⟩
  · exact .inl hstop
  · exact .inr (.inl hhears)
  · exact .inr (.inr (.inl ⟨j, post, hst.posts.length_le.trans hj, hpost, hpending⟩))
  · rw [hrun, hrecord, hstate, hears_congr hstate]
    rcases hst.rest with hstop | hhears | ⟨j, post, hj, hpost, hpending⟩ | hsame
    · exact .inl hstop
    · exact .inr (.inl hhears)
    · refine .inr (.inr (.inl ⟨j, post, hj, ?_, hpending⟩))
      exact getElem?_kept htu.posts hpost
    · exact .inr (.inr (.inr hsame))

theorem Onward.of_same (hwork : t.work = s.work) (hrun : t.isRunning = s.isRunning)
    (hstate : t.currentState = s.currentState) : Onward s t := by
  refine ⟨.of_work hwork, .inr (.inr (.inr ⟨hrun, ?_, hstate⟩))⟩
  rw [hwork]

/-- What launches a job that goes on, whatever the state is then. -/
theorem Onward.of_launch (task : Task) (htask : task.isPending = true)
    (hwork : t.work = s.work.launch task) : Onward s t := by
  refine ⟨.of_launch task hwork, ?_⟩
  refine .inr (.inr (.inl ⟨s.work.posts.length, (s.work.nextId, task), Nat.le_refl _, ?_, htask⟩))
  rw [hwork]
  exact List.getElem?_concat_length

theorem Onward.of_hears (hwork : t.work = s.work) (h : t.isRunning = false ∨ t.hears = true) :
    Onward s t := by
  refine ⟨.of_work hwork, ?_⟩
  rcases h with hstop | hhears
  · exact .inl hstop
  · exact .inr (.inl hhears)

theorem transitionToState_listening (s : VoicePipeline) :
    (s.transitionToState .listening).currentState = .listening := by
  unfold transitionToState setCurrentState
  split
  next h => exact absurd rfl h.2.1
  next =>
    split
    next hstate => exact hstate
    next => rfl

/-- Past the first speech after an answer every state can be entered. -/
theorem transitionToState_of_open (h : s.isListeningForNextQuery = false)
    (newState : PipelineState) : (s.transitionToState newState).currentState = newState := by
  unfold transitionToState setCurrentState
  split
  next hguard =>
    rw [h] at hguard
    cases hguard.1
  next =>
    split
    next hstate => exact hstate
    next => rfl

theorem transitionToListening_hears (s : VoicePipeline) :
    s.transitionToListening.isRunning = false ∨ s.transitionToListening.hears = true := by
  unfold transitionToListening
  dsimp only
  split
  next =>
    refine .inr ?_
    rw [hears, transitionToState_listening]
    rfl
  next h =>
    by_cases hrun : s.isRunning = true
    · have hstate : s.currentState = .listening := by simpa [hrun] using h
      refine .inr ?_
      simp [hears, hstate]
    · exact .inl (eq_false_of_ne_true hrun)

theorem transitionToListening_onward (s : VoicePipeline) : Onward s s.transitionToListening :=
  .of_hears (work_transitionToListening s) (transitionToListening_hears s)

theorem processSpeechSegment_onward (s : VoicePipeline) : Onward s s.processSpeechSegment := by
  unfold processSpeechSegment
  split
  next => exact .refl s
  next =>
    split
    next => exact .refl s
    next =>
      refine .of_launch (.stt .transcribe) rfl ?_
      let u := { s with consecutiveSilenceFrames := 0, isProcessingSTT := true }
      show ((u.transitionToState .transcribing).launch (.stt .transcribe)).work = _
      rw [work_launch, work_transitionToState]
      rfl

theorem forceEndSpeechSegment_onward (s : VoicePipeline) (longEnough : Bool) :
    Onward s (s.forceEndSpeechSegment longEnough) := by
  unfold forceEndSpeechSegment
  split
  next => exact .refl s
  next =>
    split
    next => exact processSpeechSegment_onward s
    next =>
      have hclear : Onward s s.clearBuffers := .of_same rfl rfl rfl
      exact hclear.trans (transitionToListening_onward _)

theorem startVoiceConversation_onward (s : VoicePipeline) : Onward s s.startVoiceConversation := by
  unfold startVoiceConversation
  split
  next => exact .refl s
  next =>
    split
    next => exact .refl s
    next =>
      refine .of_launch .startRecording rfl ?_
      rw [work_launch, work_transitionToListening]
      rfl

theorem resetStopped_onward (s : VoicePipeline) : Onward s s.resetStopped :=
  .of_same (work_resetStopped s) rfl rfl

theorem transitionToState_isRunning (s : VoicePipeline) (newState : PipelineState) :
    (s.transitionToState newState).isRunning = s.isRunning := by
  have hstatus := congrArg PipelineStatus.isRunning (status_transitionToState s newState)
  rw [PipelineStatus.goTo_isRunning] at hstatus
  exact hstatus

theorem Onward.of_stop (hwork : t.work = { s.work with isRecording := false })
    (h : t.isRunning = false) : Onward s t :=
  ⟨.of_stop hwork, .inl h⟩

theorem stopConversation_onward (s : VoicePipeline) : Onward s s.stopConversation := by
  unfold stopConversation
  split
  next => exact .refl s
  next =>
    dsimp only
    have hidle : Onward s
        { ({ s with isRunning := false }.transitionToState .idle) with isRecording := false } := by
      refine .of_stop ?_ (transitionToState_isRunning _ _)
      show { (transitionToState { s with isRunning := false } .idle).work with isRecording := false } = _
      rw [work_transitionToState]
      rfl
    split
    next => exact (hidle.trans (processSpeechSegment_onward _)).trans (resetStopped_onward _)
    next => exact hidle.trans (resetStopped_onward _)

theorem forceStopAndProcess_onward (s : VoicePipeline) (longEnough : Bool) :
    Onward s (s.forceStopAndProcess longEnough) := by
  unfold forceStopAndProcess
  split
  next => exact forceEndSpeechSegment_onward s longEnough
  next =>
    dsimp only
    split
    next =>
      have hbuffer : Onward s { s with
          speechBuffer := min s.preSpeechBuffer 32000 + s.speechBuffer } := .of_same rfl rfl rfl
      exact hbuffer.trans (processSpeechSegment_onward _)
    next => exact stopConversation_onward s

theorem stopTTS_grown (s : VoicePipeline) : Grown s s.stopTTS := by
  refine ⟨fun hsound => ?_, ?_, ?_⟩
  · rw [work_stopTTS]
    exact hsound.sublist (List.Sublist.refl _) rfl (.inl rfl) (.inr rfl)
  · rw [work_stopTTS]
  · rw [work_stopTTS]

theorem stopTTS_onward (s : VoicePipeline) : Onward s s.stopTTS :=
  ⟨stopTTS_grown s, .inr (.inr (.inr ⟨rfl, rfl, rfl⟩))⟩

theorem work_restartForNewQuestion (s : VoicePipeline) : s.restartForNewQuestion.work =
    { s.work with streamingTTSJob := none }.launch .newQuestion := by
  let u := { s with isListeningForNextQuery := false }.stopTTS.stopGeneration
  have hu : u.work = { s.work with streamingTTSJob := none } := by
    rw [work_stopGeneration, work_stopTTS]
    rfl
  let v := { u.clearBuffers with isProcessingSTT := false }.clearResponse
  have hv : (v.cancel v.sttJob).work = u.work := work_cancel _ _
  let x := { v.cancel v.sttJob with sttJob := none, isLLMResponseComplete := false }
  have hx : x.work = (v.cancel v.sttJob).work := rfl
  show (x.launch .newQuestion).work = _
  rw [work_launch, hx, hv, hu]

theorem restartForNewQuestion_onward (s : VoicePipeline) : Onward s s.restartForNewQuestion := by
  refine (stopTTS_onward s).trans (.of_launch .newQuestion rfl ?_)
  rw [work_restartForNewQuestion, work_stopTTS]

theorem release_onward (s : VoicePipeline) : Onward s s.release := by
  refine .of_stop ?_ rfl
  unfold work release
  dsimp only
  rw [List.map_map]
  rfl

theorem processAudioWithVAD_onward (s : VoicePipeline) (frame : Frame) :
    Onward s (s.processAudioWithVAD frame) := by
  unfold processAudioWithVAD
  split
  next => exact .refl s
  split
  next => exact .refl s
  split
  next => exact .of_launch .restartListening rfl (work_launch _ _)
  split
  next => exact .refl s
  dsimp only
  split
  next =>
    split
    next =>
      refine .of_hears (work_transitionToState _ _) (.inr ?_)
      rw [hears, transitionToState_of_open rfl]
      rfl
    next => exact .of_same rfl rfl rfl
  next =>
    split
    next =>
      have hbuffer : Onward s { s with
          preSpeechBuffer := min (s.preSpeechBuffer + frame.samples) maxPreSpeech
          speechBuffer := min (s.speechBuffer + frame.samples) maxBufferSize
          consecutiveSilenceFrames := 0 } := .of_same rfl rfl rfl
      split
      next => exact hbuffer.trans (forceEndSpeechSegment_onward _ _)
      next => exact hbuffer
    next => exact .of_same rfl rfl rfl
  next =>
    split
    next =>
      have hbuffer : Onward s { s with
          preSpeechBuffer := min (s.preSpeechBuffer + frame.samples) maxPreSpeech
          speechBuffer := s.speechBuffer + frame.samples } := .of_same rfl rfl rfl
      have hclear (u : VoicePipeline) : Onward u u.clearBuffers.transitionToListening := by
        have hbuffers : Onward u u.clearBuffers := .of_same rfl rfl rfl
        exact hbuffers.trans (transitionToListening_onward _)
      split
      next => exact (hbuffer.trans (processSpeechSegment_onward _)).trans (hclear _)
      next => exact hbuffer.trans (hclear _)
    next => exact .of_same rfl rfl rfl
  next =>
    split
    next =>
      have hcount : Onward s { s with
          preSpeechBuffer := min (s.preSpeechBuffer + frame.samples) maxPreSpeech
          consecutiveSilenceFrames := s.consecutiveSilenceFrames + 1 } := .of_same rfl rfl rfl
      split
      next => exact hcount.trans (forceEndSpeechSegment_onward _ _)
      next => exact hcount
    next => exact .of_same rfl rfl rfl

theorem onAudioData_onward (s : VoicePipeline) (frame : Frame) : Onward s (s.onAudioData frame) := by
  unfold onAudioData
  split
  next => exact processAudioWithVAD_onward s frame
  next => exact .refl s

/-- An operation of the UI or a frame only goes onward. -/
theorem step_onward {e : Event} (he : ∀ i outcome, e ≠ .run i outcome) (hs : s.step e = some t) :
    Onward s t := by
  cases e with
  | initialized =>
    cases Option.some.inj hs
    split
    next => exact .refl s
    next => exact .of_same rfl rfl rfl
  | startVoiceConversation => cases Option.some.inj hs; exact startVoiceConversation_onward s
  | stopConversation => cases Option.some.inj hs; exact stopConversation_onward s
  | forceStopAndProcess longEnough =>
    cases Option.some.inj hs
    exact forceStopAndProcess_onward s longEnough
  | stopTTS => cases Option.some.inj hs; exact stopTTS_onward s
  | stopGeneration => cases Option.some.inj hs; exact .of_same (work_stopGeneration s) rfl rfl
  | clearResponse => cases Option.some.inj hs; exact .of_same rfl rfl rfl
  | restartForNewQuestion => cases Option.some.inj hs; exact restartForNewQuestion_onward s
  | release => cases Option.some.inj hs; exact release_onward s
  | frame frame => cases Option.some.inj hs; exact onAudioData_onward s frame
  | run i outcome => exact absurd rfl (he i outcome)

end Onward

end VoicePipeline

end HeyNilo

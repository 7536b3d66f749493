import HeyNilo.VoiceStatus
import Mathlib.Logic.Function.Basic

namespace HeyNilo

open VoicePipeline

namespace VoicePipeline

/-- The handles by what their jobs do. -/
inductive JobKind where
  | recorder
  | stt
  | llm
  | tts
  | wait
deriving DecidableEq, Repr

/-- One change of the state, of the jobs or of a handle. -/
inductive Act where
  | enter (newState : PipelineState)
  | unguard
  | launch (task : Task)
  /-- A launch whose job the handle then refers to. -/
  | start (kind : JobKind) (task : Task)
  | cancel (kind : JobKind)
  /-- A cancellation after which the handle is null. -/
  | stop (kind : JobKind)
  | clear (kind : JobKind)
  | cancelAll
  | suspend (i : Nat) (next : Option Task)
deriving DecidableEq, Repr

end VoicePipeline

/-- What the acts change of the pipeline. -/
structure PipelineCore where
  isListeningForNextQuery : Bool
  currentState : PipelineState
  stateChanges : List PipelineState
  jobs : List Job
  nextId : Nat
  handle : JobKind → Option Nat
  released : Bool

namespace PipelineCore

def enter (c : PipelineCore) (newState : PipelineState) : PipelineCore :=
  if c.isListeningForNextQuery ∧ newState ≠ .listening ∧ newState ≠ .idle ∧ newState ≠ .error then c
  else if c.currentState = newState then c
  else { c with currentState := newState, stateChanges := c.stateChanges ++ [newState] }

def launch (c : PipelineCore) (task : Task) : PipelineCore :=
  { c with jobs := c.jobs ++ [⟨c.nextId, task, c.released⟩], nextId := c.nextId + 1 }

def cancel (c : PipelineCore) (kind : JobKind) : PipelineCore :=
  { c with
    jobs := c.jobs.map fun job =>
      if c.handle kind = some job.id then { job with cancelled := true } else job }

def setHandle (c : PipelineCore) (kind : JobKind) (id : Option Nat) : PipelineCore :=
  { c with handle := Function.update c.handle kind id }

def suspend (c : PipelineCore) (i : Nat) : Option Task → PipelineCore
  | some task => { c with jobs := c.jobs.modify i fun job => { job with task := task } }
  | none => { c with jobs := c.jobs.eraseIdx i }

def act (c : PipelineCore) : Act → PipelineCore
  | .enter newState => c.enter newState
  | .unguard => { c with isListeningForNextQuery := false }
  | .launch task => c.launch task
  | .start kind task => (c.launch task).setHandle kind (some c.nextId)
  | .cancel kind => c.cancel kind
  | .stop kind => (c.cancel kind).setHandle kind none
  | .clear kind => c.setHandle kind none
  | .cancelAll =>
    { c with jobs := c.jobs.map fun job => { job with cancelled := true }, released := true }
  | .suspend i next => c.suspend i next

def acts (c : PipelineCore) (as : List Act) : PipelineCore := as.foldl act c

@[simp] theorem acts_nil (c : PipelineCore) : c.acts [] = c := rfl

@[simp] theorem acts_cons (c : PipelineCore) (a : Act) (as : List Act) :
    c.acts (a :: as) = (c.act a).acts as := rfl

@[simp] theorem acts_append (c : PipelineCore) (as bs : List Act) :
    c.acts (as ++ bs) = (c.acts as).acts bs := List.foldl_append

section Open

variable {c : PipelineCore} (hopen : c.isListeningForNextQuery = false)

include hopen

theorem enter_of_open (newState : PipelineState) : c.enter newState =
    if c.currentState = newState then c
    else { c with currentState := newState, stateChanges := c.stateChanges ++ [newState] } := by
  unfold enter
  simp only [hopen, Bool.false_eq_true, false_and, if_false]

theorem enter_currentState (newState : PipelineState) :
    (c.enter newState).currentState = newState := by
  rw [enter_of_open hopen]
  split
  next hsame => exact hsame
  next => rfl

theorem act_open (a : Act) : (c.act a).isListeningForNextQuery = false := by
  cases a with
  | enter newState =>
    show (c.enter newState).isListeningForNextQuery = false
    rw [enter_of_open hopen]
    split
    next => exact hopen
    next => exact hopen
  | unguard => rfl
  | suspend i next => cases next <;> exact hopen
  | _ => exact hopen

end Open

end PipelineCore

namespace VoicePipeline

def handle (s : VoicePipeline) : JobKind → Option Nat
  | .recorder => s.pipelineJob
  | .stt => s.sttJob
  | .llm => s.llmProviderJob
  | .tts => s.streamingTTSJob
  | .wait => s.completionWaitJob

def core (s : VoicePipeline) : PipelineCore where
  isListeningForNextQuery := s.isListeningForNextQuery
  currentState := s.currentState
  stateChanges := s.stateChanges
  jobs := s.jobs
  nextId := s.nextId
  handle := s.handle
  released := s.released

/-- The step changes the state to one of a sort. -/
def movesTo (s t : VoicePipeline) (sort : PipelineState → Bool) : Bool :=
  (t.stateChanges.drop s.stateChanges.length).any sort

/-- Whether some acts enter, from a state, another one of a sort. -/
def enters (sort : PipelineState → Bool) : PipelineState → List Act → Bool
  | _, [] => false
  | state, .enter newState :: as => sort newState && state ≠ newState || enters sort newState as
  | state, _ :: as => enters sort state as

section Enters

variable {s t : VoicePipeline} {as : List Act}

theorem stateChanges_acts {c : PipelineCore} (hopen : c.isListeningForNextQuery = false)
    (sort : PipelineState → Bool) (as : List Act) :
    ∃ changes, (c.acts as).stateChanges = c.stateChanges ++ changes ∧
      changes.any sort = enters sort c.currentState as := by
  induction as generalizing c with
  | nil => exact ⟨[], (List.append_nil _).symm, rfl⟩
  | cons a as ih =>
    obtain ⟨changes, hchanges, hany⟩ := ih (PipelineCore.act_open hopen a)
    rw [PipelineCore.acts_cons]
    cases a with
    | enter newState =>
      have henter : (c.act (.enter newState)).currentState = newState :=
        PipelineCore.enter_currentState hopen newState
      rw [henter] at hany
      have hfirst : (c.act (.enter newState)).stateChanges =
          c.stateChanges ++ if c.currentState = newState then [] else [newState] := by
        show (c.enter newState).stateChanges = _
        rw [PipelineCore.enter_of_open hopen]
        split
        next => exact (List.append_nil _).symm
        next => rfl
      refine ⟨(if c.currentState = newState then [] else [newState]) ++ changes, ?_, ?_⟩
      · rw [hchanges, hfirst, List.append_assoc]
      · rw [List.any_append, hany]
        show _ = (sort newState && decide (c.currentState ≠ newState) || enters sort newState as)
        split
        next hsame => simp [hsame]
        next hother => simp [hother]
    | suspend i next => cases next <;> exact ⟨changes, hchanges, hany⟩
    | _ => exact ⟨changes, hchanges, hany⟩

theorem movesTo_of_acts (hopen : s.isListeningForNextQuery = false)
    (ht : t.core = s.core.acts as) (sort : PipelineState → Bool) :
    s.movesTo t sort = enters sort s.currentState as := by
  obtain ⟨changes, hchanges, hany⟩ := stateChanges_acts (c := s.core) hopen sort as
  have hstate : t.stateChanges = s.stateChanges ++ changes := by
    show t.core.stateChanges = _
    rw [ht, hchanges]
    rfl
  unfold movesTo
  rw [hstate, List.drop_left, hany]
  rfl

theorem enters_suspend (sort : PipelineState → Bool) (state : PipelineState) (as : List Act) (i : Nat)
    (next : Option Task) : enters sort state (as ++ [.suspend i next]) = enters sort state as := by
  induction as generalizing state with
  | nil => rfl
  | cons a as ih =>
    cases a with
    | enter newState =>
      show (_ || enters sort newState (as ++ _)) = (_ || enters sort newState as)
      rw [ih]
    | _ => exact ih state

end Enters

section Acts

variable (s : VoicePipeline)

def listenActs : List Act := if s.isRunning then [.enter .listening] else []

def startVoiceConversationActs : List Act :=
  if !s.isInitialized || s.isRunning then [] else [.enter .listening, .launch .startRecording]

/-- Speech that is not empty is processed unless an earlier one still is. -/
def submitActs : List Act :=
  if s.isProcessingSTT then [] else [.enter .transcribing, .start .stt (.stt .transcribe)]

def processSpeechSegmentActs : List Act := if s.speechBuffer = 0 then [] else s.submitActs

def endSegmentActs (longEnough : Bool) (speechBuffer : Nat) : List Act :=
  if longEnough && frameSize ≤ speechBuffer then s.submitActs else s.listenActs

def forceEndSpeechSegmentActs (longEnough : Bool) : List Act :=
  if !s.isCollectingSpeech then [] else s.endSegmentActs longEnough s.speechBuffer

def stopConversationActs : List Act :=
  if !s.isRunning then []
  else
    .enter .idle ::
      ((if s.isCollectingSpeech && frameSize ≤ s.speechBuffer then s.processSpeechSegmentActs
        else []) ++ [.stop .recorder])

def forceStopAndProcessActs (longEnough : Bool) : List Act :=
  if s.isCollectingSpeech && frameSize ≤ s.speechBuffer then s.forceEndSpeechSegmentActs longEnough
  else if 4800 ≤ min s.preSpeechBuffer 32000 + s.speechBuffer then s.submitActs
  else s.stopConversationActs

def restartForNewQuestionActs : List Act :=
  [.unguard, .stop .tts, .stop .llm, .stop .stt, .launch .newQuestion]

/-- What a frame does once the VAD has looked at it. -/
def vadActs (frame : Frame) : List Act :=
  match frame.vad with
  | .speechStart => if !s.isCollectingSpeech then [.unguard, .enter .speechDetected] else []
  | .speech =>
    if s.isCollectingSpeech && frame.tooLong then
      s.endSegmentActs frame.longEnough (min (s.speechBuffer + frame.samples) maxBufferSize)
    else []
  | .speechEnd =>
    if s.isCollectingSpeech then
      (if frame.longEnough && frameSize ≤ s.speechBuffer + frame.samples then s.submitActs else []) ++
        s.listenActs
    else []
  | .silence =>
    if s.isCollectingSpeech && trailingSilenceFrames ≤ s.consecutiveSilenceFrames + 1 then
      s.endSegmentActs frame.longEnough s.speechBuffer
    else []

/-- The VAD looks at the frame. -/
def reachesVAD (frame : Frame) : Bool :=
  s.isRunning && !frame.ttsSpeaking &&
    !(s.currentState = .listening && !s.isCollectingSpeech && !s.isRestarting &&
      frame.listeningTimedOut) && (s.currentState = .listening || s.currentState = .speechDetected)

def frameActs (frame : Frame) : List Act :=
  if s.reachesVAD frame then s.vadActs frame
  else if s.isRunning && !frame.ttsSpeaking && s.currentState = .listening &&
      !s.isCollectingSpeech && !s.isRestarting && frame.listeningTimedOut then
    [.launch .restartListening]
  else []

def awaitCompletionActs : List Act :=
  if s.isActive s.completionWaitJob then [] else [.start .wait .completionWait]

def startStreamingTTSActs (ready : Bool) : List Act :=
  if s.isActive s.streamingTTSJob then []
  else if !ready then [.launch .reinitTTS]
  else if s.isStreamingTTSActive then []
  else [.enter .speaking, .start .tts (.tts .start)]

def ttsFinallyActs : List Act := [.clear .tts, .launch .awaitCompletion]

def afterStreamActs : List Act :=
  if isBlank s.finalBubbleText then [] else s.awaitCompletionActs

def afterRestartActs : AfterRestart → List Act
  | .launched => []
  | .stt => [.clear .stt]
  | .llm (.complete _) => []
  | .llm .providerNet => s.afterStreamActs ++ [.clear .llm]
  | .llm .legacyNet => s.afterStreamActs
  | .llm .failed => [.clear .llm]

def afterRecordingActs : AfterRecording → List Act
  | .launched => []
  | .restart rest =>
    s.listenActs ++ { s.transitionToListening with isRestarting := false }.afterRestartActs rest
  | .newQuestion => [.enter .listening]

def recordNowActs (rest : AfterRecording) : List Act :=
  let t := if s.currentState ≠ .listening then s.transitionToListening else s
  let u := { t.launch .record with pipelineJob := some t.nextId }
  s.listenActs ++ .start .recorder .record :: u.afterRecordingActs rest

def startRecordingActs (rest : AfterRecording) : List Act :=
  if s.isRecording then [.stop .recorder] else s.recordNowActs rest

def restartListeningActs (rest : AfterRestart) : List Act :=
  if s.isRestarting || !s.isRunning then s.afterRestartActs rest
  else [.stop .wait, .stop .tts, .stop .recorder]

def newQuestionGoActs : List Act :=
  if s.isRunning then s.startRecordingActs .newQuestion else s.startVoiceConversationActs

def processWithLLMActs (available : Bool) : List Act :=
  if s.hasProvider then
    if available then [.cancel .llm, .start .llm (.provider .start)]
    else [.enter .error, .launch .restartListening]
  else [.cancel .llm, .start .llm (.legacy .start)]

/-- `ttsIdle` before a call of `startStreamingTTS`. -/
def answerActs (ready : Bool) : List Act := if s.ttsIdle then s.startStreamingTTSActs ready else []

def providerResponseActs (isFirstToken : Bool) (r : LLMResponse) (answers : Answers) : List Act :=
  if r.isStreaming && isFirstToken then []
  else if r.isError then [.enter .error]
  else if r.isComplete then
    let t := ({ s with isLLMResponseComplete := true }.transitionToState .speaking).setBubble
    .enter .speaking ::
      if isBlank t.finalBubbleText then t.restartListeningActs (.llm (.complete isFirstToken))
      else t.answerActs answers.ttsReady
  else if r.isStreaming then
    let t := s.transitionToState .speaking
    .enter .speaking ::
      if answers.hasCompleteSentence then t.answerActs answers.ttsReady else []
  else []

def legacyResponseActs (r : InferenceQueue.Response) : List Act :=
  if r.error.isSome then [.enter .error]
  else if !r.isComplete && r.token.isSome then [.enter .speaking]
  else []

def safetyNetActs (answers : Answers) (rest : AfterBlank) : List Act :=
  if isBlank s.finalBubbleText then s.restartListeningActs (.llm rest)
  else
    let t := if s.ttsIdle then s.startStreamingTTS answers.ttsReady else s
    s.answerActs answers.ttsReady ++ t.afterRestartActs (.llm rest)

def completeWaitActs : List Act :=
  if !s.isRunning then []
  else
    let t := if s.currentState ≠ .listening then s.resetForUtterance.transitionToState .listening
      else s.resetForUtterance
    .enter .listening :: if s.isRecording then [] else t.startRecordingActs .launched

def resumeSTTActs : SttPoint → Outcome → List Act
  | .transcribe, .transcription text => if isBlank text then s.restartListeningActs .stt else []
  | .transcribe, .throws => [.enter .error]
  | .transcribed _, .resume answers =>
    if s.hasQueue then .enter .thinking :: (s.processWithLLMActs answers.available ++ [.clear .stt])
    else [.clear .stt]
  | .failed, .resume _ => [.clear .stt]
  | _, _ => []

def resumeProviderActs : ProviderPoint → Outcome → List Act
  | .collect isFirstToken, .response r answers => s.providerResponseActs isFirstToken r answers
  | .collect _, .ended =>
    if s.isLLMResponseComplete then s.afterStreamActs ++ [.clear .llm] else []
  | .net, .resume answers =>
    (s.onResponseUpdate s.finalBubbleText true).safetyNetActs answers .providerNet
  | .failed, .resume _ => s.restartListeningActs (.llm .failed)
  | .start, .throws | .failed, .throws => []
  | _, .throws => [.enter .error]
  | _, _ => []

def resumeLegacyActs : LegacyPoint → Outcome → List Act
  | .collect false, .queueResponse r => legacyResponseActs r
  | .collect responseComplete, .ended => if responseComplete then s.afterStreamActs else []
  | .update responseComplete _, .resume answers =>
    if !responseComplete && answers.hasCompleteSentence then s.answerActs answers.ttsReady else []
  | .complete, .resume answers =>
    let t := { s.cancel s.llmProviderJob with isLLMResponseComplete := true }
    .cancel .llm :: if isBlank s.finalBubbleText then [] else t.answerActs answers.ttsReady
  | .net, .resume answers =>
    { s.onResponseUpdate s.finalBubbleText true with
      isLLMResponseComplete := true }.safetyNetActs answers .legacyNet
  | .failed, .resume _ => s.restartListeningActs .launched
  | .start, .throws | .failed, .throws => []
  | _, .throws => [.enter .error]
  | _, _ => []

def resumeTTSActs : TtsPoint → Outcome → List Act
  | .wait, .resume _ => ttsFinallyActs
  | _, .resume answers =>
    if s.isLLMResponseComplete && !answers.ttsReady then ttsFinallyActs else []
  | _, .throws => ttsFinallyActs
  | _, _ => []

def resumeCompletionWaitActs (answers : Answers) : List Act :=
  if s.isLLMResponseComplete && (s.ttsIdle && !answers.ttsSpeaking) || answers.timedOut then
    s.completeWaitActs
  else []

def resumeActs : Task → Outcome → List Act
  | .stt point, outcome => s.resumeSTTActs point outcome
  | .provider point, outcome => s.resumeProviderActs point outcome
  | .legacy point, outcome => s.resumeLegacyActs point outcome
  | .tts point, outcome => s.resumeTTSActs point outcome
  | .startRecording, .resume _ => s.startRecordingActs .launched
  | .recordingDelay rest, .resume _ => s.recordNowActs rest
  | .restartListening, .resume _ => s.restartListeningActs .launched
  | .restartDelay rest, .resume _ => s.startRecordingActs (.restart rest)
  | .newQuestion, .resume _ => if s.isRecording then [] else s.newQuestionGoActs
  | .newQuestionDelay, .resume _ => s.newQuestionGoActs
  | .reinitTTS, .resume answers =>
    if answers.reinitSuccess then s.startStreamingTTSActs answers.ttsReady else []
  | .awaitCompletion, .resume _ => s.awaitCompletionActs
  | .completionWait, .resume answers => s.resumeCompletionWaitActs answers
  | _, _ => []

def restartCancelledActs : AfterRestart → List Act
  | .launched => []
  | .stt => [.enter .error, .clear .stt]
  | .llm .legacyNet => [.enter .error]
  | .llm _ => [.clear .llm]

def endSTTActs : SttPoint → Outcome → List Act
  | .transcribe, .transcription text =>
    if isBlank text then
      if s.isRestarting || !s.isRunning then [.clear .stt]
      else s.restartListeningActs .stt ++ restartCancelledActs .stt
    else [.enter .error, .clear .stt]
  | .transcribe, .throws => [.enter .error, .clear .stt]
  | .transcribed _, _ => [.enter .error, .clear .stt]
  | .failed, _ => [.clear .stt]
  | _, _ => []

def endCancelledActs : Task → Outcome → List Act
  | .recordingDelay (.restart rest), _ | .restartDelay rest, _ => restartCancelledActs rest
  | .stt point, outcome => s.endSTTActs point outcome
  | .provider .start, _ => []
  | .provider _, _ => [.clear .llm]
  | .legacy .start, _ | .legacy .failed, _ => []
  | .legacy _, _ => [.enter .error]
  | .tts .start, _ => []
  | .tts _, _ => ttsFinallyActs
  | _, _ => []

def runActs (i : Nat) (outcome : Outcome) : List Act :=
  match s.jobs[i]? with
  | some job =>
    if job.cancelled then s.endCancelledActs job.task outcome ++ [.suspend i none]
    else
      s.resumeActs job.task outcome ++ [.suspend i ((s.resume job.task outcome).bind (·.2))]
  | none => []

def stepActs : Event → List Act
  | .startVoiceConversation => s.startVoiceConversationActs
  | .stopConversation => s.stopConversationActs
  | .forceStopAndProcess longEnough => s.forceStopAndProcessActs longEnough
  | .stopTTS => [.stop .tts]
  | .stopGeneration => [.stop .llm]
  | .restartForNewQuestion => restartForNewQuestionActs
  | .release => [.clear .recorder, .cancelAll]
  | .frame frame => s.frameActs frame
  | .run i outcome => s.runActs i outcome
  | .initialized | .clearResponse => []

end Acts

section Only

variable {p q : Act → Bool} {as bs : List Act}

/-- Every act of the list is of one sort. -/
def Only (p : Act → Bool) (as : List Act) : Prop := ∀ a ∈ as, p a = true

theorem Only.nil : Only p [] := by simp [Only]

theorem Only.of_all (h : as.all p = true) : Only p as := List.all_eq_true.mp h

theorem Only.cons {a : Act} (ha : p a = true) (h : Only p as) : Only p (a :: as) :=
  List.forall_mem_cons.mpr ⟨ha, h⟩

theorem Only.append (ha : Only p as) (hb : Only p bs) : Only p (as ++ bs) := by
  intro a hmem
  rcases List.mem_append.mp hmem with hmem | hmem
  · exact ha a hmem
  · exact hb a hmem

theorem Only.ite {c : Prop} [Decidable c] (ha : Only p as) (hb : Only p bs) :
    Only p (if c then as else bs) := by
  split
  next => exact ha
  next => exact hb

theorem Only.mono (h : Only p as) (hpq : ∀ a, p a = true → q a = true) : Only q as :=
  fun a hmem => hpq a (h a hmem)

/-- The coroutines that transcribe or bring an answer. -/
def Task.answers : Task → Bool
  | .stt _ | .provider _ | .legacy _ | .reinitTTS => true
  | _ => false

/-- An act that neither transcribes nor answers. -/
def Act.isQuiet : Act → Bool
  | .enter .listening | .enter .error => true
  | .launch .startRecording | .launch .restartListening | .launch .awaitCompletion => true
  | .start .recorder .record | .start .wait .completionWait => true
  | .stop .wait | .stop .tts | .stop .recorder | .clear _ => true
  | _ => false

/-- An act that may also launch what answers, and enter the states of an answer. -/
def Act.isAnswer : Act → Bool
  | .enter .thinking | .enter .speaking | .launch .reinitTTS => true
  | .start .llm (.provider .start) | .start .llm (.legacy .start) | .start .tts (.tts .start) => true
  | .cancel .llm => true
  | a => a.isQuiet

theorem Only.answer (h : Only Act.isQuiet as) : Only Act.isAnswer as := by
  refine h.mono fun a ha => ?_
  unfold Act.isAnswer
  split <;> first | rfl | exact ha

end Only

section Quiet

variable {s : VoicePipeline}

theorem quiet_listenActs : Only Act.isQuiet s.listenActs := .ite (.of_all rfl) .nil

theorem quiet_startVoiceConversationActs : Only Act.isQuiet s.startVoiceConversationActs :=
  .ite .nil (.of_all rfl)

theorem quiet_awaitCompletionActs : Only Act.isQuiet s.awaitCompletionActs := .ite .nil (.of_all rfl)

theorem quiet_afterStreamActs : Only Act.isQuiet s.afterStreamActs :=
  .ite .nil quiet_awaitCompletionActs

theorem quiet_afterRestartActs (rest : AfterRestart) :
    Only Act.isQuiet (s.afterRestartActs rest) := by
  cases rest with
  | launched => exact .nil
  | stt => exact .of_all rfl
  | llm rest =>
    cases rest with
    | complete isFirstToken => exact .nil
    | providerNet => exact quiet_afterStreamActs.append (.of_all rfl)
    | legacyNet => exact quiet_afterStreamActs
    | failed => exact .of_all rfl

theorem quiet_restartListeningActs (rest : AfterRestart) :
    Only Act.isQuiet (s.restartListeningActs rest) :=
  .ite (quiet_afterRestartActs rest) (.of_all rfl)

theorem quiet_recordNowActs (rest : AfterRecording) : Only Act.isQuiet (s.recordNowActs rest) := by
  have hrest (u : VoicePipeline) : Only Act.isQuiet (u.afterRecordingActs rest) := by
    cases rest with
    | launched => exact .nil
    | restart rest => exact quiet_listenActs.append (quiet_afterRestartActs rest)
    | newQuestion => exact .of_all rfl
  unfold recordNowActs
  exact quiet_listenActs.append (.cons rfl (hrest _))

theorem quiet_startRecordingActs (rest : AfterRecording) :
    Only Act.isQuiet (s.startRecordingActs rest) :=
  .ite (.of_all rfl) (quiet_recordNowActs rest)

theorem quiet_newQuestionGoActs : Only Act.isQuiet s.newQuestionGoActs :=
  .ite (quiet_startRecordingActs _) quiet_startVoiceConversationActs

theorem quiet_completeWaitActs : Only Act.isQuiet s.completeWaitActs := by
  refine .ite .nil (.cons rfl ?_)
  exact .ite .nil (quiet_startRecordingActs _)

theorem quiet_ttsFinallyActs : Only Act.isQuiet ttsFinallyActs := .of_all rfl

theorem quiet_resumeTTSActs (point : TtsPoint) (outcome : Outcome) :
    Only Act.isQuiet (s.resumeTTSActs point outcome) := by
  unfold resumeTTSActs
  split
  next => exact quiet_ttsFinallyActs
  next => exact .ite quiet_ttsFinallyActs .nil
  next => exact quiet_ttsFinallyActs
  next => exact .nil

theorem quiet_resumeActs {task : Task} (outcome : Outcome) (h : task.answers = false) :
    Only Act.isQuiet (s.resumeActs task outcome) := by
  unfold resumeActs
  split
  next => cases h
  next => cases h
  next => cases h
  next => exact quiet_resumeTTSActs _ _
  next => exact quiet_startRecordingActs _
  next => exact quiet_recordNowActs _
  next => exact quiet_restartListeningActs _
  next => exact quiet_startRecordingActs _
  next => exact .ite .nil quiet_newQuestionGoActs
  next => exact quiet_newQuestionGoActs
  next => cases h
  next => exact quiet_awaitCompletionActs
  next => exact .ite quiet_completeWaitActs .nil
  next => exact .nil

theorem quiet_endCancelledActs (task : Task) (outcome : Outcome) :
    Only Act.isQuiet (s.endCancelledActs task outcome) := by
  have hrestart (rest : AfterRestart) : Only Act.isQuiet (restartCancelledActs rest) := by
    unfold restartCancelledActs
    split <;> exact .of_all rfl
  unfold endCancelledActs
  split
  next => exact hrestart _
  next => exact hrestart _
  next =>
    unfold endSTTActs
    split
    next =>
      have hgo := (quiet_restartListeningActs (s := s) .stt).append (hrestart .stt)
      exact .ite (.ite (.of_all rfl) hgo) (.of_all rfl)
    next => exact .of_all rfl
    next => exact .of_all rfl
    next => exact .of_all rfl
    next => exact .nil
  next => exact .nil
  next => exact .of_all rfl
  next => exact .nil
  next => exact .nil
  next => exact .of_all rfl
  next => exact .nil
  next => exact quiet_ttsFinallyActs
  next => exact .nil

theorem answer_startStreamingTTSActs (ready : Bool) :
    Only Act.isAnswer (s.startStreamingTTSActs ready) :=
  .ite .nil (.ite (.of_all rfl) (.ite .nil (.of_all rfl)))

theorem answer_answerActs (ready : Bool) : Only Act.isAnswer (s.answerActs ready) :=
  .ite (answer_startStreamingTTSActs ready) .nil

theorem answer_processWithLLMActs (available : Bool) :
    Only Act.isAnswer (s.processWithLLMActs available) :=
  .ite (.ite (.of_all rfl) (.of_all rfl)) (.of_all rfl)

theorem answer_safetyNetActs (answers : Answers) (rest : AfterBlank) :
    Only Act.isAnswer (s.safetyNetActs answers rest) :=
  .ite (quiet_restartListeningActs _).answer
    ((answer_answerActs _).append (quiet_afterRestartActs _).answer)

theorem answer_resumeSTTActs (point : SttPoint) (outcome : Outcome) :
    Only Act.isAnswer (s.resumeSTTActs point outcome) := by
  unfold resumeSTTActs
  split
  next => exact .ite (quiet_restartListeningActs _).answer .nil
  next => exact .of_all rfl
  next =>
    refine .ite (.cons rfl (Only.append ?_ ?_)) (.of_all rfl)
    · exact answer_processWithLLMActs _
    · exact .of_all rfl
  next => exact .of_all rfl
  next => exact .nil

theorem answer_resumeProviderActs (point : ProviderPoint) (outcome : Outcome) :
    Only Act.isAnswer (s.resumeProviderActs point outcome) := by
  unfold resumeProviderActs
  split
  next =>
    unfold providerResponseActs
    refine .ite .nil (.ite (.of_all rfl) (.ite ?_ (.ite ?_ .nil)))
    · exact .cons rfl (.ite (quiet_restartListeningActs _).answer (answer_answerActs _))
    · exact .cons rfl (.ite (answer_answerActs _) .nil)
  next => exact .ite (quiet_afterStreamActs.append (.of_all rfl)).answer .nil
  next => exact answer_safetyNetActs _ _
  next => exact (quiet_restartListeningActs _).answer
  next => exact .nil
  next => exact .nil
  next => exact .of_all rfl
  next => exact .nil

theorem answer_resumeLegacyActs (point : LegacyPoint) (outcome : Outcome) :
    Only Act.isAnswer (s.resumeLegacyActs point outcome) := by
  unfold resumeLegacyActs
  split
  next => exact .ite (.of_all rfl) (.ite (.of_all rfl) .nil)
  next => exact .ite quiet_afterStreamActs.answer .nil
  next => exact .ite (answer_answerActs _) .nil
  next => exact .cons rfl (.ite .nil (answer_answerActs _))
  next => exact answer_safetyNetActs _ _
  next => exact (quiet_restartListeningActs _).answer
  next => exact .nil
  next => exact .nil
  next => exact .of_all rfl
  next => exact .nil

theorem answer_resumeActs (task : Task) (outcome : Outcome) :
    Only Act.isAnswer (s.resumeActs task outcome) := by
  cases task with
  | stt point => exact answer_resumeSTTActs point outcome
  | provider point => exact answer_resumeProviderActs point outcome
  | legacy point => exact answer_resumeLegacyActs point outcome
  | reinitTTS =>
    cases outcome with
    | resume answers => exact .ite (answer_startStreamingTTSActs _) .nil
    | _ => exact .nil
  | _ => exact (quiet_resumeActs outcome rfl).answer

end Quiet

end VoicePipeline

end HeyNilo

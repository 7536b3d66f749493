import HeyNilo.InferenceQueue
import HeyNilo.ProviderTurn
import HeyNilo.VadProcessor

namespace HeyNilo

inductive PipelineState where
  | idle
  | listening
  | speechDetected
  | transcribing
  | thinking
  | speaking
  | error
deriving DecidableEq, Repr

namespace VoicePipeline

/-- What the LLM job does after a call of `restartListening`; `failed` stands for its end. -/
inductive AfterBlank where
  | complete (isFirstToken : Bool)
  | providerNet
  | legacyNet
  | failed
deriving DecidableEq, Repr

/-- The caller that `restartListening` returns to. -/
inductive AfterRestart where
  | launched
  | stt
  | llm (rest : AfterBlank)
deriving DecidableEq, Repr

/-- The caller that `startRecording` returns to. -/
inductive AfterRecording where
  | launched
  | restart (rest : AfterRestart)
  | newQuestion
deriving DecidableEq, Repr

/-- `sttJob`: before its result, and with the result on its way to the UI or an error. -/
inductive SttPoint where
  | transcribe
  | transcribed (transcription : Text)
  | failed
deriving DecidableEq, Repr

/-- `llmProviderJob` of `processWithLLMProvider`: not started, collecting, in the UI update of a
response that is streaming (or an error) or complete, in the UI update of the safety net, and after
an exception. -/
inductive ProviderPoint where
  | start
  | collect (isFirstToken : Bool)
  | update (isFirstToken : Bool) (text : Option Text)
  | complete (isFirstToken : Bool)
  | net
  | failed
deriving DecidableEq, Repr

/-- `llmProviderJob` of `processWithLegacyQueue`. -/
inductive LegacyPoint where
  | start
  | collect (responseComplete : Bool)
  | update (responseComplete : Bool) (text : Option Text)
  | complete
  | net
  | failed
deriving DecidableEq, Repr

/-- `streamingTTSJob`: not started, in its loop, and waiting for the end of the speech. -/
inductive TtsPoint where
  | start
  | loop
  | wait
deriving DecidableEq, Repr

/-- A coroutine by the point at which it is suspended; one that has not started is at the first
point of its kind. -/
inductive Task where
  /-- `scope.launch` of `startVoiceConversation`. -/
  | startRecording
  /-- In `startRecording`, in its `delay(50)`. -/
  | recordingDelay (rest : AfterRecording)
  /-- `pipelineJob`. -/
  | record
  | restartListening
  /-- In `restartListening`, in its `delay(200)`. -/
  | restartDelay (rest : AfterRestart)
  /-- `scope.launch` of `restartForNewQuestion`, and its `delay(50)`. -/
  | newQuestion
  | newQuestionDelay
  | stt (point : SttPoint)
  | provider (point : ProviderPoint)
  | legacy (point : LegacyPoint)
  | tts (point : TtsPoint)
  /-- The launched re-initialisation of the TTS engine. -/
  | reinitTTS
  /-- `scope.launch { awaitCompletionAndListen() }` -/
  | awaitCompletion
  | completionWait
deriving DecidableEq, Repr

structure Job where
  id : Nat
  task : Task
  cancelled : Bool
deriving DecidableEq, Repr

/-- What the outside says to a step: is the TTS engine ready, is it speaking, is the wait timed
out, is the provider available, did recording start, did the engine come up again, and does the
text so far have a complete sentence. -/
structure Answers where
  ttsReady : Bool := false
  ttsSpeaking : Bool := false
  timedOut : Bool := false
  available : Bool := false
  recordingStarted : Bool := false
  reinitSuccess : Bool := false
  hasCompleteSentence : Bool := false
deriving DecidableEq, Repr

/-- What a suspended coroutine is resumed with. -/
inductive Outcome where
  | resume (answers : Answers)
  | transcription (text : Text)
  | response (r : LLMResponse) (answers : Answers)
  | queueResponse (r : InferenceQueue.Response)
  | ended
  | throws
deriving DecidableEq, Repr

/-- An audio frame, what the VAD says about it and which time limits have passed. -/
structure Frame where
  samples : Nat
  vad : VADState
  listeningTimedOut : Bool
  longEnough : Bool
  tooLong : Bool
  ttsSpeaking : Bool
deriving DecidableEq, Repr

inductive Event where
  | initialized
  | startVoiceConversation
  | stopConversation
  | forceStopAndProcess (longEnough : Bool)
  | stopTTS
  | stopGeneration
  | clearResponse
  | restartForNewQuestion
  | release
  | frame (frame : Frame)
  | run (i : Nat) (outcome : Outcome)
deriving DecidableEq, Repr

end VoicePipeline

/-- Where the conversation stands. `stateChanges` has the values that `currentState` changed to, and
`recordings` counts the calls of `audioRecorder.startRecording`. -/
structure PipelineStatus where
  isRunning : Bool
  currentState : PipelineState
  stateChanges : List PipelineState
  isListeningForNextQuery : Bool
  recordings : Nat
deriving DecidableEq, Repr

/-- The recorder and the speech so far; buffers count their samples. -/
structure SpeechCapture where
  isRestarting : Bool
  isRecording : Bool
  speechBuffer : Nat
  preSpeechBuffer : Nat
  isCollectingSpeech : Bool
  isProcessingSTT : Bool
  consecutiveSilenceFrames : Nat
deriving DecidableEq, Repr

structure VoiceReply where
  isStreamingTTSActive : Bool
  isLLMResponseComplete : Bool
  fullResponseText : Text
  finalBubbleText : Text
  responseUpdates : List (Text × Bool)
deriving DecidableEq, Repr

open VoicePipeline in
/-- The coroutines, and the handles by their ids. -/
structure PipelineJobs where
  jobs : List Job
  nextId : Nat
  pipelineJob : Option Nat
  sttJob : Option Nat
  llmProviderJob : Option Nat
  streamingTTSJob : Option Nat
  completionWaitJob : Option Nat
deriving DecidableEq, Repr

/-- The state of `VoicePipelineManager` with its coroutines. -/
structure VoicePipeline extends PipelineStatus, SpeechCapture, VoiceReply, PipelineJobs where
  hasProvider : Bool
  hasQueue : Bool
  isInitialized : Bool
  released : Bool
deriving DecidableEq, Repr

namespace VoicePipeline

def frameSize : Nat := 512

def maxBufferSize : Nat := 160000

def maxPreSpeech : Nat := 12800

def trailingSilenceFrames : Nat := 18

def start (hasProvider hasQueue : Bool) : VoicePipeline where
  hasProvider := hasProvider
  hasQueue := hasQueue
  isInitialized := false
  released := false
  isRunning := false
  currentState := .idle
  stateChanges := []
  isListeningForNextQuery := false
  isRestarting := false
  isRecording := false
  recordings := 0
  speechBuffer := 0
  preSpeechBuffer := 0
  isCollectingSpeech := false
  isProcessingSTT := false
  consecutiveSilenceFrames := 0
  isStreamingTTSActive := false
  isLLMResponseComplete := false
  fullResponseText := []
  finalBubbleText := []
  responseUpdates := []
  jobs := []
  nextId := 0
  pipelineJob := none
  sttJob := none
  llmProviderJob := none
  streamingTTSJob := none
  completionWaitJob := none

/-- `scope.launch`; after `release` the scope is cancelled. -/
def launch (s : VoicePipeline) (task : Task) : VoicePipeline :=
  { s with jobs := s.jobs ++ [⟨s.nextId, task, s.released⟩], nextId := s.nextId + 1 }

def cancel (s : VoicePipeline) (handle : Option Nat) : VoicePipeline :=
  { s with
    jobs := s.jobs.map fun job =>
      if handle = some job.id then { job with cancelled := true } else job }

/-- `job?.isActive == true` -/
def isActive (s : VoicePipeline) (handle : Option Nat) : Bool :=
  s.jobs.any fun job => handle = some job.id && !job.cancelled

/-- The setter of `currentState`. -/
def setCurrentState (s : VoicePipeline) (value : PipelineState) : VoicePipeline :=
  if s.currentState = value then s
  else { s with currentState := value, stateChanges := s.stateChanges ++ [value] }

def transitionToState (s : VoicePipeline) (newState : PipelineState) : VoicePipeline :=
  if s.isListeningForNextQuery ∧ newState ≠ .listening ∧ newState ≠ .idle ∧ newState ≠ .error then s
  else s.setCurrentState newState

/-- `transitionToListening` and `transitionToListeningImmediate`. -/
def transitionToListening (s : VoicePipeline) : VoicePipeline :=
  let s := { s with isStreamingTTSActive := false, isLLMResponseComplete := false }
  if s.isRunning && s.currentState ≠ .listening then s.transitionToState .listening else s

def clearBuffers (s : VoicePipeline) : VoicePipeline :=
  { s with
    speechBuffer := 0
    preSpeechBuffer := 0
    isCollectingSpeech := false
    consecutiveSilenceFrames := 0 }

def stopRecorder (s : VoicePipeline) : VoicePipeline :=
  { s.cancel s.pipelineJob with isRecording := false, pipelineJob := none }

def startVoiceConversation (s : VoicePipeline) : VoicePipeline :=
  if !s.isInitialized then s
  else if s.isRunning then s
  else
    let s := { s with
      speechBuffer := 0
      preSpeechBuffer := 0
      isCollectingSpeech := false
      isRunning := true }
    s.transitionToListening.launch .startRecording

/-- `processSpeechSegment`, up to the launch of its job. -/
def processSpeechSegment (s : VoicePipeline) : VoicePipeline :=
  if s.speechBuffer = 0 then s
  else if s.isProcessingSTT then s
  else
    let s := { s with consecutiveSilenceFrames := 0, isProcessingSTT := true }
    let s := s.transitionToState .transcribing
    { s.launch (.stt .transcribe) with sttJob := some s.nextId }

def forceEndSpeechSegment (s : VoicePipeline) (longEnough : Bool) : VoicePipeline :=
  if !s.isCollectingSpeech then s
  else if longEnough && frameSize ≤ s.speechBuffer then s.processSpeechSegment
  else s.clearBuffers.transitionToListening

/-- The end of `stopConversation`. Of the jobs it cancels only the one that records. -/
def resetStopped (s : VoicePipeline) : VoicePipeline :=
  let s := { s.clearBuffers with isProcessingSTT := false, isLLMResponseComplete := false }
  { s.cancel s.pipelineJob with pipelineJob := none }

def stopConversation (s : VoicePipeline) : VoicePipeline :=
  if !s.isRunning then s
  else
    let s := { s with isRunning := false }.transitionToState .idle
    let s := { s with isRecording := false }
    let s := if s.isCollectingSpeech && frameSize ≤ s.speechBuffer then s.processSpeechSegment else s
    s.resetStopped

def forceStopAndProcess (s : VoicePipeline) (longEnough : Bool) : VoicePipeline :=
  if s.isCollectingSpeech && frameSize ≤ s.speechBuffer then s.forceEndSpeechSegment longEnough
  else
    let combined := min s.preSpeechBuffer 32000 + s.speechBuffer
    if 4800 ≤ combined then { s with speechBuffer := combined }.processSpeechSegment
    else s.stopConversation

def stopTTS (s : VoicePipeline) : VoicePipeline :=
  { s.cancel s.streamingTTSJob with streamingTTSJob := none, isStreamingTTSActive := false }

def stopGeneration (s : VoicePipeline) : VoicePipeline :=
  { s.cancel s.llmProviderJob with llmProviderJob := none, isLLMResponseComplete := false }

def clearResponse (s : VoicePipeline) : VoicePipeline := { s with fullResponseText := [] }

def restartForNewQuestion (s : VoicePipeline) : VoicePipeline :=
  let s := { s with isListeningForNextQuery := false }
  let s := s.stopTTS.stopGeneration.clearBuffers
  let s := { s with isProcessingSTT := false }.clearResponse
  let s := { s.cancel s.sttJob with sttJob := none, isLLMResponseComplete := false }
  s.launch .newQuestion

def release (s : VoicePipeline) : VoicePipeline :=
  { s with
    isRunning := false
    pipelineJob := none
    isRecording := false
    fullResponseText := []
    jobs := s.jobs.map fun job => { job with cancelled := true }
    released := true
    isInitialized := false }

/-- `processAudioWithVAD`. Its barge-in detection comes after the return for `SPEAKING`. -/
def processAudioWithVAD (s : VoicePipeline) (frame : Frame) : VoicePipeline :=
  if s.currentState = .speaking then s
  else if frame.ttsSpeaking then s
  else if s.currentState = .listening && !s.isCollectingSpeech && !s.isRestarting &&
      frame.listeningTimedOut then
    s.launch .restartListening
  else if s.currentState ≠ .listening && s.currentState ≠ .speechDetected then s
  else
    let s := { s with preSpeechBuffer := min (s.preSpeechBuffer + frame.samples) maxPreSpeech }
    match frame.vad with
    | .speechStart =>
      if !s.isCollectingSpeech then
        let s := { s with
          isCollectingSpeech := true
          consecutiveSilenceFrames := 0
          isListeningForNextQuery := false
          speechBuffer := s.preSpeechBuffer + frame.samples }
        s.transitionToState .speechDetected
      else
        { s with consecutiveSilenceFrames := 0, speechBuffer := s.speechBuffer + frame.samples }
    | .speech =>
      if s.isCollectingSpeech then
        let s := { s with
          speechBuffer := min (s.speechBuffer + frame.samples) maxBufferSize
          consecutiveSilenceFrames := 0 }
        if frame.tooLong then s.forceEndSpeechSegment frame.longEnough else s
      else s
    | .speechEnd =>
      if s.isCollectingSpeech then
        let s := { s with speechBuffer := s.speechBuffer + frame.samples }
        let s := if frame.longEnough && frameSize ≤ s.speechBuffer then s.processSpeechSegment else s
        s.clearBuffers.transitionToListening
      else s
    | .silence =>
      if s.isCollectingSpeech then
        let s := { s with consecutiveSilenceFrames := s.consecutiveSilenceFrames + 1 }
        if trailingSilenceFrames ≤ s.consecutiveSilenceFrames then
          s.forceEndSpeechSegment frame.longEnough
        else s
      else s

/-- `onAudioData` -/
def onAudioData (s : VoicePipeline) (frame : Frame) : VoicePipeline :=
  if s.isRunning then s.processAudioWithVAD frame else s

def awaitCompletionAndListen (s : VoicePipeline) : VoicePipeline :=
  if s.isActive s.completionWaitJob then s
  else { s.launch .completionWait with completionWaitJob := some s.nextId }

def startStreamingTTS (s : VoicePipeline) (ready : Bool) : VoicePipeline :=
  if s.isActive s.streamingTTSJob then s
  else if !ready then s.launch .reinitTTS
  else if s.isStreamingTTSActive then s
  else
    let s := { s with isStreamingTTSActive := true }
    let s := (s.transitionToState .speaking).clearBuffers
    { s.launch (.tts .start) with streamingTTSJob := some s.nextId }

/-- The condition before the calls of `startStreamingTTS` in the LLM jobs. -/
def ttsIdle (s : VoicePipeline) : Bool :=
  !s.isStreamingTTSActive && !s.isActive s.streamingTTSJob

/-- The `finally` block of the TTS job. -/
def ttsFinally (s : VoicePipeline) : VoicePipeline :=
  let s := { s.clearBuffers with
    isStreamingTTSActive := false
    streamingTTSJob := none
    isProcessingSTT := false
    isRunning := true }
  s.launch .awaitCompletion

def onResponseUpdate (s : VoicePipeline) (text : Text) (isComplete : Bool) : VoicePipeline :=
  { s with responseUpdates := s.responseUpdates ++ [(text, isComplete)] }

/-- The UI update of a streaming response; an error has none. -/
def streamingUpdate (s : VoicePipeline) : Option Text → VoicePipeline
  | some text => s.onResponseUpdate text false
  | none => s

/-- The `finally` block of the STT job. -/
def sttFinally (s : VoicePipeline) : VoicePipeline :=
  { s with isProcessingSTT := false, sttJob := none }

/-- The end of the LLM jobs after their stream. -/
def afterStream (s : VoicePipeline) : VoicePipeline :=
  if isBlank s.finalBubbleText then s else s.awaitCompletionAndListen

/-- The `finally` block of the provider job. -/
def providerFinally (s : VoicePipeline) : VoicePipeline := { s with llmProviderJob := none }

/-- A state and, for the coroutine that took the step, where it is suspended next (none if it is
done). -/
abbrev Resumed := VoicePipeline × Option Task

def afterRestart (s : VoicePipeline) : AfterRestart → Resumed
  | .launched => (s, none)
  | .stt => (s.sttFinally, none)
  | .llm (.complete isFirstToken) => (s, some (.provider (.complete isFirstToken)))
  | .llm .providerNet => (s.afterStream.providerFinally, none)
  | .llm .legacyNet => (s.afterStream, none)
  | .llm .failed => (s.providerFinally, none)

def afterRecording (s : VoicePipeline) : AfterRecording → Resumed
  | .launched => (s, none)
  | .restart rest => { s.transitionToListening with isRestarting := false }.afterRestart rest
  | .newQuestion => (s.transitionToState .listening, none)

/-- `startRecording` after its delay: the job that records is launched. -/
def recordNow (s : VoicePipeline) (rest : AfterRecording) : Resumed :=
  let s := if s.currentState ≠ .listening then s.transitionToListening else s
  { s.launch .record with pipelineJob := some s.nextId }.afterRecording rest

def startRecording (s : VoicePipeline) (rest : AfterRecording) : Resumed :=
  if s.isRecording then (s.stopRecorder, some (.recordingDelay rest)) else s.recordNow rest

/-- What `restartListening` cancels and resets before its delay. -/
def resetForRestart (s : VoicePipeline) : VoicePipeline :=
  let s := { s.cancel s.completionWaitJob with completionWaitJob := none, isRestarting := true }
  let s := { s.stopTTS.clearBuffers with
    isLLMResponseComplete := false
    isProcessingSTT := false
    fullResponseText := [] }
  s.stopRecorder

def restartListening (s : VoicePipeline) (rest : AfterRestart) : Resumed :=
  if s.isRestarting then s.afterRestart rest
  else if !s.isRunning then s.afterRestart rest
  else (s.resetForRestart, some (.restartDelay rest))

/-- The coroutine of `restartForNewQuestion` after the recorder is stopped. -/
def newQuestionGo (s : VoicePipeline) : Resumed :=
  if s.isRunning then s.startRecording .newQuestion else (s.startVoiceConversation, none)

/-- A new LLM job takes the place of the one before. -/
def launchLLM (s : VoicePipeline) (task : Task) : VoicePipeline :=
  let s := s.cancel s.llmProviderJob
  { s.launch task with llmProviderJob := some s.nextId }

def processWithLLM (s : VoicePipeline) (available : Bool) : VoicePipeline :=
  if s.hasProvider then
    if available then s.launchLLM (.provider .start)
    else (s.transitionToState .error).launch .restartListening
  else s.launchLLM (.legacy .start)

/-- The final text is taken from the text so far. -/
def setBubble (s : VoicePipeline) : VoicePipeline :=
  { s with finalBubbleText := removeImEndTokenOnly s.fullResponseText }

def appendToken (s : VoicePipeline) (token : Text) : VoicePipeline :=
  { s with fullResponseText := s.fullResponseText ++ token }

/-- One response of the provider's stream. -/
def providerResponse (s : VoicePipeline) (isFirstToken : Bool) (r : LLMResponse)
    (answers : Answers) : Resumed :=
  if r.isStreaming && isFirstToken then (s, some (.provider (.collect false)))
  else if r.isError then (s.transitionToState .error, some (.provider (.update isFirstToken none)))
  else if r.isComplete then
    let s := ({ s with isLLMResponseComplete := true }.transitionToState .speaking).setBubble
    if isBlank s.finalBubbleText then s.restartListening (.llm (.complete isFirstToken))
    else if s.ttsIdle then (s.startStreamingTTS answers.ttsReady, some (.provider (.complete isFirstToken)))
    else (s, some (.provider (.complete isFirstToken)))
  else if r.isStreaming then
    let s := s.transitionToState .speaking
    let s := (s.appendToken (newToken s.fullResponseText r.text)).setBubble
    let s := if s.ttsIdle && answers.hasCompleteSentence then s.startStreamingTTS answers.ttsReady
      else s
    (s, some (.provider (.update isFirstToken (some s.finalBubbleText))))
  else (s, some (.provider (.collect isFirstToken)))

/-- One response of the queue for the request of the legacy job. -/
def legacyResponse (s : VoicePipeline) (r : InferenceQueue.Response) : Resumed :=
  if r.error.isSome then (s.transitionToState .error, some (.legacy (.update true none)))
  else if r.isComplete then
    let token := r.token.getD []
    let s := if isBlank token then s else s.appendToken token
    (s.setBubble, some (.legacy .complete))
  else
    match r.token with
    | some token =>
      let s := ((s.transitionToState .speaking).appendToken token).setBubble
      (s, some (.legacy (.update false (some s.finalBubbleText))))
    | none => (s, some (.legacy (.collect false)))

/-- What the safety net does after its UI update. -/
def safetyNet (s : VoicePipeline) (answers : Answers) (rest : AfterBlank) : Resumed :=
  if isBlank s.finalBubbleText then s.restartListening (.llm rest)
  else
    let s := if s.ttsIdle then s.startStreamingTTS answers.ttsReady else s
    s.afterRestart (.llm rest)

/-- The completion wait's "Reset state for next utterance". -/
def resetForUtterance (s : VoicePipeline) : VoicePipeline :=
  { s.clearBuffers with isProcessingSTT := false, fullResponseText := [] }

/-- The completion wait ends; in a stopped pipeline it ends without an effect. -/
def completeWait (s : VoicePipeline) : Resumed :=
  if !s.isRunning then (s, none)
  else
    let s := s.resetForUtterance
    let s := if s.currentState ≠ .listening then s.transitionToState .listening else s
    if s.isRecording then (s, none) else s.startRecording .launched

def resumeSTT (s : VoicePipeline) : SttPoint → Outcome → Option Resumed
  | .transcribe, .transcription text =>
    if isBlank text then some (s.restartListening .stt)
    else some (s, some (.stt (.transcribed text)))
  | .transcribe, .throws => some (s.transitionToState .error, some (.stt .failed))
  | .transcribed _, .resume answers =>
    if s.hasQueue then
      some (((s.transitionToState .thinking).processWithLLM answers.available).sttFinally, none)
    else some (s.sttFinally, none)
  | .failed, .resume _ => some (s.sttFinally, none)
  | _, _ => none

def resumeProvider (s : VoicePipeline) : ProviderPoint → Outcome → Option Resumed
  | .start, .resume _ =>
    some ({ s with
      fullResponseText := []
      isLLMResponseComplete := false
      finalBubbleText := []
      isStreamingTTSActive := false }, some (.provider (.collect true)))
  | .collect isFirstToken, .response r answers => some (s.providerResponse isFirstToken r answers)
  | .collect _, .ended =>
    if s.isLLMResponseComplete then some (s.afterStream.providerFinally, none)
    else some ({ s with isLLMResponseComplete := true }.setBubble, some (.provider .net))
  | .update isFirstToken text, .resume _ =>
    some (s.streamingUpdate text, some (.provider (.collect isFirstToken)))
  | .complete isFirstToken, .resume _ =>
    some (s.onResponseUpdate s.finalBubbleText true, some (.provider (.collect isFirstToken)))
  | .net, .resume answers =>
    some ((s.onResponseUpdate s.finalBubbleText true).safetyNet answers .providerNet)
  | .failed, .resume _ => some (s.restartListening (.llm .failed))
  | .start, .throws | .failed, .throws => none
  | _, .throws => some (s.transitionToState .error, some (.provider .failed))
  | _, _ => none

def resumeLegacy (s : VoicePipeline) : LegacyPoint → Outcome → Option Resumed
  | .start, .resume _ =>
    some ({ s with
      fullResponseText := []
      isLLMResponseComplete := false
      isStreamingTTSActive := false }, some (.legacy (.collect false)))
  | .collect false, .queueResponse r => some (s.legacyResponse r)
  | .collect responseComplete, .ended =>
    if responseComplete then some (s.afterStream, none) else some (s.setBubble, some (.legacy .net))
  | .update responseComplete text, .resume answers =>
    let s := s.streamingUpdate text
    let s := if !responseComplete && s.ttsIdle && answers.hasCompleteSentence then
        s.startStreamingTTS answers.ttsReady
      else s
    some (s, some (.legacy (.collect responseComplete)))
  | .complete, .resume answers =>
    let s := s.onResponseUpdate s.finalBubbleText true
    let s := { s.cancel s.llmProviderJob with isLLMResponseComplete := true }
    let s := if s.ttsIdle && !isBlank s.finalBubbleText then s.startStreamingTTS answers.ttsReady
      else s
    some (s, some (.legacy (.collect true)))
  | .net, .resume answers =>
    let s := { s.onResponseUpdate s.finalBubbleText true with isLLMResponseComplete := true }
    some (s.safetyNet answers .legacyNet)
  | .failed, .resume _ => some (s.restartListening .launched)
  | .start, .throws | .failed, .throws => none
  | _, .throws => some (s.transitionToState .error, some (.legacy .failed))
  | _, _ => none

def resumeTTS (s : VoicePipeline) : TtsPoint → Outcome → Option Resumed
  | .wait, .resume _ => some (s.ttsFinally, none)
  | _, .resume answers =>
    if s.isLLMResponseComplete then
      if answers.ttsReady then some (s, some (.tts .wait)) else some (s.ttsFinally, none)
    else some (s, some (.tts .loop))
  | _, .throws => some (s.ttsFinally, none)
  | _, _ => none

/-- `pipelineJob` -/
def resumeRecord (s : VoicePipeline) (recordingStarted : Bool) : VoicePipeline :=
  let s := { s with recordings := s.recordings + 1 }
  if recordingStarted then { s with isRecording := true } else { s with isRunning := false }

def resumeCompletionWait (s : VoicePipeline) (answers : Answers) : Resumed :=
  let llmDone := s.isLLMResponseComplete
  let ttsDone := s.ttsIdle && !answers.ttsSpeaking
  if llmDone && ttsDone || answers.timedOut then s.completeWait else (s, some .completionWait)

/-- A step of a coroutine that is not cancelled. -/
def resume (s : VoicePipeline) : Task → Outcome → Option Resumed
  | .stt point, outcome => s.resumeSTT point outcome
  | .provider point, outcome => s.resumeProvider point outcome
  | .legacy point, outcome => s.resumeLegacy point outcome
  | .tts point, outcome => s.resumeTTS point outcome
  | .startRecording, .resume _ => some (s.startRecording .launched)
  | .recordingDelay rest, .resume _ => some (s.recordNow rest)
  | .record, .resume answers => some (s.resumeRecord answers.recordingStarted, none)
  | .restartListening, .resume _ => some (s.restartListening .launched)
  | .restartDelay rest, .resume _ => some (s.startRecording (.restart rest))
  | .newQuestion, .resume _ =>
    if s.isRecording then some ({ s with isRecording := false }, some .newQuestionDelay)
    else some s.newQuestionGo
  | .newQuestionDelay, .resume _ => some s.newQuestionGo
  | .reinitTTS, .resume answers =>
    some (if answers.reinitSuccess then s.startStreamingTTS answers.ttsReady else s, none)
  | .awaitCompletion, .resume _ => some (s.awaitCompletionAndListen, none)
  | .completionWait, .resume answers => some (s.resumeCompletionWait answers)
  | _, _ => none

/-- The `catch` block of the provider job for its cancellation: a text so far becomes the final
one, but the UI update in the cancelled coroutine throws again. -/
def providerCancelled (s : VoicePipeline) : VoicePipeline :=
  if isBlank s.fullResponseText then s.providerFinally else s.setBubble.providerFinally

def restartCancelled (s : VoicePipeline) : AfterRestart → VoicePipeline
  | .launched => s
  | .stt => (s.transitionToState .error).sttFinally
  | .llm .legacyNet => s.transitionToState .error
  | .llm .failed => s.providerFinally
  | .llm _ => s.providerCancelled

/-- The end of a cancelled STT job. A transcription is not interrupted: the cancellation is noticed
when its result is there. -/
def endSTT (s : VoicePipeline) : SttPoint → Outcome → VoicePipeline
  | .transcribe, .transcription text =>
    if isBlank text then
      match s.restartListening .stt with
      | (s, none) => s
      | (s, some _) => { s with isRestarting := false }.restartCancelled .stt
    else (s.transitionToState .error).sttFinally
  | .transcribe, .throws => (s.transitionToState .error).sttFinally
  | .transcribed _, _ => (s.transitionToState .error).sttFinally
  | .failed, _ => s.sttFinally
  | _, _ => s

/-- A cancelled coroutine ends at its suspension point; one that had not started runs nothing. -/
def endCancelled (s : VoicePipeline) : Task → Outcome → VoicePipeline
  | .recordingDelay (.restart rest), _ => { s with isRestarting := false }.restartCancelled rest
  | .restartDelay rest, _ => { s with isRestarting := false }.restartCancelled rest
  | .stt point, outcome => s.endSTT point outcome
  | .provider .start, _ => s
  | .provider .failed, _ => s.providerFinally
  | .provider _, _ => s.providerCancelled
  | .legacy .start, _ | .legacy .failed, _ => s
  | .legacy _, _ => s.transitionToState .error
  | .tts .start, _ => s
  | .tts _, _ => s.ttsFinally
  | _, _ => s

/-- The coroutine at place `i` is suspended again or done. -/
def suspend (s : VoicePipeline) (i : Nat) : Option Task → VoicePipeline
  | some task => { s with jobs := s.jobs.modify i fun job => { job with task := task } }
  | none => { s with jobs := s.jobs.eraseIdx i }

def run (s : VoicePipeline) (i : Nat) (outcome : Outcome) : Option VoicePipeline :=
  s.jobs[i]?.bind fun job =>
    if job.cancelled then some ((s.endCancelled job.task outcome).suspend i none)
    else (s.resume job.task outcome).map fun resumed => resumed.1.suspend i resumed.2

def step (s : VoicePipeline) : Event → Option VoicePipeline
  | .initialized => some (if s.released then s else { s with isInitialized := true })
  | .startVoiceConversation => some s.startVoiceConversation
  | .stopConversation => some s.stopConversation
  | .forceStopAndProcess longEnough => some (s.forceStopAndProcess longEnough)
  | .stopTTS => some s.stopTTS
  | .stopGeneration => some s.stopGeneration
  | .clearResponse => some s.clearResponse
  | .restartForNewQuestion => some s.restartForNewQuestion
  | .release => some s.release
  | .frame frame => some (s.onAudioData frame)
  | .run i outcome => s.run i outcome

end VoicePipeline

end HeyNilo

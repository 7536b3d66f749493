import HeyNilo.VoicePipeline

namespace HeyNilo

/-- A sample with its place among the samples of the accepted frames. -/
structure Sample where
  number : Nat
  value : Int
deriving DecidableEq, Repr

/-- What the recorder hands over: it keeps back the rest of a read until a frame is full. -/
structure AudioFrame where
  samples : List Int
  full : samples.length = VoicePipeline.frameSize

def AudioFrame.zeros : AudioFrame :=
  ⟨List.replicate VoicePipeline.frameSize 0, List.length_replicate⟩

structure MicFrame where
  audioData : AudioFrame
  currentTime : Int
  ttsSpeaking : Bool

/-- The array an STT job is launched with. `onset` is the place of the first sample of the frame that
started the collection, or of the tap. -/
structure SpeechSegment where
  speechArray : List Sample
  onset : Nat

/-- What `VoicePipelineManager` collects speech with. `frames` are the accepted frames after the
gain, and `transcribed` what was submitted. -/
structure SpeechCollector where
  isRunning : Bool
  currentState : PipelineState
  isRestarting : Bool
  listeningStartTime : Int
  speechBuffer : List Sample
  preSpeechBuffer : List Sample
  isCollectingSpeech : Bool
  isProcessingSTT : Bool
  speechStartTime : Int
  consecutiveSilenceFrames : Nat
  onset : Nat
  frames : List (List Sample)
  transcribed : List SpeechSegment

namespace SpeechCollector

open VoicePipeline (frameSize maxBufferSize maxPreSpeech trailingSilenceFrames)

def minSpeechMs : Int := 800

def maxSpeechMs : Int := 10000

def maxListeningTimeMs : Int := 15000

/-- Two seconds of samples. -/
def maxTapSamples : Nat := 32000

def minTapSamples : Nat := 4800

def start : SpeechCollector where
  isRunning := false
  currentState := .idle
  isRestarting := false
  listeningStartTime := 0
  speechBuffer := []
  preSpeechBuffer := []
  isCollectingSpeech := false
  isProcessingSTT := false
  speechStartTime := 0
  consecutiveSilenceFrames := 0
  onset := 0
  frames := []
  transcribed := []

/-- `SOFTWARE_GAIN` with saturation. -/
def amplify (sample : Int) : Int :=
  let amplified := sample * 4
  if amplified > 32767 then 32767
  else if amplified < -32768 then -32768
  else amplified

/-- `removeFirst` while the buffer is too large. -/
def keepLast (size : Nat) : List Sample → List Sample
  | [] => []
  | first :: rest => if size < rest.length + 1 then keepLast size rest else first :: rest

theorem keepLast_eq_drop (size : Nat) (buffer : List Sample) :
    keepLast size buffer = buffer.drop (buffer.length - size) := by
  induction buffer with
  | nil => simp [keepLast]
  | cons first rest ih =>
    rw [keepLast]
    split
    next h =>
      rw [ih, List.length_cons, Nat.succ_sub (Nat.le_of_lt_succ h), List.drop_succ_cons]
    next h => rw [List.length_cons, Nat.sub_eq_zero_of_le (Nat.le_of_not_lt h), List.drop_zero]

@[simp] theorem length_keepLast (size : Nat) (buffer : List Sample) :
    (keepLast size buffer).length = min buffer.length size := by
  rw [keepLast_eq_drop, List.length_drop]
  omega

/-- The number of accepted samples. -/
def recorded (s : SpeechCollector) : Nat := frameSize * s.frames.length

def processedAudio (s : SpeechCollector) (audioData : AudioFrame) : List Sample :=
  audioData.samples.mapIdx fun i sample => ⟨s.recorded + i, amplify sample⟩

def transitionToListening (s : SpeechCollector) : SpeechCollector :=
  if s.isRunning then { s with currentState := .listening } else s

def clearBuffers (s : SpeechCollector) : SpeechCollector :=
  { s with
    isCollectingSpeech := false
    speechBuffer := []
    preSpeechBuffer := []
    consecutiveSilenceFrames := 0 }

def processSpeechSegment (s : SpeechCollector) (onset : Nat) : SpeechCollector :=
  if s.speechBuffer.isEmpty then s
  else if s.isProcessingSTT then s
  else
    { s with
      consecutiveSilenceFrames := 0
      isProcessingSTT := true
      currentState := .transcribing
      transcribed := s.transcribed ++ [⟨s.speechBuffer, onset⟩] }

def speechDuration (s : SpeechCollector) (currentTime : Int) : Int := currentTime - s.speechStartTime

def forceEndSpeechSegment (s : SpeechCollector) (currentTime : Int) : SpeechCollector :=
  if !s.isCollectingSpeech then s
  else if minSpeechMs ≤ s.speechDuration currentTime ∧ frameSize ≤ s.speechBuffer.length then
    s.processSpeechSegment s.onset
  else s.clearBuffers.transitionToListening

/-- The frame is accepted and added to the pre-speech buffer. -/
def addPreSpeech (s : SpeechCollector) (processedAudio : List Sample) : SpeechCollector :=
  { s with
    frames := s.frames ++ [processedAudio]
    preSpeechBuffer := keepLast maxPreSpeech (s.preSpeechBuffer ++ processedAudio) }

section AddPreSpeech

variable (s : SpeechCollector) (processedAudio : List Sample)

@[simp] theorem addPreSpeech_frames :
    (s.addPreSpeech processedAudio).frames = s.frames ++ [processedAudio] := rfl

@[simp] theorem addPreSpeech_preSpeechBuffer :
    (s.addPreSpeech processedAudio).preSpeechBuffer =
      keepLast maxPreSpeech (s.preSpeechBuffer ++ processedAudio) := rfl

@[simp] theorem addPreSpeech_speechBuffer :
    (s.addPreSpeech processedAudio).speechBuffer = s.speechBuffer := rfl

@[simp] theorem addPreSpeech_isCollectingSpeech :
    (s.addPreSpeech processedAudio).isCollectingSpeech = s.isCollectingSpeech := rfl

@[simp] theorem addPreSpeech_isProcessingSTT :
    (s.addPreSpeech processedAudio).isProcessingSTT = s.isProcessingSTT := rfl

@[simp] theorem addPreSpeech_consecutiveSilenceFrames :
    (s.addPreSpeech processedAudio).consecutiveSilenceFrames = s.consecutiveSilenceFrames := rfl

@[simp] theorem addPreSpeech_speechDuration (currentTime : Int) :
    (s.addPreSpeech processedAudio).speechDuration currentTime = s.speechDuration currentTime := rfl

@[simp] theorem addPreSpeech_transcribed :
    (s.addPreSpeech processedAudio).transcribed = s.transcribed := rfl

end AddPreSpeech

/-- `processAudioWithVAD` from the pre-speech buffer on, with what the VAD says of the frame. -/
def bufferFrame (s : SpeechCollector) (frame : MicFrame) (vadState : VADState) : SpeechCollector :=
  let processedAudio := s.processedAudio frame.audioData
  let s := s.addPreSpeech processedAudio
  match vadState with
  | .speechStart =>
    if !s.isCollectingSpeech then
      { s with
        isCollectingSpeech := true
        speechStartTime := frame.currentTime
        consecutiveSilenceFrames := 0
        speechBuffer := s.preSpeechBuffer ++ processedAudio
        onset := s.recorded - frameSize
        currentState := .speechDetected }
    else
      { s with
        consecutiveSilenceFrames := 0
        speechBuffer := s.speechBuffer ++ processedAudio }
  | .speech =>
    if s.isCollectingSpeech then
      let s := { s with
        speechBuffer := keepLast maxBufferSize (s.speechBuffer ++ processedAudio)
        consecutiveSilenceFrames := 0 }
      if s.speechDuration frame.currentTime > maxSpeechMs then
        s.forceEndSpeechSegment frame.currentTime
      else s
    else s
  | .speechEnd =>
    if s.isCollectingSpeech then
      let s := { s with speechBuffer := s.speechBuffer ++ processedAudio }
      let s :=
        if minSpeechMs ≤ s.speechDuration frame.currentTime ∧ frameSize ≤ s.speechBuffer.length then
          s.processSpeechSegment s.onset
        else s
      s.clearBuffers.transitionToListening
    else s
  | .silence =>
    if s.isCollectingSpeech then
      let s := { s with consecutiveSilenceFrames := s.consecutiveSilenceFrames + 1 }
      if s.consecutiveSilenceFrames ≥ trailingSilenceFrames then
        s.forceEndSpeechSegment frame.currentTime
      else s
    else s

/-- `LISTENING` without speech for too long: the frame is dropped and the listening restarted. -/
def listeningTimedOut (s : SpeechCollector) (currentTime : Int) : Bool :=
  s.currentState = .listening && !s.isCollectingSpeech && !s.isRestarting &&
    currentTime - s.listeningStartTime > maxListeningTimeMs

def processAudioWithVAD (s : SpeechCollector) (frame : MicFrame) (vadState : VADState) :
    SpeechCollector :=
  if s.currentState = .speaking then s
  else if frame.ttsSpeaking then s
  else if s.listeningTimedOut frame.currentTime then
    { s with listeningStartTime := frame.currentTime }
  else if s.currentState ≠ .listening ∧ s.currentState ≠ .speechDetected then s
  else s.bufferFrame frame vadState

def onAudioData (s : SpeechCollector) (frame : MicFrame) (vadState : VADState) : SpeechCollector :=
  if s.isRunning then s.processAudioWithVAD frame vadState else s

def stopConversation (s : SpeechCollector) : SpeechCollector :=
  if !s.isRunning then s
  else
    let s := { s with isRunning := false, currentState := .idle }
    let s :=
      if s.isCollectingSpeech ∧ frameSize ≤ s.speechBuffer.length then s.processSpeechSegment s.onset
      else s
    { s.clearBuffers with isProcessingSTT := false }

/-- The user's tap. -/
def forceStopAndProcess (s : SpeechCollector) (currentTime : Int) : SpeechCollector :=
  if s.isCollectingSpeech ∧ frameSize ≤ s.speechBuffer.length then
    s.forceEndSpeechSegment currentTime
  else
    let combinedBuffer := keepLast maxTapSamples s.preSpeechBuffer ++ s.speechBuffer
    if minTapSamples ≤ combinedBuffer.length then
      { s with speechBuffer := combinedBuffer }.processSpeechSegment s.recorded
    else s.stopConversation

/-- What the other calls and the coroutines of the pipeline write: the state and the flags as they
leave them, and whether they clear the buffers. -/
structure Elsewhere where
  isRunning : Bool
  currentState : PipelineState
  isRestarting : Bool
  isProcessingSTT : Bool
  listeningStartTime : Int
  -- where it does not clear `consecutiveSilenceFrames`, the next onset does
  clearsBuffers : Bool
deriving DecidableEq, Repr

def elsewhere (s : SpeechCollector) (w : Elsewhere) : SpeechCollector :=
  let s := { s with
    isRunning := w.isRunning
    currentState := w.currentState
    isRestarting := w.isRestarting
    isProcessingSTT := w.isProcessingSTT
    listeningStartTime := w.listeningStartTime }
  if w.clearsBuffers then s.clearBuffers else s

inductive Event where
  | frame (frame : MicFrame) (vadState : VADState)
  | forceStopAndProcess (currentTime : Int)
  | stopConversation
  | elsewhere (writes : Elsewhere)

def apply (s : SpeechCollector) : Event → SpeechCollector
  | .frame frame vadState => s.onAudioData frame vadState
  | .forceStopAndProcess currentTime => s.forceStopAndProcess currentTime
  | .stopConversation => s.stopConversation
  | .elsewhere writes => s.elsewhere writes

def step (s : SpeechCollector) (e : Event) : Option SpeechCollector := some (s.apply e)

/-- The frame passes the checks before the buffers. -/
def accepts (s : SpeechCollector) (frame : MicFrame) : Prop :=
  s.isRunning = true ∧ frame.ttsSpeaking = false ∧ s.listeningTimedOut frame.currentTime = false ∧
    (s.currentState = .listening ∨ s.currentState = .speechDetected)

instance (s : SpeechCollector) (frame : MicFrame) : Decidable (s.accepts frame) :=
  inferInstanceAs (Decidable (_ ∧ _ ∧ _ ∧ _))

theorem onAudioData_of_accepts {s : SpeechCollector} {frame : MicFrame} (h : s.accepts frame)
    (vadState : VADState) : s.onAudioData frame vadState = s.bufferFrame frame vadState := by
  obtain ⟨hrun, htts, htime, hstate⟩ := h
  unfold onAudioData processAudioWithVAD
  rw [if_pos hrun, htts, htime]
  rcases hstate with hstate | hstate <;> simp [hstate]

/-- A frame that is not accepted at most restarts the listening time. -/
theorem onAudioData_of_not_accepts {s : SpeechCollector} {frame : MicFrame}
    (h : ¬ s.accepts frame) (vadState : VADState) :
    ∃ listeningStartTime,
      s.onAudioData frame vadState = { s with listeningStartTime := listeningStartTime } := by
  unfold onAudioData processAudioWithVAD
  split
  next hrun =>
    split
    next => exact ⟨_, rfl⟩
    next =>
      split
      next => exact ⟨_, rfl⟩
      next htts =>
        split
        next => exact ⟨_, rfl⟩
        next htime =>
          split
          next => exact ⟨_, rfl⟩
          next hstate =>
            refine absurd ⟨hrun, by simpa using htts, by simpa using htime, ?_⟩ h
            by_contra hneither
            exact hstate (not_or.mp hneither)
  next => exact ⟨_, rfl⟩

theorem length_processedAudio (s : SpeechCollector) (audioData : AudioFrame) :
    (s.processedAudio audioData).length = frameSize := by
  simp [processedAudio, audioData.full]

theorem processSpeechSegment_buffers (s : SpeechCollector) (onset : Nat) :
    (s.processSpeechSegment onset).frames = s.frames ∧
      (s.processSpeechSegment onset).speechBuffer = s.speechBuffer ∧
      (s.processSpeechSegment onset).preSpeechBuffer = s.preSpeechBuffer ∧
      (s.processSpeechSegment onset).isCollectingSpeech = s.isCollectingSpeech := by
  unfold processSpeechSegment
  split
  next => exact ⟨rfl, rfl, rfl, rfl⟩
  next => split <;> exact ⟨rfl, rfl, rfl, rfl⟩

theorem transitionToListening_buffers (s : SpeechCollector) :
    s.transitionToListening.frames = s.frames ∧
      s.transitionToListening.speechBuffer = s.speechBuffer ∧
      s.transitionToListening.preSpeechBuffer = s.preSpeechBuffer ∧
      s.transitionToListening.isCollectingSpeech = s.isCollectingSpeech := by
  unfold transitionToListening
  split <;> exact ⟨rfl, rfl, rfl, rfl⟩

variable {s : SpeechCollector}

theorem transcribed_processSpeechSegment {onset : Nat} (hne : s.speechBuffer ≠ [])
    (hfree : s.isProcessingSTT = false) :
    (s.processSpeechSegment onset).transcribed = s.transcribed ++ [⟨s.speechBuffer, onset⟩] := by
  unfold processSpeechSegment
  rw [if_neg (by simpa using hne), if_neg (by simp [hfree])]

theorem transcribed_processSpeechSegment_of_busy {onset : Nat} (hbusy : s.isProcessingSTT = true) :
    (s.processSpeechSegment onset).transcribed = s.transcribed := by
  unfold processSpeechSegment
  rw [if_pos hbusy, ite_self]

@[simp] theorem transcribed_clearedListening (s : SpeechCollector) :
    s.clearBuffers.transitionToListening.transcribed = s.transcribed := by
  unfold transitionToListening
  split <;> rfl

theorem transcribed_forceEndSpeechSegment {currentTime : Int} (hc : s.isCollectingSpeech = true)
    (hfree : s.isProcessingSTT = false) (hlong : minSpeechMs ≤ s.speechDuration currentTime)
    (hfilled : frameSize ≤ s.speechBuffer.length) :
    (s.forceEndSpeechSegment currentTime).transcribed =
      s.transcribed ++ [⟨s.speechBuffer, s.onset⟩] := by
  unfold forceEndSpeechSegment
  rw [if_neg (by simp [hc]), if_pos ⟨hlong, hfilled⟩]
  refine transcribed_processSpeechSegment (List.length_pos_iff.mp ?_) hfree
  exact Nat.lt_of_lt_of_le (by decide) hfilled

theorem transcribed_forceEndSpeechSegment_of_quiet {currentTime : Int}
    (hquiet : s.isProcessingSTT = true ∨ ¬ minSpeechMs ≤ s.speechDuration currentTime) :
    (s.forceEndSpeechSegment currentTime).transcribed = s.transcribed := by
  unfold forceEndSpeechSegment
  split
  next => rfl
  next =>
    split
    next hlong =>
      rcases hquiet with hbusy | hshort
      · exact transcribed_processSpeechSegment_of_busy hbusy
      · exact absurd hlong.1 hshort
    next => exact s.transcribed_clearedListening

end SpeechCollector

end HeyNilo

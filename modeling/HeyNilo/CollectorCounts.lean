import HeyNilo.SpeechCollector

namespace HeyNilo

open VoicePipeline (frameSize maxBufferSize maxPreSpeech trailingSilenceFrames)

namespace SpeechCollector

/-- The pipeline keeps the collector's flags and counts its samples. -/
structure Counts (c : SpeechCollector) (s : VoicePipeline) : Prop where
  isRunning : s.isRunning = c.isRunning
  currentState : s.currentState = c.currentState
  isListeningForNextQuery : s.isListeningForNextQuery = false
  isRestarting : s.isRestarting = c.isRestarting
  speechBuffer : s.speechBuffer = c.speechBuffer.length
  preSpeechBuffer : s.preSpeechBuffer = c.preSpeechBuffer.length
  isCollectingSpeech : s.isCollectingSpeech = c.isCollectingSpeech
  isProcessingSTT : s.isProcessingSTT = c.isProcessingSTT
  consecutiveSilenceFrames : s.consecutiveSilenceFrames = c.consecutiveSilenceFrames

/-- A frame as the pipeline sees it: its size, and the time limits that it has passed. -/
def toFrame (c : SpeechCollector) (frame : MicFrame) (vadState : VADState) :
    VoicePipeline.Frame where
  samples := frameSize
  vad := vadState
  listeningTimedOut := frame.currentTime - c.listeningStartTime > maxListeningTimeMs
  longEnough := minSpeechMs ≤ c.speechDuration frame.currentTime
  tooLong := c.speechDuration frame.currentTime > maxSpeechMs
  ttsSpeaking := frame.ttsSpeaking

theorem toFrame_longEnough {c : SpeechCollector} {frame : MicFrame} {vadState : VADState} :
    (c.toFrame frame vadState).longEnough = true ↔
      minSpeechMs ≤ c.speechDuration frame.currentTime := decide_eq_true_iff

theorem toFrame_tooLong {c : SpeechCollector} {frame : MicFrame} {vadState : VADState} :
    (c.toFrame frame vadState).tooLong = true ↔
      c.speechDuration frame.currentTime > maxSpeechMs := decide_eq_true_iff

variable {c d : SpeechCollector} {s t : VoicePipeline}

/-- Both models branch alike. -/
theorem Counts.ite {p q : Prop} [Decidable p] [Decidable q] (hiff : p ↔ q)
    (hpos : p → Counts c s) (hneg : ¬ p → Counts d t) :
    Counts (if p then c else d) (if q then s else t) := by
  by_cases hp : p
  · rw [if_pos hp, if_pos (hiff.mp hp)]
    exact hpos hp
  · rw [if_neg hp, if_neg fun hq => hp (hiff.mpr hq)]
    exact hneg hp

theorem transitionToState_eq (hflag : s.isListeningForNextQuery = false)
    (newState : PipelineState) : ∃ stateChanges, s.transitionToState newState =
      { s with currentState := newState, stateChanges := stateChanges } := by
  unfold VoicePipeline.transitionToState
  rw [if_neg (by simp [hflag])]
  unfold VoicePipeline.setCurrentState
  split
  next h => exact ⟨s.stateChanges, by rw [← h]⟩
  next => exact ⟨_, rfl⟩

theorem Counts.transitionToState (h : Counts c s) (newState : PipelineState) :
    Counts { c with currentState := newState } (s.transitionToState newState) := by
  obtain ⟨stateChanges, ht⟩ := transitionToState_eq h.isListeningForNextQuery newState
  rw [ht]
  exact { h with currentState := rfl }

theorem Counts.transitionToListening (h : Counts c s) :
    Counts c.transitionToListening s.transitionToListening := by
  unfold VoicePipeline.transitionToListening SpeechCollector.transitionToListening
  have hreset : Counts c { s with isStreamingTTSActive := false, isLLMResponseComplete := false } :=
    { h with }
  by_cases hstate : c.currentState = .listening
  · have hkept : c = { c with currentState := .listening } := by rw [← hstate]
    rw [← hkept, ite_self, if_neg (by simp [h.currentState, hstate])]
    exact hreset
  · refine .ite (by simp [h.isRunning, h.currentState, hstate]) (fun _ => ?_) fun _ => hreset
    exact hreset.transitionToState .listening

theorem Counts.clearBuffers (h : Counts c s) : Counts c.clearBuffers s.clearBuffers :=
  { h with
    speechBuffer := rfl
    preSpeechBuffer := rfl
    isCollectingSpeech := rfl
    consecutiveSilenceFrames := rfl }

theorem Counts.processSpeechSegment (h : Counts c s) (onset : Nat) :
    Counts (c.processSpeechSegment onset) s.processSpeechSegment := by
  unfold VoicePipeline.processSpeechSegment SpeechCollector.processSpeechSegment
  refine .ite (by simp [h.speechBuffer]) (fun _ => h) fun _ => ?_
  refine .ite (by rw [h.isProcessingSTT]) (fun _ => h) fun _ => ?_
  have hbusy : Counts { c with consecutiveSilenceFrames := 0, isProcessingSTT := true }
      { s with consecutiveSilenceFrames := 0, isProcessingSTT := true } :=
    { h with isProcessingSTT := rfl, consecutiveSilenceFrames := rfl }
  exact { hbusy.transitionToState .transcribing with }

theorem Counts.forceEndSpeechSegment (h : Counts c s) (currentTime : Int) :
    Counts (c.forceEndSpeechSegment currentTime)
      (s.forceEndSpeechSegment (minSpeechMs ≤ c.speechDuration currentTime)) := by
  unfold VoicePipeline.forceEndSpeechSegment SpeechCollector.forceEndSpeechSegment
  refine .ite (by rw [h.isCollectingSpeech]) (fun _ => h) fun _ => ?_
  refine .ite (by simp [h.speechBuffer]) (fun _ => h.processSpeechSegment _) fun _ => ?_
  exact h.clearBuffers.transitionToListening

theorem Counts.addPreSpeech (h : Counts c s) (audioData : AudioFrame) :
    Counts (c.addPreSpeech (c.processedAudio audioData))
      { s with preSpeechBuffer := min (s.preSpeechBuffer + frameSize) maxPreSpeech } := by
  refine { h with preSpeechBuffer := ?_ }
  rw [addPreSpeech_preSpeechBuffer, length_keepLast, List.length_append, length_processedAudio,
    h.preSpeechBuffer]

/-- The pipeline's step for a frame counts what the collector does with it. -/
theorem Counts.processAudioWithVAD (h : Counts c s) (frame : MicFrame) (vadState : VADState) :
    Counts (c.processAudioWithVAD frame vadState)
      (s.processAudioWithVAD (c.toFrame frame vadState)) := by
  unfold VoicePipeline.processAudioWithVAD SpeechCollector.processAudioWithVAD
  refine .ite (by rw [h.currentState]) (fun _ => h) fun _ => ?_
  refine .ite Iff.rfl (fun _ => h) fun _ => ?_
  refine .ite ?_ (fun _ => { h with }) fun _ => ?_
  · rw [h.currentState, h.isCollectingSpeech, h.isRestarting]
    exact Iff.rfl
  refine .ite (by simp [h.currentState]) (fun _ => h) fun _ => ?_
  have hadded := h.addPreSpeech frame.audioData
  have hlen := c.length_processedAudio frame.audioData
  unfold bufferFrame
  cases vadState with
  | speechStart =>
    refine .ite (by rw [hadded.isCollectingSpeech]) (fun _ => ?_) fun _ => ?_
    · have hbegun : Counts
          { c.addPreSpeech (c.processedAudio frame.audioData) with
            isCollectingSpeech := true
            speechStartTime := frame.currentTime
            consecutiveSilenceFrames := 0
            speechBuffer :=
              (c.addPreSpeech (c.processedAudio frame.audioData)).preSpeechBuffer ++
                c.processedAudio frame.audioData
            onset := (c.addPreSpeech (c.processedAudio frame.audioData)).recorded - frameSize }
          { s with
            preSpeechBuffer := min (s.preSpeechBuffer + frameSize) maxPreSpeech
            isCollectingSpeech := true
            consecutiveSilenceFrames := 0
            isListeningForNextQuery := false
            speechBuffer := min (s.preSpeechBuffer + frameSize) maxPreSpeech + frameSize } := by
        refine { hadded with
          isListeningForNextQuery := rfl
          speechBuffer := ?_
          isCollectingSpeech := rfl
          consecutiveSilenceFrames := rfl }
        rw [List.length_append, hlen, ← hadded.preSpeechBuffer]
      exact hbegun.transitionToState .speechDetected
    · refine { hadded with speechBuffer := ?_, consecutiveSilenceFrames := rfl }
      rw [List.length_append, hlen, ← hadded.speechBuffer]
      rfl
  | speech =>
    refine .ite (by rw [hadded.isCollectingSpeech]) (fun _ => ?_) fun _ => hadded
    have hkept : Counts
        { c.addPreSpeech (c.processedAudio frame.audioData) with
          speechBuffer := keepLast maxBufferSize (c.speechBuffer ++ c.processedAudio frame.audioData)
          consecutiveSilenceFrames := 0 }
        { s with
          preSpeechBuffer := min (s.preSpeechBuffer + frameSize) maxPreSpeech
          speechBuffer := min (s.speechBuffer + frameSize) maxBufferSize
          consecutiveSilenceFrames := 0 } := by
      refine { hadded with speechBuffer := ?_, consecutiveSilenceFrames := rfl }
      rw [length_keepLast, List.length_append, hlen, h.speechBuffer]
    refine .ite ?_ (fun _ => hkept.forceEndSpeechSegment frame.currentTime) fun _ => hkept
    rw [toFrame_tooLong]
    exact Iff.rfl
  | speechEnd =>
    refine .ite (by rw [hadded.isCollectingSpeech]) (fun _ => ?_) fun _ => hadded
    have hkept : Counts
        { c.addPreSpeech (c.processedAudio frame.audioData) with
          speechBuffer := c.speechBuffer ++ c.processedAudio frame.audioData }
        { s with
          preSpeechBuffer := min (s.preSpeechBuffer + frameSize) maxPreSpeech
          speechBuffer := s.speechBuffer + frameSize } := by
      refine { hadded with speechBuffer := ?_ }
      rw [List.length_append, hlen, h.speechBuffer]
    refine Counts.transitionToListening (Counts.clearBuffers ?_)
    refine .ite ?_ (fun _ => hkept.processSpeechSegment _) fun _ => hkept
    rw [Bool.and_eq_true, decide_eq_true_iff, toFrame_longEnough, List.length_append, hlen,
      addPreSpeech_speechBuffer, h.speechBuffer]
    exact Iff.rfl
  | silence =>
    refine .ite (by rw [hadded.isCollectingSpeech]) (fun _ => ?_) fun _ => hadded
    have hkept : Counts
        { c.addPreSpeech (c.processedAudio frame.audioData) with
          consecutiveSilenceFrames := c.consecutiveSilenceFrames + 1 }
        { s with
          preSpeechBuffer := min (s.preSpeechBuffer + frameSize) maxPreSpeech
          consecutiveSilenceFrames := s.consecutiveSilenceFrames + 1 } := by
      refine { hadded with consecutiveSilenceFrames := ?_ }
      rw [h.consecutiveSilenceFrames]
    refine .ite ?_ (fun _ => hkept.forceEndSpeechSegment frame.currentTime) fun _ => hkept
    simp [h.consecutiveSilenceFrames]

theorem Counts.onAudioData (h : Counts c s) (frame : MicFrame) (vadState : VADState) :
    Counts (c.onAudioData frame vadState) (s.onAudioData (c.toFrame frame vadState)) := by
  unfold VoicePipeline.onAudioData SpeechCollector.onAudioData
  exact .ite (by rw [h.isRunning]) (fun _ => h.processAudioWithVAD frame vadState) fun _ => h

theorem Counts.stopConversation (h : Counts c s) :
    Counts c.stopConversation s.stopConversation := by
  unfold VoicePipeline.stopConversation SpeechCollector.stopConversation
  refine .ite (by rw [h.isRunning]) (fun _ => h) fun _ => ?_
  have hstopped : Counts { c with isRunning := false } { s with isRunning := false } :=
    { h with isRunning := rfl }
  have hidle := hstopped.transitionToState .idle
  have hrecorder : Counts { c with isRunning := false, currentState := .idle }
      { VoicePipeline.transitionToState { s with isRunning := false } .idle with
        isRecording := false } := { hidle with }
  refine { Counts.clearBuffers (.ite ?_ (fun _ => hrecorder.processSpeechSegment c.onset) fun _ =>
    hrecorder) with isProcessingSTT := rfl }
  have hcollecting := hrecorder.isCollectingSpeech
  have hspeech := hrecorder.speechBuffer
  dsimp only at hcollecting hspeech ⊢
  rw [hcollecting, hspeech, Bool.and_eq_true, decide_eq_true_iff]

theorem Counts.forceStopAndProcess (h : Counts c s) (currentTime : Int) :
    Counts (c.forceStopAndProcess currentTime)
      (s.forceStopAndProcess (minSpeechMs ≤ c.speechDuration currentTime)) := by
  unfold VoicePipeline.forceStopAndProcess SpeechCollector.forceStopAndProcess
  refine .ite (by simp [h.isCollectingSpeech, h.speechBuffer])
    (fun _ => h.forceEndSpeechSegment currentTime) fun _ => ?_
  have hcombined : Counts
      { c with speechBuffer := keepLast maxTapSamples c.preSpeechBuffer ++ c.speechBuffer }
      { s with speechBuffer := min s.preSpeechBuffer 32000 + s.speechBuffer } := by
    refine { h with speechBuffer := ?_ }
    rw [List.length_append, length_keepLast, h.preSpeechBuffer, h.speechBuffer]
    rfl
  refine .ite ?_ (fun _ => hcombined.processSpeechSegment c.recorded) fun _ => h.stopConversation
  rw [List.length_append, length_keepLast, h.preSpeechBuffer, h.speechBuffer]
  exact Iff.rfl

end SpeechCollector

end HeyNilo

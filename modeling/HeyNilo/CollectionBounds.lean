import HeyNilo.Machine
import HeyNilo.SpeechCollector

namespace HeyNilo

open VoicePipeline (frameSize maxBufferSize maxPreSpeech trailingSilenceFrames)

/-- The collector with the VAD that classifies its frames. -/
structure VadCollector where
  collector : SpeechCollector
  vadProcessor : VADProcessor

namespace VadCollector

open SpeechCollector

def start : VadCollector := ⟨SpeechCollector.start, {}⟩

inductive Event where
  /-- A frame, and what `detectVoice` says of it. -/
  | frame (frame : MicFrame) (hasSpeech : Bool)
  | forceStopAndProcess (currentTime : Int)
  | stopConversation
  | elsewhere (writes : Elsewhere) (resetsVAD : Bool)

def vadState (s : VadCollector) (frame : MicFrame) (hasSpeech : Bool) : VADState :=
  (s.vadProcessor.process ⟨hasSpeech, frame.currentTime⟩).2

/-- The VAD after an accepted frame: the end of a collection resets it. -/
def processed (s : VadCollector) (frame : MicFrame) (hasSpeech : Bool) : VADProcessor :=
  let vadProcessor := (s.vadProcessor.process ⟨hasSpeech, frame.currentTime⟩).1
  if s.vadState frame hasSpeech = .speechEnd ∧ s.collector.isCollectingSpeech then
    vadProcessor.reset
  else vadProcessor

def apply (s : VadCollector) : Event → VadCollector
  | .frame frame hasSpeech =>
    ⟨s.collector.onAudioData frame (s.vadState frame hasSpeech),
      if s.collector.accepts frame then s.processed frame hasSpeech else s.vadProcessor⟩
  | .forceStopAndProcess currentTime =>
    ⟨s.collector.forceStopAndProcess currentTime, s.vadProcessor⟩
  | .stopConversation => ⟨s.collector.stopConversation, s.vadProcessor⟩
  | .elsewhere writes resetsVAD =>
    ⟨s.collector.elsewhere writes,
      if resetsVAD then s.vadProcessor.reset else s.vadProcessor⟩

def step (s : VadCollector) (e : Event) : Option VadCollector := some (s.apply e)

def isLate (s : VadCollector) (frame : MicFrame) : Prop :=
  maxSpeechMs < s.collector.speechDuration frame.currentTime

/-- A frame is collected after the maximal duration, and its step neither submits nor discards the
collection. -/
def overstays (s : VadCollector) : Event → Prop
  | .frame frame hasSpeech =>
    s.collector.accepts frame ∧ s.collector.isCollectingSpeech = true ∧
      s.vadState frame hasSpeech ≠ .silence ∧ s.isLate frame ∧
      (s.apply (.frame frame hasSpeech)).collector.isCollectingSpeech = true ∧
      (s.apply (.frame frame hasSpeech)).collector.transcribed = s.collector.transcribed
  | _ => False

/-- The history: a frame has overstayed. -/
def overstayed (before : Prop) (s : VadCollector) (e : Event) : Prop := before ∨ s.overstays e

def fits (s : SpeechCollector) : Prop :=
  s.isCollectingSpeech = true → s.speechBuffer.length ≤ maxBufferSize + frameSize

def Bounded (x : VadCollector × Prop) : Prop := fits x.1.collector ∧ ¬ x.2

/-- No frame of a collection is taken for the start of speech when the speech buffer is full or the
time over, and none for speech after the time while the STT is busy. -/
def endsInTime (x : VadCollector × Prop) : Event → Prop
  | .frame frame hasSpeech =>
    x.1.collector.accepts frame → x.1.collector.isCollectingSpeech = true →
      match x.1.vadState frame hasSpeech with
      | .speechStart => ¬ x.1.isLate frame ∧ x.1.collector.speechBuffer.length ≤ maxBufferSize
      | .speech => x.1.isLate frame → x.1.collector.isProcessingSTT = false
      | _ => True
  | _ => True

variable {s t : SpeechCollector}

theorem fits_of_kept (h : fits s) (hspeech : t.speechBuffer = s.speechBuffer)
    (hcollecting : t.isCollectingSpeech = s.isCollectingSpeech) : fits t := by
  unfold fits
  rw [hspeech, hcollecting]
  exact h

theorem fits_of_not_collecting (h : s.isCollectingSpeech = false) : fits s := by
  intro hc
  rw [h] at hc
  cases hc

theorem clearedListening_not_collecting (s : SpeechCollector) :
    s.clearBuffers.transitionToListening.isCollectingSpeech = false :=
  s.clearBuffers.transitionToListening_buffers.2.2.2

theorem fits_processSpeechSegment (h : fits s) (onset : Nat) : fits (s.processSpeechSegment onset) := by
  obtain ⟨-, hspeech, -, hcollecting⟩ := s.processSpeechSegment_buffers onset
  exact fits_of_kept h hspeech hcollecting

theorem fits_forceEndSpeechSegment (h : fits s) (currentTime : Int) :
    fits (s.forceEndSpeechSegment currentTime) := by
  unfold forceEndSpeechSegment
  split
  next => exact h
  next =>
    split
    next => exact fits_processSpeechSegment h _
    next => exact fits_of_not_collecting (clearedListening_not_collecting s)

theorem fits_stopConversation (h : fits s) : fits s.stopConversation := by
  unfold stopConversation
  split
  next => exact h
  next => exact fits_of_not_collecting rfl

theorem fits_forceStopAndProcess (h : fits s) (currentTime : Int) :
    fits (s.forceStopAndProcess currentTime) := by
  unfold forceStopAndProcess
  split
  next => exact fits_forceEndSpeechSegment h currentTime
  next hcollected =>
    dsimp only
    split
    next =>
      refine fits_processSpeechSegment ?_ _
      intro hc
      have hshort : s.speechBuffer.length < frameSize := by
        by_contra hlong
        exact hcollected ⟨hc, Nat.le_of_not_lt hlong⟩
      rw [List.length_append, length_keepLast]
      exact Nat.add_le_add (le_trans (Nat.min_le_right _ _) (by decide)) hshort.le
    next => exact fits_stopConversation h

/-- The step of a frame that is no start of speech in a full buffer. -/
theorem fits_bufferFrame (h : fits s) {frame : MicFrame} {vadState : VADState}
    (hroom : s.isCollectingSpeech = true → vadState = .speechStart →
      s.speechBuffer.length ≤ maxBufferSize) : fits (s.bufferFrame frame vadState) := by
  have hadded : fits (s.addPreSpeech (s.processedAudio frame.audioData)) := fits_of_kept h rfl rfl
  unfold bufferFrame
  cases vadState with
  | speechStart =>
    dsimp only
    split
    next =>
      intro _
      rw [List.length_append, length_processedAudio, addPreSpeech_preSpeechBuffer, length_keepLast]
      exact Nat.add_le_add_right (le_trans (Nat.min_le_right _ _) (by decide)) _
    next hc =>
      intro _
      have hc : s.isCollectingSpeech = true := by simpa using hc
      rw [List.length_append, length_processedAudio, addPreSpeech_speechBuffer]
      exact Nat.add_le_add_right (hroom hc rfl) _
  | speech =>
    dsimp only
    have hcut : (keepLast maxBufferSize (s.speechBuffer ++ s.processedAudio frame.audioData)).length ≤
        maxBufferSize + frameSize := by
      rw [length_keepLast]
      exact le_trans (Nat.min_le_right _ _) (Nat.le_add_right _ _)
    split
    next =>
      split
      next =>
        refine fits_forceEndSpeechSegment ?_ _
        exact fun _ => hcut
      next => exact fun _ => hcut
    next => exact hadded
  | speechEnd =>
    dsimp only
    split
    next => exact fits_of_not_collecting (clearedListening_not_collecting _)
    next => exact hadded
  | silence =>
    dsimp only
    split
    next =>
      split
      next =>
        refine fits_forceEndSpeechSegment ?_ _
        exact fits_of_kept hadded rfl rfl
      next => exact fits_of_kept hadded rfl rfl
    next => exact hadded

theorem fits_apply {x : VadCollector × Prop} {e : Event} (h : fits x.1.collector)
    (hok : endsInTime x e) : fits (x.1.apply e).collector := by
  cases e with
  | frame frame hasSpeech =>
    by_cases haccepts : x.1.collector.accepts frame
    · show fits (x.1.collector.onAudioData frame _)
      rw [onAudioData_of_accepts haccepts]
      refine fits_bufferFrame h fun hc hstart => ?_
      have hroom := hok haccepts hc
      rw [hstart] at hroom
      exact hroom.2
    · obtain ⟨listeningStartTime, hkept⟩ :=
        onAudioData_of_not_accepts haccepts (x.1.vadState frame hasSpeech)
      show fits (x.1.collector.onAudioData frame _)
      rw [hkept]
      exact fits_of_kept h rfl rfl
  | forceStopAndProcess currentTime => exact fits_forceStopAndProcess h currentTime
  | stopConversation => exact fits_stopConversation h
  | elsewhere writes resetsVAD =>
    show fits (x.1.collector.elsewhere writes)
    unfold elsewhere
    dsimp only
    split
    next => exact fits_of_not_collecting rfl
    next => exact fits_of_kept h rfl rfl

/-- A collection that a frame is added to is at least as long as the frame. -/
theorem frameSize_le_kept (s : SpeechCollector) (frame : MicFrame) : frameSize ≤
    (keepLast maxBufferSize (s.speechBuffer ++ s.processedAudio frame.audioData)).length := by
  rw [length_keepLast, List.length_append, length_processedAudio]
  exact le_min (Nat.le_add_left _ _) (by decide)

/-- A frame for speech after the time submits the collection when the STT is free. -/
theorem submits_late_speech {frame : MicFrame} (hc : s.isCollectingSpeech = true)
    (hlate : maxSpeechMs < s.speechDuration frame.currentTime) (hfree : s.isProcessingSTT = false) :
    ∃ segment, (s.bufferFrame frame .speech).transcribed = s.transcribed ++ [segment] := by
  have hlong : minSpeechMs ≤ s.speechDuration frame.currentTime := le_trans (by decide) hlate.le
  have hfilled := frameSize_le_kept s frame
  unfold bufferFrame
  dsimp only
  rw [if_pos (by exact hc), if_pos (by exact hlate)]
  exact ⟨_, transcribed_forceEndSpeechSegment hc hfree hlong hfilled⟩

theorem not_overstays {x : VadCollector × Prop} {e : Event} (hok : endsInTime x e) :
    ¬ x.1.overstays e := by
  cases e with
  | frame frame hasSpeech =>
    rintro ⟨haccepts, hc, hloud, hlate, hgoing, hkept⟩
    have hends := hok haccepts hc
    simp only [apply, onAudioData_of_accepts haccepts] at hgoing hkept
    cases hvad : x.1.vadState frame hasSpeech with
    | speechStart =>
      rw [hvad] at hends
      exact hends.1 hlate
    | speech =>
      rw [hvad] at hends hkept
      obtain ⟨segment, hsubmitted⟩ := submits_late_speech hc hlate (hends hlate)
      rw [hsubmitted] at hkept
      exact absurd (congrArg List.length hkept) (by simp)
    | speechEnd =>
      rw [hvad] at hgoing
      have hended : (x.1.collector.bufferFrame frame .speechEnd).isCollectingSpeech = false := by
        unfold bufferFrame
        dsimp only
        rw [if_pos (by exact hc)]
        exact clearedListening_not_collecting _
      rw [hended] at hgoing
      cases hgoing
    | silence => exact hloud hvad
  | forceStopAndProcess currentTime => exact id
  | stopConversation => exact id
  | elsewhere writes resetsVAD => exact id

/-- A start of speech goes on with the collection, whatever the buffer and the time. -/
theorem bufferFrame_speechStart (frame : MicFrame) (hc : s.isCollectingSpeech = true) :
    (s.bufferFrame frame .speechStart).isCollectingSpeech = true ∧
      (s.bufferFrame frame .speechStart).transcribed = s.transcribed ∧
      (s.bufferFrame frame .speechStart).speechBuffer.length =
        s.speechBuffer.length + frameSize := by
  unfold bufferFrame
  dsimp only
  rw [if_neg (by simp [hc])]
  refine ⟨hc, rfl, ?_⟩
  rw [List.length_append, length_processedAudio, addPreSpeech_speechBuffer]

theorem bufferFrame_late_speech {frame : MicFrame} (hc : s.isCollectingSpeech = true)
    (hlate : maxSpeechMs < s.speechDuration frame.currentTime) (hbusy : s.isProcessingSTT = true) :
    (s.bufferFrame frame .speech).isCollectingSpeech = true ∧
      (s.bufferFrame frame .speech).transcribed = s.transcribed := by
  have hlong : minSpeechMs ≤ s.speechDuration frame.currentTime := le_trans (by decide) hlate.le
  have hfilled := frameSize_le_kept s frame
  unfold bufferFrame
  dsimp only
  rw [if_pos (by exact hc), if_pos (by exact hlate)]
  constructor
  · unfold forceEndSpeechSegment
    rw [if_neg (by simp [hc]), if_pos ⟨hlong, hfilled⟩]
    exact (processSpeechSegment_buffers _ _).2.2.2.trans hc
  · exact transcribed_forceEndSpeechSegment_of_quiet (.inl hbusy)

theorem not_bounded_apply {x : VadCollector × Prop} {e : Event} (hok : ¬ endsInTime x e) :
    ¬ Bounded (x.1.apply e, overstayed x.2 x.1 e) := by
  rintro ⟨hfits, hin⟩
  have hin : ¬ x.1.overstays e := fun hover => hin (.inr hover)
  cases e with
  | frame frame hasSpeech =>
    refine hok fun haccepts hc => ?_
    simp only [apply, onAudioData_of_accepts haccepts] at hfits
    have hover : x.1.vadState frame hasSpeech ≠ .silence → x.1.isLate frame →
        (x.1.collector.bufferFrame frame (x.1.vadState frame hasSpeech)).isCollectingSpeech = true →
        (x.1.collector.bufferFrame frame (x.1.vadState frame hasSpeech)).transcribed ≠
          x.1.collector.transcribed := by
      intro hloud hlate hgoing hkept
      refine hin ⟨haccepts, hc, hloud, hlate, ?_, ?_⟩
      · rw [apply, onAudioData_of_accepts haccepts]
        exact hgoing
      · rw [apply, onAudioData_of_accepts haccepts]
        exact hkept
    cases hvad : x.1.vadState frame hasSpeech with
    | speechStart =>
      rw [hvad] at hover hfits
      obtain ⟨hgoing, hkept, hlen⟩ := bufferFrame_speechStart frame hc
      refine ⟨fun hlate => hover (by decide) hlate hgoing hkept, ?_⟩
      have hroom := hfits hgoing
      rw [hlen] at hroom
      exact Nat.le_of_add_le_add_right hroom
    | speech =>
      rw [hvad] at hover
      intro hlate
      by_contra hbusy
      have hbusy : x.1.collector.isProcessingSTT = true := by simpa using hbusy
      obtain ⟨hgoing, hkept⟩ := bufferFrame_late_speech hc hlate hbusy
      exact hover (by decide) hlate hgoing hkept
    | speechEnd => trivial
    | silence => trivial
  | forceStopAndProcess currentTime => exact hok trivial
  | stopConversation => exact hok trivial
  | elsewhere writes resetsVAD => exact hok trivial

/-- In a run the collection is bounded all along exactly when every frame of a collection meets its
limits: of the classifications only `SPEECH` comes with the checks of size and time. -/
theorem bounded_iff_endsInTime (events : List Event) :
    Machine.Always (Machine.withHistory step overstayed) Bounded (start, False) events ↔
      Machine.Meets (Machine.withHistory step overstayed) endsInTime (start, False) events := by
  have htotal : ∀ (x : VadCollector × Prop) (e : Event),
      ∃ y, Machine.withHistory step overstayed x e = some y := fun x e =>
    ⟨(x.1.apply e, overstayed x.2 x.1 e), rfl⟩
  obtain ⟨y, hr⟩ := Machine.run_total htotal (start, False) events
  refine Machine.always_iff_meets (I := Bounded) (fun x h => h) ?_ ?_ ⟨nofun, id⟩ hr
  · intro x e y h hok ht
    cases Option.some.inj ht
    exact ⟨fits_apply h.1 hok, fun hover => hover.elim h.2 (not_overstays hok)⟩
  · intro x e y _ hok ht
    cases Option.some.inj ht
    exact not_bounded_apply hok

def listens : Event := .elsewhere ⟨true, .listening, false, false, 1000, false⟩ true

def heard (currentTime : Int) (hasSpeech : Bool) : Event :=
  .frame ⟨.zeros, currentTime, false⟩ hasSpeech

/-- Voices that are never confirmed as speech keep the collection going after the time. -/
theorem unconfirmed_speech_unbounded :
    ¬ Machine.Always (Machine.withHistory step overstayed) Bounded (start, False)
      [listens, heard 1032 true, heard 1064 false, heard 11064 true] := by
  intro h
  let s := ((start.apply listens).apply (heard 1032 true)).apply (heard 1064 false)
  have hlate : (10000 : Int) < 11064 - 1032 := by decide
  have hunbounded : ∀ before, ¬ Bounded (s.apply (heard 11064 true),
      overstayed before s (heard 11064 true)) := fun before =>
    not_bounded_apply (x := (s, before)) fun hends =>
      (hends ⟨rfl, rfl, rfl, .inr rfl⟩ rfl).1 hlate
  exact hunbounded _ (Machine.always_run h rfl)

end VadCollector

end HeyNilo

import HeyNilo.Machine
import HeyNilo.NumberedBlocks
import HeyNilo.SpeechCollector

namespace HeyNilo

open VoicePipeline (frameSize maxBufferSize maxPreSpeech trailingSilenceFrames)
open NumberedBlocks

def numbers (buffer : List Sample) : List Nat := buffer.map Sample.number

/-- The array is the samples of consecutive accepted frames, from at most the length of the
pre-speech buffer before the onset on. -/
def SpeechSegment.Faithful (segment : SpeechSegment) (frames : List (List Sample)) : Prop :=
  ∃ before run after, frames = before ++ run ++ after ∧
    segment.speechArray = run.flatten ∧
    segment.onset ≤ before.flatten.length + maxPreSpeech

theorem SpeechSegment.Faithful.append {segment : SpeechSegment}
    {frames : List (List Sample)} (h : segment.Faithful frames) (new : List (List Sample)) :
    segment.Faithful (frames ++ new) := by
  obtain ⟨before, run, after, rfl, harray, honset⟩ := h
  exact ⟨before, run, after ++ new, by simp, harray, honset⟩

namespace SpeechCollector

/-- Every submitted array is a faithful recording. -/
def Faithful (s : SpeechCollector) : Prop :=
  ∀ segment ∈ s.transcribed, segment.Faithful s.frames

/-- The VAD or a time limit ends a collection that is long enough. -/
def endsCollected (s : SpeechCollector) (currentTime : Int) : VADState → Prop
  | .speechStart => False
  | .speech => maxSpeechMs < s.speechDuration currentTime
  | .speechEnd => minSpeechMs ≤ s.speechDuration currentTime
  | .silence =>
    trailingSilenceFrames ≤ s.consecutiveSilenceFrames + 1 ∧
      minSpeechMs ≤ s.speechDuration currentTime

/-- No speech that the VAD collected is submitted, and no tap submits what an earlier tap left in
the speech buffer. -/
def submitsNoCollected (s : SpeechCollector) : Event → Prop
  | .frame frame vadState =>
    ¬ (s.accepts frame ∧ s.isCollectingSpeech = true ∧ s.isProcessingSTT = false ∧
      s.endsCollected frame.currentTime vadState)
  | .forceStopAndProcess currentTime =>
    if s.isCollectingSpeech then
      ¬ (s.isProcessingSTT = false ∧ minSpeechMs ≤ s.speechDuration currentTime)
    else
      ¬ (s.isProcessingSTT = false ∧ s.speechBuffer ≠ [] ∧
        minTapSamples ≤ min s.preSpeechBuffer.length maxTapSamples + s.speechBuffer.length)
  | .stopConversation =>
    ¬ (s.isRunning = true ∧ s.isCollectingSpeech = true ∧ s.isProcessingSTT = false)
  | .elsewhere _ => True

theorem numbers_processedAudio (s : SpeechCollector) (audioData : AudioFrame) :
    numbers (s.processedAudio audioData) = List.range' s.recorded frameSize := by
  unfold numbers processedAudio
  refine List.ext_getElem (by simp [audioData.full]) fun i hi _ => ?_
  simp

theorem addPreSpeech_ne_nil (s : SpeechCollector) (audioData : AudioFrame) :
    (s.addPreSpeech (s.processedAudio audioData)).preSpeechBuffer ≠ [] := by
  intro hnil
  have hcount := congrArg List.length hnil
  simp only [addPreSpeech_preSpeechBuffer, length_keepLast, List.length_append,
    length_processedAudio, List.length_nil, frameSize, maxPreSpeech] at hcount
  omega

/-- What the buffers hold: the pre-speech buffer whole frames, the last ones accepted; a collection
no consecutive frames (the frame of the onset is in it twice); after a tap the samples that it
combined. -/
structure Grounded (s : SpeechCollector) : Prop where
  numbered : Numbered Sample.number frameSize s.frames
  preSpeech : ∃ before run, s.frames = before ++ run ∧ s.preSpeechBuffer = run.flatten ∧
    run.length ≤ 25
  broken : s.isCollectingSpeech = true → ¬ IsRun frameSize (numbers s.speechBuffer)
  filled : s.isCollectingSpeech = true → frameSize ≤ s.speechBuffer.length
  past : ∀ sample ∈ s.speechBuffer, sample.number < s.recorded
  tapped : s.isCollectingSpeech = false → s.speechBuffer ≠ [] → s.preSpeechBuffer ≠ []

theorem Grounded.start : Grounded start where
  numbered := .nil
  preSpeech := ⟨[], [], rfl, rfl, by simp⟩
  broken h := by cases h
  filled h := by cases h
  past sample h := by cases h
  tapped _ h := absurd rfl h

variable {s t : SpeechCollector} {e : Event}

theorem Grounded.of_kept (h : Grounded s) (hframes : t.frames = s.frames)
    (hspeech : t.speechBuffer = s.speechBuffer) (hpre : t.preSpeechBuffer = s.preSpeechBuffer)
    (hcollecting : t.isCollectingSpeech = s.isCollectingSpeech) : Grounded t where
  numbered := hframes ▸ h.numbered
  preSpeech := by rw [hframes, hpre]; exact h.preSpeech
  broken := by rw [hcollecting, hspeech]; exact h.broken
  filled := by rw [hcollecting, hspeech]; exact h.filled
  past := by rw [hspeech, recorded, hframes]; exact h.past
  tapped := by rw [hcollecting, hspeech, hpre]; exact h.tapped

theorem Grounded.of_cleared (h : Grounded s) (hframes : t.frames = s.frames)
    (hspeech : t.speechBuffer = []) (hpre : t.preSpeechBuffer = [])
    (hcollecting : t.isCollectingSpeech = false) : Grounded t where
  numbered := hframes ▸ h.numbered
  preSpeech := ⟨s.frames, [], by simp [hframes], hpre, by simp⟩
  broken hc := by rw [hcollecting] at hc; cases hc
  filled hc := by rw [hcollecting] at hc; cases hc
  past := by simp [hspeech]
  tapped _ hne := absurd hspeech hne

theorem Grounded.addPreSpeech (h : Grounded s) (audioData : AudioFrame) :
    Grounded (s.addPreSpeech (s.processedAudio audioData)) := by
  have hnumbered : Numbered Sample.number frameSize (s.frames ++ [s.processedAudio audioData]) :=
    h.numbered.append (s.numbers_processedAudio audioData)
  obtain ⟨before, run, hframes, hpre, hlen⟩ := h.preSpeech
  have hsize : ∀ block ∈ run ++ [s.processedAudio audioData], block.length = frameSize := by
    intro block hb
    refine hnumbered.length_eq ?_
    rw [hframes, List.append_assoc]
    exact List.mem_append_right _ hb
  have hkept : keepLast maxPreSpeech (s.preSpeechBuffer ++ s.processedAudio audioData) =
      ((run ++ [s.processedAudio audioData]).drop (run.length + 1 - 25)).flatten := by
    have hlast := keep_last_blocks hsize 25
    have hwhole : maxPreSpeech = frameSize * 25 := by decide
    simp only [List.flatten_append, List.flatten_singleton, List.length_append,
      List.length_singleton] at hlast
    rw [hpre, keepLast_eq_drop, hwhole, List.length_append, hlast]
  refine ⟨hnumbered, ?_, by simpa using h.broken, by simpa using h.filled, ?_, ?_⟩
  · refine ⟨before ++ (run ++ [s.processedAudio audioData]).take (run.length + 1 - 25), _, ?_,
      hkept, ?_⟩
    · rw [List.append_assoc, List.take_append_drop, ← List.append_assoc, ← hframes,
        addPreSpeech_frames]
    · rw [List.length_drop, List.length_append, List.length_singleton]
      omega
  · intro sample hs
    have hpast := h.past sample hs
    simp only [recorded, addPreSpeech_frames, List.length_append] at hpast ⊢
    exact hpast.trans_le (Nat.mul_le_mul_left _ (Nat.le_add_right _ _))
  · intro _ _
    exact s.addPreSpeech_ne_nil audioData

theorem Grounded.processSpeechSegment (h : Grounded s) (onset : Nat) :
    Grounded (s.processSpeechSegment onset) := by
  obtain ⟨hframes, hspeech, hpre, hcollecting⟩ := s.processSpeechSegment_buffers onset
  exact h.of_kept hframes hspeech hpre hcollecting

theorem Grounded.clearedListening (h : Grounded s) : Grounded s.clearBuffers.transitionToListening := by
  obtain ⟨hframes, hspeech, hpre, hcollecting⟩ := s.clearBuffers.transitionToListening_buffers
  exact h.of_cleared hframes hspeech hpre hcollecting

theorem Grounded.forceEndSpeechSegment (h : Grounded s) (currentTime : Int) :
    Grounded (s.forceEndSpeechSegment currentTime) := by
  unfold SpeechCollector.forceEndSpeechSegment
  split
  next => exact h
  next =>
    split
    next => exact h.processSpeechSegment _
    next => exact h.clearedListening

/-- The pre-speech buffer as the accepted samples up to now. -/
theorem Grounded.numbers_preSpeech (h : Grounded s) :
    ∃ first, first + s.preSpeechBuffer.length = s.recorded ∧
      numbers s.preSpeechBuffer = List.range' first s.preSpeechBuffer.length := by
  obtain ⟨before, run, hframes, hpre, -⟩ := h.preSpeech
  have hnumbered : Numbered Sample.number frameSize (before ++ run ++ []) := by
    rw [List.append_nil, ← hframes]
    exact h.numbered
  have hmap := hnumbered.map_flatten
  have hlen : s.preSpeechBuffer.length = frameSize * run.length := by
    rw [hpre, ← List.length_map (f := Sample.number), hmap, List.length_range']
  refine ⟨frameSize * before.length, ?_, ?_⟩
  · rw [hlen, recorded, hframes, List.length_append, Nat.mul_add]
  · rw [numbers, hlen, hpre, hmap]

/-- Older samples after the pre-speech buffer do not go on from it. -/
theorem Grounded.not_isRun_append (h : Grounded s) (hpre : s.preSpeechBuffer ≠ [])
    {buffer : List Sample} (hne : buffer ≠ [])
    (hpast : ∀ sample ∈ buffer, sample.number < s.recorded) :
    ¬ IsRun frameSize (numbers (s.preSpeechBuffer ++ buffer)) := by
  obtain ⟨first, hfirst, hnumbers⟩ := h.numbers_preSpeech
  obtain ⟨sample, rest, rfl⟩ := List.exists_cons_of_ne_nil hne
  intro hrun
  rw [numbers, List.map_append, ← numbers, hnumbers, List.map_cons] at hrun
  have hnext := next_of_isRun (List.length_pos_iff.mpr hpre) hrun
  have hold := hpast sample List.mem_cons_self
  omega

theorem not_isRun_frame {buffer frame : List Sample} (hlen : frame.length = frameSize)
    (h : ¬ IsRun frameSize (numbers buffer)) : ¬ IsRun frameSize (numbers (buffer ++ frame)) := by
  intro hrun
  rw [numbers, List.map_append] at hrun
  exact h (hrun.of_append (by simpa using hlen))

/-- A buffer that was cut to its maximum does not hold whole frames. -/
theorem not_isRun_keepLast {buffer : List Sample} (h : ¬ IsRun frameSize (numbers buffer)) :
    ¬ IsRun frameSize (numbers (keepLast maxBufferSize buffer)) := by
  by_cases hfits : buffer.length ≤ maxBufferSize
  · rw [keepLast_eq_drop, Nat.sub_eq_zero_of_le hfits, List.drop_zero]
    exact h
  · intro hrun
    have hmod := length_mod_of_isRun hrun
    have hcut : (keepLast maxBufferSize buffer).length = maxBufferSize := by
      rw [length_keepLast]
      omega
    rw [numbers, List.length_map, hcut] at hmod
    exact absurd hmod (by decide)

/-- A collection that is no run of frames. -/
theorem Grounded.of_collected (h : Grounded s) (hframes : t.frames = s.frames)
    (hpre : t.preSpeechBuffer = s.preSpeechBuffer) (hcollecting : t.isCollectingSpeech = true)
    (hbroken : ¬ IsRun frameSize (numbers t.speechBuffer))
    (hfilled : frameSize ≤ t.speechBuffer.length)
    (hpast : ∀ sample ∈ t.speechBuffer, sample.number < s.recorded) : Grounded t where
  numbered := hframes ▸ h.numbered
  preSpeech := by rw [hframes, hpre]; exact h.preSpeech
  broken _ := hbroken
  filled _ := hfilled
  past := by rw [recorded, hframes]; exact hpast
  tapped hc := by rw [hcollecting] at hc; cases hc

theorem Grounded.keepLast_preSpeech (h : Grounded s) :
    keepLast maxTapSamples s.preSpeechBuffer = s.preSpeechBuffer := by
  obtain ⟨before, run, hframes, hpre, hlen⟩ := h.preSpeech
  have hsize : ∀ block ∈ run, block.length = frameSize := by
    intro block hb
    refine h.numbered.length_eq ?_
    rw [hframes]
    exact List.mem_append_right _ hb
  have hcount : s.preSpeechBuffer.length ≤ maxTapSamples := by
    rw [hpre, length_flatten_of_size hsize]
    exact le_trans (Nat.mul_le_mul_left _ hlen) (by decide)
  rw [keepLast_eq_drop, Nat.sub_eq_zero_of_le hcount, List.drop_zero]

theorem Grounded.past_preSpeech (h : Grounded s) :
    ∀ sample ∈ s.preSpeechBuffer, sample.number < s.recorded := by
  intro sample hs
  obtain ⟨first, hfirst, hnumbers⟩ := h.numbers_preSpeech
  have hmem : sample.number ∈ numbers s.preSpeechBuffer := List.mem_map_of_mem hs
  rw [hnumbers, List.mem_range'_1] at hmem
  omega

theorem past_processedAudio (s : SpeechCollector) (audioData : AudioFrame) :
    ∀ sample ∈ s.processedAudio audioData,
      sample.number < (s.addPreSpeech (s.processedAudio audioData)).recorded := by
  intro sample hs
  have hmem : sample.number ∈ numbers (s.processedAudio audioData) := List.mem_map_of_mem hs
  rw [numbers_processedAudio, List.mem_range'_1] at hmem
  rw [recorded, addPreSpeech_frames, List.length_append, List.length_singleton, Nat.mul_add,
    Nat.mul_one]
  exact hmem.2

theorem processedAudio_ne_nil (s : SpeechCollector) (audioData : AudioFrame) :
    s.processedAudio audioData ≠ [] := by
  intro hnil
  have hcount := s.length_processedAudio audioData
  rw [hnil] at hcount
  exact absurd hcount (by decide)

/-- The speech buffer with one more frame, while speech is collected. -/
theorem Grounded.collected (h : Grounded s) (hc : s.isCollectingSpeech = true)
    (audioData : AudioFrame) :
    ¬ IsRun frameSize (numbers (s.speechBuffer ++ s.processedAudio audioData)) ∧
      frameSize ≤ (s.speechBuffer ++ s.processedAudio audioData).length ∧
      ∀ sample ∈ s.speechBuffer ++ s.processedAudio audioData,
        sample.number < (s.addPreSpeech (s.processedAudio audioData)).recorded := by
  refine ⟨not_isRun_frame (s.length_processedAudio audioData) (h.broken hc), ?_, ?_⟩
  · rw [List.length_append, length_processedAudio]
    exact Nat.le_add_left _ _
  · intro sample hs
    rcases List.mem_append.mp hs with hold | hnew
    · exact (h.addPreSpeech audioData).past sample hold
    · exact s.past_processedAudio audioData sample hnew

theorem Grounded.bufferFrame (h : Grounded s) (frame : MicFrame) (vadState : VADState) :
    Grounded (s.bufferFrame frame vadState) := by
  have hadded := h.addPreSpeech frame.audioData
  unfold SpeechCollector.bufferFrame
  cases vadState with
  | speechStart =>
    dsimp only
    split
    next =>
      -- the frame stands at the end of the pre-speech buffer already
      have hnew := s.past_processedAudio frame.audioData
      refine hadded.of_collected rfl rfl rfl ?_ ?_ ?_
      · exact hadded.not_isRun_append (s.addPreSpeech_ne_nil frame.audioData)
          (s.processedAudio_ne_nil frame.audioData) hnew
      · rw [List.length_append, length_processedAudio]
        exact Nat.le_add_left _ _
      · intro sample hs
        rcases List.mem_append.mp hs with hold | hs
        · exact hadded.past_preSpeech sample hold
        · exact hnew sample hs
    next hc =>
      have hc : s.isCollectingSpeech = true := by simpa using hc
      obtain ⟨hbroken, hfilled, hpast⟩ := h.collected hc frame.audioData
      exact hadded.of_collected rfl rfl hc hbroken hfilled hpast
  | speech =>
    dsimp only
    split
    next hc =>
      obtain ⟨hbroken, hfilled, hpast⟩ := h.collected hc frame.audioData
      have hlen : frameSize ≤
          (keepLast maxBufferSize (s.speechBuffer ++ s.processedAudio frame.audioData)).length := by
        rw [length_keepLast]
        exact le_min hfilled (by decide)
      have hkept : ∀ sample ∈
          keepLast maxBufferSize (s.speechBuffer ++ s.processedAudio frame.audioData),
          sample.number < (s.addPreSpeech (s.processedAudio frame.audioData)).recorded := by
        intro sample hs
        rw [keepLast_eq_drop] at hs
        exact hpast sample (List.mem_of_mem_drop hs)
      split
      next =>
        refine Grounded.forceEndSpeechSegment ?_ _
        exact hadded.of_collected rfl rfl hc (not_isRun_keepLast hbroken) hlen hkept
      next => exact hadded.of_collected rfl rfl hc (not_isRun_keepLast hbroken) hlen hkept
    next => exact hadded
  | speechEnd =>
    dsimp only
    split
    next hc =>
      obtain ⟨hbroken, hfilled, hpast⟩ := h.collected hc frame.audioData
      refine Grounded.clearedListening ?_
      split
      next =>
        refine Grounded.processSpeechSegment ?_ _
        exact hadded.of_collected rfl rfl hc hbroken hfilled hpast
      next => exact hadded.of_collected rfl rfl hc hbroken hfilled hpast
    next => exact hadded
  | silence =>
    dsimp only
    split
    next =>
      split
      next =>
        refine Grounded.forceEndSpeechSegment ?_ _
        exact hadded.of_kept rfl rfl rfl rfl
      next => exact hadded.of_kept rfl rfl rfl rfl
    next => exact hadded

theorem Grounded.onAudioData (h : Grounded s) (frame : MicFrame) (vadState : VADState) :
    Grounded (s.onAudioData frame vadState) := by
  by_cases haccepts : s.accepts frame
  · rw [onAudioData_of_accepts haccepts]
    exact h.bufferFrame frame vadState
  · obtain ⟨listeningStartTime, hkept⟩ := onAudioData_of_not_accepts haccepts vadState
    rw [hkept]
    exact h.of_kept rfl rfl rfl rfl

theorem Grounded.stopConversation (h : Grounded s) : Grounded s.stopConversation := by
  unfold SpeechCollector.stopConversation
  split
  next => exact h
  next =>
    refine h.of_cleared ?_ rfl rfl rfl
    dsimp only [clearBuffers]
    split
    next => exact (processSpeechSegment_buffers _ _).1
    next => rfl

/-- Without a collection the tap combines samples that are all accepted. -/
theorem Grounded.combined (h : Grounded s) (hc : s.isCollectingSpeech = false) :
    Grounded { s with
      speechBuffer := keepLast maxTapSamples s.preSpeechBuffer ++ s.speechBuffer } where
  numbered := h.numbered
  preSpeech := h.preSpeech
  broken hcollecting := by simp [hc] at hcollecting
  filled hcollecting := by simp [hc] at hcollecting
  past := by
    intro sample hs
    rcases List.mem_append.mp hs with hpre | hold
    · rw [keepLast_eq_drop] at hpre
      exact h.past_preSpeech sample (List.mem_of_mem_drop hpre)
    · exact h.past sample hold
  tapped _ hne := by
    intro hpre
    have hpre : s.preSpeechBuffer = [] := hpre
    refine h.tapped hc (fun hspeech => hne ?_) hpre
    simp [hpre, hspeech, keepLast]

theorem Grounded.forceStopAndProcess (h : Grounded s) (currentTime : Int) :
    Grounded (s.forceStopAndProcess currentTime) := by
  unfold SpeechCollector.forceStopAndProcess
  split
  next => exact h.forceEndSpeechSegment _
  next hcollected =>
    have hc : s.isCollectingSpeech = false := by
      by_contra hc
      have hc : s.isCollectingSpeech = true := by simpa using hc
      exact hcollected ⟨hc, h.filled hc⟩
    dsimp only
    split
    next => exact (h.combined hc).processSpeechSegment _
    next => exact h.stopConversation

theorem Grounded.apply (h : Grounded s) (e : Event) : Grounded (s.apply e) := by
  cases e with
  | frame frame vadState => exact h.onAudioData frame vadState
  | forceStopAndProcess currentTime => exact h.forceStopAndProcess currentTime
  | stopConversation => exact h.stopConversation
  | elsewhere writes =>
    show Grounded (s.elsewhere writes)
    unfold SpeechCollector.elsewhere
    dsimp only
    split
    next => exact h.of_cleared rfl rfl rfl rfl
    next => exact h.of_kept rfl rfl rfl rfl

/-- A submitted array that is no run of frames. -/
def SubmitsBroken (s : SpeechCollector) : Prop :=
  ∃ segment ∈ s.transcribed, ¬ IsRun frameSize (numbers segment.speechArray)

theorem SubmitsBroken.not_faithful (h : SubmitsBroken s)
    (hnumbered : Numbered Sample.number frameSize s.frames) : ¬ s.Faithful := by
  obtain ⟨segment, hsegment, hbroken⟩ := h
  intro hfaithful
  obtain ⟨before, run, after, hframes, harray, -⟩ := hfaithful segment hsegment
  rw [hframes] at hnumbered
  exact hbroken (harray ▸ hnumbered.isRun)

theorem SubmitsBroken.of_last {buffer : List Sample} {onset : Nat}
    (ht : t.transcribed = s.transcribed ++ [⟨buffer, onset⟩])
    (hbroken : ¬ IsRun frameSize (numbers buffer)) : SubmitsBroken t :=
  ⟨⟨buffer, onset⟩, by simp [ht], hbroken⟩

theorem SubmitsBroken.clearedListening (h : SubmitsBroken s) :
    SubmitsBroken s.clearBuffers.transitionToListening := by
  obtain ⟨segment, hsegment, hbroken⟩ := h
  exact ⟨segment, by rw [transcribed_clearedListening]; exact hsegment, hbroken⟩

/-- A frame of a collection that ends it, long enough and with no segment in the STT, submits a
broken array. -/
theorem Grounded.submits_bufferFrame (h : Grounded s) {frame : MicFrame} {vadState : VADState}
    (hc : s.isCollectingSpeech = true) (hfree : s.isProcessingSTT = false)
    (hends : s.endsCollected frame.currentTime vadState) :
    SubmitsBroken (s.bufferFrame frame vadState) := by
  obtain ⟨hbroken, hfilled, -⟩ := h.collected hc frame.audioData
  unfold SpeechCollector.bufferFrame
  cases vadState with
  | speechStart => exact absurd hends id
  | speech =>
    have hlate : maxSpeechMs < s.speechDuration frame.currentTime := hends
    dsimp only
    rw [if_pos (by exact hc), if_pos (by exact hlate)]
    refine .of_last (transcribed_forceEndSpeechSegment ?_ ?_ ?_ ?_) (not_isRun_keepLast hbroken)
    · exact hc
    · exact hfree
    · exact le_trans (by decide) hlate.le
    · rw [length_keepLast]
      exact le_min hfilled (by decide)
  | speechEnd =>
    have hlong : minSpeechMs ≤ s.speechDuration frame.currentTime := hends
    dsimp only
    rw [if_pos (by exact hc), if_pos (by exact ⟨hlong, hfilled⟩)]
    refine SubmitsBroken.clearedListening ?_
    refine .of_last (transcribed_processSpeechSegment (List.length_pos_iff.mp ?_) hfree) hbroken
    exact Nat.lt_of_lt_of_le (by decide) hfilled
  | silence =>
    obtain ⟨hsilent, hlong⟩ := hends
    dsimp only
    rw [if_pos (by exact hc), if_pos (by exact hsilent)]
    exact .of_last (transcribed_forceEndSpeechSegment hc hfree hlong (h.filled hc)) (h.broken hc)

theorem transcribed_bufferFrame {frame : MicFrame} {vadState : VADState}
    (hquiet : ¬ (s.isCollectingSpeech = true ∧ s.isProcessingSTT = false ∧
      s.endsCollected frame.currentTime vadState)) :
    (s.bufferFrame frame vadState).transcribed = s.transcribed := by
  by_cases hc : s.isCollectingSpeech = true
  · have hbusy : s.endsCollected frame.currentTime vadState → s.isProcessingSTT = true := by
      intro hends
      by_contra hfree
      exact hquiet ⟨hc, by simpa using hfree, hends⟩
    unfold bufferFrame
    cases vadState with
    | speechStart =>
      dsimp only
      split <;> rfl
    | speech =>
      dsimp only
      rw [if_pos (by exact hc)]
      split
      next hlate => exact transcribed_forceEndSpeechSegment_of_quiet (.inl (hbusy hlate))
      next => rfl
    | speechEnd =>
      dsimp only
      rw [if_pos (by exact hc), transcribed_clearedListening]
      split
      next hlong => exact transcribed_processSpeechSegment_of_busy (hbusy hlong.1)
      next => rfl
    | silence =>
      dsimp only
      rw [if_pos (by exact hc)]
      split
      next hsilent =>
        refine transcribed_forceEndSpeechSegment_of_quiet ?_
        by_cases hlong : minSpeechMs ≤ s.speechDuration frame.currentTime
        · exact .inl (hbusy ⟨hsilent, hlong⟩)
        · exact .inr hlong
      next => rfl
  · unfold bufferFrame
    cases vadState with
    | speechStart =>
      dsimp only
      split <;> rfl
    | speech => simp [hc]
    | speechEnd => simp [hc]
    | silence => simp [hc]

theorem stopConversation_submits (h : Grounded s) (hrun : s.isRunning = true)
    (hc : s.isCollectingSpeech = true) (hfree : s.isProcessingSTT = false) :
    SubmitsBroken s.stopConversation := by
  unfold stopConversation
  rw [if_neg (by simp [hrun])]
  dsimp only
  rw [if_pos ⟨hc, h.filled hc⟩]
  refine .of_last (transcribed_processSpeechSegment (List.length_pos_iff.mp ?_) hfree) (h.broken hc)
  exact Nat.lt_of_lt_of_le (by decide) (h.filled hc)

theorem transcribed_stopConversation
    (hquiet : ¬ (s.isRunning = true ∧ s.isCollectingSpeech = true ∧ s.isProcessingSTT = false)) :
    s.stopConversation.transcribed = s.transcribed := by
  unfold stopConversation
  split
  next => rfl
  next hrun =>
    dsimp only [clearBuffers]
    split
    next hcollected =>
      refine transcribed_processSpeechSegment_of_busy ?_
      by_contra hfree
      exact hquiet ⟨by simpa using hrun, hcollected.1, by simpa using hfree⟩
    next => rfl

theorem frames_clearedListening (s : SpeechCollector) :
    s.clearBuffers.transitionToListening.frames = s.frames :=
  s.clearBuffers.transitionToListening_buffers.1

theorem frames_forceEndSpeechSegment (s : SpeechCollector) (currentTime : Int) :
    (s.forceEndSpeechSegment currentTime).frames = s.frames := by
  unfold forceEndSpeechSegment
  split
  next => rfl
  next =>
    split
    next => exact (s.processSpeechSegment_buffers _).1
    next => exact s.frames_clearedListening

theorem frames_bufferFrame (s : SpeechCollector) (frame : MicFrame) (vadState : VADState) :
    (s.bufferFrame frame vadState).frames = s.frames ++ [s.processedAudio frame.audioData] := by
  unfold bufferFrame
  cases vadState with
  | speechStart =>
    dsimp only
    split <;> rfl
  | speech =>
    dsimp only
    split
    next =>
      split
      next => exact frames_forceEndSpeechSegment _ _
      next => rfl
    next => rfl
  | speechEnd =>
    dsimp only
    split
    next =>
      rw [frames_clearedListening]
      split
      next => exact (processSpeechSegment_buffers _ _).1
      next => rfl
    next => rfl
  | silence =>
    dsimp only
    split
    next =>
      split
      next => exact frames_forceEndSpeechSegment _ _
      next => rfl
    next => rfl

theorem frames_stopConversation (s : SpeechCollector) : s.stopConversation.frames = s.frames := by
  unfold stopConversation
  split
  next => rfl
  next =>
    dsimp only [clearBuffers]
    split
    next => exact (processSpeechSegment_buffers _ _).1
    next => rfl

theorem frames_forceStopAndProcess (s : SpeechCollector) (currentTime : Int) :
    (s.forceStopAndProcess currentTime).frames = s.frames := by
  unfold forceStopAndProcess
  split
  next => exact s.frames_forceEndSpeechSegment currentTime
  next =>
    dsimp only
    split
    next => exact (processSpeechSegment_buffers _ _).1
    next => exact s.frames_stopConversation

/-- Accepted frames stay as they are. -/
theorem frames_apply (s : SpeechCollector) (e : Event) :
    ∃ new, (s.apply e).frames = s.frames ++ new := by
  cases e with
  | frame frame vadState =>
    by_cases haccepts : s.accepts frame
    · refine ⟨[s.processedAudio frame.audioData], ?_⟩
      rw [apply, onAudioData_of_accepts haccepts, frames_bufferFrame]
    · obtain ⟨listeningStartTime, hkept⟩ := onAudioData_of_not_accepts haccepts vadState
      exact ⟨[], by rw [apply, hkept, List.append_nil]⟩
  | forceStopAndProcess currentTime =>
    exact ⟨[], by rw [apply, frames_forceStopAndProcess, List.append_nil]⟩
  | stopConversation => exact ⟨[], by rw [apply, frames_stopConversation, List.append_nil]⟩
  | elsewhere writes =>
    refine ⟨[], ?_⟩
    rw [apply, elsewhere, List.append_nil]
    split <;> rfl

/-- A tap without a collection submits the pre-speech buffer, unless a tap before left samples in
the speech buffer. -/
theorem Grounded.submits_combined (h : Grounded s) (hc : s.isCollectingSpeech = false)
    (hfree : s.isProcessingSTT = false) (hne : s.speechBuffer ≠ []) {onset : Nat} :
    SubmitsBroken ({ s with
      speechBuffer := keepLast maxTapSamples s.preSpeechBuffer ++ s.speechBuffer
      }.processSpeechSegment onset) := by
  refine .of_last (transcribed_processSpeechSegment ?_ hfree) ?_
  · exact List.append_ne_nil_of_right_ne_nil _ hne
  · show ¬ IsRun frameSize (numbers (keepLast maxTapSamples s.preSpeechBuffer ++ s.speechBuffer))
    rw [h.keepLast_preSpeech]
    exact h.not_isRun_append (h.tapped hc hne) hne h.past

theorem Grounded.faithful_preSpeech (h : Grounded s) :
    SpeechSegment.Faithful ⟨s.preSpeechBuffer, s.recorded⟩ s.frames := by
  obtain ⟨before, run, hframes, hpre, hlen⟩ := h.preSpeech
  have hsize : ∀ block ∈ before, block.length = frameSize := by
    intro block hb
    refine h.numbered.length_eq ?_
    rw [hframes]
    exact List.mem_append_left _ hb
  refine ⟨before, run, [], by rw [hframes, List.append_nil], hpre, ?_⟩
  rw [recorded, hframes, length_flatten_of_size hsize, List.length_append, Nat.mul_add]
  exact Nat.add_le_add_left (Nat.mul_le_mul_left frameSize hlen) _

/-- A tap that submits no collected speech and nothing of an earlier tap submits at most the
pre-speech buffer. -/
theorem Grounded.transcribed_forceStopAndProcess (h : Grounded s) {currentTime : Int}
    (hok : s.submitsNoCollected (.forceStopAndProcess currentTime)) :
    (s.forceStopAndProcess currentTime).transcribed = s.transcribed ∨
      (s.forceStopAndProcess currentTime).transcribed =
        s.transcribed ++ [⟨s.preSpeechBuffer, s.recorded⟩] := by
  unfold SpeechCollector.forceStopAndProcess
  by_cases hc : s.isCollectingSpeech = true
  · rw [if_pos ⟨hc, h.filled hc⟩]
    have hquiet : ¬ (s.isProcessingSTT = false ∧ minSpeechMs ≤ s.speechDuration currentTime) := by
      simpa only [submitsNoCollected, if_pos hc] using hok
    refine .inl (transcribed_forceEndSpeechSegment_of_quiet ?_)
    by_cases hbusy : s.isProcessingSTT = true
    · exact .inl hbusy
    · exact .inr fun hlong => hquiet ⟨by simpa using hbusy, hlong⟩
  · rw [if_neg fun hcollected => hc hcollected.1]
    dsimp only
    split
    next hlong =>
      by_cases hbusy : s.isProcessingSTT = true
      · exact .inl (transcribed_processSpeechSegment_of_busy hbusy)
      · have hfree : s.isProcessingSTT = false := by simpa using hbusy
        have hempty : s.speechBuffer = [] := by
          by_contra hne
          have hquiet : ¬ (s.isProcessingSTT = false ∧ s.speechBuffer ≠ [] ∧
              minTapSamples ≤ min s.preSpeechBuffer.length maxTapSamples + s.speechBuffer.length) := by
            simpa only [submitsNoCollected, if_neg hc] using hok
          refine hquiet ⟨hfree, hne, ?_⟩
          rw [List.length_append, length_keepLast] at hlong
          exact hlong
        have hbuffer : keepLast maxTapSamples s.preSpeechBuffer ++ s.speechBuffer =
            s.preSpeechBuffer := by rw [hempty, List.append_nil, h.keepLast_preSpeech]
        rw [hbuffer] at hlong ⊢
        refine .inr (transcribed_processSpeechSegment (s := { s with
          speechBuffer := s.preSpeechBuffer }) (List.length_pos_iff.mp ?_) hfree)
        exact Nat.lt_of_lt_of_le (by decide) hlong
    next => exact .inl (transcribed_stopConversation fun hstop => hc hstop.2.1)

theorem Grounded.submits_forceStopAndProcess (h : Grounded s) {currentTime : Int}
    (hok : ¬ s.submitsNoCollected (.forceStopAndProcess currentTime)) :
    SubmitsBroken (s.forceStopAndProcess currentTime) := by
  unfold SpeechCollector.forceStopAndProcess
  by_cases hc : s.isCollectingSpeech = true
  · rw [submitsNoCollected, if_pos hc, not_not] at hok
    rw [if_pos ⟨hc, h.filled hc⟩]
    exact .of_last (transcribed_forceEndSpeechSegment hc hok.1 hok.2 (h.filled hc)) (h.broken hc)
  · rw [submitsNoCollected, if_neg hc, not_not] at hok
    obtain ⟨hfree, hne, hlong⟩ := hok
    rw [if_neg fun hcollected => hc hcollected.1]
    dsimp only
    rw [if_pos (by rw [List.length_append, length_keepLast]; exact hlong)]
    exact h.submits_combined (by simpa using hc) hfree hne

theorem faithful_of_transcribed (h : Faithful s) (e : Event)
    (ht : (s.apply e).transcribed = s.transcribed) : Faithful (s.apply e) := by
  obtain ⟨new, hframes⟩ := s.frames_apply e
  intro segment hsegment
  rw [ht] at hsegment
  rw [hframes]
  exact (h segment hsegment).append new

/-- A step that submits no collected speech keeps the arrays faithful. -/
theorem Grounded.faithful_apply (h : Grounded s) (hfaithful : Faithful s)
    (hok : s.submitsNoCollected e) : Faithful (s.apply e) := by
  cases e with
  | frame frame vadState =>
    refine faithful_of_transcribed hfaithful _ ?_
    by_cases haccepts : s.accepts frame
    · rw [SpeechCollector.apply, onAudioData_of_accepts haccepts]
      exact transcribed_bufferFrame fun hends => hok ⟨haccepts, hends⟩
    · obtain ⟨listeningStartTime, hkept⟩ := onAudioData_of_not_accepts haccepts vadState
      rw [SpeechCollector.apply, hkept]
  | forceStopAndProcess currentTime =>
    rcases h.transcribed_forceStopAndProcess hok with ht | ht
    · exact faithful_of_transcribed hfaithful _ ht
    · intro segment hsegment
      rw [SpeechCollector.apply, ht] at hsegment
      rw [SpeechCollector.apply, frames_forceStopAndProcess]
      rcases List.mem_append.mp hsegment with hold | hnew
      · exact hfaithful segment hold
      · rw [List.mem_singleton.mp hnew]
        exact h.faithful_preSpeech
  | stopConversation =>
    exact faithful_of_transcribed hfaithful _ (transcribed_stopConversation hok)
  | elsewhere writes =>
    refine faithful_of_transcribed hfaithful _ ?_
    rw [SpeechCollector.apply, SpeechCollector.elsewhere]
    split <;> rfl

/-- Every other step submits an array that is no recording. -/
theorem Grounded.submits_apply (h : Grounded s) (hok : ¬ s.submitsNoCollected e) :
    SubmitsBroken (s.apply e) := by
  cases e with
  | frame frame vadState =>
    rw [submitsNoCollected, not_not] at hok
    obtain ⟨haccepts, hc, hfree, hends⟩ := hok
    rw [SpeechCollector.apply, onAudioData_of_accepts haccepts]
    exact h.submits_bufferFrame hc hfree hends
  | forceStopAndProcess currentTime => exact h.submits_forceStopAndProcess hok
  | stopConversation =>
    rw [submitsNoCollected, not_not] at hok
    exact stopConversation_submits h hok.1 hok.2.1 hok.2.2
  | elsewhere writes => exact absurd trivial hok

/-- In a run all arrays that the STT gets are faithful recordings exactly when no collected speech
is submitted and no tap submits what an earlier one left. -/
theorem faithful_iff_submitsNoCollected (events : List Event) :
    Machine.Always step Faithful start events ↔
      Machine.Meets step submitsNoCollected start events := by
  obtain ⟨t, hr⟩ := Machine.run_total (fun s e => ⟨s.apply e, rfl⟩) start events
  refine Machine.always_iff_meets (I := fun s => Grounded s ∧ Faithful s) (fun s h => h.2) ?_ ?_
    ⟨.start, ?_⟩ hr
  · intro s e t h hok ht
    cases Option.some.inj ht
    exact ⟨h.1.apply e, h.1.faithful_apply h.2 hok⟩
  · intro s e t h hok ht
    cases Option.some.inj ht
    exact (h.1.submits_apply hok).not_faithful (h.1.apply e).numbered
  · intro segment hsegment
    cases hsegment

/-- What `startVoiceConversation` leaves, and a frame of silence. -/
def listens : Event := .elsewhere ⟨true, .listening, false, false, 1000, false⟩

def heard (currentTime : Int) (vadState : VADState) : Event :=
  .frame ⟨.zeros, currentTime, false⟩ vadState

/-- One utterance: its first frame is in the submitted array twice. -/
theorem utterance_not_faithful :
    ¬ Machine.Always step Faithful start
      [listens, heard 1032 .speechStart, heard 1256 .speech, heard 1288 .speech,
        heard 2088 .speechEnd] := by
  intro h
  have hcollected : Grounded ((((start.apply listens).apply (heard 1032 .speechStart)).apply
      (heard 1256 .speech)).apply (heard 1288 .speech)) :=
    (((Grounded.start.apply listens).apply _).apply _).apply _
  have hlong : (800 : Int) ≤ 2088 - 1032 := by decide
  have hbroken := hcollected.submits_apply (e := heard 2088 .speechEnd)
    (not_not_intro ⟨⟨rfl, rfl, rfl, .inr rfl⟩, rfl, rfl, hlong⟩)
  exact hbroken.not_faithful (hcollected.apply _).numbered (Machine.always_run h rfl)

end SpeechCollector

end HeyNilo

import HeyNilo.BoundedQueue
import HeyNilo.PcmSamples

namespace HeyNilo

structure AudioRecorder where
  audioBuffer : List Int16 := []
  isRecording : Bool := false
deriving DecidableEq, Repr

structure AudioPlayer where
  playbackBuffer : List Int16 := []
  isPlaying : Bool := false
deriving DecidableEq, Repr

/-- The global instances. Besides them: all data of the recorder's callbacks, the arrays returned by
`nativeReadAudioData`, all samples given to `nativeQueueAudioData`, what the player's callbacks have
written, and the samples that they took from the buffer. -/
structure AudioJni where
  recorder : Option AudioRecorder := none
  player : Option AudioPlayer := none
  captured : List Int16 := []
  reads : List (List Int8) := []
  queued : List Int16 := []
  played : List (List Int16) := []
  heard : List Int16 := []
deriving DecidableEq, Repr

namespace AudioJni

open BoundedQueue TTSBridge VADBridge

/-- A vector of samples as its bytes, the low one first. -/
def bytesOf (data : List Int16) : List Int8 := data.flatMap fun x => [lowByte x, highByte x]

def samplesOf : List Int8 → List Int16
  | low :: high :: rest => sample high low :: samplesOf rest
  | _ => []

/-- A native call, or a callback of an open stream. -/
inductive Event where
  | startRecording (opens : Bool)
  | stopRecording
  | recorderReady (audioData : List Int16)
  | readAudioData (maxSamples : Int)
  | clearRecordingBuffer
  | startPlayback (opens : Bool)
  | stopPlayback
  | playerReady (numSamples : Nat)
  | queueAudioData (audioData : List Int8)
  | clearPlaybackBuffer
  | cleanup
deriving DecidableEq, Repr

/-- Ten seconds. -/
def maxBuffered : Nat := 160000

/-- The loop of the player's callback: what it writes and what stays in the buffer. -/
def fill : Nat → List Int16 → List Int16 × List Int16
  | 0, buffer => ([], buffer)
  | n + 1, [] => (0 :: (fill n []).1, (fill n []).2)
  | n + 1, x :: buffer => (x :: (fill n buffer).1, (fill n buffer).2)

def buffered (s : AudioJni) : List Int16 := s.recorder.elim [] (·.audioBuffer)

def unplayed (s : AudioJni) : List Int16 := s.player.elim [] (·.playbackBuffer)

/-- Reserving a negative length throws, and an odd number of bytes is written past the end of the
vector. -/
def step (s : AudioJni) : Event → Option AudioJni
  | .startRecording opens =>
    let recorder := s.recorder.getD {}
    some { s with
      recorder := some { recorder with isRecording := recorder.isRecording || opens } }
  | .stopRecording => some { s with recorder := s.recorder.map ({ · with isRecording := false }) }
  | .recorderReady audioData =>
    s.recorder.bind fun recorder =>
      if recorder.isRecording then
        some { s with
          recorder := some { recorder with
            audioBuffer := audioData.foldl (push (some maxBuffered)) recorder.audioBuffer }
          captured := s.captured ++ audioData }
      else none
  | .readAudioData maxSamples =>
    match s.recorder with
    | none => some s
    | some recorder =>
      if maxSamples < 0 then none
      else
        let data := recorder.audioBuffer.take maxSamples.toNat
        some { s with
          recorder := some { recorder with
            audioBuffer := recorder.audioBuffer.drop maxSamples.toNat }
          reads := if data.isEmpty then s.reads else s.reads ++ [bytesOf data] }
  | .clearRecordingBuffer =>
    some { s with recorder := s.recorder.map ({ · with audioBuffer := [] }) }
  | .startPlayback opens =>
    let player := s.player.getD {}
    some { s with player := some { player with isPlaying := player.isPlaying || opens } }
  | .stopPlayback => some { s with player := s.player.map ({ · with isPlaying := false }) }
  | .playerReady numSamples =>
    s.player.bind fun player =>
      if player.isPlaying then
        let (audioData, rest) := fill numSamples player.playbackBuffer
        some { s with
          player := some { player with playbackBuffer := rest }
          played := s.played ++ [audioData]
          heard := s.heard ++ player.playbackBuffer.take numSamples }
      else none
  | .queueAudioData audioData =>
    match s.player with
    | none => some { s with queued := s.queued ++ samplesOf audioData }
    | some player =>
      if audioData.length % 2 = 1 then none
      else some { s with
        player := some { player with
          playbackBuffer := (samplesOf audioData).foldl (push none) player.playbackBuffer }
        queued := s.queued ++ samplesOf audioData }
  | .clearPlaybackBuffer =>
    some { s with player := s.player.map ({ · with playbackBuffer := [] }) }
  | .cleanup => some { s with recorder := none, player := none }

/-- The recorder's buffer, with what the callbacks put into it and the reads took. -/
def recording (s : AudioJni) : Ledger Int16 := ⟨s.buffered, s.captured, s.reads.flatMap samplesOf⟩

def playback (s : AudioJni) : Ledger Int16 := ⟨s.unplayed, s.queued, s.heard⟩

def recordingDoes (_ : AudioJni) : Event → Option (BoundedQueue.Event Int16)
  | .recorderReady audioData => some (.push audioData)
  | .readAudioData maxSamples => some (.pop maxSamples.toNat)
  | .clearRecordingBuffer | .cleanup => some .clear
  | _ => none

def playbackDoes (s : AudioJni) : Event → Option (BoundedQueue.Event Int16)
  | .queueAudioData audioData =>
    some (if s.player.isSome then .push (samplesOf audioData) else .refuse (samplesOf audioData))
  | .playerReady numSamples => some (.pop numSamples)
  | .clearPlaybackBuffer | .cleanup => some .clear
  | _ => none

theorem samplesOf_bytesOf (data : List Int16) : samplesOf (bytesOf data) = data := by
  induction data with
  | nil => rfl
  | cons x rest ih =>
    change sample (highByte x) (lowByte x) :: samplesOf (bytesOf rest) = _
    rw [sample_bytes, ih]

theorem fill_eq (n : Nat) (buffer : List Int16) :
    fill n buffer = (buffer.take n ++ .replicate (n - buffer.length) 0, buffer.drop n) := by
  fun_induction fill n buffer with
  | case1 buffer => simp
  | case2 n ih => simp [ih, List.replicate_succ]
  | case3 n x buffer ih => simp [ih]

/-- The recorder's buffer is a queue of that capacity. -/
theorem recording_follows : Follows (some maxBuffered) step recording recordingDoes := by
  intro s e t ht
  cases e with
  | startRecording opens =>
    cases ht
    cases hrecorder : s.recorder <;> simp [recording, recordingDoes, buffered, hrecorder]
  | stopRecording =>
    cases ht
    cases hrecorder : s.recorder <;> simp [recording, recordingDoes, buffered, hrecorder]
  | recorderReady audioData =>
    obtain ⟨recorder, hrecorder, hready⟩ := Option.bind_eq_some_iff.mp ht
    obtain ⟨-, ⟨⟩⟩ := Option.ite_none_right_eq_some.mp hready
    simp [recording, recordingDoes, buffered, hrecorder, Ledger.after]
  | readAudioData maxSamples =>
    simp only [step] at ht
    split at ht
    next hrecorder =>
      cases ht
      simp [recording, recordingDoes, buffered, hrecorder, Ledger.after]
    next recorder hrecorder =>
      obtain ⟨-, ⟨⟩⟩ := Option.ite_none_left_eq_some.mp ht
      have hreads : (if (recorder.audioBuffer.take maxSamples.toNat).isEmpty then s.reads
          else s.reads ++ [bytesOf (recorder.audioBuffer.take maxSamples.toNat)]).flatMap samplesOf =
          s.reads.flatMap samplesOf ++ recorder.audioBuffer.take maxSamples.toNat := by
        split
        next hempty => rw [List.isEmpty_iff.mp hempty, List.append_nil]
        next => simp [samplesOf_bytesOf]
      simp only [recording, recordingDoes, buffered, hrecorder, hreads]
      rfl
  | clearRecordingBuffer =>
    cases ht
    cases hrecorder : s.recorder <;>
      simp [recording, recordingDoes, buffered, hrecorder, Ledger.after]
  | cleanup =>
    cases ht
    rfl
  | queueAudioData audioData =>
    simp only [step] at ht
    split at ht
    · cases ht
      rfl
    · obtain ⟨-, ⟨⟩⟩ := Option.ite_none_left_eq_some.mp ht
      rfl
  | playerReady numSamples =>
    obtain ⟨player, -, hready⟩ := Option.bind_eq_some_iff.mp ht
    obtain ⟨-, ⟨⟩⟩ := Option.ite_none_right_eq_some.mp hready
    rfl
  | startPlayback | stopPlayback | clearPlaybackBuffer =>
    cases ht
    rfl

/-- The player's buffer is a queue without a bound; before there is a player it takes nothing. -/
theorem playback_follows : Follows none step playback playbackDoes := by
  intro s e t ht
  cases e with
  | startPlayback opens =>
    cases ht
    cases hplayer : s.player <;> simp [playback, playbackDoes, unplayed, hplayer]
  | stopPlayback =>
    cases ht
    cases hplayer : s.player <;> simp [playback, playbackDoes, unplayed, hplayer]
  | playerReady numSamples =>
    obtain ⟨player, hplayer, hready⟩ := Option.bind_eq_some_iff.mp ht
    obtain ⟨-, ⟨⟩⟩ := Option.ite_none_right_eq_some.mp hready
    simp [playback, playbackDoes, unplayed, hplayer, Ledger.after, fill_eq]
  | queueAudioData audioData =>
    simp only [step] at ht
    split at ht
    next hplayer =>
      cases ht
      simp [playback, playbackDoes, unplayed, hplayer, Ledger.after]
    next player hplayer =>
      obtain ⟨-, ⟨⟩⟩ := Option.ite_none_left_eq_some.mp ht
      simp [playback, playbackDoes, unplayed, hplayer, Ledger.after]
  | clearPlaybackBuffer =>
    cases ht
    cases hplayer : s.player <;> simp [playback, playbackDoes, unplayed, hplayer, Ledger.after]
  | cleanup =>
    cases ht
    rfl
  | recorderReady audioData =>
    obtain ⟨recorder, -, hready⟩ := Option.bind_eq_some_iff.mp ht
    obtain ⟨-, ⟨⟩⟩ := Option.ite_none_right_eq_some.mp hready
    rfl
  | readAudioData maxSamples =>
    simp only [step] at ht
    split at ht
    · cases ht
      rfl
    · obtain ⟨-, ⟨⟩⟩ := Option.ite_none_left_eq_some.mp ht
      rfl
  | startRecording | stopRecording | clearRecordingBuffer =>
    cases ht
    rfl

/-- What the callbacks have written is what they took from the buffer, with silence at their ends. -/
def IsRendering (played : List (List Int16)) (heard : List Int16) : Prop :=
  ∃ chunks : List (List Int16 × Nat),
    played = chunks.map (fun chunk => chunk.1 ++ .replicate chunk.2 0) ∧
      heard = chunks.flatMap Prod.fst

/-- The step refuses and discards no recorded sample. -/
def keepsRecording (s : AudioJni) : Event → Prop
  | .recorderReady audioData => audioData.length ≤ maxBuffered - s.buffered.length
  | .clearRecordingBuffer | .cleanup => s.buffered = []
  | _ => True

/-- The step discards no sample that is to be played. -/
def keepsPlayback (s : AudioJni) : Event → Prop
  | .queueAudioData audioData => s.player = none → samplesOf audioData = []
  | .clearPlaybackBuffer | .cleanup => s.unplayed = []
  | _ => True

instance (s : AudioJni) : DecidablePred s.keepsRecording
  | .recorderReady _ => inferInstanceAs (Decidable (_ ≤ _))
  | .clearRecordingBuffer | .cleanup => inferInstanceAs (Decidable (_ = _))
  | .startRecording _ | .stopRecording | .readAudioData _ | .startPlayback _ | .stopPlayback
  | .playerReady _ | .queueAudioData _ | .clearPlaybackBuffer => isTrue trivial

instance (s : AudioJni) : DecidablePred s.keepsPlayback
  | .queueAudioData _ => inferInstanceAs (Decidable (_ → _))
  | .clearPlaybackBuffer | .cleanup => inferInstanceAs (Decidable (_ = _))
  | .startRecording _ | .stopRecording | .recorderReady _ | .readAudioData _
  | .clearRecordingBuffer | .startPlayback _ | .stopPlayback | .playerReady _ => isTrue trivial

variable {s : AudioJni}

theorem keepsRecording_iff (s : AudioJni) (e : Event) : keepsRecording s e ↔
    ∀ event, recordingDoes s e = some event → s.recording.Keeps (some maxBuffered) event := by
  cases e <;> simp [keepsRecording, recordingDoes, recording, Ledger.Keeps, Fits]

theorem keepsPlayback_iff (s : AudioJni) (e : Event) : keepsPlayback s e ↔
    ∀ event, playbackDoes s e = some event → s.playback.Keeps none event := by
  cases e with
  | queueAudioData audioData =>
    cases hplayer : s.player <;> simp [keepsPlayback, playbackDoes, hplayer, Ledger.Keeps, Fits]
  | _ => simp [keepsPlayback, playbackDoes, playback, Ledger.Keeps]

/-- Two of three samples are read before the recording is restarted. -/
def restarted : List Event := [.startRecording true, .recorderReady [1, 2, 3], .readAudioData 2,
  .stopRecording, .startRecording true, .recorderReady [4], .readAudioData 512]

theorem rendering_step {t : AudioJni} {e : Event} (h : IsRendering s.played s.heard)
    (ht : s.step e = some t) : IsRendering t.played t.heard := by
  cases e with
  | playerReady numSamples =>
    obtain ⟨player, -, hready⟩ := Option.bind_eq_some_iff.mp ht
    obtain ⟨-, ⟨⟩⟩ := Option.ite_none_right_eq_some.mp hready
    obtain ⟨chunks, hplayed, hheard⟩ := h
    refine ⟨chunks ++ [(player.playbackBuffer.take numSamples,
      numSamples - player.playbackBuffer.length)], ?_, ?_⟩
    · simp [fill_eq, hplayed]
    · simp [hheard]
  | recorderReady audioData =>
    obtain ⟨recorder, -, hready⟩ := Option.bind_eq_some_iff.mp ht
    obtain ⟨-, ⟨⟩⟩ := Option.ite_none_right_eq_some.mp hready
    exact h
  | readAudioData maxSamples =>
    simp only [step] at ht
    split at ht
    · cases ht
      exact h
    · obtain ⟨-, ⟨⟩⟩ := Option.ite_none_left_eq_some.mp ht
      exact h
  | queueAudioData audioData =>
    simp only [step] at ht
    split at ht
    · cases ht
      exact h
    · obtain ⟨-, ⟨⟩⟩ := Option.ite_none_left_eq_some.mp ht
      exact h
  | _ =>
    cases ht
    exact h

/-- The speaker gets what is queued in its order, with silence behind it where the buffer runs empty,
and together with the buffer all of it exactly if nothing is queued before the first start of the
playback or between a cleanup and the next one, and nothing buffered is discarded. -/
theorem played_complete_iff (es : List Event) (hrun : Machine.run step {} es = some s) :
    IsRendering s.played s.heard ∧ (s.heard ++ s.unplayed).Sublist s.queued ∧
      (s.heard ++ s.unplayed = s.queued ↔ Machine.Meets step keepsPlayback {} es) := by
  have hstart : ({} : AudioJni).playback.Complete := rfl
  have hrendering : IsRendering s.played s.heard :=
    Machine.run_preserves (I := fun s => IsRendering s.played s.heard)
      (fun _ _ _ => rendering_step) ⟨[], rfl, rfl⟩ hrun
  refine ⟨hrendering, playback_follows.sound hstart.sound hrun, ?_⟩
  refine (playback_follows.complete_iff_meets hstart.sound hrun).trans ((and_iff_right hstart).trans ?_)
  exact ⟨Machine.Meets.mono fun s e => (keepsPlayback_iff s e).mpr,
    Machine.Meets.mono fun s e => (keepsPlayback_iff s e).mp⟩

/-- Two samples are played in two callbacks. -/
def playedTwice : List Event := [.startPlayback true, .queueAudioData (bytesOf [5, 6]),
  .playerReady 1, .playerReady 2]

def queuedEarly : List Event := [.queueAudioData (bytesOf [5]), .startPlayback true]

theorem played_complete_unless_early :
    (∃ s, Machine.run step {} playedTwice = some s ∧ s.played = [[5], [6, 0]] ∧
      s.heard ++ s.unplayed = s.queued) ∧
    ∃ s, Machine.run step {} queuedEarly = some s ∧ ¬ s.heard ++ s.unplayed = s.queued :=
  ⟨⟨_, rfl, rfl, (played_complete_iff playedTwice rfl).2.2.mpr (by decide)⟩,
    ⟨_, rfl, mt (played_complete_iff queuedEarly rfl).2.2.mp (by decide)⟩⟩

end AudioJni

end HeyNilo

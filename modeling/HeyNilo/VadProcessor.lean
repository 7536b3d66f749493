import Mathlib.Data.Int.Order.Basic

namespace HeyNilo

inductive VADState where
  | silence
  | speechStart
  | speech
  | speechEnd
deriving DecidableEq, Repr

structure VADConfig where
  minSpeechDurationMs : Int := 200
  minSilenceDurationMs : Int := 800
deriving DecidableEq, Repr

/-- A frame by what `detectVoice` says of it and the clock when it is processed. -/
structure VoiceFrame where
  hasSpeech : Bool
  currentTime : Int
deriving DecidableEq, Repr

structure VADProcessor where
  currentState : VADState := .silence
  speechStartTime : Int := 0
  silenceStartTime : Int := 0
  lastSpeechFrameTime : Int := 0
deriving DecidableEq, Repr

namespace VADProcessor

def config : VADConfig := {}

/-- `process` with what it returns. A `Long` is an `Int`: differences of positive times do not
overflow. -/
def process (p : VADProcessor) (frame : VoiceFrame) : VADProcessor × VADState :=
  match p.currentState with
  | .silence =>
    if frame.hasSpeech then
      ({ p with
          speechStartTime := frame.currentTime
          silenceStartTime := 0
          currentState := .speechStart }, .speechStart)
    else (p, .silence)
  | .speechStart =>
    if frame.hasSpeech then
      if config.minSpeechDurationMs ≤ frame.currentTime - p.speechStartTime then
        ({ p with currentState := .speech, silenceStartTime := 0 }, .speech)
      else (p, .speechStart)
    else ({ p with currentState := .silence }, .silence)
  | .speech =>
    if frame.hasSpeech then
      ({ p with silenceStartTime := 0, lastSpeechFrameTime := frame.currentTime }, .speech)
    else
      let silenceStartTime :=
        if p.silenceStartTime = 0 then frame.currentTime else p.silenceStartTime
      let p := { p with silenceStartTime := silenceStartTime }
      if config.minSilenceDurationMs ≤ frame.currentTime - silenceStartTime then
        ({ p with currentState := .speechEnd }, .speechEnd)
      else (p, .speech)
  | .speechEnd => ({ p with currentState := .silence, silenceStartTime := 0 }, .silence)

def reset (p : VADProcessor) : VADProcessor :=
  { p with currentState := .silence, silenceStartTime := 0, speechStartTime := 0 }

/-- The processor after a sequence of frames. -/
def afterFrames (p : VADProcessor) (frames : List VoiceFrame) : VADProcessor :=
  frames.foldl (fun q frame => (q.process frame).1) p

/-- What `process` returns for each frame of a sequence. -/
def processAll : VADProcessor → List VoiceFrame → List VADState
  | _, [] => []
  | p, frame :: frames => (p.process frame).2 :: processAll (p.process frame).1 frames

theorem afterFrames_take_succ {p : VADProcessor} {frames : List VoiceFrame} {k : Nat}
    {frame : VoiceFrame} (hf : frames[k]? = some frame) :
    p.afterFrames (frames.take (k + 1)) = ((p.afterFrames (frames.take k)).process frame).1 := by
  simp [afterFrames, List.take_add_one, hf]

theorem processAll_getElem? {p : VADProcessor} {frames : List VoiceFrame} {k : Nat} :
    (p.processAll frames)[k]? =
      frames[k]?.map fun frame => ((p.afterFrames (frames.take k)).process frame).2 := by
  induction frames generalizing p k with
  | nil => rfl
  | cons frame frames ih =>
    cases k with
    | zero => rfl
    | succ k => exact ih

end VADProcessor

end HeyNilo

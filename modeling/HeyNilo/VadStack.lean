import HeyNilo.VadProcessor
import Mathlib.Algebra.Order.Field.Rat
import Mathlib.Data.List.GetD

namespace HeyNilo

/-- The samples of a frame. -/
abbrev FrameSamples : Nat := 512

/-- The speech model: from the state of its recurrent layers and a frame it computes a probability, a
number or not, and the next state, unless it throws. -/
structure VadModel (σ : Type) where
  zero : σ
  run : σ → (samples : List Int) → samples.length = FrameSamples → Option (Option ℚ × σ)

/-- A `VADBridge` with its native context. -/
structure VADBridge (σ : Type) where
  isLoaded : Bool
  threshold : ℚ
  state : σ

variable {σ : Type}

namespace VADBridge

/-- Pad with zeros or truncate to a frame. -/
def processedFrame (audioData : List Int) : List Int :=
  if audioData.length = FrameSamples then audioData
  else (List.range FrameSamples).map fun i => audioData.getD i 0

theorem length_processedFrame (audioData : List Int) :
    (processedFrame audioData).length = FrameSamples := by
  unfold processedFrame
  split
  next h => exact h
  next => simp

/-- An inference that throws leaves the state as it is. -/
def detectSpeechProbability (model : VadModel σ) (b : VADBridge σ) (audioData : List Int) :
    Option ℚ × VADBridge σ :=
  if !b.isLoaded then (some (-1), b)
  else
    match model.run b.state (processedFrame audioData) (length_processedFrame audioData) with
    | none => (some (-1), b)
    | some (prob, state) => (prob, { b with state })

/-- No comparison with a value that is not a number holds. -/
def detectVoice (model : VadModel σ) (b : VADBridge σ) (audioData : List Int) :
    Bool × VADBridge σ :=
  let (probability, b) := b.detectSpeechProbability model audioData
  (probability.any fun p => b.threshold ≤ p, b)

/-- `coerceIn(0.0f, 1.0f)` -/
def setThreshold (b : VADBridge σ) (threshold : ℚ) : VADBridge σ :=
  { b with threshold := if threshold < 0 then 0 else if 1 < threshold then 1 else threshold }

def reset (model : VadModel σ) (b : VADBridge σ) : VADBridge σ :=
  if b.isLoaded then { b with state := model.zero } else b

end VADBridge

/-- A `VADProcessor` with the bridge that it asks, which the pipeline also asks by itself. -/
structure VadStack (σ : Type) where
  processor : VADProcessor
  bridge : VADBridge σ

namespace VadStack

inductive Event where
  | process (audioData : List Int) (currentTime : Int)
  | detectVoice (audioData : List Int)
  | setThreshold (threshold : ℚ)
  | reset
deriving DecidableEq

def step (model : VadModel σ) (s : VadStack σ) : Event → VadStack σ × Option VADState
  | .process audioData currentTime =>
    let (hasSpeech, bridge) := s.bridge.detectVoice model audioData
    let (processor, state) := s.processor.process ⟨hasSpeech, currentTime⟩
    (⟨processor, bridge⟩, some state)
  | .detectVoice audioData => ({ s with bridge := (s.bridge.detectVoice model audioData).2 }, none)
  | .setThreshold threshold => ({ s with bridge := s.bridge.setThreshold threshold }, none)
  | .reset => (⟨s.processor.reset, s.bridge.reset model⟩, none)

/-- The stack after some events, and what `process` has returned. -/
def run (model : VadModel σ) (s : VadStack σ) : List Event → VadStack σ × List VADState
  | [] => (s, [])
  | e :: es =>
    let (t, state) := s.step model e
    let (u, states) := t.run model es
    (u, state.toList ++ states)

/-- What the bridge hears in the frames that are processed, along some events. -/
def heard (model : VadModel σ) (b : VADBridge σ) : List Event → List VoiceFrame
  | [] => []
  | .process audioData currentTime :: es =>
    ⟨(b.detectVoice model audioData).1, currentTime⟩ ::
      heard model (b.detectVoice model audioData).2 es
  | .detectVoice audioData :: es => heard model (b.detectVoice model audioData).2 es
  | .setThreshold threshold :: es => heard model (b.setThreshold threshold) es
  | .reset :: es => heard model (b.reset model) es

theorem run_append (model : VadModel σ) (s : VadStack σ) (es more : List Event) :
    s.run model (es ++ more) =
      (((s.run model es).1.run model more).1,
        (s.run model es).2 ++ ((s.run model es).1.run model more).2) := by
  induction es generalizing s with
  | nil => rfl
  | cons e es ih => simp only [List.cons_append, run, ih, List.append_assoc]

theorem run_eq_processAll (model : VadModel σ) (s : VadStack σ) {es : List Event}
    (h : .reset ∉ es) :
    (s.run model es).2 = s.processor.processAll (heard model s.bridge es) := by
  induction es generalizing s with
  | nil => rfl
  | cons e es ih =>
    obtain ⟨hne, hes⟩ := List.ne_and_not_mem_of_not_mem_cons h
    cases e with
    | process audioData currentTime => exact congrArg (_ :: ·) (ih _ hes)
    | detectVoice audioData => exact ih _ hes
    | setThreshold threshold => exact ih _ hes
    | reset => exact absurd rfl hne

/-- Up to the time of the last speech frame, which `process` only notes. -/
theorem processAll_lastSpeechFrameTime (p : VADProcessor) (time : Int) (frames : List VoiceFrame) :
    VADProcessor.processAll { p with lastSpeechFrameTime := time } frames = p.processAll frames := by
  induction frames generalizing p time with
  | nil => rfl
  | cons frame frames ih =>
    have hstep : ∃ later, VADProcessor.process { p with lastSpeechFrameTime := time } frame =
        ({ (p.process frame).1 with lastSpeechFrameTime := later }, (p.process frame).2) := by
      obtain ⟨state, start, silence, last⟩ := p
      unfold VADProcessor.process
      cases state with
      | silence => dsimp only; split <;> exact ⟨_, rfl⟩
      | speechStart =>
        dsimp only
        split
        · split <;> exact ⟨_, rfl⟩
        · exact ⟨_, rfl⟩
      | speech =>
        dsimp only
        split
        · exact ⟨_, rfl⟩
        · split <;> split <;> exact ⟨_, rfl⟩
      | speechEnd => exact ⟨_, rfl⟩
    obtain ⟨later, hstep⟩ := hstep
    simp only [VADProcessor.processAll, hstep, ih]

theorem detectVoice_isLoaded (model : VadModel σ) (b : VADBridge σ) (audioData : List Int) :
    (b.detectVoice model audioData).2.isLoaded = b.isLoaded := by
  simp only [VADBridge.detectVoice, VADBridge.detectSpeechProbability]
  split
  · rfl
  · split <;> rfl

theorem run_isLoaded (model : VadModel σ) (s : VadStack σ) (es : List Event) :
    (s.run model es).1.bridge.isLoaded = s.bridge.isLoaded := by
  induction es generalizing s with
  | nil => rfl
  | cons e es ih =>
    refine (ih _).trans ?_
    cases e with
    | process audioData | detectVoice audioData => exact detectVoice_isLoaded model s.bridge audioData
    | setThreshold threshold => rfl
    | reset =>
      simp only [VADBridge.reset]
      split <;> rfl

/-- After a reset the stack answers as a new processor does over what the model hears from its zero
state on; of what came before, barge-in detections included, only the threshold is left. -/
theorem run_after_reset (model : VadModel σ) (s : VadStack σ) (past : List Event) {es : List Event}
    (hloaded : s.bridge.isLoaded = true) (hes : .reset ∉ es) :
    (s.run model (past ++ .reset :: es)).2 = (s.run model past).2 ++
      VADProcessor.processAll {}
        (heard model ⟨true, (s.run model past).1.bridge.threshold, model.zero⟩ es) := by
  rw [run_append]
  refine congrArg ((s.run model past).2 ++ ·) ?_
  have hreset : (s.run model past).1.bridge.reset model =
      ⟨true, (s.run model past).1.bridge.threshold, model.zero⟩ := by
    have hpast := (run_isLoaded model s past).trans hloaded
    simp only [VADBridge.reset, hpast, if_true]
  refine (run_eq_processAll model ⟨_, _⟩ hes).trans ?_
  rw [hreset]
  exact processAll_lastSpeechFrameTime {} _ _

/-- A model that still hears the frame before. -/
def echoModel : VadModel Bool :=
  ⟨false, fun before samples _ =>
    let loud := samples.head? == some 9000
    some (some (if before || loud then 1 else 0), loud)⟩

/-- The frame after the reset is silent, as the one before is forgotten. -/
theorem run_after_reset_forgets :
    (run echoModel ⟨{}, ⟨true, 1 / 4, false⟩⟩
      ([.process [9000] 0] ++ .reset :: [.process [] 32])).2 = [.speechStart, .silence] :=
  (run_after_reset echoModel ⟨{}, ⟨true, 1 / 4, false⟩⟩ [.process [9000] 0] rfl (by decide)).trans
    (by decide +kernel)

end VadStack

/-- The processor over a `MockVADBridge`, by what that bridge says of each frame. -/
structure MockVADProcessor where
  currentState : VADState := .silence
  speechStartTime : Int := 0
  silenceStartTime : Int := 0
deriving DecidableEq, Repr

namespace MockVADProcessor

def config : VADConfig := {}

def process (p : MockVADProcessor) (frame : VoiceFrame) : MockVADProcessor × VADState :=
  match p.currentState with
  | .silence =>
    if frame.hasSpeech then
      ({ p with speechStartTime := frame.currentTime, currentState := .speechStart }, .speechStart)
    else (p, .silence)
  | .speechStart =>
    if frame.hasSpeech then
      if config.minSpeechDurationMs ≤ frame.currentTime - p.speechStartTime then
        ({ p with currentState := .speech }, .speech)
      else (p, .speechStart)
    else ({ p with currentState := .silence }, .silence)
  | .speech =>
    if frame.hasSpeech then (p, .speech)
    else ({ p with silenceStartTime := frame.currentTime, currentState := .speechEnd }, .speechEnd)
  | .speechEnd =>
    if frame.hasSpeech then ({ p with currentState := .speech }, .speech)
    else if config.minSilenceDurationMs ≤ frame.currentTime - p.silenceStartTime then
      ({ p with currentState := .silence }, .silence)
    else (p, .speechEnd)

def processAll : MockVADProcessor → List VoiceFrame → List VADState
  | _, [] => []
  | p, frame :: frames => (p.process frame).2 :: processAll (p.process frame).1 frames

/-- No frame without speech comes once speech is confirmed. -/
def neverPauses : VADProcessor → List VoiceFrame → Bool
  | _, [] => true
  | p, frame :: frames =>
    (p.currentState != .speech || frame.hasSpeech) && neverPauses (p.process frame).1 frames

/-- Two processors that have agreed so far. -/
structure Agree (p : VADProcessor) (mock : MockVADProcessor) : Prop where
  state : mock.currentState = p.currentState
  start : mock.speechStartTime = p.speechStartTime
  silence : p.currentState = .speech → p.silenceStartTime = 0
  running : p.currentState ≠ .speechEnd

theorem process_agree {p : VADProcessor} {mock : MockVADProcessor} {frame : VoiceFrame}
    (h : Agree p mock) (hframe : p.currentState = .speech → frame.hasSpeech = true) :
    (mock.process frame).2 = (p.process frame).2 ∧
      Agree (p.process frame).1 (mock.process frame).1 := by
  obtain ⟨_, _, silence, last⟩ := p
  obtain ⟨state, start, mockSilence⟩ := mock
  obtain ⟨rfl, rfl, hsilence, hrunning⟩ := h
  simp only [process, VADProcessor.process]
  cases state with
  | silence =>
    dsimp only
    split
    · exact ⟨rfl, rfl, rfl, by simp, by simp⟩
    · exact ⟨rfl, rfl, rfl, by simp, by simp⟩
  | speechStart =>
    dsimp only
    split
    · by_cases hlong : VADProcessor.config.minSpeechDurationMs ≤ frame.currentTime - start
      · have hmock : config.minSpeechDurationMs ≤ frame.currentTime - start := hlong
        rw [if_pos hlong, if_pos hmock]
        exact ⟨rfl, rfl, rfl, fun _ => rfl, by simp⟩
      · have hmock : ¬ config.minSpeechDurationMs ≤ frame.currentTime - start := hlong
        rw [if_neg hlong, if_neg hmock]
        exact ⟨rfl, rfl, rfl, by simp, by simp⟩
    · exact ⟨rfl, rfl, rfl, by simp, by simp⟩
  | speech =>
    dsimp only
    rw [if_pos (hframe rfl), if_pos (hframe rfl)]
    exact ⟨rfl, rfl, rfl, fun _ => rfl, by simp⟩
  | speechEnd => exact absurd rfl hrunning

theorem process_differ {p : VADProcessor} {mock : MockVADProcessor} {frame : VoiceFrame}
    (h : Agree p mock) (hstate : p.currentState = .speech) (hframe : frame.hasSpeech = false) :
    (mock.process frame).2 ≠ (p.process frame).2 := by
  obtain ⟨_, _, silence, last⟩ := p
  obtain ⟨state, start, mockSilence⟩ := mock
  obtain ⟨rfl, rfl, hsilence, -⟩ := h
  cases hstate
  cases hsilence rfl
  -- for the real processor silence begins with this frame
  have hshort : ¬ VADProcessor.config.minSilenceDurationMs ≤ 0 := by decide
  simp [process, VADProcessor.process, hframe, hshort]

theorem processAll_eq_iff_of_agree {p : VADProcessor} {mock : MockVADProcessor} (h : Agree p mock)
    (frames : List VoiceFrame) :
    mock.processAll frames = p.processAll frames ↔ neverPauses p frames = true := by
  induction frames generalizing p mock with
  | nil => exact iff_of_true rfl rfl
  | cons frame frames ih =>
    simp only [processAll, VADProcessor.processAll, List.cons.injEq, neverPauses, Bool.and_eq_true,
      Bool.or_eq_true, bne_iff_ne]
    by_cases hpause : p.currentState = .speech → frame.hasSpeech = true
    · obtain ⟨hsame, hnext⟩ := process_agree h hpause
      rw [ih hnext, iff_true_intro hsame, iff_true_intro (Decidable.not_or_of_imp hpause)]
    · obtain ⟨hstate, hframe⟩ := Classical.not_imp.mp hpause
      have hdiffer := process_differ h hstate (by simpa using hframe)
      exact iff_of_false (fun heq => hdiffer heq.1) fun hok => hok.1.elim (fun hne => hne hstate) hframe

/-- The mock processor answers like the real one exactly as long as nobody pauses while speaking. -/
theorem processAll_eq_iff (frames : List VoiceFrame) :
    processAll {} frames = VADProcessor.processAll {} frames ↔ neverPauses {} frames = true :=
  processAll_eq_iff_of_agree ⟨rfl, rfl, by decide, by decide⟩ frames

end MockVADProcessor

end HeyNilo

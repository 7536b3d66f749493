import HeyNilo.Streak
import HeyNilo.VoicePipeline

namespace HeyNilo

open Streak

/-- The pipeline with its count of barge-in frames. -/
structure BargeIn where
  pipeline : VoicePipeline
  bargeInConfirmFrames : Nat
deriving DecidableEq, Repr

namespace BargeIn

def confirmFrames : Nat := 30

def ttsCooldownMs : Int := 1500

/-- An audio frame, and what the barge-in detection reads. `meanwhile` is what another thread sets
`currentState` to after the first look at it. -/
structure Frame where
  frame : VoicePipeline.Frame
  meanwhile : Option PipelineState := none
  /-- The time since `lastTTSFinishedTime`. -/
  timeSinceTTS : Int
  vadSaysSpeech : Bool
  isHighEnergy : Bool
deriving DecidableEq, Repr

/-- The notice to the UI is launched on the main thread; here it is there at once. -/
def handleBargeIn (s : BargeIn) : BargeIn :=
  let p := s.pipeline
  let p := { p.cancel p.streamingTTSJob with streamingTTSJob := none }
  let p := { p.cancel p.llmProviderJob with llmProviderJob := none }
  let p := { p with isStreamingTTSActive := false, isLLMResponseComplete := false }.clearBuffers
  let p := p.onResponseUpdate
    (p.fullResponseText ++ "\n\n(interrupted - listening...)".toList) false
  ⟨p.transitionToListening, 0⟩

/-- The barge-in detection of `processAudioWithVAD`, and whether it calls `handleBargeIn`. -/
def detect (s : BargeIn) (f : Frame) : BargeIn × Bool :=
  if f.timeSinceTTS < ttsCooldownMs then ({ s with bargeInConfirmFrames := 0 }, false)
  else
    let count := if f.vadSaysSpeech && f.isHighEnergy then s.bargeInConfirmFrames + 1 else 0
    if count ≥ confirmFrames then ({ s with bargeInConfirmFrames := 0 }.handleBargeIn, true)
    else ({ s with bargeInConfirmFrames := count }, false)

/-- `processAudioWithVAD` with its two looks for `SPEAKING`. -/
def processAudioWithVAD (s : BargeIn) (f : Frame) : BargeIn × Bool :=
  if s.pipeline.currentState = .speaking then (s, false)
  else if f.frame.ttsSpeaking then (s, false)
  else
    let p := (f.meanwhile.map s.pipeline.setCurrentState).getD s.pipeline
    if p.currentState = .speaking then { s with pipeline := p }.detect f
    else ({ s with pipeline := p.processAudioWithVAD f.frame }, false)

/-- A frame with the state of the pipeline that it finds, whatever the other threads did to it since
the last one. -/
structure Arrival where
  pipeline : VoicePipeline
  frame : Frame
deriving DecidableEq, Repr

/-- For each frame, does it call `handleBargeIn`? -/
def calls : Nat → List Arrival → List Bool
  | _, [] => []
  | count, a :: arrivals =>
    let next := processAudioWithVAD ⟨a.pipeline, count⟩ a.frame
    next.2 :: calls next.1.bargeInConfirmFrames arrivals

/-- A frame that counts: after the cooldown, and both the VAD and the energy accept it. -/
def Frame.accepted (f : Frame) : Bool :=
  !(decide (f.timeSinceTTS < ttsCooldownMs)) && f.vadSaysSpeech && f.isHighEnergy

/-- `handleBargeIn` is called at the frame that is the first to complete a streak of accepted ones,
and at no other. -/
def AsSpecified (count : Nat) (arrivals : List Arrival) : Prop :=
  ∀ i < arrivals.length, (calls count arrivals)[i]? = some true ↔
    FirstCompletes Frame.accepted confirmFrames (arrivals.map (·.frame)) i

variable {s : BargeIn} {f : Frame} {arrivals : List Arrival} {count : Nat}

/-- The detection counts the accepted frames in a row. -/
theorem detect_eq (s : BargeIn) (f : Frame) :
    (s.detect f).2 = decide (confirmFrames ≤ if f.accepted then s.bargeInConfirmFrames + 1 else 0) ∧
      ((s.detect f).2 = false → (s.detect f).1.bargeInConfirmFrames =
        if f.accepted then s.bargeInConfirmFrames + 1 else 0) := by
  unfold detect Frame.accepted
  by_cases hcooldown : f.timeSinceTTS < ttsCooldownMs
  · have hpos : ¬ confirmFrames ≤ 0 := by decide
    simp [hcooldown, hpos]
  · simp only [hcooldown, if_false, decide_false, Bool.not_false, Bool.true_and]
    generalize (if f.vadSaysSpeech && f.isHighEnergy then s.bargeInConfirmFrames + 1 else 0) = count
    by_cases hdue : count ≥ confirmFrames
    · rw [if_pos hdue]
      exact ⟨(decide_eq_true hdue).symm, fun h => Bool.noConfusion h⟩
    · rw [if_neg hdue]
      exact ⟨(decide_eq_false hdue).symm, fun _ => rfl⟩

/-- A frame that is received in `SPEAKING` is not looked at. -/
theorem processAudioWithVAD_speaking (h : s.pipeline.currentState = .speaking) :
    s.processAudioWithVAD f = (s, false) := if_pos h

theorem calls_speaking (h : ∀ a ∈ arrivals, a.pipeline.currentState = .speaking) :
    calls count arrivals = List.replicate arrivals.length false := by
  induction arrivals with
  | nil => rfl
  | cons a arrivals ih =>
    obtain ⟨ha, hmore⟩ := List.forall_mem_cons.mp h
    rw [calls, processAudioWithVAD_speaking ha, ih hmore]
    rfl

/-- For frames received in `SPEAKING` the barge-in works as specified exactly where none is due:
where the VAD and the energy nowhere accept so many frames in a row after the cooldown. -/
theorem as_specified_iff (h : ∀ a ∈ arrivals, a.pipeline.currentState = .speaking) :
    AsSpecified count arrivals ↔ ∀ w, w <:+: arrivals.map (·.frame) →
      (∀ f ∈ w, f.accepted = true) → w.length < confirmFrames := by
  have hpos : 0 < confirmFrames := by decide
  have hsilent (i : Nat) : (calls count arrivals)[i]? ≠ some true := by
    rw [calls_speaking h]
    intro hcall
    have hmem := List.mem_of_getElem? hcall
    exact Bool.noConfusion (List.eq_of_mem_replicate hmem)
  rw [← streaks_lt_iff hpos, List.length_map]
  constructor
  · intro hspec i hi
    by_contra hreached
    obtain ⟨k, hk, hdue⟩ := exists_firstCompletes hpos (by rwa [List.length_map])
      (Nat.le_of_not_lt hreached)
    rw [List.length_map] at hk
    exact hsilent k ((hspec k hk).mpr hdue)
  · intro hnone i hi
    exact iff_of_false (hsilent i) fun hdue => Nat.ne_of_lt (hnone i hi) hdue.1

/-- A frame that gets past the first look for `SPEAKING`, and finds it at the second. -/
def Arrival.Raced (a : Arrival) : Prop :=
  a.pipeline.currentState ≠ .speaking ∧ a.frame.frame.ttsSpeaking = false ∧
    a.frame.meanwhile = some .speaking

theorem processAudioWithVAD_raced {a : Arrival} (h : a.Raced) (count : Nat) :
    ∃ p, processAudioWithVAD ⟨a.pipeline, count⟩ a.frame = detect ⟨p, count⟩ a.frame := by
  obtain ⟨hstate, htts, hmeanwhile⟩ := h
  refine ⟨a.pipeline.setCurrentState .speaking, ?_⟩
  have hset : (a.pipeline.setCurrentState .speaking).currentState = .speaking := by
    rw [VoicePipeline.setCurrentState, if_neg hstate]
  rw [processAudioWithVAD, if_neg hstate, htts, hmeanwhile]
  exact if_pos hset

/-- The induction over the frames; `past` are the frames before them. -/
theorem calls_raced (h : ∀ a ∈ arrivals, a.Raced) (past : List Frame)
    (hpast : streak Frame.accepted past = count) (hlt : count < confirmFrames) {i : Nat}
    (hi : i < arrivals.length)
    (hbefore : ∀ j < i, streak Frame.accepted
      (past ++ (arrivals.map (·.frame)).take (j + 1)) < confirmFrames) :
    (calls count arrivals)[i]? = some (decide (streak Frame.accepted
      (past ++ (arrivals.map (·.frame)).take (i + 1)) = confirmFrames)) := by
  induction arrivals generalizing past count i with
  | nil => exact absurd hi (Nat.not_lt_zero i)
  | cons a arrivals ih =>
    obtain ⟨ha, hmore⟩ := List.forall_mem_cons.mp h
    obtain ⟨p, hp⟩ := processAudioWithVAD_raced ha count
    obtain ⟨hcall, hcount⟩ := detect_eq ⟨p, count⟩ a.frame
    have hone : streak Frame.accepted (past ++ [a.frame]) =
        if a.frame.accepted then count + 1 else 0 := by
      rw [streak_concat, hpast]
    rw [calls, hp]
    rw [← hone] at hcall hcount
    cases i with
    | zero =>
      have hle : streak Frame.accepted (past ++ [a.frame]) ≤ confirmFrames := by
        rw [hone]
        split
        · exact hlt
        · exact Nat.zero_le _
      simp only [List.getElem?_cons_zero, hcall, Option.some.injEq, List.map_cons, List.take_succ_cons,
        List.take_zero, decide_eq_decide]
      exact ⟨Nat.le_antisymm hle, fun hdue => hdue.symm.le⟩
    | succ i =>
      have hfirst : streak Frame.accepted (past ++ [a.frame]) < confirmFrames := by
        simpa using hbefore 0 (Nat.succ_pos i)
      have hquiet : (detect ⟨p, count⟩ a.frame).2 = false := by
        rw [hcall]
        exact decide_eq_false (Nat.not_le_of_lt hfirst)
      rw [List.getElem?_cons_succ, hcount hquiet]
      have hnext := ih hmore (past ++ [a.frame]) rfl hfirst (Nat.lt_of_succ_lt_succ hi)
        (fun j hj => by simpa using hbefore (j + 1) (Nat.succ_lt_succ hj))
      simpa using hnext

/-- The detection itself is as specified: frames that all get past the first look lead to the first
call at the frame that completes the streak. -/
theorem raced_first_call (h : ∀ a ∈ arrivals, a.Raced) {i : Nat} (hi : i < arrivals.length)
    (hdue : FirstCompletes Frame.accepted confirmFrames (arrivals.map (·.frame)) i) :
    (calls 0 arrivals)[i]? = some true ∧ ∀ j < i, (calls 0 arrivals)[j]? = some false := by
  have hcalls {k : Nat} (hk : k ≤ i) : (calls 0 arrivals)[k]? = some (decide (streak Frame.accepted
      ((arrivals.map (·.frame)).take (k + 1)) = confirmFrames)) :=
    calls_raced h [] rfl (by decide) (Nat.lt_of_le_of_lt hk hi)
      fun j hj => hdue.2 j (Nat.lt_of_lt_of_le hj hk)
  refine ⟨?_, fun j hj => ?_⟩
  · rw [hcalls (Nat.le_refl i), hdue.1, decide_eq_true rfl]
  · rw [hcalls (Nat.le_of_lt hj), decide_eq_false (Nat.ne_of_lt (hdue.2 j hj))]

/-- The pipeline while it speaks. -/
def speakingPipeline : VoicePipeline :=
  { VoicePipeline.start true false with isRunning := true, currentState := .speaking }

/-- A second of loud speech over the answer. -/
def loudSpeech (frames : Nat) : List Arrival :=
  List.replicate frames
    { pipeline := speakingPipeline
      frame :=
        { frame := ⟨512, .speech, false, false, false, false⟩
          timeSinceTTS := 1500
          vadSaysSpeech := true
          isHighEnergy := true } }

/-- A short noise is no barge-in. -/
theorem as_specified_noise : AsSpecified 0 (loudSpeech 2) :=
  (as_specified_iff fun a ha => by rw [List.eq_of_mem_replicate ha]; rfl).mpr fun w hw _ =>
    Nat.lt_of_le_of_lt hw.length_le (by decide)

/-- Nobody can interrupt the answer. -/
theorem no_barge_in : ¬ ∀ arrivals : List Arrival,
    (∀ a ∈ arrivals, a.pipeline.currentState = .speaking) → AsSpecified 0 arrivals := by
  intro h
  have hspeaking : ∀ a ∈ loudSpeech 30, a.pipeline.currentState = .speaking := fun a ha => by
    rw [List.eq_of_mem_replicate ha]
    rfl
  have hdue : FirstCompletes Frame.accepted confirmFrames ((loudSpeech 30).map (·.frame)) 29 := by
    refine ⟨by decide, by decide⟩
  have hcall := (h _ hspeaking 29 (by decide)).mpr hdue
  rw [calls_speaking hspeaking] at hcall
  exact absurd hcall (by decide)

end BargeIn

end HeyNilo

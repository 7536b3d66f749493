import HeyNilo.VadProcessor

namespace HeyNilo.VADProcessor

def decisionAt (frames : List VoiceFrame) (i : Nat) : Option Bool :=
  frames[i]?.map VoiceFrame.hasSpeech

def timeAt (frames : List VoiceFrame) (i : Nat) : Int :=
  (frames[i]?.map VoiceFrame.currentTime).getD 0

/-- The frames from `a` to `k` all have the decision `d`. -/
def IsRun (frames : List VoiceFrame) (d : Bool) (a k : Nat) : Prop :=
  a ≤ k ∧ ∀ i, a ≤ i → i ≤ k → decisionAt frames i = some d

/-- A run of voiced frames that starts in `SILENCE`, at `s` or after an unvoiced frame since `s`,
spans the minimum at `k`. -/
def SpansSpeech (frames : List VoiceFrame) (s k : Nat) : Prop :=
  ∃ a, s ≤ a ∧ IsRun frames true a k ∧ (a = s ∨ s < a ∧ decisionAt frames (a - 1) = some false) ∧
    config.minSpeechDurationMs ≤ timeAt frames k - timeAt frames a

/-- The first such frame. -/
def Confirms (frames : List VoiceFrame) (s c : Nat) : Prop :=
  SpansSpeech frames s c ∧ ∀ j, j < c → ¬ SpansSpeech frames s j

/-- The run of unvoiced frames that ends at `k`, after the voiced frame before `u`, spans the
minimum. -/
def SpansSilence (frames : List VoiceFrame) (c k : Nat) : Prop :=
  ∃ u, c < u ∧ IsRun frames false u k ∧ decisionAt frames (u - 1) = some true ∧
    config.minSilenceDurationMs ≤ timeAt frames k - timeAt frames u

def EndsSpeech (frames : List VoiceFrame) (s e : Nat) : Prop :=
  ∃ c, Confirms frames s c ∧ SpansSilence frames c e ∧ ∀ j, j < e → ¬ SpansSilence frames c j

/-- The frames from which speech can start: the first, and the second after each end. -/
inductive StartsSegment (frames : List VoiceFrame) : Nat → Prop where
  | first : StartsSegment frames 0
  | next {s e : Nat} : StartsSegment frames s → EndsSpeech frames s e →
      StartsSegment frames (e + 2)

/-- Where the processor stands before frame `k` of a segment that starts at `s`. -/
inductive Phase (frames : List VoiceFrame) (s k : Nat) (p : VADProcessor) : Prop where
  | silence (state : p.currentState = .silence)
      (unconfirmed : ∀ j, j < k → ¬ SpansSpeech frames s j)
      (last : k = s ∨ s < k ∧ decisionAt frames (k - 1) = some false)
  | speechStart (a : Nat) (state : p.currentState = .speechStart)
      (unconfirmed : ∀ j, j < k → ¬ SpansSpeech frames s j)
      (from_s : s ≤ a) (before_k : a < k) (run : IsRun frames true a (k - 1))
      (prior : a = s ∨ s < a ∧ decisionAt frames (a - 1) = some false)
      (time : p.speechStartTime = timeAt frames a)
  | speech (c : Nat) (state : p.currentState = .speech) (confirmed : Confirms frames s c)
      (before_k : c < k) (going : ∀ j, j < k → ¬ SpansSilence frames c j)
      (last : p.silenceStartTime = 0 ∧ decisionAt frames (k - 1) = some true ∨
        ∃ u, c < u ∧ u < k ∧ IsRun frames false u (k - 1) ∧
          decisionAt frames (u - 1) = some true ∧ p.silenceStartTime = timeAt frames u)

/-- What `process` returns for frame `k` of a segment that starts at `s` and has not ended before. -/
inductive Returns (frames : List VoiceFrame) (s k : Nat) : VADState → Prop where
  | ended : EndsSpeech frames s k → Returns frames s k .speechEnd
  | confirmed (c : Nat) : Confirms frames s c → c ≤ k → ¬ EndsSpeech frames s k →
      Returns frames s k .speech
  | voiced : (∀ j, j ≤ k → ¬ SpansSpeech frames s j) → decisionAt frames k = some true →
      Returns frames s k .speechStart
  | unvoiced : (∀ j, j ≤ k → ¬ SpansSpeech frames s j) → decisionAt frames k = some false →
      Returns frames s k .silence

/-- What `process` returns along a whole sequence of frames. -/
structure SegmentationLaw (frames : List VoiceFrame) (returned : List VADState) : Prop where
  speechEnd_iff : ∀ k, returned[k]? = some .speechEnd ↔
    ∃ s, StartsSegment frames s ∧ EndsSpeech frames s k
  ignored : ∀ e, returned[e]? = some .speechEnd → e + 1 < frames.length →
    returned[e + 1]? = some .silence
  restarted : ∀ k e, returned[e]? = some .speechEnd → k < e → decisionAt frames k = some true →
    ∃ u, k < u ∧ IsRun frames false u e ∧
      config.minSilenceDurationMs ≤ timeAt frames e - timeAt frames u
  unconfirmed : ∀ s k d, StartsSegment frames s → s ≤ k → decisionAt frames k = some d →
    (∀ j, j ≤ k → ¬ SpansSpeech frames s j) →
    returned[k]? = some (if d then .speechStart else .silence)
  confirmed : ∀ s c k, StartsSegment frames s → Confirms frames s c → c ≤ k →
    k < frames.length → (∀ e, e ≤ k → ¬ EndsSpeech frames s e) → returned[k]? = some .speech

section

variable {frames : List VoiceFrame} {s k : Nat} {frame : VoiceFrame}

theorem decisionAt_of_frame (hf : frames[k]? = some frame) :
    decisionAt frames k = some frame.hasSpeech := by
  simp [decisionAt, hf]

theorem timeAt_of_frame (hf : frames[k]? = some frame) : timeAt frames k = frame.currentTime := by
  simp [timeAt, hf]

theorem isRun_single {d : Bool} (hd : decisionAt frames k = some d) : IsRun frames d k k := by
  refine ⟨Nat.le_refl k, fun i hki hik => ?_⟩
  have hi : i = k := by omega
  rw [hi, hd]

theorem isRun_extend {d : Bool} {a : Nat} (hak : a < k) (h : IsRun frames d a (k - 1))
    (hd : decisionAt frames k = some d) : IsRun frames d a k := by
  refine ⟨by omega, fun i hai hik => ?_⟩
  by_cases hi : i = k
  · rw [hi, hd]
  · exact h.2 i hai (by omega)

/-- Two runs to one frame that both start after a frame of the other decision start together. -/
theorem isRun_start_unique {d : Bool} {a b : Nat} (ha : IsRun frames d a k)
    (hb : IsRun frames d b k) (hpa : a ≤ s ∨ decisionAt frames (a - 1) = some (!d))
    (hpb : b ≤ s ∨ decisionAt frames (b - 1) = some (!d)) (hsa : s ≤ a) (hsb : s ≤ b) : a = b := by
  rcases Nat.lt_trichotomy a b with hlt | heq | hgt
  · rcases hpb with hle | hprior
    · omega
    · have hvoice := ha.2 (b - 1) (by omega) (by have hle := hb.1; omega)
      rw [hprior] at hvoice
      cases d <;> simp at hvoice
  · exact heq
  · rcases hpa with hle | hprior
    · omega
    · have hvoice := hb.2 (a - 1) (by omega) (by have hle := ha.1; omega)
      rw [hprior] at hvoice
      cases d <;> simp at hvoice

theorem spansSpeech_iff {a : Nat} (hrun : IsRun frames true a k) (hsa : s ≤ a)
    (hprior : a = s ∨ s < a ∧ decisionAt frames (a - 1) = some false) :
    SpansSpeech frames s k ↔
      config.minSpeechDurationMs ≤ timeAt frames k - timeAt frames a := by
  constructor
  · rintro ⟨b, hsb, hb, hpb, hspan⟩
    have heq : a = b := by
      refine isRun_start_unique (s := s) hrun hb ?_ ?_ hsa hsb
      · exact hprior.imp (fun h => by omega) fun h => h.2
      · exact hpb.imp (fun h => by omega) fun h => h.2
    rw [heq]
    exact hspan
  · exact fun hspan => ⟨a, hsa, hrun, hprior, hspan⟩

theorem spansSilence_iff {c u : Nat} (hrun : IsRun frames false u k) (hcu : c < u)
    (hprior : decisionAt frames (u - 1) = some true) :
    SpansSilence frames c k ↔
      config.minSilenceDurationMs ≤ timeAt frames k - timeAt frames u := by
  constructor
  · rintro ⟨v, hcv, hv, hpv, hspan⟩
    have heq : u = v :=
      isRun_start_unique (s := c) hrun hv (.inr hprior) (.inr hpv) (by omega) (by omega)
    rw [heq]
    exact hspan
  · exact fun hspan => ⟨u, hcu, hrun, hprior, hspan⟩

theorem not_spansSpeech_of_unvoiced (hd : decisionAt frames k = some false) :
    ¬ SpansSpeech frames s k := by
  rintro ⟨a, -, hrun, -, -⟩
  have hvoice := hrun.2 k hrun.1 (Nat.le_refl k)
  rw [hd] at hvoice
  cases hvoice

theorem not_spansSilence_of_voiced {c : Nat} (hd : decisionAt frames k = some true) :
    ¬ SpansSilence frames c k := by
  rintro ⟨u, -, hrun, -, -⟩
  have hvoice := hrun.2 k hrun.1 (Nat.le_refl k)
  rw [hd] at hvoice
  cases hvoice

theorem confirms_unique {c d : Nat} (hc : Confirms frames s c) (hd : Confirms frames s d) :
    c = d := by
  rcases Nat.lt_trichotomy c d with hlt | heq | hgt
  · exact absurd hc.1 (hd.2 c hlt)
  · exact heq
  · exact absurd hd.1 (hc.2 d hgt)

theorem confirms_lt_of_ends {e : Nat} (h : EndsSpeech frames s e) :
    ∃ c, Confirms frames s c ∧ c < e := by
  obtain ⟨c, hc, ⟨u, hcu, hrun, -, -⟩, -⟩ := h
  exact ⟨c, hc, Nat.lt_of_lt_of_le hcu hrun.1⟩

theorem not_endsSpeech_of_unconfirmed (h : ∀ j, j < k → ¬ SpansSpeech frames s j) :
    ¬ EndsSpeech frames s k := by
  intro he
  obtain ⟨c, hc, hck⟩ := confirms_lt_of_ends he
  exact h c hck hc.1

theorem not_endsSpeech_of_going {c : Nat} (hc : Confirms frames s c)
    (h : ¬ SpansSilence frames c k) : ¬ EndsSpeech frames s k := by
  rintro ⟨d, hd, hsilence, -⟩
  rw [confirms_unique hc hd] at h
  exact h hsilence

theorem forall_lt_succ {P : Nat → Prop} (h : ∀ j, j < k → ¬ P j) (hk : ¬ P k) :
    ∀ j, j < k + 1 → ¬ P j := by
  intro j hj
  by_cases heq : j = k
  · rwa [heq]
  · exact h j (by omega)

variable {p : VADProcessor}

theorem phase_step_of_silence (hsk : s ≤ k) (hf : frames[k]? = some frame)
    (hstate : p.currentState = .silence) (hun : ∀ j, j < k → ¬ SpansSpeech frames s j)
    (hlast : k = s ∨ s < k ∧ decisionAt frames (k - 1) = some false) :
    Returns frames s k (p.process frame).2 ∧ Phase frames s (k + 1) (p.process frame).1 := by
  have hd := decisionAt_of_frame hf
  cases hvoice : frame.hasSpeech with
  | true =>
    rw [hvoice] at hd
    have hrun : IsRun frames true k k := isRun_single hd
    have hspan : ¬ SpansSpeech frames s k := by
      rw [spansSpeech_iff hrun hsk hlast]
      simp [config]
    have hnow := forall_lt_succ hun hspan
    simp only [process, hstate, hvoice, if_true]
    refine ⟨.voiced (fun j hj => hnow j (by omega)) hd, ?_⟩
    exact .speechStart k rfl hnow hsk (by omega) hrun hlast (timeAt_of_frame hf).symm
  | false =>
    rw [hvoice] at hd
    have hnow := forall_lt_succ hun (not_spansSpeech_of_unvoiced hd)
    simp only [process, hstate, hvoice, Bool.false_eq_true, if_false]
    exact ⟨.unvoiced (fun j hj => hnow j (by omega)) hd,
      .silence hstate hnow (.inr ⟨by omega, hd⟩)⟩

theorem phase_step_of_speechStart {a : Nat} (hf : frames[k]? = some frame)
    (hstate : p.currentState = .speechStart) (hun : ∀ j, j < k → ¬ SpansSpeech frames s j)
    (hsa : s ≤ a) (hak : a < k) (hrun : IsRun frames true a (k - 1))
    (hprior : a = s ∨ s < a ∧ decisionAt frames (a - 1) = some false)
    (htime : p.speechStartTime = timeAt frames a) :
    Returns frames s k (p.process frame).2 ∧ Phase frames s (k + 1) (p.process frame).1 := by
  have hd := decisionAt_of_frame hf
  have hends := not_endsSpeech_of_unconfirmed hun
  cases hvoice : frame.hasSpeech with
  | true =>
    rw [hvoice] at hd
    have hrun' := isRun_extend hak hrun hd
    have hspan := spansSpeech_iff hrun' hsa hprior
    rw [timeAt_of_frame hf, ← htime] at hspan
    simp only [process, hstate, hvoice, if_true]
    by_cases hmin : config.minSpeechDurationMs ≤ frame.currentTime - p.speechStartTime
    · have hc : Confirms frames s k := ⟨hspan.mpr hmin, hun⟩
      simp only [hmin, if_true]
      refine ⟨.confirmed k hc (Nat.le_refl k) hends, .speech k rfl hc (by omega) ?_ ?_⟩
      · rintro j hj ⟨u, hku, hrunu, -, -⟩
        have hle := hrunu.1
        omega
      · exact .inl ⟨rfl, hd⟩
    · have hnow := forall_lt_succ hun (fun h => hmin (hspan.mp h))
      simp only [hmin, if_false]
      exact ⟨.voiced (fun j hj => hnow j (by omega)) hd,
        .speechStart a hstate hnow hsa (by omega) hrun' hprior htime⟩
  | false =>
    rw [hvoice] at hd
    have hnow := forall_lt_succ hun (not_spansSpeech_of_unvoiced hd)
    simp only [process, hstate, hvoice, Bool.false_eq_true, if_false]
    exact ⟨.unvoiced (fun j hj => hnow j (by omega)) hd,
      .silence rfl hnow (.inr ⟨by omega, hd⟩)⟩

/-- The run of unvoiced frames that an unvoiced frame continues or starts. -/
theorem silence_run {c : Nat} (hpos : ∀ f ∈ frames, 0 < f.currentTime)
    (hf : frames[k]? = some frame) (hd : decisionAt frames k = some false) (hck : c < k)
    (hlast : p.silenceStartTime = 0 ∧ decisionAt frames (k - 1) = some true ∨
      ∃ u, c < u ∧ u < k ∧ IsRun frames false u (k - 1) ∧
        decisionAt frames (u - 1) = some true ∧ p.silenceStartTime = timeAt frames u) :
    ∃ u, c < u ∧ u ≤ k ∧ IsRun frames false u k ∧ decisionAt frames (u - 1) = some true ∧
      (if p.silenceStartTime = 0 then frame.currentTime else p.silenceStartTime) =
        timeAt frames u := by
  rcases hlast with ⟨hzero, hprior⟩ | ⟨u, hcu, huk, hrun, hprior, htime⟩
  · refine ⟨k, hck, Nat.le_refl k, isRun_single hd, hprior, ?_⟩
    rw [if_pos hzero, timeAt_of_frame hf]
  · refine ⟨u, hcu, Nat.le_of_lt huk, isRun_extend huk hrun hd, hprior, ?_⟩
    have hu := hrun.2 u (Nat.le_refl u) hrun.1
    obtain ⟨first, hfirst, -⟩ := Option.map_eq_some_iff.mp hu
    have hne : p.silenceStartTime ≠ 0 := by
      rw [htime, timeAt_of_frame hfirst]
      exact Int.ne_of_gt (hpos first (List.mem_of_getElem? hfirst))
    rw [if_neg hne, htime]

theorem phase_step_of_speech {c : Nat} (hpos : ∀ f ∈ frames, 0 < f.currentTime)
    (hf : frames[k]? = some frame) (hstate : p.currentState = .speech)
    (hc : Confirms frames s c) (hck : c < k) (hgo : ∀ j, j < k → ¬ SpansSilence frames c j)
    (hlast : p.silenceStartTime = 0 ∧ decisionAt frames (k - 1) = some true ∨
      ∃ u, c < u ∧ u < k ∧ IsRun frames false u (k - 1) ∧
        decisionAt frames (u - 1) = some true ∧ p.silenceStartTime = timeAt frames u) :
    Returns frames s k (p.process frame).2 ∧
      (Phase frames s (k + 1) (p.process frame).1 ∨
        EndsSpeech frames s k ∧ (p.process frame).1.currentState = .speechEnd) := by
  have hd := decisionAt_of_frame hf
  cases hvoice : frame.hasSpeech with
  | true =>
    rw [hvoice] at hd
    have hsilence : ¬ SpansSilence frames c k := not_spansSilence_of_voiced hd
    simp only [process, hstate, hvoice, if_true]
    refine ⟨.confirmed c hc (by omega) (not_endsSpeech_of_going hc hsilence), .inl ?_⟩
    exact .speech c rfl hc (by omega) (forall_lt_succ hgo hsilence) (.inl ⟨rfl, hd⟩)
  | false =>
    rw [hvoice] at hd
    obtain ⟨u, hcu, huk, hrun, hprior, htime⟩ := silence_run hpos hf hd hck hlast
    have hspan := spansSilence_iff hrun hcu hprior
    rw [timeAt_of_frame hf, ← htime] at hspan
    simp only [process, hstate, hvoice, Bool.false_eq_true, if_false]
    by_cases hmin : config.minSilenceDurationMs ≤ frame.currentTime -
        if p.silenceStartTime = 0 then frame.currentTime else p.silenceStartTime
    · have he : EndsSpeech frames s k := ⟨c, hc, hspan.mpr hmin, hgo⟩
      simp only [hmin, if_true]
      exact ⟨.ended he, .inr ⟨he, trivial⟩⟩
    · have hsilence : ¬ SpansSilence frames c k := fun h => hmin (hspan.mp h)
      simp only [hmin, if_false]
      refine ⟨.confirmed c hc (by omega) (not_endsSpeech_of_going hc hsilence), .inl ?_⟩
      refine .speech c rfl hc (by omega) (forall_lt_succ hgo hsilence) (.inr ?_)
      exact ⟨u, hcu, by omega, hrun, hprior, htime⟩

theorem phase_step (hpos : ∀ f ∈ frames, 0 < f.currentTime) (hsk : s ≤ k)
    (hf : frames[k]? = some frame) (hp : Phase frames s k p) :
    Returns frames s k (p.process frame).2 ∧
      (Phase frames s (k + 1) (p.process frame).1 ∨
        EndsSpeech frames s k ∧ (p.process frame).1.currentState = .speechEnd) := by
  cases hp with
  | silence hstate hun hlast =>
    have h := phase_step_of_silence hsk hf hstate hun hlast
    exact ⟨h.1, .inl h.2⟩
  | speechStart a hstate hun hsa hak hrun hprior htime =>
    have h := phase_step_of_speechStart hf hstate hun hsa hak hrun hprior htime
    exact ⟨h.1, .inl h.2⟩
  | speech c hstate hc hck hgo hlast =>
    exact phase_step_of_speech hpos hf hstate hc hck hgo hlast

theorem not_endsSpeech_of_phase (hp : Phase frames s (k + 1) p) : ¬ EndsSpeech frames s k := by
  cases hp with
  | silence _ hun _ => exact not_endsSpeech_of_unconfirmed fun j hj => hun j (by omega)
  | speechStart _ _ hun => exact not_endsSpeech_of_unconfirmed fun j hj => hun j (by omega)
  | speech c _ hc _ hgo _ => exact not_endsSpeech_of_going hc (hgo k (by omega))

theorem le_of_spansSpeech (h : SpansSpeech frames s k) : s ≤ k := by
  obtain ⟨a, hsa, hrun, -⟩ := h
  exact Nat.le_trans hsa hrun.1

theorem le_of_endsSpeech {e : Nat} (h : EndsSpeech frames s e) : s ≤ e := by
  obtain ⟨c, hc, hce⟩ := confirms_lt_of_ends h
  exact Nat.le_of_lt (Nat.lt_of_le_of_lt (le_of_spansSpeech hc.1) hce)

theorem lt_length_of_decisionAt {d : Bool} (h : decisionAt frames k = some d) :
    k < frames.length := by
  obtain ⟨frame, hf, -⟩ := Option.map_eq_some_iff.mp h
  exact (List.getElem?_eq_some_iff.mp hf).1

theorem lt_length_of_endsSpeech {e : Nat} (h : EndsSpeech frames s e) : e < frames.length := by
  obtain ⟨c, -, ⟨u, -, hrun, -⟩, -⟩ := h
  exact lt_length_of_decisionAt (hrun.2 e hrun.1 (Nat.le_refl e))

theorem endsSpeech_unique {d e : Nat} (hd : EndsSpeech frames s d) (he : EndsSpeech frames s e) :
    d = e := by
  obtain ⟨c, hc, hsd, hfd⟩ := hd
  obtain ⟨c', hc', hse, hfe⟩ := he
  obtain rfl := confirms_unique hc hc'
  rcases Nat.lt_trichotomy d e with hlt | heq | hgt
  · exact absurd hsd (hfe d hlt)
  · exact heq
  · exact absurd hse (hfd e hgt)

theorem phase_of_segment (hpos : ∀ f ∈ frames, 0 < f.currentTime)
    (hs : (p.afterFrames (frames.take s)).currentState = .silence) (hsk : s ≤ k)
    (hk : k ≤ frames.length) (hgo : ∀ e, e < k → ¬ EndsSpeech frames s e) :
    Phase frames s k (p.afterFrames (frames.take k)) := by
  induction hsk with
  | refl => exact .silence hs (fun j hj h => by have hle := le_of_spansSpeech h; omega) (.inl rfl)
  | @step k hsk ih =>
    have hf : frames[k]? = some frames[k] := List.getElem?_eq_getElem hk
    have hphase := ih (by omega) fun e he => hgo e (by omega)
    rw [afterFrames_take_succ hf]
    rcases (phase_step hpos hsk hf hphase).2 with hnext | ⟨hend, -⟩
    · exact hnext
    · exact absurd hend (hgo k (Nat.lt_succ_self k))

theorem process_of_speechEnd (hp : p.currentState = .speechEnd) :
    p.process frame = ({ p with currentState := .silence, silenceStartTime := 0 }, .silence) := by
  simp only [process, hp]

theorem speechEnd_of_silence {e : Nat} (hpos : ∀ f ∈ frames, 0 < f.currentTime)
    (hs : (p.afterFrames (frames.take s)).currentState = .silence)
    (he : EndsSpeech frames s e) :
    (p.afterFrames (frames.take (e + 1))).currentState = .speechEnd := by
  have hse := le_of_endsSpeech he
  have hlen := lt_length_of_endsSpeech he
  have hfirst : ∀ d, d < e → ¬ EndsSpeech frames s d := by
    intro d hd h
    have heq := endsSpeech_unique h he
    omega
  have hphase := phase_of_segment hpos hs hse (Nat.le_of_lt hlen) hfirst
  have hf : frames[e]? = some frames[e] := List.getElem?_eq_getElem hlen
  rw [afterFrames_take_succ hf]
  obtain ⟨-, hphase' | ⟨-, hstate⟩⟩ := phase_step hpos hse hf hphase
  · exact absurd he (not_endsSpeech_of_phase hphase')
  · exact hstate

/-- The processor is back in `SILENCE` wherever a segment starts. -/
theorem silence_of_startsSegment (hpos : ∀ f ∈ frames, 0 < f.currentTime)
    (hp : p.currentState = .silence) (hs : StartsSegment frames s) (hlen : s ≤ frames.length) :
    (p.afterFrames (frames.take s)).currentState = .silence := by
  induction hs with
  | first => exact hp
  | @next s e hs he ih =>
    have hse := le_of_endsSpeech he
    have hend := speechEnd_of_silence hpos (ih (by omega)) he
    have hf : frames[e + 1]? = some frames[e + 1] := List.getElem?_eq_getElem (by omega)
    rw [afterFrames_take_succ hf, process_of_speechEnd hend]

theorem processAll_returns (hpos : ∀ f ∈ frames, 0 < f.currentTime)
    (hp : p.currentState = .silence) (hs : StartsSegment frames s) (hsk : s ≤ k)
    (hk : k < frames.length) (hgo : ∀ e, e < k → ¬ EndsSpeech frames s e) :
    ∃ v, (p.processAll frames)[k]? = some v ∧ Returns frames s k v := by
  have hf : frames[k]? = some frames[k] := List.getElem?_eq_getElem hk
  have hstart := silence_of_startsSegment hpos hp hs (by omega)
  have hphase := phase_of_segment hpos hstart hsk (Nat.le_of_lt hk) hgo
  refine ⟨_, ?_, (phase_step hpos hsk hf hphase).1⟩
  rw [processAll_getElem?, hf]
  rfl

theorem processAll_ended {e : Nat} (hpos : ∀ f ∈ frames, 0 < f.currentTime)
    (hp : p.currentState = .silence) (hs : StartsSegment frames s) (he : EndsSpeech frames s e) :
    (p.processAll frames)[e]? = some .speechEnd := by
  have hfirst : ∀ d, d < e → ¬ EndsSpeech frames s d := by
    intro d hd h
    have heq := endsSpeech_unique h he
    omega
  obtain ⟨v, hv, hreturn⟩ := processAll_returns hpos hp hs (le_of_endsSpeech he)
    (lt_length_of_endsSpeech he) hfirst
  cases hreturn with
  | ended _ => exact hv
  | confirmed _ _ _ hnot => exact absurd he hnot
  | voiced hun _ => exact absurd he (not_endsSpeech_of_unconfirmed fun j hj => hun j (by omega))
  | unvoiced hun _ => exact absurd he (not_endsSpeech_of_unconfirmed fun j hj => hun j (by omega))

/-- Every frame is in a segment that has not ended, or is the one after an end. -/
theorem segment_of_frame (frames : List VoiceFrame) (k : Nat) :
    ∃ s, StartsSegment frames s ∧ (s ≤ k ∧ (∀ e, e < k → ¬ EndsSpeech frames s e) ∨
      ∃ e, EndsSpeech frames s e ∧ k = e + 1) := by
  induction k with
  | zero => exact ⟨0, .first, .inl ⟨Nat.le_refl 0, fun e he => by omega⟩⟩
  | succ k ih =>
    obtain ⟨s, hs, ⟨hsk, hgo⟩ | ⟨e, he, rfl⟩⟩ := ih
    · by_cases hend : EndsSpeech frames s k
      · exact ⟨s, hs, .inr ⟨k, hend, rfl⟩⟩
      · exact ⟨s, hs, .inl ⟨by omega, forall_lt_succ hgo hend⟩⟩
    · refine ⟨e + 2, hs.next he, .inl ⟨Nat.le_refl _, fun d hd h => ?_⟩⟩
      have hle := le_of_endsSpeech h
      omega

theorem processAll_after_end {e : Nat} (hpos : ∀ f ∈ frames, 0 < f.currentTime)
    (hp : p.currentState = .silence) (hs : StartsSegment frames s) (he : EndsSpeech frames s e)
    (hlen : e + 1 < frames.length) : (p.processAll frames)[e + 1]? = some .silence := by
  have hf : frames[e + 1]? = some frames[e + 1] := List.getElem?_eq_getElem hlen
  have hse := le_of_endsSpeech he
  have hstart := silence_of_startsSegment hpos hp hs (by omega)
  have hend := speechEnd_of_silence hpos hstart he
  rw [processAll_getElem?, hf, Option.map_some, process_of_speechEnd hend]

theorem speechEnd_iff_endsSpeech (hpos : ∀ f ∈ frames, 0 < f.currentTime)
    (hp : p.currentState = .silence) :
    (p.processAll frames)[k]? = some .speechEnd ↔
      ∃ s, StartsSegment frames s ∧ EndsSpeech frames s k := by
  constructor
  · intro h
    have hk : k < frames.length := by
      rw [processAll_getElem?, Option.map_eq_some_iff] at h
      obtain ⟨frame, hf, -⟩ := h
      exact (List.getElem?_eq_some_iff.mp hf).1
    obtain ⟨s, hs, ⟨hsk, hgo⟩ | ⟨e, he, rfl⟩⟩ := segment_of_frame frames k
    · obtain ⟨v, hv, hreturn⟩ := processAll_returns hpos hp hs hsk hk hgo
      rw [h] at hv
      cases Option.some.inj hv
      cases hreturn with
      | ended hend => exact ⟨s, hs, hend⟩
    · rw [processAll_after_end hpos hp hs he hk] at h
      cases Option.some.inj h
  · rintro ⟨s, hs, he⟩
    exact processAll_ended hpos hp hs he

end

theorem processAll_segmentation (p : VADProcessor) (frames : List VoiceFrame)
    (hp : p.currentState = .silence ∨ ∃ q : VADProcessor, p = q.reset)
    (hpos : ∀ f ∈ frames, 0 < f.currentTime) :
    SegmentationLaw frames (p.processAll frames) := by
  have hstate : p.currentState = .silence := by
    rcases hp with h | ⟨q, rfl⟩
    · exact h
    · rfl
  constructor
  case speechEnd_iff => exact fun k => speechEnd_iff_endsSpeech hpos hstate
  case ignored =>
    intro e h hlen
    obtain ⟨s, hs, he⟩ := (speechEnd_iff_endsSpeech hpos hstate).mp h
    exact processAll_after_end hpos hstate hs he hlen
  case restarted =>
    intro k e h hke hd
    obtain ⟨s, hs, c, hc, ⟨u, hcu, hrun, hprior, hspan⟩, hgo⟩ :=
      (speechEnd_iff_endsSpeech hpos hstate).mp h
    refine ⟨u, ?_, hrun, hspan⟩
    by_contra huk
    have hvoice := hrun.2 k (by omega) (by omega)
    rw [hd] at hvoice
    cases hvoice
  case unconfirmed =>
    intro s k d hs hsk hd hun
    have hgo : ∀ e, e < k → ¬ EndsSpeech frames s e := fun e he =>
      not_endsSpeech_of_unconfirmed fun j hj => hun j (by omega)
    obtain ⟨v, hv, hreturn⟩ :=
      processAll_returns hpos hstate hs hsk (lt_length_of_decisionAt hd) hgo
    cases hreturn with
    | ended hend =>
      exact absurd hend (not_endsSpeech_of_unconfirmed fun j hj => hun j (by omega))
    | confirmed c hc hck _ => exact absurd hc.1 (hun c hck)
    | voiced _ hvoice => cases Option.some.inj (hd.symm.trans hvoice); exact hv
    | unvoiced _ hvoice => cases Option.some.inj (hd.symm.trans hvoice); exact hv
  case confirmed =>
    intro s c k hs hc hck hk hgo
    have hsk := Nat.le_trans (le_of_spansSpeech hc.1) hck
    obtain ⟨v, hv, hreturn⟩ :=
      processAll_returns hpos hstate hs hsk hk fun e he => hgo e (Nat.le_of_lt he)
    cases hreturn with
    | ended hend => exact absurd hend (hgo k (Nat.le_refl k))
    | confirmed _ _ _ _ => exact hv
    | voiced hun _ => exact absurd hc.1 (hun c hck)
    | unvoiced hun _ => exact absurd hc.1 (hun c hck)

/-- Speech confirmed at the second frame ends at the fourth, and the fifth is ignored. -/
theorem processAll_segmentation_example :
    SegmentationLaw [⟨true, 1⟩, ⟨true, 201⟩, ⟨false, 300⟩, ⟨false, 1100⟩, ⟨true, 1130⟩]
      (VADProcessor.processAll {}
        [⟨true, 1⟩, ⟨true, 201⟩, ⟨false, 300⟩, ⟨false, 1100⟩, ⟨true, 1130⟩]) :=
  processAll_segmentation {} _ (.inl rfl) (by decide)

example : VADProcessor.processAll {}
    [⟨true, 1⟩, ⟨true, 201⟩, ⟨false, 300⟩, ⟨false, 1100⟩, ⟨true, 1130⟩, ⟨true, 1160⟩] =
      [.speechStart, .speech, .speech, .speechEnd, .silence, .speechStart] := by decide

end HeyNilo.VADProcessor

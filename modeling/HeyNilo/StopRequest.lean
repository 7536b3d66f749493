import HeyNilo.GenerateStream
import HeyNilo.Machine

namespace HeyNilo

open Machine

/-- A stop request that found a call running, and the iterations of its sampling loop that had
started by then. -/
structure StopRecord where
  turn : Nat
  started : Nat
deriving DecidableEq, Repr

/-- How many iterations of the sampling loop have started: their loop condition has been read. -/
def Generation.iterationsStarted (gen : Generation) : Nat :=
  match gen.pc with
  | .loopHead => gen.nGen
  | .timeoutCheck | .sample | .decodeToken _ => gen.nGen + 1
  | _ => 0

/-- No text comes from an iteration that started after the request. -/
def StopRecord.Obeyed (r : StopRecord) (emitted : List Emission) : Prop :=
  ∀ x ∈ emitted, x.turn = r.turn → x.iteration < r.started

namespace LlamaState

/-- A history variable: the stop requests so far that found a call running. -/
def nextStops (stops : List StopRecord) (s : LlamaState) : NativeEvent → List StopRecord
  | .stopSet =>
    match s.gen with
    | some gen => stops ++ [⟨gen.turn, gen.iterationsStarted⟩]
    | none => stops
  | _ => stops

/-- The call does not set `should_stop` back after it was asked to stop. -/
def keepsStop (s : LlamaState × List StopRecord) : NativeEvent → Bool
  | .advance =>
    match s.1.gen with
    | none => true
    | some gen =>
      match gen.pc with
      | .resetStop | .resetStopAgain => s.2.all fun r => r.turn != gen.turn
      | _ => true
  | _ => true

structure StopInv (s : LlamaState) (stops : List StopRecord) : Prop where
  turn : ∀ gen, s.gen = some gen → gen.turn < s.turns
  emittedTurn : ∀ x ∈ s.emitted, x.turn < s.turns
  stopsTurn : ∀ r ∈ stops, r.turn < s.turns
  emittedStarted : ∀ gen, s.gen = some gen →
    ∀ x ∈ s.emitted, x.turn = gen.turn → x.iteration < gen.iterationsStarted
  pending : ∀ gen, s.gen = some gen → ∀ r ∈ stops, r.turn = gen.turn →
    s.shouldStop = true ∧ gen.iterationsStarted ≤ r.started
  obeyed : ∀ r ∈ stops, r.Obeyed s.emitted

theorem StopInv.loaded (nBatch : Int) (nCtx : Nat) (systemPrompt : Bytes) :
    StopInv (loaded nBatch nCtx systemPrompt) [] := by
  constructor <;> simp [LlamaState.loaded]

theorem StopInv.ends {s t : LlamaState} {stops : List StopRecord} (h : StopInv s stops)
    (hg : t.gen = none) (hturns : t.turns = s.turns) (hem : t.emitted = s.emitted) :
    StopInv t stops where
  turn := by simp [hg]
  emittedTurn := by rw [hem, hturns]; exact h.emittedTurn
  stopsTurn := by rw [hturns]; exact h.stopsTurn
  emittedStarted := by simp [hg]
  pending := by simp [hg]
  obeyed := by rw [hem]; exact h.obeyed

/-- The call goes on and emits at most from iterations that had started; if it was asked to stop,
the flag stays set and no iteration starts. -/
theorem StopInv.goesOn {s t : LlamaState} {stops : List StopRecord} {gen gen' : Generation}
    {texts : List Emission} (h : StopInv s stops) (hg : s.gen = some gen)
    (hg' : t.gen = some gen') (hturn : gen'.turn = gen.turn) (hturns : t.turns = s.turns)
    (hem : t.emitted = s.emitted ++ texts)
    (htexts : ∀ x ∈ texts, x.turn = gen.turn ∧ x.iteration < gen.iterationsStarted)
    (hle : gen.iterationsStarted ≤ gen'.iterationsStarted)
    (hstop : ∀ r ∈ stops, r.turn = gen.turn → s.shouldStop = true →
      t.shouldStop = true ∧ gen'.iterationsStarted ≤ gen.iterationsStarted) :
    StopInv t stops := by
  have hlt := h.turn gen hg
  constructor
  · intro g hgg
    cases Option.some.inj (hgg.symm.trans hg')
    rwa [hturn, hturns]
  · intro x hx
    rw [hem, List.mem_append] at hx
    rw [hturns]
    rcases hx with hx | hx
    · exact h.emittedTurn x hx
    · rwa [(htexts x hx).1]
  · rw [hturns]
    exact h.stopsTurn
  · intro g hgg x hx hxt
    cases Option.some.inj (hgg.symm.trans hg')
    rw [hem, List.mem_append] at hx
    rcases hx with hx | hx
    · have := h.emittedStarted gen hg x hx (hxt.trans hturn)
      omega
    · have := (htexts x hx).2
      omega
  · intro g hgg r hr hrt
    cases Option.some.inj (hgg.symm.trans hg')
    obtain ⟨hset, hstarted⟩ := h.pending gen hg r hr (hrt.trans hturn)
    obtain ⟨hset', hnone⟩ := hstop r hr (hrt.trans hturn) hset
    exact ⟨hset', Nat.le_trans hnone hstarted⟩
  · intro r hr x hx hxt
    rw [hem, List.mem_append] at hx
    rcases hx with hx | hx
    · exact h.obeyed r hr x hx hxt
    · obtain ⟨hxg, hlt⟩ := htexts x hx
      have := (h.pending gen hg r hr (hxt.symm.trans hxg)).2
      omega

theorem StopInv.goto {s : LlamaState} {ctx : LlamaContext} {stops : List StopRecord}
    {gen gen' : Generation} {pos : Nat} {generating : Bool} (h : StopInv s stops)
    (hg : s.gen = some gen) (hturn : gen'.turn = gen.turn)
    (hle : gen.iterationsStarted ≤ gen'.iterationsStarted)
    (hstop : s.shouldStop = true → gen'.iterationsStarted ≤ gen.iterationsStarted) :
    StopInv { s with
      ctx := ctx, currentPos := pos, isGenerating := generating, gen := some gen' } stops :=
  h.goesOn hg rfl hturn rfl (List.append_nil _).symm (by simp) hle
    fun _ _ _ hset => ⟨hset, hstop hset⟩

theorem StopInv.advance {m : LlamaModel} {s t : LlamaState} {stops : List StopRecord}
    (h : StopInv s stops) (hok : keepsStop (s, stops) .advance) (hs : Step m s .advance t) :
    StopInv t stops := by
  cases hs with
  | tooLong | loopEnds => exact h.ends rfl rfl rfl
  | promptBuilt gen hg hpc | tokenized gen hg hpc | started gen hg hpc =>
    exact h.goto hg rfl (by simp [Generation.iterationsStarted, hpc])
      (by simp [Generation.iterationsStarted])
  | prefillStopped gen i hg hpc | prefillGoesOn gen i hg hpc | prefillOver gen i hg hpc =>
    exact h.goto hg rfl (by simp [Generation.iterationsStarted, hpc])
      (by simp [Generation.iterationsStarted])
  | stopReset gen hg hpc | stopResetAgain gen hg hpc =>
    simp only [keepsStop, hg, hpc] at hok
    -- no stop is pending for this call
    refine h.goesOn hg rfl rfl rfl (List.append_nil _).symm (by simp)
      (by simp [Generation.iterationsStarted, hpc]) fun r hr hrt => ?_
    have hnone := List.all_eq_true.mp hok r hr
    simp [hrt] at hnone
  | loopGoesOn gen hg hpc hn hstop =>
    refine h.goto hg rfl ?_ fun hset => ?_
    · simp [Generation.iterationsStarted, hpc]
    · rw [hstop] at hset
      cases hset

/-- A request that finds a call running is recorded with what has started so far. -/
theorem StopInv.request {s : LlamaState} {stops : List StopRecord} {gen : Generation} {n : Nat}
    (h : StopInv s stops) (hg : s.gen = some gen) :
    StopInv { s with shouldStop := true, pendingClears := n }
      (stops ++ [⟨gen.turn, gen.iterationsStarted⟩]) := by
  refine ⟨h.turn, h.emittedTurn, ?_, h.emittedStarted, ?_, ?_⟩
  · intro r hr
    rcases List.mem_append.mp hr with hr | hr
    · exact h.stopsTurn r hr
    · cases List.mem_singleton.mp hr
      exact h.turn gen hg
  · intro g hgg r hr hrt
    cases Option.some.inj (hg.symm.trans hgg)
    rcases List.mem_append.mp hr with hr | hr
    · exact ⟨rfl, (h.pending gen hg r hr hrt).2⟩
    · cases List.mem_singleton.mp hr
      exact ⟨rfl, Nat.le_refl _⟩
  · intro r hr
    rcases List.mem_append.mp hr with hr | hr
    · exact h.obeyed r hr
    · cases List.mem_singleton.mp hr
      exact h.emittedStarted gen hg

theorem StopInv.step {m : LlamaModel} {s t : LlamaState} {stops : List StopRecord}
    {e : NativeEvent} (h : StopInv s stops) (hok : keepsStop (s, stops) e)
    (ht : s.step m e = some t) : StopInv t (nextStops stops s e) := by
  cases e with
  | generate prompt maxTokens =>
    cases step_sound ht
    refine ⟨?_, ?_, ?_, ?_, ?_, h.obeyed⟩
    · rintro _ ⟨⟩
      exact Nat.lt_succ_self _
    · exact fun x hx => Nat.lt_succ_of_lt (h.emittedTurn x hx)
    · exact fun r hr => Nat.lt_succ_of_lt (h.stopsTurn r hr)
    · rintro _ ⟨⟩ x hx hxt
      exact absurd hxt (Nat.ne_of_lt (h.emittedTurn x hx))
    · rintro _ ⟨⟩ r hr hrt
      exact absurd hrt (Nat.ne_of_lt (h.stopsTurn r hr))
  | advance => exact h.advance hok (step_sound ht)
  | seqRm ok =>
    cases step_sound ht with
    | reused gen ok hg hpc =>
      unfold LlamaState.reuseKv
      split <;> exact h.goto hg rfl (by simp [Generation.iterationsStarted, hpc])
        (by simp [Generation.iterationsStarted])
  | decoded r =>
    cases step_sound ht with
    | promptDecoded gen i r hg hpc =>
      cases r with
      | ok =>
        exact h.goto hg rfl (by simp [Generation.iterationsStarted, hpc])
          (by simp [Generation.iterationsStarted])
      | failed kept => exact h.ends rfl rfl rfl
    | tokenDecoded gen token r hg hpc =>
      cases r with
      | ok =>
        exact h.goto hg rfl (by simp [Generation.iterationsStarted, hpc])
          (by simp [Generation.iterationsStarted, hpc])
      | failed kept => exact h.ends rfl rfl rfl
  | clock timedOut =>
    cases step_sound ht with
    | timedOut gen hg hpc => exact h.ends rfl rfl rfl
    | inTime gen hg hpc =>
      exact h.goto hg rfl (by simp [Generation.iterationsStarted, hpc])
        (by simp [Generation.iterationsStarted, hpc])
  | sampled token =>
    cases step_sound ht with
    | sampled gen token hg hpc =>
      rcases afterSample_cases m s gen token with he | he | ⟨response, texts, htexts, he⟩
      · rw [he]
        exact h.ends rfl rfl rfl
      · rw [he]
        exact h.ends rfl rfl rfl
      · rw [he]
        refine h.goesOn hg rfl rfl rfl rfl (fun x hx => ?_) ?_ fun _ _ _ hset => ⟨hset, ?_⟩
        · obtain ⟨hturn, hiter⟩ := htexts x hx
          simp [hturn, hiter, Generation.iterationsStarted, hpc]
        · simp [Generation.iterationsStarted, hpc, Generation.record]
        · simp [Generation.iterationsStarted, hpc, Generation.record]
  | stopSet =>
    cases step_sound ht
    cases hg : s.gen with
    | none =>
      simp only [nextStops, hg]
      exact h.ends rfl rfl rfl
    | some gen =>
      simp only [nextStops, hg]
      exact hg ▸ h.request hg
  | stopClear | clearContext | addToHistory =>
    cases step_sound ht
    exact ⟨h.turn, h.emittedTurn, h.stopsTurn, h.emittedStarted, h.pending, h.obeyed⟩

/-- In a run in which no call sets the flag back after it was asked to stop, every request is
obeyed in every state reached. -/
theorem stop_obeyed {m : LlamaModel} {nBatch : Int} {nCtx : Nat} {systemPrompt : Bytes}
    {es : List NativeEvent} {s : LlamaState} {stops : List StopRecord}
    (hok : Meets (withHistory (LlamaState.step m) nextStops) (keepsStop · ·)
      (LlamaState.loaded nBatch nCtx systemPrompt, []) es)
    (hr : Machine.run (withHistory (LlamaState.step m) nextStops)
      (LlamaState.loaded nBatch nCtx systemPrompt, []) es = some (s, stops)) :
    ∀ r ∈ stops, r.Obeyed s.emitted := by
  have hinv : StopInv s stops := by
    refine run_invariant (I := fun s => StopInv s.1 s.2) ?_
      (StopInv.loaded nBatch nCtx systemPrompt) hok hr
    rintro ⟨s, k⟩ e ⟨t, j⟩ hs hok ht
    obtain ⟨hstep, rfl⟩ := withHistory_iff.mp ht
    exact hs.step hok hstep
  exact hinv.obeyed

/-- A stop during the first iteration: its text is the last one. -/
theorem stop_obeyed_in_loop :
    ∃ s, Machine.run (withHistory (LlamaState.step byteModel) nextStops)
        (LlamaState.loaded 512 1024 [], [])
        (promptTurn (ascii "hi") ++ [.sampled 65, .stopSet, .decoded .ok, .advance]) =
          some (s, [⟨0, 1⟩]) ∧
      s.emitted = [⟨0, 0, ascii "A"⟩] ∧
      ∀ r ∈ ([⟨0, 1⟩] : List StopRecord), r.Obeyed s.emitted := by
  have hrun : (Machine.run (withHistory (LlamaState.step byteModel) nextStops)
      (LlamaState.loaded 512 1024 [], [])
      (promptTurn (ascii "hi") ++ [.sampled 65, .stopSet, .decoded .ok, .advance])).map
        (fun s => (s.1.emitted, s.2)) = some ([⟨0, 0, ascii "A"⟩], [⟨0, 1⟩]) := by decide
  obtain ⟨⟨s, stops⟩, hr, hs⟩ := Option.map_eq_some_iff.mp hrun
  obtain ⟨hem, rfl⟩ := Prod.mk.inj hs
  exact ⟨s, hr, hem, stop_obeyed (by decide) hr⟩

/-- A stop right after the prefill is erased by the second reset, and the whole sampling loop runs. -/
theorem stop_before_loop_erased :
    ∃ s stops, Machine.run (withHistory (LlamaState.step byteModel) nextStops)
        (LlamaState.loaded 512 1024 [], [])
        [.generate (ascii "hi") 4, .advance, .advance, .advance, .seqRm true, .advance,
          .decoded .ok, .advance, .stopSet, .stopClear, .advance, .advance, .advance,
          .clock false, .sampled 65] = some (s, stops) ∧
      ∃ r ∈ stops, ¬ r.Obeyed s.emitted := by
  have hrun : (Machine.run (withHistory (LlamaState.step byteModel) nextStops)
      (LlamaState.loaded 512 1024 [], [])
      [.generate (ascii "hi") 4, .advance, .advance, .advance, .seqRm true, .advance,
        .decoded .ok, .advance, .stopSet, .stopClear, .advance, .advance, .advance,
        .clock false, .sampled 65]).map
        (fun s => (s.1.emitted, s.2)) = some ([⟨0, 0, ascii "A"⟩], [⟨0, 0⟩]) := by decide
  obtain ⟨⟨s, stops⟩, hr, hs⟩ := Option.map_eq_some_iff.mp hrun
  obtain ⟨hem, rfl⟩ := Prod.mk.inj hs
  refine ⟨s, _, hr, ⟨0, 0⟩, List.mem_singleton.mpr rfl, fun hob => ?_⟩
  have := hob ⟨0, 0, ascii "A"⟩ (by rw [hem]; exact List.mem_singleton.mpr rfl) rfl
  exact Nat.lt_irrefl _ this

end LlamaState

end HeyNilo

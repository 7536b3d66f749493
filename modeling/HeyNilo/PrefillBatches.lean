import HeyNilo.GenerateStream
import HeyNilo.Machine

namespace HeyNilo

open Machine

/-- The entries that decode a prompt: every token at its index, with logits for the last. -/
def promptEntries (tokens : List LlamaToken) : LlamaBatch :=
  tokens.mapIdx fun i token => ⟨token, i, decide (i + 1 = tokens.length)⟩

@[simp] theorem promptEntries_length (tokens : List LlamaToken) :
    (promptEntries tokens).length = tokens.length := List.length_mapIdx

theorem prefillBatch_eq {tokens : List LlamaToken} {i n : Nat} (hn : i + n ≤ tokens.length) :
    prefillBatch tokens i n = ((promptEntries tokens).drop i).take n := by
  induction n with
  | zero => simp [prefillBatch]
  | succ n ih =>
    have hlt : i + n < tokens.length := by omega
    have hentry : ((promptEntries tokens).drop i)[n]? =
        some ⟨tokens.getD (i + n) 0, i + n, decide (i + n + 1 = tokens.length)⟩ := by
      simp [promptEntries, List.getD_eq_getElem?_getD, hlt]
    rw [prefillBatch, batchAdd, ih (by omega), List.take_add_one, hentry]
    rfl

/-- One more round continues the entries decoded so far. -/
theorem drop_take_chunk {tokens : List LlamaToken} {start i nBatch : Nat} (hstart : start ≤ i)
    (hi : i < tokens.length) :
    ((promptEntries tokens).take i).drop start ++
        prefillBatch tokens i (curBatchSize tokens nBatch i) =
      ((promptEntries tokens).take (i + nBatch)).drop start := by
  have hsize : i + curBatchSize tokens nBatch i ≤ tokens.length := by
    unfold curBatchSize
    omega
  have hround : ((promptEntries tokens).drop i).take (curBatchSize tokens nBatch i) =
      ((promptEntries tokens).drop i).take nBatch := by
    refine List.take_eq_take_iff.mpr ?_
    rw [List.length_drop, promptEntries_length, curBatchSize]
    omega
  have hle : start ≤ ((promptEntries tokens).take i).length := by
    rw [List.length_take, promptEntries_length]
    omega
  rw [prefillBatch_eq hsize, hround, List.take_add, List.drop_append_of_le_length hle]

namespace LlamaState

/-- The offset at which the call is in its prefill loop. -/
def prefillOffset (s : LlamaState) : Option Nat := s.gen.bind fun gen =>
  match gen.pc with
  | .prefillCheck i | .prefillDecode i => some i
  | _ => none

end LlamaState

namespace NativeEvent

/-- The steps of the generating thread itself. -/
def own : NativeEvent → Bool
  | .advance | .decoded _ => true
  | _ => false

/-- Neither a stop request nor a failing decode. -/
def quiet : NativeEvent → Bool
  | .stopSet | .decoded (.failed _) => false
  | _ => true

end NativeEvent

/-- A quiet step from within the prefill loop. -/
def LlamaState.undisturbed (s : LlamaState) (e : NativeEvent) : Bool :=
  s.prefillOffset.isSome && e.quiet

/-- A history variable: the batches passed to `llama_decode`, and how many steps the generating
thread has taken. -/
structure PrefillLog where
  batches : List LlamaBatch
  steps : Nat

namespace PrefillLog

def next (log : PrefillLog) (s : LlamaState) (e : NativeEvent) : PrefillLog where
  batches :=
    match s.gen, e with
    | some gen, .decoded _ =>
      match gen.pc with
      | .prefillDecode i =>
        log.batches ++ [prefillBatch gen.tokens i (curBatchSize gen.tokens s.nBatch i)]
      | _ => log.batches
    | _, _ => log.batches
  steps := if e.own then log.steps + 1 else log.steps

end PrefillLog

/-- What is left of the prefill loop at a point of it, in steps. -/
def prefillMeasure (length : Nat) : GenPc → Nat
  | .prefillCheck i => 2 * (length - i) + 1
  | .prefillDecode i => 2 * (length - i)
  | _ => 0

/-- The prefill loop from `start` on, at offset `i`. -/
structure PrefillAt (tokens : List LlamaToken) (nBatch start i : Nat) (s : LlamaState)
    (log : PrefillLog) (gen : Generation) : Prop where
  held : s.gen = some gen
  same_tokens : gen.tokens = tokens
  same_batch : s.nBatch = nBatch
  running : s.shouldStop = false
  from_start : start ≤ i
  below : i < tokens.length + nBatch
  point : gen.pc = .prefillCheck i ∨ (gen.pc = .prefillDecode i ∧ i < tokens.length) ∨
    (gen.pc = .startGenerating ∧ tokens.length ≤ i)
  decoded : log.batches.flatten = ((promptEntries tokens).take i).drop start
  sizes : ∀ batch ∈ log.batches, 1 ≤ batch.length ∧ batch.length ≤ nBatch
  steps : log.steps + prefillMeasure tokens.length gen.pc ≤ 2 * (tokens.length - start) + 1

variable {m : LlamaModel} {tokens : List LlamaToken} {nBatch start i : Nat} {s t : LlamaState}
  {log : PrefillLog} {gen : Generation} {e : NativeEvent}

/-- The call has not left the loop. -/
theorem PrefillAt.inside (h : PrefillAt tokens nBatch start i s log gen)
    (hin : s.prefillOffset.isSome = true) :
    gen.pc = .prefillCheck i ∨ gen.pc = .prefillDecode i ∧ i < tokens.length := by
  rcases h.point with hpc | hpc | ⟨hpc, -⟩
  · exact .inl hpc
  · exact .inr hpc
  · simp [LlamaState.prefillOffset, h.held, hpc] at hin

theorem PrefillAt.advance (h : PrefillAt tokens nBatch start i s log gen)
    (hin : s.prefillOffset.isSome = true) (ht : LlamaState.Step m s .advance t) :
    ∃ gen', PrefillAt tokens nBatch start i t (log.next s .advance) gen' := by
  have hheld := h.held
  have htokens := h.same_tokens
  have hrun := h.running
  -- leaving the head of the loop keeps the batches and takes one step
  have hleave {pc : GenPc} (hpc : gen.pc = .prefillCheck i)
      (hpoint : pc = .prefillDecode i ∧ i < tokens.length ∨
        pc = .startGenerating ∧ tokens.length ≤ i)
      (hmeasure : prefillMeasure tokens.length pc ≤ 2 * (tokens.length - i)) :
      PrefillAt tokens nBatch start i (s.goto gen pc) (log.next s .advance)
        { gen with pc := pc } := by
    have hsteps := h.steps
    rw [hpc, prefillMeasure] at hsteps
    refine ⟨rfl, htokens, h.same_batch, hrun, h.from_start, h.below, .inr hpoint, ?_, ?_, ?_⟩
    · simpa [PrefillLog.next, hheld] using h.decoded
    · simpa [PrefillLog.next, hheld] using h.sizes
    · simp only [PrefillLog.next, NativeEvent.own, if_true]
      omega
  have hinside := h.inside hin
  cases ht with
  | prefillGoesOn gen j hg hpc hi hstop =>
    cases Option.some.inj (hheld.symm.trans hg)
    obtain rfl : j = i := by simpa [hpc] using hinside
    exact ⟨_, hleave hpc (.inl ⟨rfl, htokens ▸ hi⟩) (Nat.le_refl _)⟩
  | prefillOver gen j hg hpc hi =>
    cases Option.some.inj (hheld.symm.trans hg)
    obtain rfl : j = i := by simpa [hpc] using hinside
    exact ⟨_, hleave hpc (.inr ⟨rfl, htokens ▸ hi⟩) (Nat.zero_le _)⟩
  | prefillStopped gen j hg hpc hi hstop => cases hrun.symm.trans hstop
  | promptBuilt _ hg hpc | stopReset _ hg hpc | tooLong _ hg hpc | tokenized _ hg hpc
  | started _ hg hpc | stopResetAgain _ hg hpc | loopGoesOn _ hg hpc | loopEnds _ hg hpc =>
    cases Option.some.inj (hheld.symm.trans hg)
    simp [hpc] at hinside

/-- A round of the loop. -/
theorem PrefillAt.chunk (hbatch : 1 ≤ nBatch) (h : PrefillAt tokens nBatch start i s log gen)
    (hpc : gen.pc = .prefillDecode i) (hi : i < tokens.length) :
    PrefillAt tokens nBatch start (i + nBatch) (s.prefillChunk gen i .ok)
      (log.next s (.decoded .ok)) { gen with pc := .prefillCheck (i + nBatch) } := by
  have hlog : (log.next s (.decoded .ok)).batches =
      log.batches ++ [prefillBatch tokens i (curBatchSize tokens nBatch i)] := by
    simp [PrefillLog.next, h.held, hpc, h.same_tokens, h.same_batch]
  have hsteps := h.steps
  rw [hpc, prefillMeasure] at hsteps
  have hstart := h.from_start
  refine ⟨?_, h.same_tokens, h.same_batch, h.running, by omega, by omega, .inl rfl, ?_, ?_, ?_⟩
  · simp [LlamaState.prefillChunk, LlamaState.goto, LlamaState.setGen, h.same_batch]
  · rw [hlog, List.flatten_append, h.decoded, List.flatten_singleton, drop_take_chunk hstart hi]
  · intro batch hmem
    rw [hlog] at hmem
    rcases List.mem_append.mp hmem with hmem | hmem
    · exact h.sizes batch hmem
    · cases List.mem_singleton.mp hmem
      rw [prefillBatch_length, curBatchSize]
      omega
  · simp only [PrefillLog.next, NativeEvent.own, prefillMeasure, if_true]
    omega

/-- What another thread does without stopping the call leaves the loop where it is. -/
theorem PrefillAt.other (h : PrefillAt tokens nBatch start i s log gen) (hgen : t.gen = s.gen)
    (hsame : t.nBatch = s.nBatch) (hstop : t.shouldStop = s.shouldStop) :
    PrefillAt tokens nBatch start i t log gen :=
  ⟨hgen.trans h.held, h.same_tokens, hsame.trans h.same_batch, hstop.trans h.running, h.from_start,
    h.below, h.point, h.decoded, h.sizes, h.steps⟩

/-- A step within the loop leads on in the loop or to its end. -/
theorem PrefillAt.step (hbatch : 1 ≤ nBatch) (h : PrefillAt tokens nBatch start i s log gen)
    (hok : s.undisturbed e = true) (ht : LlamaState.step m s e = some t) :
    ∃ j gen', PrefillAt tokens nBatch start j t (log.next s e) gen' := by
  obtain ⟨hin, hquiet⟩ := Bool.and_eq_true_iff.mp hok
  have hinside := h.inside hin
  have hsame : e.own = false → log.next s e = log := fun how => by
    cases e <;> simp_all [PrefillLog.next, NativeEvent.own]
  cases e with
  | generate prompt maxTokens =>
    cases LlamaState.step_sound ht with
    | generate prompt maxTokens hg => cases hg.symm.trans h.held
  | advance => exact ⟨i, h.advance hin (LlamaState.step_sound ht)⟩
  | seqRm ok =>
    cases LlamaState.step_sound ht with
    | reused gen ok hg hpc =>
      cases Option.some.inj (h.held.symm.trans hg)
      simp [hpc] at hinside
  | decoded r =>
    cases r with
    | failed kept => cases hquiet
    | ok =>
      cases LlamaState.step_sound ht with
      | promptDecoded gen j r hg hpc =>
        cases Option.some.inj (h.held.symm.trans hg)
        obtain ⟨rfl, hi⟩ : j = i ∧ i < tokens.length := by simpa [hpc] using hinside
        exact ⟨j + nBatch, _, h.chunk hbatch hpc hi⟩
      | tokenDecoded gen token r hg hpc =>
        cases Option.some.inj (h.held.symm.trans hg)
        simp [hpc] at hinside
  | clock timedOut =>
    cases LlamaState.step_sound ht with
    | timedOut gen hg hpc | inTime gen hg hpc =>
      cases Option.some.inj (h.held.symm.trans hg)
      simp [hpc] at hinside
  | sampled token =>
    cases LlamaState.step_sound ht with
    | sampled gen token hg hpc =>
      cases Option.some.inj (h.held.symm.trans hg)
      simp [hpc] at hinside
  | stopSet => cases hquiet
  | stopClear =>
    rw [hsame rfl]
    cases LlamaState.step_sound ht
    exact ⟨i, gen, h.other rfl rfl rfl⟩
  | clearContext =>
    cases LlamaState.step_sound ht with
    | clearContext hg => cases hg.symm.trans h.held
  | addToHistory role content =>
    rw [hsame rfl]
    cases LlamaState.step_sound ht
    exact ⟨i, gen, h.other rfl rfl rfl⟩

/-- The run: from its start to a point within the loop or right after it. -/
theorem PrefillAt.run (hbatch : 1 ≤ nBatch) (h : PrefillAt tokens nBatch start i s log gen)
    {es : List NativeEvent} {u : LlamaState} {log' : PrefillLog}
    (hok : Meets (withHistory (LlamaState.step m) PrefillLog.next)
      (fun x e => x.1.undisturbed e = true) (s, log) es)
    (hr : run (withHistory (LlamaState.step m) PrefillLog.next) (s, log) es = some (u, log')) :
    ∃ j gen', PrefillAt tokens nBatch start j u log' gen' := by
  refine run_invariant (I := fun x => ∃ j gen', PrefillAt tokens nBatch start j x.1 x.2 gen') ?_
    ⟨i, gen, h⟩ hok hr
  intro x e y hx hok hy
  obtain ⟨j, gen', hx⟩ := hx
  obtain ⟨hstep, hlog⟩ := withHistory_iff.mp hy
  rw [hlog]
  exact hx.step hbatch hok hstep

/-- Within the loop the generating thread can go on. -/
theorem PrefillAt.goes_on (m : LlamaModel) (h : PrefillAt tokens nBatch start i s log gen)
    (hin : s.prefillOffset.isSome = true) :
    ∃ e t, e.own = true ∧ s.undisturbed e = true ∧ LlamaState.step m s e = some t := by
  have hquiet : ∀ e : NativeEvent, e.quiet = true → s.undisturbed e = true := fun e he => by
    rw [LlamaState.undisturbed, hin, he]
    rfl
  rcases h.inside hin with hpc | ⟨hpc, hi⟩
  · obtain ⟨t, ht⟩ : ∃ t, s.advance m gen = some t := by
      by_cases hi : i < gen.tokens.length
      · exact ⟨s.goto gen (.prefillDecode i), by simp [LlamaState.advance, hpc, hi, h.running]⟩
      · exact ⟨s.goto gen .startGenerating, by simp [LlamaState.advance, hpc, hi]⟩
    exact ⟨.advance, t, rfl, hquiet _ rfl, by simpa [LlamaState.step, h.held] using ht⟩
  · exact ⟨.decoded .ok, s.prefillChunk gen i .ok, rfl, hquiet _ rfl,
      by simp [LlamaState.step, h.held, hpc]⟩

/-- Before the first round. -/
theorem prefillAt_start (hgen : s.gen = some gen) (hpc : gen.pc = .prefillCheck start)
    (hstart : start < gen.tokens.length) (hstop : s.shouldStop = false) :
    PrefillAt gen.tokens s.nBatch start start s ⟨[], 0⟩ gen := by
  refine ⟨hgen, rfl, rfl, hstop, Nat.le_refl _, by omega, .inl hpc, ?_, ?_, ?_⟩
  · rw [List.drop_eq_nil_of_le (List.length_take_le _ _)]
    rfl
  · exact fun batch hmem => absurd hmem List.not_mem_nil
  · rw [hpc, prefillMeasure]
    exact Nat.le_of_eq (Nat.zero_add _)

/-- A call about to decode five tokens, of which the first is reused, two at a time. -/
def fiveTokens : Generation where
  turn := 0
  prompt := []
  maxTokens := 4
  formatted := []
  tokens := [5, 6, 7, 8, 9]
  nGen := 0
  generatedTokens := []
  lastToken := -1
  repeatCount := 0
  response := []
  pc := .prefillCheck 1

end HeyNilo

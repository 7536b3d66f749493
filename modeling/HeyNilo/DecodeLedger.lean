import HeyNilo.CleanPrefill
import HeyNilo.GenerateStream

namespace HeyNilo

/-- How many entries of a batch of `n` a decode leaves in memory. -/
def storedCount : DecodeResult → Nat → Nat
  | .ok, n => n
  | .failed kept, n => min kept n

/-- The reuse decision has been taken. -/
def GenPc.decided : GenPc → Bool
  | .buildPrompt | .resetStop | .tokenize | .reuse => false
  | _ => true

namespace LlamaState

/-- The tokens the memory is meant to hold: those of the running turn once it has decided what to
reuse, before that and between turns the cached ones. -/
def meantTokens (s : LlamaState) : List LlamaToken :=
  match s.gen with
  | none => s.lastPromptTokens
  | some gen =>
    if gen.pc.decided then gen.tokens ++ gen.generatedTokens else s.lastPromptTokens

/-- A history variable: how many leading tokens of `meantTokens` have been decoded at their
positions and not been dropped since. It is computed from the events alone; the code keeps no such
count. -/
def nextSynced (k : Nat) (s : LlamaState) : NativeEvent → Nat
  | .seqRm ok =>
    match s.gen with
    | some gen =>
      if gen.pc = .reuse then
        if s.takesReuse gen ok then min k (commonPrefix gen.tokens s.lastPromptTokens) else 0
      else k
    | none => k
  | .decoded r =>
    match s.gen with
    | some gen =>
      match gen.pc with
      | .prefillDecode i =>
        let stored := storedCount r (curBatchSize gen.tokens s.nBatch i)
        let k := if k = i then i + stored else k
        match r with
        | .ok => k
        -- the turn is given up, and the cached tokens stay those of the turn before
        | .failed _ => min k (commonPrefix gen.tokens s.lastPromptTokens)
      | .decodeToken _ => if k = s.currentPos + gen.nGen then k + storedCount r 1 else k
      | _ => k
    | none => k
  | .stopClear => 0
  | .clearContext => 0
  | _ => k

/-- What is known of the running call at each of its points. -/
def GenShape (s : LlamaState) (k : Nat) (gen : Generation) : Prop :=
  match gen.pc with
  | .buildPrompt | .resetStop | .tokenize | .reuse => gen.nGen = 0 ∧ gen.generatedTokens = []
  | .prefillCheck i =>
    gen.nGen = 0 ∧ gen.generatedTokens = [] ∧ k ≤ i ∧
      ∀ p, min i gen.tokens.length ≤ p → s.ctx.kv p = none
  | .prefillDecode i =>
    gen.nGen = 0 ∧ gen.generatedTokens = [] ∧ k ≤ i ∧ (∀ p, i ≤ p → s.ctx.kv p = none) ∧
      i < gen.tokens.length
  | .startGenerating =>
    gen.nGen = 0 ∧ gen.generatedTokens = [] ∧ ∀ p, gen.tokens.length ≤ p → s.ctx.kv p = none
  | .resetStopAgain =>
    gen.nGen = 0 ∧ gen.generatedTokens = [] ∧ (∀ p, gen.tokens.length ≤ p → s.ctx.kv p = none) ∧
      s.currentPos = gen.tokens.length
  | .loopHead | .timeoutCheck | .sample =>
    gen.generatedTokens.length = gen.nGen ∧ s.currentPos = gen.tokens.length ∧
      (gen.nGen = 0 → ∀ p, gen.tokens.length ≤ p → s.ctx.kv p = none)
  | .decodeToken t =>
    gen.generatedTokens.length = gen.nGen + 1 ∧ gen.generatedTokens[gen.nGen]? = some t ∧
      s.currentPos = gen.tokens.length ∧ k ≤ gen.tokens.length + gen.nGen

/-- The memory holds the first `k` of the tokens `xs` at their positions. -/
def Holds (kv : Nat → Option LlamaToken) (xs : List LlamaToken) (k : Nat) : Prop :=
  ∀ p, p < k → ∃ t, xs[p]? = some t ∧ kv p = some t

structure LedgerInv (s : LlamaState) (k : Nat) : Prop where
  holds : Holds s.ctx.kv s.meantTokens k
  shape : ∀ gen, s.gen = some gen → GenShape s k gen

theorem Holds.le_length {kv : Nat → Option LlamaToken} {xs : List LlamaToken} {k : Nat}
    (h : Holds kv xs k) : k ≤ xs.length := by
  by_contra hlt
  obtain ⟨t, ht, _⟩ := h xs.length (by omega)
  simp at ht

theorem Holds.append {kv : Nat → Option LlamaToken} {xs ys : List LlamaToken} {k : Nat}
    (h : Holds kv xs k) : Holds kv (xs ++ ys) k := by
  intro p hp
  obtain ⟨t, ht, hkv⟩ := h p hp
  refine ⟨t, ?_, hkv⟩
  rwa [List.getElem?_append_left (by have := h.le_length; omega)]

theorem Holds.common {kv : Nat → Option LlamaToken} {xs ys : List LlamaToken} {k : Nat}
    (h : Holds kv ys k) : Holds kv xs (min k (commonPrefix xs ys)) := by
  intro p hp
  obtain ⟨t, ht, hkv⟩ := h p (by omega)
  exact ⟨t, (commonPrefix_agree (by omega)).symm.trans ht, hkv⟩

theorem commonPrefix_comm (xs ys : List LlamaToken) : commonPrefix xs ys = commonPrefix ys xs := by
  induction xs generalizing ys with
  | nil => cases ys <;> rfl
  | cons x xs ih =>
    cases ys with
    | nil => rfl
    | cons y ys =>
      simp only [commonPrefix, ih ys, eq_comm (a := x)]

theorem LedgerInv.loaded (nBatch : Int) (nCtx : Nat) (systemPrompt : Bytes) :
    LedgerInv (loaded nBatch nCtx systemPrompt) 0 :=
  ⟨fun p hp => absurd hp (by omega), fun gen h => by simp [LlamaState.loaded] at h⟩

theorem LedgerInv.of_cached {s : LlamaState} {k : Nat} {gen : Generation} (hg : s.gen = some gen)
    (hd : gen.pc.decided = false) (hh : Holds s.ctx.kv s.lastPromptTokens k)
    (hshape : GenShape s k gen) : LedgerInv s k := by
  refine ⟨by simpa [meantTokens, hg, hd] using hh, fun g h => ?_⟩
  cases Option.some.inj (h.symm.trans hg)
  exact hshape

theorem LedgerInv.of_decided {s : LlamaState} {k : Nat} {gen : Generation} (hg : s.gen = some gen)
    (hd : gen.pc.decided = true) (hh : Holds s.ctx.kv (gen.tokens ++ gen.generatedTokens) k)
    (hshape : GenShape s k gen) : LedgerInv s k := by
  refine ⟨by simpa [meantTokens, hg, hd] using hh, fun g h => ?_⟩
  cases Option.some.inj (h.symm.trans hg)
  exact hshape

theorem LedgerInv.of_idle {s : LlamaState} {k : Nat} (hg : s.gen = none)
    (hh : Holds s.ctx.kv s.lastPromptTokens k) : LedgerInv s k :=
  ⟨by simpa [meantTokens, hg] using hh, fun g h => by simp [hg] at h⟩

theorem LedgerInv.cached {s : LlamaState} {k : Nat} {gen : Generation} (h : LedgerInv s k)
    (hg : s.gen = some gen) (hd : gen.pc.decided = false) :
    Holds s.ctx.kv s.lastPromptTokens k := by
  simpa [meantTokens, hg, hd] using h.holds

theorem LedgerInv.decided {s : LlamaState} {k : Nat} {gen : Generation} (h : LedgerInv s k)
    (hg : s.gen = some gen) (hd : gen.pc.decided = true) :
    Holds s.ctx.kv (gen.tokens ++ gen.generatedTokens) k := by
  simpa [meantTokens, hg, hd] using h.holds

theorem LedgerInv.idle {s : LlamaState} {k : Nat} (h : LedgerInv s k) (hg : s.gen = none) :
    Holds s.ctx.kv s.lastPromptTokens k := by
  simpa [meantTokens, hg] using h.holds

theorem LedgerInv.finish {s : LlamaState} {k : Nat} {gen : Generation}
    (h : Holds s.ctx.kv (gen.tokens ++ gen.generatedTokens) k) : LedgerInv (s.finish gen) k :=
  .of_idle rfl h

theorem LedgerInv.advance {m : LlamaModel} {s t : LlamaState} {k : Nat} (h : LedgerInv s k)
    (hs : Step m s .advance t) : LedgerInv t k := by
  cases hs with
  | promptBuilt gen hg hpc | stopReset gen hg hpc | tokenized gen hg hpc =>
    have hshape := h.shape gen hg
    simp only [GenShape, hpc] at hshape
    exact .of_cached rfl rfl (h.cached hg (by simp [hpc, GenPc.decided])) hshape
  | tooLong gen hg hpc => exact .of_idle rfl (h.cached hg (by simp [hpc, GenPc.decided]))
  | prefillStopped gen i hg hpc hi | prefillOver gen i hg hpc hi =>
    have hh := h.decided hg (by simp [hpc, GenPc.decided])
    have hshape := h.shape gen hg
    simp only [GenShape, hpc] at hshape
    obtain ⟨hn, hgen, -, hnone⟩ := hshape
    have hbeyond (p : Nat) (hp : gen.tokens.length ≤ p) : s.ctx.kv p = none := hnone p (by omega)
    exact .of_decided rfl rfl hh ⟨hn, hgen, hbeyond⟩
  | prefillGoesOn gen i hg hpc hi =>
    have hh := h.decided hg (by simp [hpc, GenPc.decided])
    have hshape := h.shape gen hg
    simp only [GenShape, hpc] at hshape
    obtain ⟨hn, hgen, hk, hnone⟩ := hshape
    exact .of_decided rfl rfl hh ⟨hn, hgen, hk, fun p hp => hnone p (by omega), hi⟩
  | started gen hg hpc =>
    have hh := h.decided hg (by simp [hpc, GenPc.decided])
    have hshape := h.shape gen hg
    simp only [GenShape, hpc] at hshape
    exact .of_decided rfl rfl hh ⟨hshape.1, hshape.2.1, hshape.2.2, rfl⟩
  | stopResetAgain gen hg hpc =>
    have hh := h.decided hg (by simp [hpc, GenPc.decided])
    have hshape := h.shape gen hg
    simp only [GenShape, hpc] at hshape
    obtain ⟨hn, hgen, hnone, hpos⟩ := hshape
    exact .of_decided rfl rfl hh ⟨by simp [hn, hgen], hpos, fun _ => hnone⟩
  | loopGoesOn gen hg hpc =>
    have hh := h.decided hg (by simp [hpc, GenPc.decided])
    have hshape := h.shape gen hg
    simp only [GenShape, hpc] at hshape
    exact .of_decided rfl rfl hh hshape
  | loopEnds gen hg hpc => exact .finish (h.decided hg (by simp [hpc, GenPc.decided]))

theorem LedgerInv.reuseKv {s : LlamaState} {k : Nat} {gen : Generation} {ok : Bool}
    (h : LedgerInv s k) (hg : s.gen = some gen) (hpc : gen.pc = .reuse) :
    LedgerInv (s.reuseKv gen ok)
      (if s.takesReuse gen ok then min k (commonPrefix gen.tokens s.lastPromptTokens) else 0) := by
  have hh := h.cached hg (by simp [hpc, GenPc.decided])
  have hshape := h.shape gen hg
  simp only [GenShape, hpc] at hshape
  obtain ⟨hn, hgen⟩ := hshape
  unfold LlamaState.reuseKv
  by_cases hr : s.takesReuse gen ok = true
  · have hle := commonPrefix_le_left gen.tokens s.lastPromptTokens
    rw [if_pos hr, if_pos hr]
    refine .of_decided rfl rfl ?_ ⟨hn, hgen, by omega, ?_⟩
    · refine Holds.append fun p hp => ?_
      obtain ⟨t, ht, hkv⟩ := hh.common p hp
      refine ⟨t, ht, ?_⟩
      show (if p < _ then s.ctx.kv p else none) = some t
      rw [if_pos (by omega), hkv]
    · intro p hp
      rw [Nat.min_eq_left hle] at hp
      exact if_neg (Nat.not_lt.mpr hp)
  · rw [if_neg hr, if_neg hr]
    exact .of_decided rfl rfl (fun p hp => absurd hp (by omega)) ⟨hn, hgen, by omega, fun _ _ => rfl⟩

/-- A decode that keeps `n` entries of the chunk adds those to a memory synced up to the chunk. -/
theorem Holds.chunk {kv : Nat → Option LlamaToken} {tokens : List LlamaToken} {i k n : Nat}
    (h : Holds kv tokens k) (hk : k ≤ i) (hn : i + n ≤ tokens.length) :
    Holds (storeBatch kv (prefillBatch tokens i n)) tokens (if k = i then i + n else k) := by
  intro p hp
  rw [storeBatch_prefill _ hn]
  by_cases hlt : p < k
  · rw [if_neg (by omega)]
    exact h p hlt
  · have hki : k = i := by
      by_contra hne
      rw [if_neg hne] at hp
      omega
    rw [if_pos hki] at hp
    rw [if_pos (by omega)]
    exact ⟨tokens[p], by rw [List.getElem?_eq_getElem], by rw [List.getElem?_eq_getElem]⟩

theorem LedgerInv.prefillChunk {s : LlamaState} {k i : Nat} {gen : Generation} {r : DecodeResult}
    (h : LedgerInv s k) (hg : s.gen = some gen) (hpc : gen.pc = .prefillDecode i) :
    LedgerInv (s.prefillChunk gen i r) (nextSynced k s (.decoded r)) := by
  have hshape := h.shape gen hg
  simp only [GenShape, hpc] at hshape
  obtain ⟨hn, hgen, hk, hnone, hi⟩ := hshape
  have hh : Holds s.ctx.kv gen.tokens k := by
    simpa [hgen] using h.decided hg (by simp [hpc, GenPc.decided])
  have hcur : i + curBatchSize gen.tokens s.nBatch i ≤ gen.tokens.length := by
    unfold curBatchSize
    omega
  simp only [nextSynced, hg, hpc]
  cases r with
  | ok =>
    refine .of_decided rfl rfl (Holds.append (hh.chunk hk hcur)) ⟨hn, hgen, ?_, ?_⟩
    · simp only [storedCount, curBatchSize]
      split <;> omega
    · intro p (hp : min (i + s.nBatch) gen.tokens.length ≤ p)
      show (llamaDecode gen.turn s.ctx _ .ok).kv p = none
      rw [llamaDecode_chunk hi, if_neg (by omega)]
      exact hnone p (by omega)
  | failed kept =>
    have hkept : i + min kept (curBatchSize gen.tokens s.nBatch i) ≤ gen.tokens.length := by omega
    have hstored := hh.chunk hk hkept
    rw [← prefillBatch_take_min] at hstored
    refine .of_idle rfl ?_
    rw [commonPrefix_comm]
    exact Holds.common hstored

theorem LedgerInv.decodeSampled {s : LlamaState} {k : Nat} {gen : Generation} {t : LlamaToken}
    {r : DecodeResult} (h : LedgerInv s k) (hg : s.gen = some gen)
    (hpc : gen.pc = .decodeToken t) :
    LedgerInv (s.decodeSampled gen t r) (nextSynced k s (.decoded r)) := by
  have hh := h.decided hg (by simp [hpc, GenPc.decided])
  have hshape := h.shape gen hg
  simp only [GenShape, hpc] at hshape
  obtain ⟨hlen, ht, hpos, hk⟩ := hshape
  have hat : (gen.tokens ++ gen.generatedTokens)[s.currentPos + gen.nGen]? = some t := by
    rw [hpos, List.getElem?_append_right (by omega)]
    simpa using ht
  -- the write is at or above the synced prefix, so it extends it or leaves it alone
  have hstored : Holds (Function.update s.ctx.kv (s.currentPos + gen.nGen) (some t))
      (gen.tokens ++ gen.generatedTokens) (if k = s.currentPos + gen.nGen then k + 1 else k) := by
    intro p hp
    by_cases hw : p = s.currentPos + gen.nGen
    · exact ⟨t, by rw [hw, hat], by simp [hw]⟩
    · obtain ⟨u, hu, hkv⟩ := hh p (by split at hp <;> omega)
      exact ⟨u, hu, by simpa [hw] using hkv⟩
  simp only [nextSynced, hg, hpc]
  cases r with
  | ok =>
    refine .of_decided rfl rfl hstored ⟨hlen, hpos, ?_⟩
    intro hz
    exact absurd hz (Nat.succ_ne_zero _)
  | failed kept =>
    refine .finish ?_
    cases kept with
    | zero => simpa [storedCount, llamaDecode] using hh
    | succ kept => simpa [storedCount, llamaDecode, batchAdd, storeBatch] using hstored

theorem LedgerInv.afterSample {m : LlamaModel} {s : LlamaState} {k : Nat} {gen : Generation}
    {token : LlamaToken} (h : LedgerInv s k) (hg : s.gen = some gen) (hpc : gen.pc = .sample) :
    LedgerInv (s.afterSample m gen token) k := by
  have hh := h.decided hg (by simp [hpc, GenPc.decided])
  have hshape := h.shape gen hg
  simp only [GenShape, hpc] at hshape
  obtain ⟨hlen, hpos, _⟩ := hshape
  have hk : k ≤ gen.tokens.length + gen.nGen := by simpa [hlen] using hh.le_length
  have hh' : Holds s.ctx.kv (gen.tokens ++ (gen.generatedTokens ++ [token])) k := by
    have happ : Holds s.ctx.kv ((gen.tokens ++ gen.generatedTokens) ++ [token]) k := hh.append
    simpa using happ
  have hlast : (gen.generatedTokens ++ [token])[gen.nGen]? = some token := by
    rw [← hlen]
    simp
  rcases afterSample_cases m s gen token with he | he | ⟨response, texts, _, he⟩
  · rw [he]
    exact .finish hh
  · rw [he]
    exact .finish hh'
  · rw [he]
    exact .of_decided rfl rfl hh' ⟨by simp [Generation.record, hlen], hlast, hpos, hk⟩

theorem GenShape.clear {s : LlamaState} {k n : Nat} {gen : Generation} (h : GenShape s k gen) :
    GenShape { s with ctx := llamaMemoryClear s.ctx, pendingClears := n } 0 gen := by
  unfold GenShape at h ⊢
  cases hpc : gen.pc with
  | decodeToken t =>
    simp only [hpc] at h ⊢
    exact ⟨h.1, h.2.1, h.2.2.1, by omega⟩
  | _ =>
    simp only [hpc] at h ⊢
    simp_all [llamaMemoryClear]

theorem LedgerInv.step {m : LlamaModel} {s t : LlamaState} {k : Nat} {e : NativeEvent}
    (h : LedgerInv s k) (ht : s.step m e = some t) : LedgerInv t (nextSynced k s e) := by
  cases e with
  | generate prompt maxTokens =>
    cases step_sound ht with
    | generate prompt maxTokens hg => exact .of_cached rfl rfl (h.idle hg) ⟨rfl, rfl⟩
  | advance => exact h.advance (step_sound ht)
  | seqRm ok =>
    cases step_sound ht with
    | reused gen ok hg hpc => simpa [nextSynced, hg, hpc] using h.reuseKv hg hpc
  | decoded r =>
    cases step_sound ht with
    | promptDecoded gen i r hg hpc => exact h.prefillChunk hg hpc
    | tokenDecoded gen token r hg hpc => exact h.decodeSampled hg hpc
  | clock timedOut =>
    cases step_sound ht with
    | timedOut gen hg hpc => exact .finish (h.decided hg (by simp [hpc, GenPc.decided]))
    | inTime gen hg hpc =>
      have hshape := h.shape gen hg
      simp only [GenShape, hpc] at hshape
      have hdecided := h.decided hg (by simp [hpc, GenPc.decided])
      exact .of_decided rfl rfl hdecided hshape
  | sampled token =>
    cases step_sound ht with
    | sampled gen token hg hpc => exact h.afterSample hg hpc
  | stopSet =>
    cases step_sound ht
    exact ⟨h.holds, h.shape⟩
  | stopClear =>
    cases step_sound ht
    exact ⟨fun p hp => absurd hp (by simp [nextSynced]), fun gen hg => (h.shape gen hg).clear⟩
  | clearContext =>
    cases step_sound ht with
    | clearContext hg => exact .of_idle hg (fun p hp => absurd hp (by simp [nextSynced]))
  | addToHistory role content =>
    cases step_sound ht
    exact ⟨h.holds, h.shape⟩

end LlamaState

end HeyNilo

import HeyNilo.DecodeLedger
import HeyNilo.Machine

namespace HeyNilo

open Machine

/-- The points between the reuse decision and a call of the sampler. -/
def GenPc.beforeSample : GenPc → Bool
  | .prefillCheck _ | .prefillDecode _ | .startGenerating | .resetStopAgain | .loopHead
  | .timeoutCheck | .sample => true
  | _ => false

namespace LlamaState

/-- The steps that leave in memory what a full prefill would. The number beside the state counts
the tokens of the memory that are known to be decoded. -/
def keepsPrompt (s : LlamaState × Nat) : NativeEvent → Bool
  | .seqRm ok =>
    match s.1.gen with
    | none => true
    | some gen =>
      let common := commonPrefix gen.tokens s.1.lastPromptTokens
      if s.1.takesReuse gen ok then decide (common ≤ s.2 ∧ common < gen.tokens.length)
      else decide (gen.tokens ≠ [])
  | .advance =>
    match s.1.gen with
    | none => true
    | some gen =>
      match gen.pc with
      | .prefillCheck i => decide (i < gen.tokens.length → s.1.shouldStop = false)
      | _ => true
  | .stopClear =>
    match s.1.gen with
    | none => true
    | some gen => decide (gen.pc.beforeSample = true → gen.nGen = 0 → s.2 = 0)
  | _ => true

/-- The logits are those of the last prompt token, decoded in this turn. -/
def PromptLogits (ctx : LlamaContext) (gen : Generation) : Prop :=
  ctx.logits = gen.tokens.getLast?.map fun t => ⟨gen.turn, gen.tokens.length - 1, t⟩

/-- The whole prompt is decoded and its logits are at hand. -/
structure PromptReady (ctx : LlamaContext) (k : Nat) (gen : Generation) : Prop where
  all : k = gen.tokens.length
  nonempty : gen.tokens ≠ []
  logits : PromptLogits ctx gen

/-- How far the prompt of the running call is decoded at each of its points. -/
def PromptProgress (ctx : LlamaContext) (k : Nat) (gen : Generation) : Prop :=
  match gen.pc with
  | .prefillCheck i =>
    k = min i gen.tokens.length ∧ gen.tokens ≠ [] ∧
      (gen.tokens.length ≤ i → PromptLogits ctx gen)
  | .prefillDecode i => k = i ∧ gen.tokens ≠ []
  | .startGenerating | .resetStopAgain => PromptReady ctx k gen
  | .loopHead | .timeoutCheck | .sample => gen.nGen = 0 → PromptReady ctx k gen
  | _ => True

structure Synced (s : LlamaState) (k : Nat) : Prop where
  ledger : LedgerInv s k
  batch : 0 < s.nBatch
  progress : ∀ gen, s.gen = some gen → PromptProgress s.ctx k gen

theorem Synced.loaded (nBatch : Int) (nCtx : Nat) (systemPrompt : Bytes) :
    Synced (loaded nBatch nCtx systemPrompt) 0 := by
  refine ⟨.loaded nBatch nCtx systemPrompt, ?_, fun gen h => by simp [LlamaState.loaded] at h⟩
  simp only [LlamaState.loaded]
  split <;> omega

theorem step_nBatch {m : LlamaModel} {s t : LlamaState} {e : NativeEvent}
    (ht : s.step m e = some t) : t.nBatch = s.nBatch := by
  cases step_sound ht with
  | reused gen ok hg hpc =>
    unfold LlamaState.reuseKv
    split <;> rfl
  | promptDecoded gen i r hg hpc => cases r <;> rfl
  | tokenDecoded gen token r hg hpc => cases r <;> rfl
  | sampled gen token hg hpc =>
    rcases afterSample_cases m s gen token with he | he | ⟨_, _, _, he⟩ <;> rw [he] <;> rfl
  | _ => rfl

theorem PromptProgress.advance {m : LlamaModel} {s t : LlamaState} {k : Nat}
    (h : ∀ gen, s.gen = some gen → PromptProgress s.ctx k gen) (hok : keepsPrompt (s, k) .advance)
    (hs : Step m s .advance t) : ∀ gen', t.gen = some gen' → PromptProgress t.ctx k gen' := by
  cases hs with
  | promptBuilt | stopReset | tokenized =>
    rintro _ ⟨⟩
    trivial
  | tooLong | loopEnds => rintro _ ⟨⟩
  | prefillStopped gen i hg hpc hi hstop =>
    simp only [keepsPrompt, hg, hpc] at hok
    exact absurd (of_decide_eq_true hok hi) (by simp [hstop])
  | prefillGoesOn gen i hg hpc hi hstop =>
    have hp := h gen hg
    simp only [PromptProgress, hpc] at hp
    obtain ⟨hk, hne, -⟩ := hp
    rintro _ ⟨⟩
    exact ⟨by omega, hne⟩
  | prefillOver gen i hg hpc hi =>
    have hp := h gen hg
    simp only [PromptProgress, hpc] at hp
    obtain ⟨hk, hne, hlogits⟩ := hp
    have hall : k = gen.tokens.length := by omega
    rintro _ ⟨⟩
    exact ⟨hall, hne, hlogits hi⟩
  | started gen hg hpc =>
    have hp := h gen hg
    simp only [PromptProgress, hpc] at hp
    rintro _ ⟨⟩
    exact ⟨hp.all, hp.nonempty, hp.logits⟩
  | stopResetAgain gen hg hpc =>
    have hp := h gen hg
    simp only [PromptProgress, hpc] at hp
    rintro _ ⟨⟩
    exact fun _ => ⟨hp.all, hp.nonempty, hp.logits⟩
  | loopGoesOn gen hg hpc hn hstop =>
    have hp := h gen hg
    simp only [PromptProgress, hpc] at hp
    rintro _ ⟨⟩
    exact fun hn => ⟨(hp hn).all, (hp hn).nonempty, (hp hn).logits⟩

theorem PromptProgress.reuseKv {s : LlamaState} {k : Nat} {gen : Generation} {ok : Bool}
    (hok : keepsPrompt (s, k) (.seqRm ok)) (hg : s.gen = some gen) :
    ∀ gen', (s.reuseKv gen ok).gen = some gen' → PromptProgress (s.reuseKv gen ok).ctx
      (if s.takesReuse gen ok then min k (commonPrefix gen.tokens s.lastPromptTokens) else 0)
      gen' := by
  simp only [keepsPrompt, hg] at hok
  unfold LlamaState.reuseKv
  by_cases hr : s.takesReuse gen ok = true
  · simp only [if_pos hr] at hok ⊢
    obtain ⟨hk, hlt⟩ := of_decide_eq_true hok
    rintro _ ⟨⟩
    refine ⟨?_, List.ne_nil_of_length_pos (by omega : 0 < gen.tokens.length), ?_⟩
    · show min k _ = min (commonPrefix gen.tokens s.lastPromptTokens) gen.tokens.length
      omega
    · intro (hle : gen.tokens.length ≤ commonPrefix gen.tokens s.lastPromptTokens)
      omega
  · simp only [if_neg hr] at hok ⊢
    rintro _ ⟨⟩
    have hne := of_decide_eq_true hok
    have hpos := List.length_pos_iff.mpr hne
    exact ⟨by simp, hne, fun (hle : gen.tokens.length ≤ 0) => by omega⟩

theorem PromptProgress.prefillChunk {s : LlamaState} {k i : Nat} {gen : Generation}
    {r : DecodeResult} (h : PromptProgress s.ctx k gen) (hl : GenShape s k gen)
    (hg : s.gen = some gen) (hpc : gen.pc = .prefillDecode i) :
    ∀ gen', (s.prefillChunk gen i r).gen = some gen' →
      PromptProgress (s.prefillChunk gen i r).ctx (nextSynced k s (.decoded r)) gen' := by
  simp only [PromptProgress, hpc] at h
  simp only [GenShape, hpc] at hl
  obtain ⟨hk, hne⟩ := h
  obtain ⟨_, _, _, _, hi⟩ := hl
  cases r with
  | failed kept => rintro _ ⟨⟩
  | ok =>
    rintro _ ⟨⟩
    simp only [nextSynced, hg, hpc, if_pos hk, storedCount]
    refine ⟨?_, hne, fun (hle : gen.tokens.length ≤ i + s.nBatch) => ?_⟩
    · show i + curBatchSize gen.tokens s.nBatch i = min (i + s.nBatch) gen.tokens.length
      unfold curBatchSize
      omega
    · exact llamaDecode_chunk_logits hi hle

/-- Where a stop may clear the memory before the first sample, there is nothing in it yet. -/
theorem PromptProgress.stopClear {s : LlamaState} {k : Nat} {gen : Generation}
    (h : PromptProgress s.ctx k gen) (hok : keepsPrompt (s, k) .stopClear)
    (hl : GenShape s k gen) (hg : s.gen = some gen) :
    PromptProgress (llamaMemoryClear s.ctx) 0 gen := by
  simp only [keepsPrompt, hg] at hok
  replace hok := of_decide_eq_true hok
  have hcontra (hr : PromptReady s.ctx k gen) (hk : k = 0) : False :=
    hr.nonempty (List.length_eq_zero_iff.mp (hr.all.symm.trans hk))
  unfold PromptProgress at h ⊢
  unfold GenShape at hl
  cases hpc : gen.pc with
  | prefillCheck i =>
    simp only [hpc] at h hl ⊢
    obtain ⟨hk, hne, _⟩ := h
    have hzero : k = 0 := hok (by simp [hpc, GenPc.beforeSample]) hl.1
    have hpos := List.length_pos_iff.mpr hne
    exact ⟨by omega, hne, fun hle => by omega⟩
  | prefillDecode i =>
    simp only [hpc] at h hl ⊢
    have hzero : k = 0 := hok (by simp [hpc, GenPc.beforeSample]) hl.1
    exact ⟨by omega, h.2⟩
  | startGenerating | resetStopAgain =>
    simp only [hpc] at h hl
    exact (hcontra h (hok (by simp [hpc, GenPc.beforeSample]) hl.1)).elim
  | loopHead | timeoutCheck | sample =>
    simp only [hpc] at h ⊢
    intro hn
    exact (hcontra (h hn) (hok (by simp [hpc, GenPc.beforeSample]) hn)).elim
  | _ => trivial

theorem Synced.step {m : LlamaModel} {s t : LlamaState} {k : Nat} {e : NativeEvent}
    (h : Synced s k) (hok : keepsPrompt (s, k) e) (ht : s.step m e = some t) :
    Synced t (nextSynced k s e) := by
  refine ⟨h.ledger.step ht, (step_nBatch ht).symm ▸ h.batch, ?_⟩
  cases e with
  | advance => exact PromptProgress.advance h.progress hok (step_sound ht)
  | generate prompt maxTokens =>
    cases step_sound ht
    rintro _ ⟨⟩
    trivial
  | seqRm ok =>
    cases step_sound ht with
    | reused gen ok hg hpc => simpa [nextSynced, hg, hpc] using PromptProgress.reuseKv hok hg
  | decoded r =>
    cases step_sound ht with
    | promptDecoded gen i r hg hpc =>
      exact (h.progress gen hg).prefillChunk (h.ledger.shape gen hg) hg hpc
    | tokenDecoded gen token r hg hpc =>
      cases r with
      | ok =>
        rintro _ ⟨⟩
        exact fun hn => absurd hn (Nat.succ_ne_zero _)
      | failed kept => rintro _ ⟨⟩
  | clock timedOut =>
    cases step_sound ht with
    | timedOut gen hg hpc => rintro _ ⟨⟩
    | inTime gen hg hpc =>
      have hp := h.progress gen hg
      simp only [PromptProgress, hpc] at hp
      rintro _ ⟨⟩
      exact fun hn => ⟨(hp hn).all, (hp hn).nonempty, (hp hn).logits⟩
  | sampled token =>
    cases step_sound ht with
    | sampled gen token hg hpc =>
      rcases afterSample_cases m s gen token with he | he | ⟨_, _, _, he⟩ <;> rw [he] <;>
        rintro _ ⟨⟩
      trivial
  | stopSet =>
    cases step_sound ht
    exact h.progress
  | stopClear =>
    cases step_sound ht
    exact fun gen hg => (h.progress gen hg).stopClear hok (h.ledger.shape gen hg) hg
  | clearContext =>
    cases step_sound ht with
    | clearContext hidle =>
      intro gen hg
      cases hidle.symm.trans hg
  | addToHistory role content =>
    cases step_sound ht
    exact h.progress

theorem Synced.run {m : LlamaModel} {nBatch : Int} {nCtx : Nat} {systemPrompt : Bytes}
    {es : List NativeEvent} {s : LlamaState} {k : Nat}
    (hok : Meets (withHistory (LlamaState.step m) nextSynced) (keepsPrompt · ·)
      (LlamaState.loaded nBatch nCtx systemPrompt, 0) es)
    (hr : Machine.run (withHistory (LlamaState.step m) nextSynced)
      (LlamaState.loaded nBatch nCtx systemPrompt, 0) es = some (s, k)) : Synced s k := by
  refine run_invariant (I := fun s => Synced s.1 s.2) ?_ (Synced.loaded nBatch nCtx systemPrompt)
    hok hr
  rintro ⟨s, k⟩ e ⟨t, j⟩ hs hok ht
  obtain ⟨hstep, rfl⟩ := withHistory_iff.mp ht
  exact hs.step hok hstep

theorem Synced.prefilled {s : LlamaState} {k : Nat} {gen : Generation} (h : Synced s k)
    (hg : s.gen = some gen) (hpc : gen.pc = .sample) (hn : gen.nGen = 0) :
    Prefilled gen.turn gen.tokens s.ctx := by
  have hp := h.progress gen hg
  have hl := h.ledger.shape gen hg
  have hh := h.ledger.decided hg (by simp [hpc, GenPc.decided])
  simp only [PromptProgress, hpc] at hp
  simp only [GenShape, hpc] at hl
  obtain ⟨hlen, _, hbeyond⟩ := hl
  have hgen : gen.generatedTokens = [] := List.length_eq_zero_iff.mp (hlen.trans hn)
  have hready := hp hn
  rw [hgen, List.append_nil] at hh
  refine prefilled_of_take hready.nonempty (Nat.le_refl _) (fun p => ?_) hready.logits
  rw [List.take_length]
  rcases Nat.lt_or_ge p gen.tokens.length with hlt | hge
  · obtain ⟨t, ht, hkv⟩ := hh p (by rw [hready.all]; exact hlt)
    rw [hkv, ht]
  · rw [hbeyond hn p hge, List.getElem?_eq_none hge]

/-- In a run whose steps all keep the prompt, every first sample is taken from the state that a
full prefill would have left. -/
theorem firstSample_prefilled {m : LlamaModel} {nBatch : Int} {nCtx : Nat} {systemPrompt : Bytes}
    {es : List NativeEvent} {s : LlamaState} {k : Nat} {gen : Generation}
    (hok : Meets (withHistory (LlamaState.step m) nextSynced) (keepsPrompt · ·)
      (LlamaState.loaded nBatch nCtx systemPrompt, 0) es)
    (hr : Machine.run (withHistory (LlamaState.step m) nextSynced)
      (LlamaState.loaded nBatch nCtx systemPrompt, 0) es = some (s, k))
    (hg : s.gen = some gen) (hpc : gen.pc = .sample) (hn : gen.nGen = 0) :
    Prefilled gen.turn gen.tokens s.ctx ∧
      ∀ ctx, s.ctx = cleanPrefill gen.turn s.nBatch gen.tokens ctx := by
  have h := Synced.run hok hr
  have hp := h.prefilled hg hpc hn
  have hready := h.progress gen hg
  simp only [PromptProgress, hpc] at hready
  have hne := (hready hn).nonempty
  exact ⟨hp, fun ctx => hp.unique (cleanPrefill_prefilled h.batch hne)⟩

/-- A second prompt that reuses 19 tokens of the first. -/
theorem firstSample_prefilled_reused :
    ∃ s k gen, Machine.run (withHistory (LlamaState.step byteModel) nextSynced)
        (LlamaState.loaded 512 1024 [], 0)
        (promptTurn (ascii "hi") ++ [.sampled 0] ++ promptTurn (ascii "ho")) = some (s, k) ∧
      s.gen = some gen ∧ gen.turn = 1 ∧ Prefilled gen.turn gen.tokens s.ctx ∧
      ∀ ctx, s.ctx = cleanPrefill gen.turn s.nBatch gen.tokens ctx := by
  have hrun : (Machine.run (withHistory (LlamaState.step byteModel) nextSynced)
      (LlamaState.loaded 512 1024 [], 0)
      (promptTurn (ascii "hi") ++ [.sampled 0] ++ promptTurn (ascii "ho"))).map
        (fun s => s.1.gen.map fun gen => (gen.turn, gen.pc, gen.nGen)) =
      some (some (1, .sample, 0)) := by decide
  obtain ⟨⟨s, k⟩, hr, hs⟩ := Option.map_eq_some_iff.mp hrun
  obtain ⟨gen, hg, hpc⟩ := Option.map_eq_some_iff.mp hs
  simp only [Prod.mk.injEq] at hpc
  exact ⟨s, k, gen, hr, hg, hpc.1,
    firstSample_prefilled (by decide) hr hg hpc.2.1 hpc.2.2⟩

/-- A stop between two turns empties the memory but leaves the tokens recorded as cached, so the
next prompt is sampled from without its beginning. -/
theorem stop_between_turns_spoils_prompt :
    ∃ s gen, Machine.run (LlamaState.step byteModel) (LlamaState.loaded 512 1024 [])
        (promptTurn (ascii "hi") ++ [.sampled 0, .stopSet, .stopClear] ++
          promptTurn (ascii "ho")) = some s ∧
      s.gen = some gen ∧ gen.pc = .sample ∧ gen.nGen = 0 ∧
      ¬ Prefilled gen.turn gen.tokens s.ctx := by
  have hrun : (Machine.run (LlamaState.step byteModel) (LlamaState.loaded 512 1024 [])
      (promptTurn (ascii "hi") ++ [.sampled 0, .stopSet, .stopClear] ++
        promptTurn (ascii "ho"))).map
        (fun s => (s.gen.map fun gen => (gen.pc, gen.nGen, gen.tokens[0]?), s.ctx.kv 0)) =
      some (some (.sample, 0, some 60), none) := by decide
  obtain ⟨s, hr, hs⟩ := Option.map_eq_some_iff.mp hrun
  obtain ⟨hgen, hkv⟩ := Prod.mk.inj hs
  obtain ⟨gen, hg, hpc⟩ := Option.map_eq_some_iff.mp hgen
  simp only [Prod.mk.injEq] at hpc
  refine ⟨s, gen, hr, hg, hpc.1, hpc.2.1, fun hp => ?_⟩
  have hfirst := hp.1 0
  rw [hkv, hpc.2.2] at hfirst
  cases hfirst

end LlamaState

end HeyNilo

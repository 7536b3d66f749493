import HeyNilo.LlamaContext

namespace HeyNilo

/-- The prefill loop with no stop request and no failing decode, from offset `i` on. -/
def prefillFrom (turn nBatch : Nat) (tokens : List LlamaToken) (ctx : LlamaContext) :
    Nat → Nat → LlamaContext
  | 0, _ => ctx
  | fuel + 1, i =>
    if i < tokens.length then
      prefillFrom turn nBatch tokens
        (llamaDecode turn ctx (prefillBatch tokens i (curBatchSize tokens nBatch i)) .ok)
        fuel (i + nBatch)
    else ctx

/-- Clearing the cache and prefilling the whole prompt. -/
def cleanPrefill (turn nBatch : Nat) (tokens : List LlamaToken) (ctx : LlamaContext) :
    LlamaContext :=
  prefillFrom turn nBatch tokens (llamaMemoryClear ctx) tokens.length 0

/-- Memory and logits are those of the prompt of this turn, and of nothing else. -/
def Prefilled (turn : Nat) (tokens : List LlamaToken) (ctx : LlamaContext) : Prop :=
  (∀ p, ctx.kv p = tokens[p]?) ∧
    ∃ t, tokens.getLast? = some t ∧ ctx.logits = some ⟨turn, tokens.length - 1, t⟩

theorem llamaDecode_chunk {turn nBatch i : Nat} {tokens : List LlamaToken} {ctx : LlamaContext}
    (hi : i < tokens.length) (p : Nat) :
    (llamaDecode turn ctx (prefillBatch tokens i (curBatchSize tokens nBatch i)) .ok).kv p =
      if i ≤ p ∧ p < i + nBatch ∧ p < tokens.length then tokens[p]? else ctx.kv p := by
  have hn : i + curBatchSize tokens nBatch i ≤ tokens.length := by
    unfold curBatchSize
    omega
  simp only [llamaDecode, storeBatch_prefill _ hn]
  have hw : (i ≤ p ∧ p < i + curBatchSize tokens nBatch i) ↔
      (i ≤ p ∧ p < i + nBatch ∧ p < tokens.length) := by
    unfold curBatchSize
    omega
  simp only [hw]

/-- The round that reaches the end of the prompt leaves the logits of its last token. -/
theorem llamaDecode_chunk_logits {turn nBatch i : Nat} {tokens : List LlamaToken}
    {ctx : LlamaContext} (hi : i < tokens.length) (hend : tokens.length ≤ i + nBatch) :
    (llamaDecode turn ctx (prefillBatch tokens i (curBatchSize tokens nBatch i)) .ok).logits =
      tokens.getLast?.map fun t => ⟨turn, tokens.length - 1, t⟩ := by
  obtain ⟨n, hn⟩ : ∃ n, curBatchSize tokens nBatch i = n + 1 :=
    ⟨curBatchSize tokens nBatch i - 1, by unfold curBatchSize; omega⟩
  rw [hn]
  exact batchLogits_prefill_last (by unfold curBatchSize at hn; omega)

/-- One round extends a memory that holds exactly the first `i` tokens. -/
theorem llamaDecode_chunk_extends {turn nBatch i : Nat} {tokens : List LlamaToken}
    {ctx : LlamaContext} (hi : i < tokens.length) (hkv : ∀ p, ctx.kv p = (tokens.take i)[p]?)
    (p : Nat) :
    (llamaDecode turn ctx (prefillBatch tokens i (curBatchSize tokens nBatch i)) .ok).kv p =
      (tokens.take (i + nBatch))[p]? := by
  simp only [llamaDecode_chunk hi, hkv, List.getElem?_take]
  rcases Nat.lt_or_ge p i with hp | hp
  · rw [if_neg (by omega), if_pos hp, if_pos (by omega)]
  · rcases Nat.lt_or_ge p tokens.length with hl | hl
    · by_cases hw : p < i + nBatch
      · rw [if_pos (by omega), if_pos hw]
      · rw [if_neg (by omega), if_neg (by omega), if_neg hw]
    · simp [List.getElem?_eq_none hl]

theorem prefillFrom_stop {turn nBatch fuel i : Nat} {tokens : List LlamaToken}
    {ctx : LlamaContext} (hle : tokens.length ≤ i) :
    prefillFrom turn nBatch tokens ctx fuel i = ctx := by
  cases fuel with
  | zero => rfl
  | succ fuel => simp [prefillFrom, Nat.not_lt.mpr hle]

theorem prefilled_of_take {turn i : Nat} {tokens : List LlamaToken} {ctx : LlamaContext}
    (hne : tokens ≠ []) (hle : tokens.length ≤ i) (hkv : ∀ p, ctx.kv p = (tokens.take i)[p]?)
    (hlogits : ctx.logits = tokens.getLast?.map fun t => ⟨turn, tokens.length - 1, t⟩) :
    Prefilled turn tokens ctx := by
  have ht := List.getLast?_eq_getLast_of_ne_nil hne
  refine ⟨fun p => by rw [hkv, List.take_of_length_le hle], _, ht, ?_⟩
  rw [hlogits, ht]
  rfl

theorem prefillFrom_prefilled {turn nBatch : Nat} {tokens : List LlamaToken}
    (hb : 0 < nBatch) (fuel i : Nat) (ctx : LlamaContext) (hi : i < tokens.length)
    (hfuel : tokens.length ≤ i + fuel) (hkv : ∀ p, ctx.kv p = (tokens.take i)[p]?) :
    Prefilled turn tokens (prefillFrom turn nBatch tokens ctx fuel i) := by
  induction fuel generalizing i ctx with
  | zero => omega
  | succ fuel ih =>
    have hkv' : ∀ p, (llamaDecode turn ctx
        (prefillBatch tokens i (curBatchSize tokens nBatch i)) .ok).kv p =
          (tokens.take (i + nBatch))[p]? := llamaDecode_chunk_extends hi hkv
    unfold prefillFrom
    rw [if_pos hi]
    by_cases hend : tokens.length ≤ i + nBatch
    · rw [prefillFrom_stop hend]
      exact prefilled_of_take (List.ne_nil_of_length_pos (by omega)) hend hkv'
        (llamaDecode_chunk_logits hi hend)
    · exact ih _ _ (by omega) (by omega) hkv'

theorem cleanPrefill_prefilled {turn nBatch : Nat} {tokens : List LlamaToken} {ctx : LlamaContext}
    (hb : 0 < nBatch) (hne : tokens ≠ []) :
    Prefilled turn tokens (cleanPrefill turn nBatch tokens ctx) :=
  prefillFrom_prefilled hb _ _ _ (List.length_pos_iff.mpr hne) (by omega)
    (by simp [llamaMemoryClear])

theorem Prefilled.unique {turn : Nat} {tokens : List LlamaToken} {a b : LlamaContext}
    (ha : Prefilled turn tokens a) (hb : Prefilled turn tokens b) : a = b := by
  obtain ⟨ka, t, ht, la⟩ := ha
  obtain ⟨kb, u, hu, lb⟩ := hb
  cases Option.some.inj (ht.symm.trans hu)
  cases a
  cases b
  simp only [LlamaContext.mk.injEq]
  exact ⟨funext fun p => (ka p).trans (kb p).symm, la.trans lb.symm⟩

end HeyNilo

import Mathlib.Logic.Function.Basic
import Mathlib.Data.List.Basic

namespace HeyNilo

abbrev LlamaToken := Int

/-- The decode call that the logits at hand come from: the turn it was made in, and the position
and token of its last output row. -/
structure Logits where
  turn : Nat
  pos : Nat
  token : LlamaToken
deriving DecidableEq, Repr

/-- `llama_context` for sequence 0: the KV cache as a map from positions to tokens. -/
structure LlamaContext where
  kv : Nat → Option LlamaToken
  logits : Option Logits

structure BatchEntry where
  token : LlamaToken
  pos : Nat
  logits : Bool
deriving DecidableEq, Repr

abbrev LlamaBatch := List BatchEntry

def batchAdd (batch : LlamaBatch) (id : LlamaToken) (pos : Nat) (logits : Bool) : LlamaBatch :=
  batch ++ [⟨id, pos, logits⟩]

/-- The outcome of `llama_decode`: zero, or an error after which the first `kept` entries of the
batch stay in memory. -/
inductive DecodeResult where
  | ok
  | failed (kept : Nat)
deriving DecidableEq, Repr

def storeBatch (kv : Nat → Option LlamaToken) (batch : LlamaBatch) : Nat → Option LlamaToken :=
  batch.foldl (fun kv entry => Function.update kv entry.pos (some entry.token)) kv

def batchLogits (turn : Nat) (batch : LlamaBatch) : Option Logits :=
  (batch.filter (·.logits)).getLast?.map fun entry => ⟨turn, entry.pos, entry.token⟩

def llamaDecode (turn : Nat) (ctx : LlamaContext) (batch : LlamaBatch) :
    DecodeResult → LlamaContext
  | .ok => ⟨storeBatch ctx.kv batch, batchLogits turn batch⟩
  | .failed kept => ⟨storeBatch ctx.kv (batch.take kept), none⟩

/-- `llama_memory_seq_rm(mem, 0, p, -1)`: on success every position from `p` on is dropped. -/
def llamaMemorySeqRm (ctx : LlamaContext) (p : Nat) : LlamaContext :=
  { ctx with kv := fun q => if q < p then ctx.kv q else none }

def llamaMemoryClear (ctx : LlamaContext) : LlamaContext :=
  { ctx with kv := fun _ => none }

/-- The batch that one round of the prefill loop fills at offset `i`, after `n` rounds of its
inner loop. -/
def prefillBatch (tokens : List LlamaToken) (i : Nat) : Nat → LlamaBatch
  | 0 => []
  | j + 1 =>
    batchAdd (prefillBatch tokens i j) (tokens.getD (i + j) 0) (i + j)
      (decide (i + j + 1 = tokens.length))

/-- `cur_batch_size` at offset `i`. -/
def curBatchSize (tokens : List LlamaToken) (nBatch i : Nat) : Nat :=
  min (tokens.length - i) nBatch

/-- The number of leading tokens the new prompt shares with the cached ones. -/
def commonPrefix : List LlamaToken → List LlamaToken → Nat
  | t :: tokens, c :: cached => if t = c then commonPrefix tokens cached + 1 else 0
  | _, _ => 0

theorem commonPrefix_le_left (tokens cached : List LlamaToken) :
    commonPrefix tokens cached ≤ tokens.length := by
  induction tokens generalizing cached with
  | nil => simp [commonPrefix]
  | cons t tokens ih =>
    cases cached with
    | nil => simp [commonPrefix]
    | cons c cached =>
      have := ih cached
      simp only [commonPrefix, List.length_cons]
      split <;> omega

theorem commonPrefix_agree {tokens cached : List LlamaToken} {i : Nat}
    (hi : i < commonPrefix tokens cached) : cached[i]? = tokens[i]? := by
  induction tokens generalizing cached i with
  | nil => simp [commonPrefix] at hi
  | cons t tokens ih =>
    cases cached with
    | nil => simp [commonPrefix] at hi
    | cons c cached =>
      simp only [commonPrefix] at hi
      split at hi
      next heq =>
        cases i with
        | zero => simp [heq]
        | succ i => simpa using ih (by omega)
      next => omega

theorem storeBatch_append (kv : Nat → Option LlamaToken) (b : LlamaBatch) (entry : BatchEntry) :
    storeBatch kv (b ++ [entry]) =
      Function.update (storeBatch kv b) entry.pos (some entry.token) := by
  simp [storeBatch]

@[simp] theorem storeBatch_nil (kv : Nat → Option LlamaToken) : storeBatch kv [] = kv := rfl

@[simp] theorem prefillBatch_length (tokens : List LlamaToken) (i n : Nat) :
    (prefillBatch tokens i n).length = n := by
  induction n with
  | zero => rfl
  | succ n ih => simp [prefillBatch, batchAdd, ih]

theorem prefillBatch_take (tokens : List LlamaToken) (i : Nat) {k n : Nat} (hk : k ≤ n) :
    (prefillBatch tokens i n).take k = prefillBatch tokens i k := by
  induction n with
  | zero => simp [Nat.le_zero.mp hk, prefillBatch]
  | succ n ih =>
    rcases Nat.lt_or_ge n k with hlt | hle
    · have he : k = n + 1 := by omega
      subst he
      exact List.take_of_length_le (by simp)
    · rw [prefillBatch, batchAdd, List.take_append_of_le_length (by simpa using hle), ih hle]

theorem prefillBatch_take_min (tokens : List LlamaToken) (i k n : Nat) :
    (prefillBatch tokens i n).take k = prefillBatch tokens i (min k n) := by
  rcases Nat.le_total k n with hk | hk
  · rw [Nat.min_eq_left hk, prefillBatch_take _ _ hk]
  · rw [Nat.min_eq_right hk, List.take_of_length_le (by simpa using hk)]

theorem storeBatch_prefill (kv : Nat → Option LlamaToken) {tokens : List LlamaToken} {i n : Nat}
    (hn : i + n ≤ tokens.length) (p : Nat) :
    storeBatch kv (prefillBatch tokens i n) p =
      if i ≤ p ∧ p < i + n then tokens[p]? else kv p := by
  induction n with
  | zero => simp [prefillBatch, show ¬(i ≤ p ∧ p < i) by omega]
  | succ n ih =>
    rw [prefillBatch, batchAdd, storeBatch_append]
    by_cases hp : p = i + n
    · subst hp
      have hlt : i + n < tokens.length := by omega
      simp [List.getD_eq_getElem?_getD, hlt]
    · rw [Function.update_of_ne hp, ih (by omega)]
      by_cases hw : i ≤ p ∧ p < i + n
      · rw [if_pos hw, if_pos (by omega)]
      · rw [if_neg hw, if_neg (by omega)]

/-- A batch that ends at the last token yields that token's logits. -/
theorem batchLogits_prefill_last {tokens : List LlamaToken} {turn i n : Nat}
    (hn : i + (n + 1) = tokens.length) :
    batchLogits turn (prefillBatch tokens i (n + 1)) =
      tokens.getLast?.map fun t => ⟨turn, tokens.length - 1, t⟩ := by
  have hlast : tokens.getLast? = some (tokens.getD (i + n) 0) := by
    have hlt : i + n < tokens.length := by omega
    rw [List.getLast?_eq_getElem?, show tokens.length - 1 = i + n by omega]
    simp [List.getD_eq_getElem?_getD, hlt]
  have hend : i + n + 1 = tokens.length := by omega
  rw [hlast, show tokens.length - 1 = i + n by omega]
  simp [prefillBatch, batchAdd, batchLogits, hend]

end HeyNilo

import HeyNilo.JniText
import HeyNilo.LlamaContext

namespace HeyNilo

/-- What `nativeGenerateStream` takes from llama.cpp and the loaded model. -/
structure LlamaModel where
  /-- `llama_chat_apply_template` with the model's template, `none` when it gives no text. -/
  applyTemplate : List (Bytes × Bytes) → Option Bytes
  tokenize : Bytes → List LlamaToken
  tokenToPiece : LlamaToken → Bytes
  isEog : LlamaToken → Bool
  tokenImStart : LlamaToken

/-- The points of `nativeGenerateStream` between which other threads can act. -/
inductive GenPc where
  | buildPrompt
  | resetStop
  | tokenize
  | reuse
  | prefillCheck (i : Nat)
  | prefillDecode (i : Nat)
  | startGenerating
  | resetStopAgain
  | loopHead
  | timeoutCheck
  | sample
  | decodeToken (token : LlamaToken)
deriving DecidableEq, Repr

/-- The locals of a `nativeGenerateStream` call that holds the mutex. `turn` numbers the calls. -/
structure Generation where
  turn : Nat
  prompt : Bytes
  maxTokens : Nat
  formatted : Bytes
  tokens : List LlamaToken
  nGen : Nat
  generatedTokens : List LlamaToken
  lastToken : LlamaToken
  repeatCount : Nat
  response : Bytes
  pc : GenPc
deriving DecidableEq, Repr

/-- The repetition count, the last token and the tracked tokens after a token was sampled. -/
def Generation.record (gen : Generation) (token : LlamaToken) : Generation :=
  { gen with
    lastToken := token
    repeatCount := if token = gen.lastToken then gen.repeatCount + 1 else 0
    generatedTokens := gen.generatedTokens ++ [token] }

/-- One `onToken` call, with the turn and the iteration of the sampling loop that made it. -/
structure Emission where
  turn : Nat
  iteration : Nat
  text : Bytes
deriving DecidableEq, Repr

/-- `g_state`, the call that holds its mutex, and what the callbacks have received. -/
structure LlamaState where
  ctx : LlamaContext
  shouldStop : Bool
  isGenerating : Bool
  nBatch : Nat
  nCtx : Nat
  currentPos : Nat
  systemPrompt : Bytes
  history : List (Bytes × Bytes)
  lastPromptTokens : List LlamaToken
  gen : Option Generation
  turns : Nat
  /-- `stopGeneration` calls that have set the flag and not yet cleared the memory. -/
  pendingClears : Nat
  emitted : List Emission
  completions : List (Nat × Bytes)

inductive NativeEvent where
  | generate (prompt : Bytes) (maxTokens : Nat)
  /-- The generation executes its next statement. -/
  | advance
  /-- It compares the prompts; `ok` is what `llama_memory_seq_rm` answers if it is called. -/
  | seqRm (ok : Bool)
  | decoded (result : DecodeResult)
  | clock (timedOut : Bool)
  | sampled (token : LlamaToken)
  /-- `stopGeneration` sets `should_stop`. -/
  | stopSet
  /-- `stopGeneration` clears the KV cache. -/
  | stopClear
  | clearContext
  | addToHistory (role content : Bytes)
deriving DecidableEq, Repr

def buildMessages (systemPrompt : Bytes) (history : List (Bytes × Bytes)) (prompt : Bytes) :
    List (Bytes × Bytes) :=
  (if systemPrompt.isEmpty then [] else [(ascii "system", systemPrompt)]) ++ history ++
    [(ascii "user", prompt)]

def chatMlEntry (entry : Bytes × Bytes) : Bytes :=
  ascii "<|im_start|>" ++ entry.1 ++ ascii "\n" ++ entry.2 ++ ascii "<|im_end|>\n"

/-- The generic ChatML format used when the model's template gives nothing. -/
def chatMlFallback (systemPrompt : Bytes) (history : List (Bytes × Bytes)) (prompt : Bytes) :
    Bytes :=
  ((buildMessages systemPrompt history prompt).map chatMlEntry).flatten ++
    ascii "<|im_start|>assistant\n"

def formatPrompt (m : LlamaModel) (s : LlamaState) (prompt : Bytes) : Bytes :=
  (m.applyTemplate (buildMessages s.systemPrompt s.history prompt)).getD
    (chatMlFallback s.systemPrompt s.history prompt)

/-- `llama_token_to_piece` into a buffer of 256 bytes; empty where it answers `n <= 0`. -/
def pieceOf (m : LlamaModel) (token : LlamaToken) : Bytes :=
  if (m.tokenToPiece token).length ≤ 256 then m.tokenToPiece token else []

namespace LlamaState

def setGen (s : LlamaState) (gen : Generation) : LlamaState := { s with gen := some gen }

def goto (s : LlamaState) (gen : Generation) (pc : GenPc) : LlamaState :=
  s.setGen { gen with pc := pc }

/-- An early exit: the callback is completed with no text and the mutex released. -/
def abandon (s : LlamaState) (gen : Generation) : LlamaState :=
  { s with gen := none, completions := s.completions ++ [(gen.turn, [])] }

/-- After the sampling loop: prompt and generated tokens become the cache of the next turn. -/
def finish (s : LlamaState) (gen : Generation) : LlamaState :=
  { s with
    isGenerating := false
    lastPromptTokens := gen.tokens ++ gen.generatedTokens
    gen := none
    completions := s.completions ++ [(gen.turn, gen.response)] }

def beginGenerate (s : LlamaState) (prompt : Bytes) (maxTokens : Nat) : LlamaState :=
  { s with
    turns := s.turns + 1
    gen := some
      { turn := s.turns
        prompt := prompt
        maxTokens := maxTokens
        formatted := []
        tokens := []
        nGen := 0
        generatedTokens := []
        lastToken := -1
        repeatCount := 0
        response := []
        pc := .buildPrompt } }

/-- Only a common prefix of more than ten tokens is reused, and only if the trim succeeds. -/
def takesReuse (s : LlamaState) (gen : Generation) (ok : Bool) : Bool :=
  decide (10 < commonPrefix gen.tokens s.lastPromptTokens) && ok

def reuseKv (s : LlamaState) (gen : Generation) (ok : Bool) : LlamaState :=
  if s.takesReuse gen ok then
    let common := commonPrefix gen.tokens s.lastPromptTokens
    { s with ctx := llamaMemorySeqRm s.ctx common, currentPos := common }.goto gen
      (.prefillCheck common)
  else
    { s with ctx := llamaMemoryClear s.ctx, currentPos := 0 }.goto gen (.prefillCheck 0)

def prefillChunk (s : LlamaState) (gen : Generation) (i : Nat) (r : DecodeResult) : LlamaState :=
  let batch := prefillBatch gen.tokens i (curBatchSize gen.tokens s.nBatch i)
  let s := { s with ctx := llamaDecode gen.turn s.ctx batch r }
  match r with
  | .ok => s.goto gen (.prefillCheck (i + s.nBatch))
  | .failed _ => s.abandon gen

/-- The body of the sampling loop from the sampled token to the point before its decode. -/
def afterSample (m : LlamaModel) (s : LlamaState) (gen : Generation) (token : LlamaToken) :
    LlamaState :=
  if token = m.tokenImStart then s.finish gen
  else if m.isEog token then s.finish gen
  else if token = gen.lastToken ∧ 3 ≤ gen.repeatCount + 1 then s.finish gen
  else
    let gen := gen.record token
    if pieceOf m token = [] then s.goto gen (.decodeToken token)
    else
      let display := replaceSpaceMarker 0 (pieceOf m token)
      if contains (ascii "<|im_start|>") display || contains (ascii "--EndConversation--") display
      then s.finish gen
      else
        let sanitized := sanitizeForJNI display
        let s := if sanitized = [] then s
          else { s with emitted := s.emitted ++ [⟨gen.turn, gen.nGen, sanitized⟩] }
        s.goto { gen with response := gen.response ++ sanitized } (.decodeToken token)

def decodeSampled (s : LlamaState) (gen : Generation) (token : LlamaToken) (r : DecodeResult) :
    LlamaState :=
  let batch := batchAdd [] token (s.currentPos + gen.nGen) true
  let s := { s with ctx := llamaDecode gen.turn s.ctx batch r }
  match r with
  | .ok => s.goto { gen with nGen := gen.nGen + 1 } .loopHead
  | .failed _ => s.finish gen

def advance (m : LlamaModel) (s : LlamaState) (gen : Generation) : Option LlamaState :=
  match gen.pc with
  | .buildPrompt => some (s.goto { gen with formatted := formatPrompt m s gen.prompt } .resetStop)
  | .resetStop => some ({ s with shouldStop := false }.goto gen .tokenize)
  | .tokenize =>
    let tokens := m.tokenize gen.formatted
    if s.nCtx < tokens.length then some (s.abandon gen)
    else some (s.goto { gen with tokens := tokens } .reuse)
  | .prefillCheck i =>
    if i < gen.tokens.length then
      if s.shouldStop then some (s.goto gen .startGenerating)
      else some (s.goto gen (.prefillDecode i))
    else some (s.goto gen .startGenerating)
  | .startGenerating =>
    some ({ s with currentPos := gen.tokens.length, isGenerating := true }.goto gen
      .resetStopAgain)
  | .resetStopAgain => some ({ s with shouldStop := false }.goto gen .loopHead)
  | .loopHead =>
    if gen.nGen < gen.maxTokens && !s.shouldStop then some (s.goto gen .timeoutCheck)
    else some (s.finish gen)
  | _ => none

def addHistory (s : LlamaState) (role content : Bytes) : LlamaState :=
  let history := s.history ++ [(role, truncateForHistory role content)]
  { s with history := history.drop (history.length - 4) }

def step (m : LlamaModel) (s : LlamaState) : NativeEvent → Option LlamaState
  | .generate prompt maxTokens =>
    if s.gen.isSome then none else some (s.beginGenerate prompt maxTokens)
  | .advance => s.gen.bind (s.advance m)
  | .seqRm ok => s.gen.bind fun gen =>
    match gen.pc with
    | .reuse => some (s.reuseKv gen ok)
    | _ => none
  | .decoded r => s.gen.bind fun gen =>
    match gen.pc with
    | .prefillDecode i => some (s.prefillChunk gen i r)
    | .decodeToken token => some (s.decodeSampled gen token r)
    | _ => none
  | .clock timedOut => s.gen.bind fun gen =>
    match gen.pc with
    | .timeoutCheck => if timedOut then some (s.finish gen) else some (s.goto gen .sample)
    | _ => none
  | .sampled token => s.gen.bind fun gen =>
    match gen.pc with
    | .sample => some (s.afterSample m gen token)
    | _ => none
  | .stopSet => some { s with shouldStop := true, pendingClears := s.pendingClears + 1 }
  | .stopClear =>
    if s.pendingClears = 0 then none
    else some { s with ctx := llamaMemoryClear s.ctx, pendingClears := s.pendingClears - 1 }
  | .clearContext =>
    if s.gen.isSome then none
    else some { s with currentPos := 0, history := [], lastPromptTokens := [] }
  | .addToHistory role content => some (s.addHistory role content)

/-- What each step can do, one constructor for each branch of `step`. -/
inductive Step (m : LlamaModel) (s : LlamaState) : NativeEvent → LlamaState → Prop where
  | generate (prompt : Bytes) (maxTokens : Nat) (hg : s.gen = none) :
    Step m s (.generate prompt maxTokens) (s.beginGenerate prompt maxTokens)
  | promptBuilt (gen : Generation) (hg : s.gen = some gen) (hpc : gen.pc = .buildPrompt) :
    Step m s .advance (s.goto { gen with formatted := formatPrompt m s gen.prompt } .resetStop)
  | stopReset (gen : Generation) (hg : s.gen = some gen) (hpc : gen.pc = .resetStop) :
    Step m s .advance ({ s with shouldStop := false }.goto gen .tokenize)
  | tooLong (gen : Generation) (hg : s.gen = some gen) (hpc : gen.pc = .tokenize)
    (hlong : s.nCtx < (m.tokenize gen.formatted).length) : Step m s .advance (s.abandon gen)
  | tokenized (gen : Generation) (hg : s.gen = some gen) (hpc : gen.pc = .tokenize)
    (hfits : (m.tokenize gen.formatted).length ≤ s.nCtx) :
    Step m s .advance (s.goto { gen with tokens := m.tokenize gen.formatted } .reuse)
  | prefillStopped (gen : Generation) (i : Nat) (hg : s.gen = some gen)
    (hpc : gen.pc = .prefillCheck i) (hi : i < gen.tokens.length) (hstop : s.shouldStop = true) :
    Step m s .advance (s.goto gen .startGenerating)
  | prefillGoesOn (gen : Generation) (i : Nat) (hg : s.gen = some gen)
    (hpc : gen.pc = .prefillCheck i) (hi : i < gen.tokens.length) (hstop : s.shouldStop = false) :
    Step m s .advance (s.goto gen (.prefillDecode i))
  | prefillOver (gen : Generation) (i : Nat) (hg : s.gen = some gen)
    (hpc : gen.pc = .prefillCheck i) (hi : gen.tokens.length ≤ i) :
    Step m s .advance (s.goto gen .startGenerating)
  | started (gen : Generation) (hg : s.gen = some gen) (hpc : gen.pc = .startGenerating) :
    Step m s .advance
      ({ s with currentPos := gen.tokens.length, isGenerating := true }.goto gen .resetStopAgain)
  | stopResetAgain (gen : Generation) (hg : s.gen = some gen) (hpc : gen.pc = .resetStopAgain) :
    Step m s .advance ({ s with shouldStop := false }.goto gen .loopHead)
  | loopGoesOn (gen : Generation) (hg : s.gen = some gen) (hpc : gen.pc = .loopHead)
    (hn : gen.nGen < gen.maxTokens) (hstop : s.shouldStop = false) :
    Step m s .advance (s.goto gen .timeoutCheck)
  | loopEnds (gen : Generation) (hg : s.gen = some gen) (hpc : gen.pc = .loopHead)
    (hend : gen.maxTokens ≤ gen.nGen ∨ s.shouldStop = true) : Step m s .advance (s.finish gen)
  | reused (gen : Generation) (ok : Bool) (hg : s.gen = some gen) (hpc : gen.pc = .reuse) :
    Step m s (.seqRm ok) (s.reuseKv gen ok)
  | promptDecoded (gen : Generation) (i : Nat) (r : DecodeResult) (hg : s.gen = some gen)
    (hpc : gen.pc = .prefillDecode i) : Step m s (.decoded r) (s.prefillChunk gen i r)
  | tokenDecoded (gen : Generation) (token : LlamaToken) (r : DecodeResult) (hg : s.gen = some gen)
    (hpc : gen.pc = .decodeToken token) : Step m s (.decoded r) (s.decodeSampled gen token r)
  | timedOut (gen : Generation) (hg : s.gen = some gen) (hpc : gen.pc = .timeoutCheck) :
    Step m s (.clock true) (s.finish gen)
  | inTime (gen : Generation) (hg : s.gen = some gen) (hpc : gen.pc = .timeoutCheck) :
    Step m s (.clock false) (s.goto gen .sample)
  | sampled (gen : Generation) (token : LlamaToken) (hg : s.gen = some gen)
    (hpc : gen.pc = .sample) : Step m s (.sampled token) (s.afterSample m gen token)
  | stopSet : Step m s .stopSet { s with shouldStop := true, pendingClears := s.pendingClears + 1 }
  | stopClear (hpending : s.pendingClears ≠ 0) :
    Step m s .stopClear
      { s with ctx := llamaMemoryClear s.ctx, pendingClears := s.pendingClears - 1 }
  | clearContext (hg : s.gen = none) :
    Step m s .clearContext { s with currentPos := 0, history := [], lastPromptTokens := [] }
  | addToHistory (role content : Bytes) :
    Step m s (.addToHistory role content) (s.addHistory role content)

theorem advance_sound {m : LlamaModel} {s t : LlamaState} {gen : Generation}
    (hg : s.gen = some gen) (h : s.advance m gen = some t) : Step m s .advance t := by
  unfold LlamaState.advance at h
  cases hpc : gen.pc with
  | buildPrompt =>
    simp only [hpc] at h
    cases h
    exact .promptBuilt gen hg hpc
  | resetStop =>
    simp only [hpc] at h
    cases h
    exact .stopReset gen hg hpc
  | tokenize =>
    simp only [hpc] at h
    split at h
    next hlong => cases h; exact .tooLong gen hg hpc hlong
    next hfits => cases h; exact .tokenized gen hg hpc (Nat.le_of_not_lt hfits)
  | prefillCheck i =>
    simp only [hpc] at h
    split at h
    next hi =>
      split at h
      next hstop => cases h; exact .prefillStopped gen i hg hpc hi hstop
      next hstop => cases h; exact .prefillGoesOn gen i hg hpc hi (by simpa using hstop)
    next hi => cases h; exact .prefillOver gen i hg hpc (Nat.le_of_not_lt hi)
  | startGenerating =>
    simp only [hpc] at h
    cases h
    exact .started gen hg hpc
  | resetStopAgain =>
    simp only [hpc] at h
    cases h
    exact .stopResetAgain gen hg hpc
  | loopHead =>
    simp only [hpc] at h
    split at h
    next hon =>
      cases h
      obtain ⟨hn, hstop⟩ : gen.nGen < gen.maxTokens ∧ s.shouldStop = false := by simpa using hon
      exact .loopGoesOn gen hg hpc hn hstop
    next hend =>
      cases h
      refine .loopEnds gen hg hpc ?_
      by_cases hn : gen.nGen < gen.maxTokens
      · exact .inr (by simpa [hn] using hend)
      · exact .inl (Nat.le_of_not_lt hn)
  | reuse | prefillDecode | timeoutCheck | sample | decodeToken => simp [hpc] at h

theorem step_sound {m : LlamaModel} {s t : LlamaState} {e : NativeEvent}
    (h : s.step m e = some t) : Step m s e t := by
  cases e with
  | generate prompt maxTokens =>
    simp only [LlamaState.step] at h
    split at h
    next => cases h
    next hg => cases h; exact .generate prompt maxTokens (by simpa using hg)
  | advance =>
    obtain ⟨gen, hg, h⟩ := Option.bind_eq_some_iff.mp h
    exact advance_sound hg h
  | seqRm ok =>
    obtain ⟨gen, hg, h⟩ := Option.bind_eq_some_iff.mp h
    split at h
    next hpc => cases h; exact .reused gen ok hg hpc
    next => cases h
  | decoded r =>
    obtain ⟨gen, hg, h⟩ := Option.bind_eq_some_iff.mp h
    split at h
    next i hpc => cases h; exact .promptDecoded gen i r hg hpc
    next token hpc => cases h; exact .tokenDecoded gen token r hg hpc
    next => cases h
  | clock timedOut =>
    obtain ⟨gen, hg, h⟩ := Option.bind_eq_some_iff.mp h
    split at h
    next hpc =>
      cases timedOut with
      | true => cases h; exact .timedOut gen hg hpc
      | false => cases h; exact .inTime gen hg hpc
    next => cases h
  | sampled token =>
    obtain ⟨gen, hg, h⟩ := Option.bind_eq_some_iff.mp h
    split at h
    next hpc => cases h; exact .sampled gen token hg hpc
    next => cases h
  | stopSet => cases h; exact .stopSet
  | stopClear =>
    simp only [LlamaState.step] at h
    split at h
    next => cases h
    next hpending => cases h; exact .stopClear hpending
  | clearContext =>
    simp only [LlamaState.step] at h
    split at h
    next => cases h
    next hg => cases h; exact .clearContext (by simpa using hg)
  | addToHistory role content => cases h; exact .addToHistory role content

/-- What one sampled token can do: end the loop, before or after it was recorded, or go on to its
decode with at most one text passed to the callback. -/
theorem afterSample_cases (m : LlamaModel) (s : LlamaState) (gen : Generation)
    (token : LlamaToken) :
    s.afterSample m gen token = s.finish gen ∨
      s.afterSample m gen token = s.finish (gen.record token) ∨
      ∃ response texts, (∀ x ∈ texts, x.turn = gen.turn ∧ x.iteration = gen.nGen) ∧
        s.afterSample m gen token = { s with emitted := s.emitted ++ texts }.goto
          { gen.record token with response := response } (.decodeToken token) := by
  unfold afterSample
  split
  · exact .inl rfl
  split
  · exact .inl rfl
  split
  · exact .inl rfl
  refine .inr ?_
  dsimp only
  split
  · exact .inr ⟨gen.response, [], by simp, by simp [goto, setGen, Generation.record]⟩
  split
  · exact .inl rfl
  generalize sanitizeForJNI (replaceSpaceMarker 0 (pieceOf m token)) = sanitized
  refine .inr ⟨gen.response ++ sanitized,
    if sanitized = [] then [] else [⟨gen.turn, gen.nGen, sanitized⟩], ?_, ?_⟩
  · intro x hx
    split at hx <;> simp at hx
    exact ⟨by rw [hx], by rw [hx]⟩
  · split <;> simp [goto, setGen, Generation.record]

/-- `g_state` right after a model and its context were loaded. -/
def loaded (nBatch : Int) (nCtx : Nat) (systemPrompt : Bytes) : LlamaState where
  ctx := ⟨fun _ => none, none⟩
  shouldStop := false
  isGenerating := false
  nBatch := if 0 < nBatch then nBatch.toNat else 512
  nCtx := nCtx
  currentPos := 0
  systemPrompt := systemPrompt
  history := []
  lastPromptTokens := []
  gen := none
  turns := 0
  pendingClears := 0
  emitted := []
  completions := []

/-- Tokens are the bytes of the text, the model has no chat template, and token 0 ends a reply. -/
def byteModel : LlamaModel where
  applyTemplate := fun _ => none
  tokenize := fun text => text.map fun c => (c.toNat : Int)
  tokenToPiece := fun token => [token.toNat.toUInt8]
  isEog := fun token => token == 0
  tokenImStart := -2

/-- A call that decodes its prompt in one chunk and comes to its first sample. -/
def promptTurn (prompt : Bytes) : List NativeEvent :=
  [.generate prompt 4, .advance, .advance, .advance, .seqRm true, .advance, .decoded .ok,
    .advance, .advance, .advance, .advance, .clock false]

end LlamaState

end HeyNilo

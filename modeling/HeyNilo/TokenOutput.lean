import HeyNilo.GenerateStream
import HeyNilo.Machine
import HeyNilo.TokenText

namespace HeyNilo

open Utf8 Machine

/-- The string-based stop check of `nativeGenerateStream`, on one piece. -/
def stopsAt (piece : Bytes) : Bool :=
  contains (ascii "<|im_start|>") (replaceSpaceMarker 0 piece) ||
    contains (ascii "--EndConversation--") (replaceSpaceMarker 0 piece)

namespace Generation

/-- The pieces converted so far. -/
def pieces (m : LlamaModel) (gen : Generation) : List Bytes := gen.generatedTokens.map (pieceOf m)

/-- What `nativeGenerateStream` returns once it has left the sampling loop. -/
def returned (gen : Generation) : Bytes := sanitizeForJNI gen.response

end Generation

namespace LlamaState

/-- The strings that a call has passed to `onToken`, one after the other. -/
def textOf (s : LlamaState) (turn : Nat) : Bytes :=
  ((s.emitted.filter fun x => x.turn == turn).map Emission.text).flatten

/-- The loop goes on to convert this token: none of the checks before the conversion ends it. -/
def converts (m : LlamaModel) (gen : Generation) (token : LlamaToken) : Bool :=
  !(token = m.tokenImStart || m.isEog token || token = gen.lastToken && 3 ≤ gen.repeatCount + 1)

/-- A step that passes nothing to `onToken` and converts no token. -/
structure Quiet (s t : LlamaState) : Prop where
  emitted : t.emitted = s.emitted
  turns : t.turns = s.turns
  held : ∀ gen', t.gen = some gen' → ∃ gen, s.gen = some gen ∧ gen'.turn = gen.turn ∧
    gen'.response = gen.response ∧ gen'.generatedTokens = gen.generatedTokens

/-- The step that converts `token`, of a piece that does not stop the loop. -/
structure Shows (m : LlamaModel) (token : LlamaToken) (s t : LlamaState) (gen gen' : Generation) :
    Prop where
  held : s.gen = some gen
  going : t.gen = some gen'
  unstopped : stopsAt (pieceOf m token) = false
  turns : t.turns = s.turns
  turn : gen'.turn = gen.turn
  tokens : gen'.generatedTokens = gen.generatedTokens ++ [token]
  response : gen'.response = gen.response ++ shown (pieceOf m token)
  emitted : ∃ texts, t.emitted = s.emitted ++ texts ∧ (∀ x ∈ texts, x.turn = gen.turn) ∧
    (texts.map Emission.text).flatten = shown (pieceOf m token)

variable {m : LlamaModel} {s t : LlamaState} {gen gen' : Generation} {e : NativeEvent}
  {token : LlamaToken}

theorem Quiet.goes_on (hg : s.gen = some gen) (hemitted : t.emitted = s.emitted)
    (hturns : t.turns = s.turns) (hg' : t.gen = some gen') (hturn : gen'.turn = gen.turn)
    (hresponse : gen'.response = gen.response)
    (htokens : gen'.generatedTokens = gen.generatedTokens) : Quiet s t where
  emitted := hemitted
  turns := hturns
  held := by
    intro g hgg
    cases Option.some.inj (hg'.symm.trans hgg)
    exact ⟨gen, hg, hturn, hresponse, htokens⟩

theorem Quiet.ends (hemitted : t.emitted = s.emitted) (hturns : t.turns = s.turns)
    (hg : t.gen = none) : Quiet s t where
  emitted := hemitted
  turns := hturns
  held := by
    intro g hgg
    rw [hg] at hgg
    cases hgg

theorem Quiet.keeps (hemitted : t.emitted = s.emitted) (hturns : t.turns = s.turns)
    (hg : t.gen = s.gen) : Quiet s t where
  emitted := hemitted
  turns := hturns
  held := by
    intro g hgg
    exact ⟨g, hg ▸ hgg, rfl, rfl, rfl⟩

theorem Quiet.advance (hs : Step m s .advance t) : Quiet s t := by
  cases hs with
  | tooLong gen hg | loopEnds gen hg => exact .ends rfl rfl rfl
  | promptBuilt gen hg | stopReset gen hg | tokenized gen hg | started gen hg
  | stopResetAgain gen hg | loopGoesOn gen hg => exact .goes_on hg rfl rfl rfl rfl rfl rfl
  | prefillStopped gen i hg | prefillGoesOn gen i hg | prefillOver gen i hg =>
    exact .goes_on hg rfl rfl rfl rfl rfl rfl

/-- What a sampled token does to the output: nothing, or its piece is shown. -/
theorem afterSample_output (m : LlamaModel) (token : LlamaToken) (hg : s.gen = some gen) :
    (converts m gen token = false ∨ stopsAt (pieceOf m token) = true) ∧
        Quiet s (s.afterSample m gen token) ∧ (s.afterSample m gen token).gen = none ∨
      converts m gen token = true ∧
        ∃ gen', Shows m token s (s.afterSample m gen token) gen gen' := by
  unfold afterSample
  split
  next himStart =>
    exact .inl ⟨.inl (by simp [converts, himStart]), .ends rfl rfl rfl, rfl⟩
  next himStart =>
  split
  next heog =>
    exact .inl ⟨.inl (by simp [converts, heog]), .ends rfl rfl rfl, rfl⟩
  next heog =>
  split
  next hrepeat =>
    exact .inl ⟨.inl (by simp [converts, hrepeat.1, hrepeat.2]), .ends rfl rfl rfl, rfl⟩
  next hrepeat =>
  have hconverts : converts m gen token = true := by
    simp only [converts, Bool.not_eq_true', Bool.or_eq_false_iff, Bool.and_eq_false_iff,
      decide_eq_false_iff_not]
    exact ⟨⟨himStart, by simpa using heog⟩, Decidable.not_and_iff_not_or_not.mp hrepeat⟩
  dsimp only
  split
  next hempty =>
    refine .inr ⟨hconverts, _, hg, rfl, ?_, rfl, rfl, rfl, ?_, [], ?_, by simp, ?_⟩
    · rw [hempty]
      decide
    · rw [hempty]
      exact (List.append_nil _).symm
    · exact (List.append_nil _).symm
    · rw [hempty]
      rfl
  next hpiece =>
  split
  next hstop => exact .inl ⟨.inr hstop, .ends rfl rfl rfl, rfl⟩
  next hstop =>
  refine .inr ⟨hconverts, _, hg, rfl, Bool.not_eq_true _ ▸ hstop, ?_, rfl, rfl, rfl,
    if shown (pieceOf m token) = [] then [] else [⟨gen.turn, gen.nGen, shown (pieceOf m token)⟩],
    ?_, ?_, ?_⟩
  · split <;> rfl
  · split
    next hnone =>
      have hnone : shown (pieceOf m token) = [] := hnone
      rw [if_pos hnone]
      exact (List.append_nil _).symm
    next hsome =>
      have hsome : shown (pieceOf m token) ≠ [] := hsome
      rw [if_neg hsome]
      rfl
  · intro x hx
    split at hx
    · cases hx
    · rw [List.mem_singleton.mp hx]
  · split
    next hnone => exact hnone.symm
    next hsome => exact List.flatten_singleton

/-- What one step can do to the output. -/
theorem step_output (ht : s.step m e = some t) :
    Quiet s t ∨
      (t.emitted = s.emitted ∧ t.turns = s.turns + 1 ∧ ∃ gen', t.gen = some gen' ∧
        gen'.turn = s.turns ∧ gen'.response = [] ∧ gen'.generatedTokens = []) ∨
      ∃ token gen gen', Shows m token s t gen gen' := by
  cases e with
  | generate prompt maxTokens =>
    cases step_sound ht
    exact .inr (.inl ⟨rfl, rfl, _, rfl, rfl, rfl, rfl⟩)
  | advance => exact .inl (.advance (step_sound ht))
  | seqRm ok =>
    cases step_sound ht with
    | reused gen ok hg hpc =>
      unfold LlamaState.reuseKv
      split <;> exact .inl (.goes_on hg rfl rfl rfl rfl rfl rfl)
  | decoded r =>
    cases step_sound ht with
    | promptDecoded gen i r hg | tokenDecoded gen token r hg =>
      cases r with
      | ok => exact .inl (.goes_on hg rfl rfl rfl rfl rfl rfl)
      | failed kept => exact .inl (.ends rfl rfl rfl)
  | clock timedOut =>
    cases step_sound ht with
    | timedOut gen hg => exact .inl (.ends rfl rfl rfl)
    | inTime gen hg => exact .inl (.goes_on hg rfl rfl rfl rfl rfl rfl)
  | sampled token =>
    cases step_sound ht with
    | sampled gen token hg hpc =>
      rcases afterSample_output m token hg with ⟨-, hquiet, -⟩ | ⟨-, gen', hshows⟩
      · exact .inl hquiet
      · exact .inr (.inr ⟨token, gen, gen', hshows⟩)
  | stopSet | stopClear | clearContext | addToHistory =>
    cases step_sound ht
    exact .inl (.keeps rfl rfl rfl)

/-- What a running call has said: its pieces, none of which stops it. -/
structure Said (m : LlamaModel) (s : LlamaState) (gen : Generation) : Prop where
  turn : gen.turn < s.turns
  response : gen.response = ((gen.pieces m).map shown).flatten
  text : s.textOf gen.turn = gen.response
  unstopped : ∀ piece ∈ gen.pieces m, stopsAt piece = false

structure OutputInv (m : LlamaModel) (s : LlamaState) : Prop where
  known : ∀ x ∈ s.emitted, x.turn < s.turns
  said : ∀ gen, s.gen = some gen → Said m s gen

theorem OutputInv.loaded (nBatch : Int) (nCtx : Nat) (systemPrompt : Bytes) :
    OutputInv m (loaded nBatch nCtx systemPrompt) :=
  ⟨by simp [LlamaState.loaded], by simp [LlamaState.loaded]⟩

theorem Shows.textOf (h : Shows m token s t gen gen') :
    t.textOf gen.turn = s.textOf gen.turn ++ shown (pieceOf m token) := by
  obtain ⟨texts, hemitted, hturn, hall⟩ := h.emitted
  have hkept : texts.filter (fun x => x.turn == gen.turn) = texts :=
    List.filter_eq_self.mpr fun x hx => by simp [hturn x hx]
  rw [LlamaState.textOf, hemitted, List.filter_append, hkept, List.map_append, List.flatten_append,
    hall]
  rfl

theorem Shows.said (h : Shows m token s t gen gen') (hsaid : Said m s gen) : Said m t gen' := by
  have hpieces : gen'.pieces m = gen.pieces m ++ [pieceOf m token] := by
    simp [Generation.pieces, h.tokens]
  refine ⟨?_, ?_, ?_, ?_⟩
  · rw [h.turn, h.turns]
    exact hsaid.turn
  · rw [h.response, hsaid.response, hpieces]
    simp
  · rw [h.turn, h.textOf, hsaid.text, h.response]
  · intro piece hpiece
    rw [hpieces, List.mem_append, List.mem_singleton] at hpiece
    rcases hpiece with hpiece | rfl
    · exact hsaid.unstopped piece hpiece
    · exact h.unstopped

theorem OutputInv.step (h : OutputInv m s) (ht : s.step m e = some t) : OutputInv m t := by
  rcases step_output ht with hquiet | ⟨hemitted, hturns, gen', hg', hturn, hresponse, htokens⟩ |
    ⟨token, gen, gen', hshows⟩
  · refine ⟨?_, fun gen' hg' => ?_⟩
    · rw [hquiet.emitted, hquiet.turns]
      exact h.known
    · obtain ⟨gen, hg, hturn, hresponse, htokens⟩ := hquiet.held gen' hg'
      have hsaid := h.said gen hg
      have hpieces : gen'.pieces m = gen.pieces m := congrArg (List.map (pieceOf m)) htokens
      refine ⟨?_, ?_, ?_, ?_⟩
      · rw [hturn, hquiet.turns]
        exact hsaid.turn
      · rw [hresponse, hpieces]
        exact hsaid.response
      · rw [hturn, hresponse, ← hsaid.text, LlamaState.textOf, hquiet.emitted]
        rfl
      · rw [hpieces]
        exact hsaid.unstopped
  · refine ⟨?_, fun gen hg => ?_⟩
    · rw [hemitted, hturns]
      exact fun x hx => Nat.lt_succ_of_lt (h.known x hx)
    · cases Option.some.inj (hg'.symm.trans hg)
      have hpieces : gen'.pieces m = [] := by rw [Generation.pieces, htokens]; rfl
      refine ⟨by omega, by rw [hresponse, hpieces]; rfl, ?_, by simp [hpieces]⟩
      -- the number of the call is new
      have hnone : s.emitted.filter (fun x => x.turn == gen'.turn) = [] := by
        rw [List.filter_eq_nil_iff]
        intro x hx
        have hknown := h.known x hx
        simp only [beq_iff_eq]
        omega
      rw [LlamaState.textOf, hemitted, hnone, hresponse]
      rfl
  · refine ⟨fun x hx => ?_, fun g hg => ?_⟩
    · obtain ⟨texts, hemitted, hturn, -⟩ := hshows.emitted
      rw [hemitted, List.mem_append] at hx
      rw [hshows.turns]
      rcases hx with hx | hx
      · exact h.known x hx
      · rw [hturn x hx]
        exact (h.said gen hshows.held).turn
    · cases Option.some.inj (hshows.going.symm.trans hg)
      exact hshows.said (h.said gen hshows.held)

theorem OutputInv.run {nBatch : Int} {nCtx : Nat} {systemPrompt : Bytes} {es : List NativeEvent}
    (hr : Machine.run (LlamaState.step m) (LlamaState.loaded nBatch nCtx systemPrompt) es = some s) :
    OutputInv m s :=
  run_preserves (fun _ _ _ h ht => h.step ht) (OutputInv.loaded nBatch nCtx systemPrompt) hr

/-- What is shown is not changed by another pass of the sanitiser. -/
theorem sanitizeForJNI_shown (pieces : List Bytes) :
    sanitizeForJNI (pieces.map shown).flatten = (pieces.map shown).flatten := by
  have hunits : ∃ us : List Bytes, (pieces.map shown).flatten = us.flatten ∧
      ∀ u ∈ us, IsSequence u ∧ u ≠ [0] := by
    induction pieces with
    | nil => exact ⟨[], rfl, by simp⟩
    | cons p pieces ih =>
      obtain ⟨us, hus, hmem⟩ := ih
      obtain ⟨vs, hvs, -, hmem'⟩ := sanitizeForJNI_units (replaceSpaceMarker 0 p)
      refine ⟨vs ++ us, ?_, fun u hu => ?_⟩
      · rw [List.map_cons, List.flatten_cons, List.flatten_append, hus, shown, shownFrom, hvs]
      · rcases List.mem_append.mp hu with hu | hu
        · exact ⟨((hmem' u).mp hu).1, ((hmem' u).mp hu).2.1⟩
        · exact hmem u hu
  obtain ⟨us, hus, hmem⟩ := hunits
  rw [hus]
  exact sanitizeForJNI_flatten hmem

end LlamaState

end HeyNilo

import HeyNilo.ProviderTurn

namespace HeyNilo

/-- The terminal response of a provider's stream. -/
inductive Terminal where
  | success (text : Text)
  | failure (message : Text)
deriving DecidableEq, Repr

/-- How the collection of the stream ends: with the stream, by its exception, after 75 seconds, or by
the cancellation of the turn. When the time is over or the turn is cancelled, what the last response
sends to the UI (and the restart before it) may be pending. -/
inductive Collection where
  | ended
  | throws (message : Text)
  | timedOut (pending : Bool)
  | cancelled (pending : Bool)
deriving DecidableEq, Repr

/-- A turn of `processWithLLMProvider`: the texts of the streaming responses, the terminal one, the
end of the collection, whether `restartListening` goes through after a blank success and after the
safety net, and whether the turn is cancelled before the UI update of the safety net. -/
structure VoiceTurn where
  texts : List Text
  terminal : Option Terminal
  collection : Collection
  restarts : Bool
  restartsLater : Bool
  netCancelled : Bool
deriving DecidableEq, Repr

def Terminal.response : Terminal → LLMResponse
  | .success text => .completed text
  | .failure message => { isComplete := true, error := some message }

def Collection.pending : Collection → Bool
  | .timedOut pending | .cancelled pending => pending
  | _ => false

namespace ProviderTurn

/-- A response whose UI update does not come: `withContext` throws before it. -/
def interrupted (restarts : Bool) (s : ProviderTurn) (r : LLMResponse) : ProviderTurn :=
  { s.collect restarts r with
    responseUpdates := s.responseUpdates
    errors := s.errors
    pendingSaves := s.pendingSaves }

/-- The safety net in a turn that is cancelled before its UI update. -/
def safetyNetCancelled (s : ProviderTurn) : ProviderTurn :=
  if s.isLLMResponseComplete then s
  else
    { s with
      isLLMResponseComplete := true
      finalBubbleText := removeImEndTokenOnly s.fullResponseText }

/-- The handler for an exception. -/
def failed (restarts : Bool) (s : ProviderTurn) (message : Text) : ProviderTurn :=
  { s with errors := s.errors ++ ["Processing failed: ".toList ++ message] }.restartListening restarts

/-- The handler for a cancellation: its UI update throws again. -/
def cancelled (s : ProviderTurn) : ProviderTurn :=
  if isBlank s.fullResponseText then s
  else { s with finalBubbleText := removeImEndTokenOnly s.fullResponseText }

/-- An interrupted response that is not a success leaves the turn as a complete one does. -/
theorem Collected.interrupted {full : Text} {s : ProviderTurn} {restarts : Bool} {r : LLMResponse}
    (hs : ∀ u ∈ s.responseUpdates, u.2 = false) (hsaved : s.pendingSaves = 0)
    (h : Collected full (s.collect restarts r)) : Collected full (s.interrupted restarts r) :=
  ⟨h.text, h.incomplete, hs, h.saved, hsaved⟩

theorem Collected.failure {full : Text} {s : ProviderTurn} (h : Collected full s) (restarts : Bool)
    (message : Text) :
    Collected full (s.collect restarts (Terminal.failure message).response) :=
  ⟨h.text, h.incomplete, h.updates, h.saved, h.pending⟩

end ProviderTurn

namespace VoiceTurn

def responses (t : VoiceTurn) : List LLMResponse :=
  t.texts.map LLMResponse.streaming ++ (t.terminal.map Terminal.response).toList

/-- The responses that are worked off, and the one that is interrupted. -/
def collected (t : VoiceTurn) : ProviderTurn :=
  if t.collection.pending then
    let s := t.responses.dropLast.foldl (ProviderTurn.collect t.restarts) .start
    match t.responses.getLast? with
    | some r => s.interrupted t.restarts r
    | none => s
  else t.responses.foldl (ProviderTurn.collect t.restarts) .start

def finished (t : VoiceTurn) : ProviderTurn :=
  match t.collection with
  | .throws message => t.collected.failed t.restartsLater message
  | .cancelled _ => t.collected.cancelled
  | .ended | .timedOut _ =>
    if t.netCancelled then t.collected.safetyNetCancelled.cancelled
    else t.collected.safetyNet t.restartsLater

/-- What streaming responses add up to; the first of them is swallowed. -/
def rawText (texts : List Text) : Text :=
  texts.tail.foldl (fun full text => full ++ newToken full text) []

/-- The text so far at the end of the turn. -/
def text (t : VoiceTurn) : Text := removeImEndTokenOnly (rawText t.texts)

/-- The UI gets one final update, with the text so far, and it is the last of the turn. -/
def FinalisedOnce (t : VoiceTurn) : Prop :=
  ∃ old, (∀ u ∈ old, u.2 = false) ∧ t.finished.responseUpdates = old ++ [(t.text, true)]

/-- The turns in which one of the three places finalises, and only one. -/
def finalises (t : VoiceTurn) : Bool :=
  match t.terminal, t.collection with
  | some (.success _), .ended | some (.success _), .timedOut false =>
    !(isBlank t.text && t.restarts) || t.netCancelled
  | some (.success _), .throws _ | some (.success _), .cancelled false => true
  | some (.success _), .timedOut true => t.text = [] && t.restarts && !t.netCancelled
  | some (.success _), .cancelled true => false
  | _, .ended | _, .timedOut _ => !t.netCancelled
  | _, .throws _ | _, .cancelled _ => false

section

open ProviderTurn

variable {t : VoiceTurn}

theorem collected_stream {full : Text} {s : ProviderTurn} (restarts : Bool)
    (h : Collected full s) (hfirst : s.isFirstToken = false) (texts : List Text) :
    Collected (texts.foldl (fun full text => full ++ newToken full text) full)
      ((texts.map LLMResponse.streaming).foldl (collect restarts) s) := by
  induction texts generalizing full s with
  | nil => exact h
  | cons text texts ih =>
    obtain ⟨hnext, hnextFirst⟩ := h.stream restarts hfirst text
    exact ih hnext hnextFirst

theorem collected_texts (texts : List Text) (restarts : Bool) :
    Collected (rawText texts) ((texts.map LLMResponse.streaming).foldl (collect restarts) start) := by
  have hstart : Collected [] start := by constructor <;> simp [start]
  cases texts with
  | nil => exact hstart
  | cons first texts =>
    have hfirst : start.collect restarts (.streaming first) = { start with isFirstToken := false } := by
      simp [ProviderTurn.collect, start, LLMResponse.streaming]
    show Collected _ ((texts.map LLMResponse.streaming).foldl (collect restarts)
      (start.collect restarts (.streaming first)))
    rw [hfirst]
    refine collected_stream restarts ?_ rfl texts
    exact ⟨rfl, rfl, hstart.updates, rfl, rfl⟩

/-- Without a success the turn is collected with its text and nothing final. -/
theorem collected_of_no_success (hsuccess : ∀ text, t.terminal ≠ some (.success text)) :
    Collected (rawText t.texts) t.collected := by
  have hall := collected_texts t.texts t.restarts
  unfold collected responses
  cases hterminal : t.terminal with
  | none =>
    dsimp only [Option.map_none, Option.toList_none]
    rw [List.append_nil]
    split
    next =>
      rcases List.eq_nil_or_concat t.texts with hnil | ⟨texts, last, hlast⟩
      · rw [hnil]
        exact collected_texts [] t.restarts
      · have hbefore := collected_texts texts t.restarts
        rw [List.concat_eq_append] at hlast
        rw [hlast, List.map_append, List.foldl_append] at hall
        rw [hlast, List.map_append, List.map_singleton, List.dropLast_concat, List.getLast?_concat]
        exact Collected.interrupted hbefore.updates hbefore.pending hall
    next => exact hall
  | some terminal =>
    cases terminal with
    | success text => exact absurd hterminal (hsuccess text)
    | failure message =>
      dsimp only [Option.map_some, Option.toList_some]
      split
      next =>
        rw [List.dropLast_concat, List.getLast?_concat]
        exact Collected.interrupted hall.updates hall.pending (hall.failure t.restarts message)
      next =>
        rw [List.foldl_append]
        exact hall.failure t.restarts message

theorem finalisedOnce_iff {old : List (Text × Bool)} (finals : List Text)
    (hold : ∀ u ∈ old, u.2 = false)
    (hupdates : t.finished.responseUpdates = old ++ finals.map fun x => (x, true)) :
    t.FinalisedOnce ↔ finals = [t.text] := by
  have hnone {updates : List (Text × Bool)} (h : ∀ u ∈ updates, u.2 = false) :
      updates.filter (·.2) = [] :=
    List.filter_eq_nil_iff.mpr fun u hu => by simp [h u hu]
  constructor
  · rintro ⟨before, hbefore, heq⟩
    have hfilter := congrArg (List.filter (·.2)) (hupdates.symm.trans heq)
    rw [List.filter_append, List.filter_append, hnone hold, hnone hbefore] at hfilter
    have hfinals : (finals.map fun x => (x, true)).filter (·.2) = finals.map fun x => (x, true) :=
      List.filter_eq_self.mpr (by simp)
    rw [hfinals] at hfilter
    have hfirst := congrArg (List.map Prod.fst) hfilter
    simpa using hfirst
  · rintro rfl
    exact ⟨old, hold, hupdates⟩

/-- Without a success only the safety net finalises. -/
theorem finalises_of_no_success (hsuccess : ∀ text, t.terminal ≠ some (.success text)) :
    t.finalises = match t.collection with
      | .ended | .timedOut _ => !t.netCancelled
      | .throws _ | .cancelled _ => false := by
  unfold finalises
  cases hterminal : t.terminal with
  | none => cases t.collection <;> rfl
  | some terminal =>
    cases terminal with
    | success text => exact absurd hterminal (hsuccess text)
    | failure message => cases t.collection <;> rfl

theorem netted_updates (s : ProviderTurn) (restarts netCancelled : Bool) :
    (if netCancelled then s.safetyNetCancelled.cancelled
      else s.safetyNet restarts).responseUpdates =
      s.responseUpdates ++ if s.isLLMResponseComplete || netCancelled then []
        else [(removeImEndTokenOnly s.fullResponseText, true)] := by
  cases netCancelled with
  | true =>
    rw [Bool.or_true]
    show s.safetyNetCancelled.cancelled.responseUpdates = s.responseUpdates ++ []
    rw [List.append_nil]
    unfold ProviderTurn.cancelled safetyNetCancelled
    split_ifs <;> rfl
  | false =>
    rw [Bool.or_false]
    show (s.safetyNet restarts).responseUpdates = _
    unfold safetyNet
    split
    next => exact (List.append_nil _).symm
    next =>
      unfold deliverFinal ProviderTurn.restartListening
      dsimp only
      split_ifs <;> rfl

/-- A handler for an exception or a cancellation delivers nothing. -/
theorem caught_updates (s : ProviderTurn) (restarts : Bool) (message : Text) :
    (s.failed restarts message).responseUpdates = s.responseUpdates ∧
      s.cancelled.responseUpdates = s.responseUpdates := by
  unfold ProviderTurn.failed ProviderTurn.cancelled ProviderTurn.restartListening
  constructor
  · split_ifs <;> rfl
  · split_ifs <;> rfl

/-- What the end of the collection adds to the updates. -/
theorem finished_updates : t.finished.responseUpdates = t.collected.responseUpdates ++
    match t.collection with
    | .ended | .timedOut _ =>
      if t.collected.isLLMResponseComplete || t.netCancelled then []
      else [(removeImEndTokenOnly t.collected.fullResponseText, true)]
    | .throws _ | .cancelled _ => [] := by
  unfold finished
  cases t.collection with
  | ended => exact netted_updates _ _ _
  | timedOut pending => exact netted_updates _ _ _
  | throws message => exact (caught_updates _ _ message).1.trans (List.append_nil _).symm
  | cancelled pending =>
    exact (caught_updates t.collected t.restartsLater []).2.trans (List.append_nil _).symm

theorem finalisedOnce_iff_of_no_success (hsuccess : ∀ text, t.terminal ≠ some (.success text)) :
    t.FinalisedOnce ↔ t.finalises = true := by
  have hcollected := collected_of_no_success hsuccess
  have hfinals := finished_updates (t := t)
  rw [hcollected.incomplete, hcollected.text, Bool.false_or] at hfinals
  rw [finalises_of_no_success hsuccess]
  have hnone (h : t.finished.responseUpdates = t.collected.responseUpdates ++ []) :
      t.FinalisedOnce ↔ false = true :=
    (finalisedOnce_iff [] hcollected.updates h).trans (by simp)
  have hnet (h : t.finished.responseUpdates = t.collected.responseUpdates ++
        if t.netCancelled then [] else [(removeImEndTokenOnly (rawText t.texts), true)]) :
      t.FinalisedOnce ↔ (!t.netCancelled) = true := by
    cases hcancelled : t.netCancelled with
    | true =>
      rw [hcancelled] at h
      exact hnone h
    | false =>
      rw [hcancelled] at h
      exact (finalisedOnce_iff [t.text] hcollected.updates h).trans (by simp)
  cases hcollection : t.collection with
  | ended => rw [hcollection] at hfinals; exact hnet hfinals
  | timedOut pending => rw [hcollection] at hfinals; exact hnet hfinals
  | throws message => rw [hcollection] at hfinals; exact hnone hfinals
  | cancelled pending => rw [hcollection] at hfinals; exact hnone hfinals

/-- After a success the turn is complete, unless a blank text restarted the listening. -/
theorem collected_of_success {text : Text} (hsuccess : t.terminal = some (.success text)) :
    ∃ old, (∀ u ∈ old, u.2 = false) ∧
      t.collected.responseUpdates = old ++ (if t.collection.pending then [] else [(t.text, true)]) ∧
      t.collected.isLLMResponseComplete = !(isBlank t.text && t.restarts) ∧
      ((isBlank t.text && t.restarts) = true → t.collected.fullResponseText = []) := by
  have hall := collected_texts t.texts t.restarts
  refine ⟨_, hall.updates, ?_⟩
  have hcompleted := @hall.completed _ text _ t.restarts
  unfold collected responses
  rw [hsuccess]
  dsimp only [Option.map_some, Option.toList_some]
  cases t.collection.pending with
  | true =>
    rw [if_pos rfl, if_pos rfl, List.dropLast_concat, List.getLast?_concat]
    show ((ProviderTurn.interrupted _ _ (.completed text)).responseUpdates = _) ∧ _
    unfold ProviderTurn.interrupted
    dsimp only [Terminal.response]
    rw [hcompleted]
    exact ⟨(List.append_nil _).symm, rfl, fun hblank => if_pos hblank⟩
  | false =>
    rw [if_neg Bool.false_ne_true, if_neg Bool.false_ne_true, List.foldl_append]
    show ((ProviderTurn.collect _ _ (.completed text)).responseUpdates = _) ∧
      (ProviderTurn.collect _ _ (.completed text)).isLLMResponseComplete = _ ∧ _
    rw [hcompleted]
    refine ⟨rfl, rfl, fun hblank => ?_⟩
    show (ProviderTurn.collect _ _ (.completed text)).fullResponseText = []
    rw [hcompleted]
    exact if_pos hblank

theorem finalisedOnce_iff_of_success {text : Text} (hsuccess : t.terminal = some (.success text)) :
    t.FinalisedOnce ↔ t.finalises = true := by
  obtain ⟨old, hold, hupdates, hcomplete, hcleared⟩ := collected_of_success hsuccess
  have hfinals := finished_updates (t := t)
  rw [hupdates, hcomplete] at hfinals
  have hdelivered (h : t.finished.responseUpdates = (old ++ [(t.text, true)]) ++ []) :
      t.FinalisedOnce :=
    (finalisedOnce_iff [t.text] hold (by simpa using h)).mpr rfl
  have hmissed (h : t.finished.responseUpdates = (old ++ []) ++ []) : ¬ t.FinalisedOnce := by
    rw [finalisedOnce_iff [] hold (by simpa using h)]
    simp
  have hnet (h : t.finished.responseUpdates = (old ++ [(t.text, true)]) ++
        if !(isBlank t.text && t.restarts) || t.netCancelled then []
        else [(removeImEndTokenOnly t.collected.fullResponseText, true)]) :
      t.FinalisedOnce ↔ (!(isBlank t.text && t.restarts) || t.netCancelled) = true := by
    split at h
    next hdone => exact iff_of_true (hdelivered h) hdone
    next hgoing =>
      refine iff_of_false ?_ hgoing
      let again := removeImEndTokenOnly t.collected.fullResponseText
      rw [finalisedOnce_iff [t.text, again] hold (by simpa using h)]
      simp
  unfold finalises
  rw [hsuccess]
  cases hcollection : t.collection with
  | throws message =>
    rw [hcollection] at hfinals
    exact iff_of_true (hdelivered hfinals) rfl
  | cancelled pending =>
    rw [hcollection] at hfinals
    cases pending with
    | true => exact iff_of_false (hmissed hfinals) Bool.false_ne_true
    | false => exact iff_of_true (hdelivered hfinals) rfl
  | ended =>
    rw [hcollection] at hfinals
    exact hnet hfinals
  | timedOut pending =>
    rw [hcollection] at hfinals
    cases pending with
    | false => exact hnet hfinals
    | true =>
      -- the pending update is lost, and the safety net delivers what the restart left: nothing
      have hfinals : t.finished.responseUpdates = (old ++ []) ++
          if !(isBlank t.text && t.restarts) || t.netCancelled then []
          else [(removeImEndTokenOnly t.collected.fullResponseText, true)] := hfinals
      show t.FinalisedOnce ↔ (t.text = [] && t.restarts && !t.netCancelled : Bool) = true
      split at hfinals
      next hdone =>
        refine iff_of_false (hmissed hfinals) fun hall => ?_
        simp only [Bool.and_eq_true, decide_eq_true_eq, Bool.not_eq_true'] at hall
        obtain ⟨⟨hempty, hrestarts⟩, hgoing⟩ := hall
        rw [hempty, hrestarts, hgoing] at hdone
        cases hdone
      next hgoing =>
        simp only [Bool.or_eq_true, Bool.not_eq_true', not_or, Bool.not_eq_false,
          Bool.not_eq_true] at hgoing
        obtain ⟨hblank, hnot⟩ := hgoing
        have hnil : removeImEndTokenOnly [] = [] := rfl
        rw [hcleared hblank, hnil] at hfinals
        rw [finalisedOnce_iff [[]] hold (by simpa using hfinals), hnot,
          (Bool.and_eq_true_iff.mp hblank).2]
        simp only [List.cons.injEq, and_true, Bool.and_true, Bool.not_false, decide_eq_true_eq]
        exact eq_comm

end

end VoiceTurn

end HeyNilo

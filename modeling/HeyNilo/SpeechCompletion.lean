import HeyNilo.Machine
import HeyNilo.StreamingSpeech
import Mathlib.Algebra.Ring.Int.Defs

namespace HeyNilo

open Machine

namespace KokoroTTSBridge

inductive QueueMode where
  | flush
  | add
deriving DecidableEq, Repr

/-- What `androidTts.speak` comes back with. -/
inductive SpeakResult where
  | success
  | error
  | threw
deriving DecidableEq, Repr

/-- An entry of `pendingUtterances`. When it was queued, for how long it is expected to play, and
whether the engine has it in its queue, are not recorded by the bridge. -/
structure Utterance where
  id : String
  queuedAt : Int
  expected : Int
  queued : Bool
deriving DecidableEq, Repr

end KokoroTTSBridge

structure KokoroTTSBridge where
  /-- `androidTts != null` -/
  androidTts : Bool := false
  isReady : Bool := false
  pendingUtterances : List KokoroTTSBridge.Utterance := []
  lastUtteranceStartTime : Int := 0
  lastUtteranceExpectedDurationMs : Int := 0
  /-- The last reading of the clock. -/
  clock : Int := 0
deriving DecidableEq, Repr

namespace KokoroTTSBridge

variable {s t u : KokoroTTSBridge}

/-- About 70 ms for each character, `coerceIn(1000L, 10000L)`. -/
def expectedDurationMs (cleanText : Text) : Int :=
  max 1000 (min 10000 (utf16Length cleanText * 70))

def removePending (s : KokoroTTSBridge) (id : String) : KokoroTTSBridge :=
  { s with pendingUtterances := s.pendingUtterances.filter fun u => u.id != id }

/-- The engine drops its queue; the bridge hears of it, if at all, by callbacks. -/
def engineStops (s : KokoroTTSBridge) : KokoroTTSBridge :=
  { s with pendingUtterances := s.pendingUtterances.map fun u => { u with queued := false } }

/-- `speakQueued`; the clock and the random UUID enter as `now` and `utteranceId`. -/
def speakQueued (preprocessText : Text → Text) (s : KokoroTTSBridge) (text : Text)
    (queueMode : QueueMode) (now : Int) (utteranceId : String) (result : SpeakResult) :
    KokoroTTSBridge :=
  if !s.isReady then s
  else if !s.androidTts then s
  else if isBlank text then s
  else
    let cleanText := preprocessText text
    if isBlank cleanText then s
    else
      let utterance : Utterance :=
        { id := utteranceId, queuedAt := now, expected := expectedDurationMs cleanText, queued := false }
      let s := { s with
        lastUtteranceStartTime := now
        lastUtteranceExpectedDurationMs := expectedDurationMs cleanText }
      match result with
      | .success =>
        let s := if queueMode = .flush then s.engineStops else s
        { s with pendingUtterances := s.pendingUtterances ++ [{ utterance with queued := true }] }
      | .error =>
        { { s with pendingUtterances := s.pendingUtterances ++ [utterance] }.removePending utteranceId
          with isReady := false }
      | .threw =>
        -- the entry stays although the engine did not take it
        { s with pendingUtterances := s.pendingUtterances ++ [utterance], isReady := false }

/-- How one turn of the loop in `waitForCompletion` ends. -/
inductive WaitTurn where
  | returned
  | delayed
  | timedOut
deriving DecidableEq, Repr

def gracePeriod : Int := 1500

/-- One turn: the condition of the loop reads the clock at `entered`, the bail-out at `now`. -/
def waitTurn (s : KokoroTTSBridge) (startTime timeoutMs entered now : Int) :
    WaitTurn × KokoroTTSBridge :=
  if entered - startTime < timeoutMs then
    if s.pendingUtterances.isEmpty then (.returned, s)
    else
      let timeSinceLastUtterance := now - s.lastUtteranceStartTime
      if timeSinceLastUtterance > s.lastUtteranceExpectedDurationMs + gracePeriod then
        (.returned, { s with pendingUtterances := [] })
      else (.delayed, s)
  else (.timedOut, { s with pendingUtterances := [] })

def stop (s : KokoroTTSBridge) : KokoroTTSBridge := { s with pendingUtterances := [] }

/-- The pending utterances are kept. -/
def shutdown (s : KokoroTTSBridge) : KokoroTTSBridge := { s.engineStops with isReady := false }

/-- `callback` is `onDone`, `onError` or `onStop`, which do the same; `createEngine` is the
part of the initialisation that ends with a new engine, and `configureTts` makes it ready. -/
inductive Act where
  | createEngine
  | configureTts
  | unhealthy
  | shutdown
  | stop
  | speakQueued (text : Text) (queueMode : QueueMode) (utteranceId : String) (result : SpeakResult)
  | callback (utteranceId : String)
  | waitTurn (startTime timeoutMs entered : Int)
deriving DecidableEq, Repr

/-- What an act at time `now` makes of the bridge. -/
def after (preprocessText : Text → Text) (s : KokoroTTSBridge) (now : Int) : Act → KokoroTTSBridge
  | .createEngine => { s.shutdown with androidTts := true }
  | .configureTts => if s.androidTts then { s with isReady := true } else s
  | .unhealthy => { s with isReady := false }
  | .shutdown => s.shutdown
  | .stop => s.stop
  | .speakQueued text queueMode utteranceId result =>
    s.speakQueued preprocessText text queueMode now utteranceId result
  | .callback utteranceId => s.removePending utteranceId
  | .waitTurn startTime timeoutMs entered => (s.waitTurn startTime timeoutMs entered now).2

/-- The clock does not go back, and a random UUID is not that of a pending utterance. -/
def Allowed (s : KokoroTTSBridge) (now : Int) : Act → Prop
  | .speakQueued _ _ utteranceId _ =>
    s.clock ≤ now ∧ ∀ u ∈ s.pendingUtterances, u.id ≠ utteranceId
  | _ => s.clock ≤ now

instance decidableAllowed (s : KokoroTTSBridge) (now : Int) :
    ∀ act, Decidable (s.Allowed now act)
  | .speakQueued _ _ _ _ => inferInstanceAs (Decidable (_ ∧ _))
  | .createEngine | .configureTts | .unhealthy | .shutdown | .stop | .callback _
  | .waitTurn _ _ _ => inferInstanceAs (Decidable (_ ≤ _))

def atTime (s : KokoroTTSBridge) (now : Int) : KokoroTTSBridge := { s with clock := now }

def step (preprocessText : Text → Text) (s : KokoroTTSBridge) (e : Int × Act) :
    Option KokoroTTSBridge :=
  if s.Allowed e.1 e.2 then some ((s.after preprocessText e.1 e.2).atTime e.1) else none

/-- The utterances in the engine's queue, as far as no callback has come for them. -/
def playing (s : KokoroTTSBridge) : List Utterance := s.pendingUtterances.filter (·.queued)

/-- Since the first of the utterances was queued, the time all are expected to take has passed. -/
def DoneBy (us : List Utterance) (now : Int) : Prop :=
  ∀ first ∈ us.head?, first.queuedAt + (us.map (·.expected)).sum ≤ now

instance (us : List Utterance) (now : Int) : Decidable (DoneBy us now) :=
  inferInstanceAs (Decidable (∀ first ∈ us.head?, _))

/-- Whenever a waiting call comes to look, it returns before its timeout only if no accepted
utterance is pending or those that are have had their time. -/
def WaitsEnough (s : KokoroTTSBridge) : Prop :=
  ∀ startTime timeoutMs entered now, s.clock ≤ now →
    (s.waitTurn startTime timeoutMs entered now).1 = .returned → DoneBy s.playing now

/-- The first moment at which `waitForCompletion` gives up on what is pending. -/
def givesUpAt (s : KokoroTTSBridge) : Int :=
  max s.clock (s.lastUtteranceStartTime + s.lastUtteranceExpectedDurationMs + gracePeriod + 1)

/-- The engine is handed the text. -/
def Handed (preprocessText : Text → Text) (s : KokoroTTSBridge) (text : Text) : Prop :=
  s.isReady = true ∧ s.androidTts = true ∧ isBlank text = false ∧
    isBlank (preprocessText text) = false

instance (preprocessText : Text → Text) (s : KokoroTTSBridge) (text : Text) :
    Decidable (s.Handed preprocessText text) :=
  inferInstanceAs (Decidable (_ ∧ _ ∧ _ ∧ _))

/-- An utterance joins others only when these have at most the grace period left; one that the
engine does not take, when they have at most its own time and the grace period left; a callback
leaves utterances that will have had their time when the bridge gives up. -/
def InTime (preprocessText : Text → Text) (s : KokoroTTSBridge) (e : Int × Act) : Prop :=
  match e.2 with
  | .speakQueued text queueMode _ result =>
    s.Handed preprocessText text →
      match result, queueMode with
      | .success, .flush => True
      | .success, .add => DoneBy s.playing (e.1 + gracePeriod + 1)
      | _, _ =>
        DoneBy s.playing (e.1 + expectedDurationMs (preprocessText text) + gracePeriod + 1)
  | .callback utteranceId =>
    DoneBy (s.removePending utteranceId).playing (max e.1 s.givesUpAt)
  | _ => True

instance decidableInTime (preprocessText : Text → Text) (s : KokoroTTSBridge) :
    ∀ e, Decidable (s.InTime preprocessText e)
  | (_, .speakQueued text .flush _ .success) =>
    inferInstanceAs (Decidable (s.Handed preprocessText text → True))
  | (_, .speakQueued text .add _ .success) =>
    inferInstanceAs (Decidable (s.Handed preprocessText text → DoneBy _ _))
  | (_, .speakQueued text _ _ .error) | (_, .speakQueued text _ _ .threw) =>
    inferInstanceAs (Decidable (s.Handed preprocessText text → DoneBy _ _))
  | (_, .callback _) => inferInstanceAs (Decidable (DoneBy _ _))
  | (_, .createEngine) | (_, .configureTts) | (_, .unhealthy) | (_, .shutdown) | (_, .stop)
  | (_, .waitTurn _ _ _) => inferInstanceAs (Decidable True)

variable {preprocessText : Text → Text} {us : List Utterance} {now later : Int}

theorem DoneBy.mono (h : DoneBy us now) (hle : now ≤ later) : DoneBy us later :=
  fun first hfirst => Int.le_trans (h first hfirst) hle

theorem doneBy_nil : DoneBy [] now := fun _ hfirst => nomatch hfirst

theorem doneBy_cons_iff {first : Utterance} :
    DoneBy (first :: us) now ↔
      first.queuedAt + (first.expected + (us.map (·.expected)).sum) ≤ now := by
  simp [DoneBy]

/-- The last one, queued at `now`, adds its time. -/
theorem doneBy_append_iff {last : Utterance} (hnow : last.queuedAt = now) {grace : Int}
    (hgrace : 0 ≤ grace) :
    DoneBy (us ++ [last]) (now + last.expected + grace) ↔ DoneBy us (now + grace) := by
  cases us with
  | nil =>
    have hdone : DoneBy ([] ++ [last]) (now + last.expected + grace) := by
      rw [List.nil_append, doneBy_cons_iff, hnow, List.map_nil, List.sum_nil]
      omega
    exact ⟨fun _ => doneBy_nil, fun _ => hdone⟩
  | cons first us =>
    rw [List.cons_append, doneBy_cons_iff, doneBy_cons_iff, List.map_append, List.sum_append]
    simp only [List.map_cons, List.map_nil, List.sum_cons, List.sum_nil]
    constructor <;> intro h <;> omega

theorem expectedDurationMs_pos (cleanText : Text) : 0 < expectedDurationMs cleanText := by
  unfold expectedDurationMs
  omega

@[simp]
theorem playing_engineStops (s : KokoroTTSBridge) : s.engineStops.playing = [] := by
  simp [engineStops, playing]

theorem playing_of_empty (h : s.pendingUtterances = []) : s.playing = [] := by
  rw [playing, h]
  rfl

theorem waitsEnough_iff : s.WaitsEnough ↔ DoneBy s.playing s.givesUpAt := by
  constructor
  · intro h
    cases hpending : s.pendingUtterances with
    | nil =>
      rw [playing_of_empty hpending]
      exact doneBy_nil
    | cons first us =>
      have hclock : s.clock ≤ s.givesUpAt := by
        unfold givesUpAt
        omega
      apply h 0 1 0 s.givesUpAt hclock
      have hlate : s.givesUpAt - s.lastUtteranceStartTime >
          s.lastUtteranceExpectedDurationMs + gracePeriod := by
        unfold givesUpAt
        omega
      simp [waitTurn, hpending, hlate]
  · intro h startTime timeoutMs entered now hnow hreturned
    unfold waitTurn at hreturned
    split at hreturned
    next =>
      split at hreturned
      next hempty =>
        rw [playing_of_empty (List.isEmpty_iff.mp hempty)]
        exact doneBy_nil
      next =>
        dsimp only at hreturned
        split at hreturned
        next hlate =>
          have hgiven : s.givesUpAt ≤ now := by
            unfold givesUpAt
            omega
          exact h.mono hgiven
        next => cases hreturned
    next => cases hreturned

theorem givesUpAt_step (h : s.clock ≤ now)
    (hstart : t.lastUtteranceStartTime = s.lastUtteranceStartTime)
    (hexpected : t.lastUtteranceExpectedDurationMs = s.lastUtteranceExpectedDurationMs) :
    (t.atTime now).givesUpAt = max now s.givesUpAt := by
  simp only [givesUpAt, atTime, hstart, hexpected]
  omega

/-- What `speakQueued` leaves in the queue and in the time stamps. -/
theorem speakQueued_handed {text : Text} (h : s.Handed preprocessText text) (queueMode : QueueMode)
    (now : Int) (id : String) (result : SpeakResult)
    (hfresh : ∀ u ∈ s.pendingUtterances, u.id ≠ id) :
    let t := s.speakQueued preprocessText text queueMode now id result
    let expected := expectedDurationMs (preprocessText text)
    let utterance : Utterance := { id, queuedAt := now, expected, queued := true }
    t.lastUtteranceStartTime = now ∧ t.lastUtteranceExpectedDurationMs = expected ∧
      t.playing =
        match result, queueMode with
        | .success, .flush => [utterance]
        | .success, .add => s.playing ++ [utterance]
        | _, _ => s.playing := by
  obtain ⟨hready, htts, htext, hclean⟩ := h
  intro t expected utterance
  have hremoved : (s.pendingUtterances.filter fun u => u.id != id) = s.pendingUtterances :=
    List.filter_eq_self.mpr fun u hu => by simpa using hfresh u hu
  cases result with
  | success => cases queueMode <;> simp [t, speakQueued, hready, htts, htext, hclean, playing,
      engineStops, utterance, expected]
  | error => simp [t, speakQueued, hready, htts, htext, hclean, playing, removePending, hremoved,
      expected]
  | threw => simp [t, speakQueued, hready, htts, htext, hclean, playing, expected]

theorem speakQueued_not_handed {text : Text} (h : ¬ s.Handed preprocessText text)
    (queueMode : QueueMode) (now : Int) (id : String) (result : SpeakResult) :
    s.speakQueued preprocessText text queueMode now id result = s := by
  unfold speakQueued
  split
  · rfl
  · split
    · rfl
    · split
      · rfl
      · dsimp only
        split
        · rfl
        · refine absurd ⟨?_, ?_, ?_, ?_⟩ h <;> simp_all

theorem inTime_speakQueued_iff {text : Text} (h : s.Handed preprocessText text)
    (queueMode : QueueMode) {id : String} (result : SpeakResult)
    (hfresh : ∀ u ∈ s.pendingUtterances, u.id ≠ id) :
    DoneBy (s.speakQueued preprocessText text queueMode now id result).playing
        (now + expectedDurationMs (preprocessText text) + (gracePeriod + 1)) ↔
      s.InTime preprocessText (now, .speakQueued text queueMode id result) := by
  obtain ⟨-, -, hplaying⟩ := speakQueued_handed h queueMode now id result hfresh
  rw [hplaying]
  have hgrace : 0 ≤ gracePeriod + 1 := by decide
  have happend (us : List Utterance) := @doneBy_append_iff us now
    ⟨id, now, expectedDurationMs (preprocessText text), true⟩ rfl (gracePeriod + 1) hgrace
  simp only [InTime, h, forall_const]
  cases result with
  | success =>
    cases queueMode with
    | flush => exact iff_true_intro ((happend []).mpr doneBy_nil)
    | add => simpa only [Int.add_assoc] using happend s.playing
  | error => rw [← Int.add_assoc]
  | threw => rw [← Int.add_assoc]

/-- One act, from a state in which the bridge waits long enough. -/
theorem waitsEnough_step_iff {e : Int × Act} (h : s.WaitsEnough)
    (ht : step preprocessText s e = some t) : t.WaitsEnough ↔ s.InTime preprocessText e := by
  obtain ⟨now, act⟩ := e
  obtain ⟨hallowed, ht⟩ := Option.ite_none_right_eq_some.mp ht
  cases Option.some.inj ht
  have hdone : DoneBy s.playing (max now s.givesUpAt) :=
    (waitsEnough_iff.mp h).mono (Int.le_max_right _ _)
  have hkept (t : KokoroTTSBridge) (hclock : s.clock ≤ now)
      (hstart : t.lastUtteranceStartTime = s.lastUtteranceStartTime)
      (hexpected : t.lastUtteranceExpectedDurationMs = s.lastUtteranceExpectedDurationMs) :
      (t.atTime now).WaitsEnough ↔ DoneBy t.playing (max now s.givesUpAt) := by
    rw [waitsEnough_iff, givesUpAt_step hclock hstart hexpected]
    rfl
  change ((s.after preprocessText now act).atTime now).WaitsEnough ↔ _
  cases act with
  | createEngine =>
    have hstopped : s.shutdown.playing = [] := playing_engineStops s
    rw [hkept (s.after preprocessText now .createEngine) hallowed rfl rfl]
    exact iff_of_true (hstopped.symm ▸ doneBy_nil) trivial
  | configureTts =>
    have hready : s.after preprocessText now .configureTts = s ∨
        s.after preprocessText now .configureTts = { s with isReady := true } := by
      simp only [after]
      split
      · exact .inr rfl
      · exact .inl rfl
    refine iff_of_true ?_ trivial
    rcases hready with heq | heq
    · rw [heq]
      exact (hkept s hallowed rfl rfl).mpr hdone
    · rw [heq]
      exact (hkept { s with isReady := true } hallowed rfl rfl).mpr hdone
  | unhealthy =>
    rw [hkept (s.after preprocessText now .unhealthy) hallowed rfl rfl]
    exact iff_of_true hdone trivial
  | shutdown =>
    have hstopped : s.shutdown.playing = [] := playing_engineStops s
    rw [hkept (s.after preprocessText now .shutdown) hallowed rfl rfl]
    exact iff_of_true (hstopped.symm ▸ doneBy_nil) trivial
  | stop =>
    rw [hkept (s.after preprocessText now .stop) hallowed rfl rfl]
    exact iff_of_true doneBy_nil trivial
  | speakQueued text queueMode id result =>
    obtain ⟨hclock, hfresh⟩ := hallowed
    by_cases hhanded : s.Handed preprocessText text
    · obtain ⟨hstart, hexpected, -⟩ := speakQueued_handed hhanded queueMode now id result hfresh
      have hlast := expectedDurationMs_pos (preprocessText text)
      have hgivesUp : ((s.speakQueued preprocessText text queueMode now id result).atTime
          now).givesUpAt = now + expectedDurationMs (preprocessText text) + (gracePeriod + 1) := by
        simp only [givesUpAt, atTime, hstart, hexpected, gracePeriod]
        omega
      rw [← inTime_speakQueued_iff hhanded queueMode result hfresh, waitsEnough_iff, after, hgivesUp]
      rfl
    · refine iff_of_true ?_ fun h => absurd h hhanded
      simp only [after, speakQueued_not_handed hhanded]
      exact (hkept _ hclock rfl rfl).mpr hdone
  | callback id => exact hkept _ hallowed rfl rfl
  | waitTurn startTime timeoutMs entered =>
    have hturn : (s.waitTurn startTime timeoutMs entered now).2 = s ∨
        (s.waitTurn startTime timeoutMs entered now).2 = s.stop := by
      unfold waitTurn
      dsimp only
      split
      · split
        · exact .inl rfl
        · split
          · exact .inr rfl
          · exact .inl rfl
      · exact .inr rfl
    refine iff_of_true ?_ trivial
    simp only [after]
    rcases hturn with heq | heq
    · rw [heq]
      exact (hkept s hallowed rfl rfl).mpr hdone
    · rw [heq]
      exact (hkept s.stop hallowed rfl rfl).mpr doneBy_nil

theorem waitsEnough_start : ({} : KokoroTTSBridge).WaitsEnough := waitsEnough_iff.mpr doneBy_nil

def forecast : List (Int × Act) := [
  (0, .createEngine), (5, .configureTts),
  (10, .speakQueued "The forecast is heavy rain until late in the evening.".toList .flush "1" .success)]

end KokoroTTSBridge

end HeyNilo

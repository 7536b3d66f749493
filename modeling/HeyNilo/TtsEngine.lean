import HeyNilo.Machine
import Mathlib.Data.Finset.Insert
import Mathlib.Data.Finset.Erase
import Mathlib.Algebra.Order.Ring.Nat

namespace HeyNilo

namespace KokoroTTSEngine

/-- What the code tells apart in the answer of `setLanguage`. -/
inductive LanguageResult where
  | available
  | missingData
  | notSupported
deriving DecidableEq, Repr

inductive Locale where
  | us
  | deviceDefault
  | uk
deriving DecidableEq, Repr

/-- Where a call of `initialize` stands. `retrying inTry`: in the pause before its next attempt, which
it makes from its `try` or from its `catch`. -/
inductive Stage where
  | entering
  | cleaning
  | awaiting (engine : Nat)
  | retrying (inTry : Bool)
  | ended (result : Option Bool)
deriving DecidableEq, Repr

/-- `enclosed`: an earlier attempt of the call waits for this one inside its `try`. -/
structure Call where
  stage : Stage := .entering
  enclosed : Bool := false
deriving DecidableEq, Repr

inductive Event where
  | start
  | ensureReady
  | begin (id : Nat) (available : Bool)
  | cleaned (id : Nat) (made : Except String Unit)
  | connect (engine : Nat)
  | onInit (engine : Nat) (status : Int) (answers : Except String (Locale → LanguageResult))
  | complete (id : Nat)
  | timeout (id : Nat)
  | cancel (id : Nat) (message : String)
  | speakError
  | shutdown

end KokoroTTSEngine

/-- A `KokoroTTSBridge` with the calls of `initialize` under way. The engines are numbered in the order
in which they are made; `live` are those that are not shut down. -/
structure KokoroTTSEngine where
  androidTts : Option Nat := none
  isReady : Bool := false
  initError : Option String := none
  initAttemptCount : Nat := 0
  made : Nat := 0
  live : Finset Nat := ∅
  connected : Finset Nat := ∅
  initResults : Nat → Option Bool := fun _ => none
  calls : List KokoroTTSEngine.Call := []

namespace KokoroTTSEngine

variable {s t u : KokoroTTSEngine}

/-- Both callers of `initialize` leave or set it so. -/
def maxRetries : Nat := 2

def setCall (s : KokoroTTSEngine) (id : Nat) (c : Call) : KokoroTTSEngine :=
  { s with calls := s.calls.set id c }

def finish (s : KokoroTTSEngine) (id : Nat) (result : Option Bool) : KokoroTTSEngine :=
  s.setCall id { stage := .ended result }

/-- `shutdown`, which leaves `androidTts` as it is. -/
def shutdown (s : KokoroTTSEngine) : KokoroTTSEngine :=
  match s.androidTts with
  | none => { s with isReady := false }
  | some n => { s with live := s.live.erase n, isReady := false }

/-- The first part of an attempt of `initialize`, up to the pause for the cleanup. `available` is the
answer of `checkTtsEngineAvailability`. -/
def attempt (s : KokoroTTSEngine) (id : Nat) (enclosed available : Bool) : KokoroTTSEngine :=
  let s := { s with initAttemptCount := s.initAttemptCount + 1 }
  if available then s.shutdown.setCall id { stage := .cleaning, enclosed }
  else
    { s with initError := some "No TTS engine installed on device", isReady := false }.finish id
      (some false)

def retryOrEnd (s : KokoroTTSEngine) (id : Nat) (enclosed inTry : Bool) : KokoroTTSEngine :=
  if s.initAttemptCount ≤ maxRetries then s.setCall id { stage := .retrying inTry, enclosed }
  else s.finish id (some false)

/-- The `catch` of `initialize`, up to its retry. -/
def caught (s : KokoroTTSEngine) (message : String) : KokoroTTSEngine :=
  { s with initError := some s!"Exception: {message}", isReady := false }

/-- After the pause the engine is made, which may throw. -/
def construct (s : KokoroTTSEngine) (id : Nat) (enclosed : Bool) :
    Except String Unit → KokoroTTSEngine
  | .ok _ =>
    { s with
      androidTts := some s.made
      made := s.made + 1
      live := insert s.made s.live }.setCall id { stage := .awaiting s.made, enclosed }
  | .error message => (s.caught message).retryOrEnd id enclosed false

/-- `withTimeoutOrNull` around `initResult.await()` has given `success`. -/
def awaited (s : KokoroTTSEngine) (id : Nat) (enclosed success : Bool) : KokoroTTSEngine :=
  if success then s.finish id (some true)
  else { s with isReady := false }.retryOrEnd id enclosed true

/-- `initResult.complete`, for the engine whose callback holds it. -/
def completeResult (s : KokoroTTSEngine) (engine : Nat) (success : Bool) : KokoroTTSEngine :=
  { s with initResults := Function.update s.initResults engine (some success) }

/-- An engine that is not connected or is shut down answers that the language is not supported. -/
def setLanguage (s : KokoroTTSEngine) (n : Nat) (answers : Locale → LanguageResult) (l : Locale) :
    LanguageResult :=
  if n ∈ s.live ∧ n ∈ s.connected then answers l else .notSupported

def LanguageResult.supported : LanguageResult → Bool
  | .available => true
  | .missingData | .notSupported => false

/-- `configureTts` in the callback of `engine`: it configures the engine that `androidTts` holds. -/
def configureTts (s : KokoroTTSEngine) (engine : Nat)
    (answers : Except String (Locale → LanguageResult)) : KokoroTTSEngine :=
  match s.androidTts, answers with
  | none, _ => { s with initError := some "TTS became null" }.completeResult engine false
  | some _, .error message =>
    { s with initError := some s!"Config error: {message}" }.completeResult engine false
  | some n, .ok answers =>
    if [.us, .deviceDefault, .uk].any fun l => (s.setLanguage n answers l).supported then
      { s with isReady := true, initError := none }.completeResult engine true
    else { s with initError := some "No supported language" }.completeResult engine false

/-- The callback of the engine that is made as number `engine`; `TextToSpeech.SUCCESS` is 0. -/
def onInit (s : KokoroTTSEngine) (engine : Nat) (status : Int)
    (answers : Except String (Locale → LanguageResult)) : KokoroTTSEngine :=
  if status = 0 then s.configureTts engine answers
  else
    { s with initError := some s!"Init failed with status {status}" }.completeResult engine false

/-- `ensureReady`; where the engine is not ready it goes on with `initialize`. -/
def ensureReady (s : KokoroTTSEngine) : KokoroTTSEngine :=
  if s.isReady && s.androidTts.isSome then
    { s with calls := s.calls ++ [{ stage := .ended (some true) }] }
  else { s with initAttemptCount := 0, calls := s.calls ++ [{}] }

/-- An engine calls back once, with success only when it is connected. A cancelled call goes through
the `catch` of the attempt that it is in or that encloses it, and out of the pause there. -/
def step (s : KokoroTTSEngine) : Event → Option KokoroTTSEngine
  | .start => some { s with calls := s.calls ++ [{}] }
  | .ensureReady => some s.ensureReady
  | .begin id available =>
    match s.calls[id]? with
    | some ⟨.entering, enclosed⟩ => some (s.attempt id enclosed available)
    | some ⟨.retrying inTry, enclosed⟩ => some (s.attempt id (enclosed || inTry) available)
    | _ => none
  | .cleaned id made =>
    match s.calls[id]? with
    | some ⟨.cleaning, enclosed⟩ => some (s.construct id enclosed made)
    | _ => none
  | .connect n => if n ∈ s.live then some { s with connected := insert n s.connected } else none
  | .onInit n status answers =>
    if n < s.made ∧ s.initResults n = none ∧ (status = 0 → n ∈ s.connected) then
      some (s.onInit n status answers)
    else none
  | .complete id =>
    match s.calls[id]? with
    | some ⟨.awaiting n, enclosed⟩ => (s.initResults n).map (s.awaited id enclosed)
    | _ => none
  | .timeout id =>
    match s.calls[id]? with
    | some ⟨.awaiting _, enclosed⟩ => some (s.awaited id enclosed false)
    | _ => none
  | .cancel id message =>
    match s.calls[id]? with
    | none | some ⟨.ended _, _⟩ => none
    | some ⟨.entering, _⟩ | some ⟨.retrying false, false⟩ => some (s.finish id none)
    | some _ => some ((s.caught message).finish id none)
  | .speakError =>
    if s.isReady ∧ s.androidTts.isSome then some { s with isReady := false } else none
  | .shutdown => some s.shutdown

/-! ### What a step of a call does -/

def Call.pending (c : Call) : Bool :=
  match c.stage with
  | .entering | .retrying _ => true
  | _ => false

def Call.ended (c : Call) : Bool :=
  match c.stage with
  | .ended _ => true
  | _ => false

/-- A new call of `initialize` or `ensureReady`. -/
def Event.isNew : Event → Bool
  | .start | .ensureReady => true
  | _ => false

theorem step_begin {id : Nat} {available : Bool} (h : step s (.begin id available) = some t) :
    ∃ c enclosed, s.calls[id]? = some c ∧ c.pending = true ∧ t = s.attempt id enclosed available := by
  rcases hc : s.calls[id]? with _ | ⟨stage, enclosed⟩
  · simp only [step, hc, reduceCtorEq] at h
  · cases stage <;> simp only [step, hc, reduceCtorEq, Option.some.injEq] at h
    · exact ⟨_, _, rfl, rfl, h.symm⟩
    · exact ⟨_, _, rfl, rfl, h.symm⟩

theorem step_cleaned {id : Nat} {made : Except String Unit}
    (h : step s (.cleaned id made) = some t) :
    ∃ enclosed, s.calls[id]? = some ⟨.cleaning, enclosed⟩ ∧ t = s.construct id enclosed made := by
  rcases hc : s.calls[id]? with _ | ⟨stage, enclosed⟩
  · simp only [step, hc, reduceCtorEq] at h
  · cases stage <;> simp only [step, hc, reduceCtorEq, Option.some.injEq] at h
    exact ⟨enclosed, rfl, h.symm⟩

theorem step_complete {id : Nat} (h : step s (.complete id) = some t) :
    ∃ n enclosed success, s.calls[id]? = some ⟨.awaiting n, enclosed⟩ ∧
      t = s.awaited id enclosed success := by
  rcases hc : s.calls[id]? with _ | ⟨stage, enclosed⟩
  · simp only [step, hc, reduceCtorEq] at h
  · cases stage <;> simp only [step, hc, reduceCtorEq, Option.map_eq_some_iff] at h
    obtain ⟨success, -, rfl⟩ := h
    exact ⟨_, enclosed, success, rfl, rfl⟩

theorem step_timeout {id : Nat} (h : step s (.timeout id) = some t) :
    ∃ n enclosed, s.calls[id]? = some ⟨.awaiting n, enclosed⟩ ∧
      t = s.awaited id enclosed false := by
  rcases hc : s.calls[id]? with _ | ⟨stage, enclosed⟩
  · simp only [step, hc, reduceCtorEq] at h
  · cases stage <;> simp only [step, hc, reduceCtorEq, Option.some.injEq] at h
    exact ⟨_, enclosed, rfl, h.symm⟩

theorem step_cancel {id : Nat} {message : String} (h : step s (.cancel id message) = some t) :
    ∃ c, s.calls[id]? = some c ∧ c.ended = false ∧
      (t = s.finish id none ∨ t = (s.caught message).finish id none) := by
  rcases hc : s.calls[id]? with _ | ⟨stage, enclosed⟩
  · simp only [step, hc, reduceCtorEq] at h
  · refine ⟨_, rfl, ?_⟩
    cases stage with
    | entering =>
      simp only [step, hc, Option.some.injEq] at h
      exact ⟨rfl, .inl h.symm⟩
    | cleaning | awaiting n =>
      simp only [step, hc, Option.some.injEq] at h
      exact ⟨rfl, .inr h.symm⟩
    | retrying inTry =>
      cases inTry <;> cases enclosed <;> simp only [step, hc, Option.some.injEq] at h
      · exact ⟨rfl, .inl h.symm⟩
      all_goals exact ⟨rfl, .inr h.symm⟩
    | ended result => simp only [step, hc, reduceCtorEq] at h

theorem step_connect {n : Nat} (h : step s (.connect n) = some t) :
    n ∈ s.live ∧ t = { s with connected := insert n s.connected } := by
  simp only [step] at h
  split at h
  next hn => exact ⟨hn, (Option.some.inj h).symm⟩
  next => cases h

theorem step_onInit {n : Nat} {status : Int} {answers : Except String (Locale → LanguageResult)}
    (h : step s (.onInit n status answers) = some t) : t = s.onInit n status answers := by
  simp only [step] at h
  split at h
  · exact (Option.some.inj h).symm
  · cases h

theorem step_speakError (h : step s .speakError = some t) : t = { s with isReady := false } := by
  simp only [step] at h
  split at h
  · exact (Option.some.inj h).symm
  · cases h

/-! ### What a call can cost -/

/-- Prices for the steps that a call takes by itself. -/
structure Cost where
  begin : Nat
  cleaned : Nat
  resume : Nat

namespace Cost

variable (k : Cost)

def attempt : Nat := k.begin + k.cleaned + k.resume

/-- The price of the step that a call takes from a stage. -/
def next : Stage → Nat
  | .entering | .retrying _ => k.begin
  | .cleaning => k.cleaned
  | .awaiting _ => k.resume
  | .ended _ => 0

def price : Event → Nat
  | .begin _ _ => k.begin
  | .cleaned _ _ => k.cleaned
  | .complete _ | .timeout _ => k.resume
  | _ => 0

/-- What the attempt of a call can still cost, and one more attempt while there may be one. -/
def weight (count : Nat) : Stage → Nat
  | .entering | .retrying _ => k.attempt
  | .cleaning => k.cleaned + k.resume + if count ≤ maxRetries then k.attempt else 0
  | .awaiting _ => k.resume + if count ≤ maxRetries then k.attempt else 0
  | .ended _ => 0

def budget (s : KokoroTTSEngine) : Nat :=
  (maxRetries - s.initAttemptCount) * k.attempt +
    (s.calls.map fun c => k.weight s.initAttemptCount c.stage).sum

theorem next_pending {c : Call} (hc : c.pending = true) : k.next c.stage = k.begin := by
  obtain ⟨stage, enclosed⟩ := c
  cases stage <;> first | rfl | simp only [Call.pending, Bool.false_eq_true] at hc

end Cost

/-- The engine in use is shut down. -/
def Clear (s : KokoroTTSEngine) : Prop :=
  ∀ n, s.androidTts = some n → n ∉ s.live

/-- How a call goes on, from one number of attempts to another. -/
inductive Moves (count : Nat) : Call → Call → Nat → Prop where
  | begin {c d : Call} (hc : c.pending = true) (hd : d.stage = .cleaning) :
    Moves count c d (count + 1)
  | refuse {c d : Call} (hc : c.pending = true) (hd : d.ended = true) : Moves count c d (count + 1)
  | make {c d : Call} {n : Nat} (hc : c.stage = .cleaning) (hd : d.stage = .awaiting n) :
    Moves count c d count
  | retry {c d : Call} (hc : c.stage = .cleaning ∨ ∃ n, c.stage = .awaiting n)
    (hd : d.pending = true) (hcount : count ≤ maxRetries) : Moves count c d count
  | finish {c d : Call} (hc : c.ended = false) (hd : d.ended = true) : Moves count c d count

theorem Moves.le {count count' : Nat} {c d : Call} (h : Moves count c d count') : count ≤ count' := by
  cases h <;> omega

theorem Moves.pending {count count' : Nat} {c d : Call} (h : Moves count c d count')
    (hd : d.stage = .cleaning) : c.pending = true := by
  cases h with
  | begin hc _ => exact hc
  | refuse hc _ => exact hc
  | make _ hd' => rw [hd'] at hd; cases hd
  | retry _ hd' _ => simp only [Call.pending, hd, Bool.false_eq_true] at hd'
  | finish _ hd' => simp only [Call.ended, hd, Bool.false_eq_true] at hd'

theorem shutdown_clear (s : KokoroTTSEngine) : s.shutdown.Clear := by
  unfold shutdown
  split
  next htts =>
    intro n hn
    simp only [htts, reduceCtorEq] at hn
  next m htts =>
    intro n hn
    cases Option.some.inj (htts.symm.trans hn)
    exact Finset.notMem_erase _ _

theorem shutdown_calls (s : KokoroTTSEngine) : s.shutdown.calls = s.calls := by
  unfold shutdown
  split <;> rfl

theorem shutdown_initAttemptCount (s : KokoroTTSEngine) :
    s.shutdown.initAttemptCount = s.initAttemptCount := by
  unfold shutdown
  split <;> rfl

theorem configureTts_calls (engine : Nat) (answers : Except String (Locale → LanguageResult)) :
    (s.configureTts engine answers).calls = s.calls ∧
      (s.configureTts engine answers).initAttemptCount = s.initAttemptCount := by
  unfold configureTts
  split
  · exact ⟨rfl, rfl⟩
  · exact ⟨rfl, rfl⟩
  · split <;> exact ⟨rfl, rfl⟩

theorem onInit_calls (engine : Nat) (status : Int)
    (answers : Except String (Locale → LanguageResult)) :
    (s.onInit engine status answers).calls = s.calls ∧
      (s.onInit engine status answers).initAttemptCount = s.initAttemptCount := by
  unfold onInit
  split
  · exact configureTts_calls engine answers
  · exact ⟨rfl, rfl⟩

theorem attempt_moves {c : Call} (id : Nat) (enclosed available : Bool) (hc : c.pending = true) :
    ∃ d, (s.attempt id enclosed available).calls = s.calls.set id d ∧
      Moves s.initAttemptCount c d (s.attempt id enclosed available).initAttemptCount ∧
      (d.stage = .cleaning → (s.attempt id enclosed available).Clear) := by
  cases available with
  | false => exact ⟨_, rfl, .refuse hc rfl, fun h => by cases h⟩
  | true =>
    refine ⟨{ stage := .cleaning, enclosed }, ?_, ?_, fun _ => ?_⟩
    · simp only [attempt, ↓reduceIte, setCall, shutdown_calls]
    · simp only [attempt, ↓reduceIte, setCall, shutdown_initAttemptCount]
      exact .begin hc rfl
    · exact shutdown_clear { s with initAttemptCount := s.initAttemptCount + 1 }

theorem retryOrEnd_moves {id : Nat} {c : Call} (enclosed inTry : Bool)
    (hc : c.stage = .cleaning ∨ ∃ n, c.stage = .awaiting n) :
    ∃ d, (s.retryOrEnd id enclosed inTry).calls = s.calls.set id d ∧
      Moves s.initAttemptCount c d (s.retryOrEnd id enclosed inTry).initAttemptCount := by
  have hended : c.ended = false := by
    rcases hc with hc | ⟨n, hc⟩ <;> simp only [Call.ended, hc]
  unfold retryOrEnd
  split
  next hcount => exact ⟨_, rfl, .retry hc rfl hcount⟩
  next => exact ⟨_, rfl, .finish hended rfl⟩

theorem construct_moves (id : Nat) (enclosed : Bool) (made : Except String Unit) :
    ∃ d, (s.construct id enclosed made).calls = s.calls.set id d ∧
      Moves s.initAttemptCount ⟨.cleaning, enclosed⟩ d
        (s.construct id enclosed made).initAttemptCount := by
  cases made with
  | ok _ => exact ⟨_, rfl, .make rfl rfl⟩
  | error message =>
    exact @retryOrEnd_moves (s.caught message) id _ enclosed false (.inl rfl)

theorem awaited_moves (id n : Nat) (enclosed success : Bool) :
    ∃ d, (s.awaited id enclosed success).calls = s.calls.set id d ∧
      Moves s.initAttemptCount ⟨.awaiting n, enclosed⟩ d
        (s.awaited id enclosed success).initAttemptCount := by
  cases success with
  | true => exact ⟨_, rfl, .finish rfl rfl⟩
  | false =>
    exact @retryOrEnd_moves { s with isReady := false } id _ enclosed true (.inr ⟨n, rfl⟩)

/-- Apart from a new call, a step moves one call or none. It costs at most what that call's stage says,
and a call comes to the cleanup by shutting the engine in use down. -/
theorem step_moves {e : Event} (hnew : e.isNew = false) (h : step s e = some t) (k : Cost) :
    (t.calls = s.calls ∧ t.initAttemptCount = s.initAttemptCount ∧ k.price e = 0) ∨
      ∃ id c d, s.calls[id]? = some c ∧ t.calls = s.calls.set id d ∧
        Moves s.initAttemptCount c d t.initAttemptCount ∧ (d.stage = .cleaning → t.Clear) ∧
        k.price e ≤ k.next c.stage := by
  cases e with
  | start => simp only [Event.isNew, Bool.true_eq_false] at hnew
  | ensureReady => simp only [Event.isNew, Bool.true_eq_false] at hnew
  | begin id available =>
    obtain ⟨c, enclosed, hc, hpending, rfl⟩ := step_begin h
    obtain ⟨d, hd, hm, hclear⟩ := attempt_moves (s := s) id enclosed available hpending
    exact .inr ⟨id, c, d, hc, hd, hm, hclear, (k.next_pending hpending).ge⟩
  | cleaned id made =>
    obtain ⟨enclosed, hc, rfl⟩ := step_cleaned h
    obtain ⟨d, hd, hm⟩ := construct_moves (s := s) id enclosed made
    exact .inr ⟨id, _, d, hc, hd, hm, fun h => absurd (hm.pending h) Bool.false_ne_true, le_refl _⟩
  | connect n =>
    obtain ⟨-, rfl⟩ := step_connect h
    exact .inl ⟨rfl, rfl, rfl⟩
  | onInit n status answers =>
    cases step_onInit h
    obtain ⟨hcalls, hcount⟩ := onInit_calls (s := s) n status answers
    exact .inl ⟨hcalls, hcount, rfl⟩
  | complete id =>
    obtain ⟨n, enclosed, success, hc, rfl⟩ := step_complete h
    obtain ⟨d, hd, hm⟩ := awaited_moves (s := s) id n enclosed success
    exact .inr ⟨id, _, d, hc, hd, hm, fun h => absurd (hm.pending h) Bool.false_ne_true, le_refl _⟩
  | timeout id =>
    obtain ⟨n, enclosed, hc, rfl⟩ := step_timeout h
    obtain ⟨d, hd, hm⟩ := awaited_moves (s := s) id n enclosed false
    exact .inr ⟨id, _, d, hc, hd, hm, fun h => absurd (hm.pending h) Bool.false_ne_true, le_refl _⟩
  | cancel id message =>
    obtain ⟨c, hc, hended, rfl | rfl⟩ := step_cancel h
    · exact .inr ⟨id, c, _, hc, rfl, .finish hended rfl, fun h => (by cases h), Nat.zero_le _⟩
    · exact .inr ⟨id, c, _, hc, rfl, .finish hended rfl, fun h => (by cases h), Nat.zero_le _⟩
  | speakError =>
    cases step_speakError h
    exact .inl ⟨rfl, rfl, rfl⟩
  | shutdown =>
    cases Option.some.inj h
    exact .inl ⟨shutdown_calls s, shutdown_initAttemptCount s, rfl⟩

/-- One call of the list is replaced, and nothing else weighs more than before. -/
theorem sum_set_le {l : List Call} {id : Nat} {c d : Call} {f f' : Call → Nat}
    (hle : ∀ x, f' x ≤ f x) (hc : l[id]? = some c) :
    ((l.set id d).map f').sum + f c ≤ (l.map f).sum + f' d := by
  have hsum : ∀ xs : List Call, (xs.map f').sum ≤ (xs.map f).sum := by
    intro xs
    induction xs with
    | nil => exact Nat.le_refl _
    | cons x xs ih => exact Nat.add_le_add (hle x) ih
  induction l generalizing id with
  | nil => simp only [List.getElem?_nil, reduceCtorEq] at hc
  | cons x xs ih =>
    cases id with
    | zero =>
      cases Option.some.inj hc
      have htail := hsum xs
      simp only [List.set_cons_zero, List.map_cons, List.sum_cons]
      omega
    | succ id =>
      have hrest := ih hc
      have hhead := hle x
      simp only [List.set_cons_succ, List.map_cons, List.sum_cons]
      omega

namespace Cost

variable (k : Cost)

theorem weight_pending {count : Nat} {c : Call} (hc : c.pending = true) :
    k.weight count c.stage = k.attempt := by
  obtain ⟨stage, enclosed⟩ := c
  cases stage <;> first | rfl | simp only [Call.pending, Bool.false_eq_true] at hc

theorem weight_ended {count : Nat} {c : Call} (hc : c.ended = true) :
    k.weight count c.stage = 0 := by
  obtain ⟨stage, enclosed⟩ := c
  cases stage <;> first | rfl | simp only [Call.ended, Bool.false_eq_true] at hc

theorem next_le_weight (count : Nat) (stage : Stage) : k.next stage ≤ k.weight count stage := by
  cases stage <;> simp only [next, weight, attempt] <;> omega

/-- More attempts never give a call more to spend. -/
theorem weight_le {count count' : Nat} (h : count ≤ count') (stage : Stage) :
    k.weight count' stage ≤ k.weight count stage := by
  have hif : (if count' ≤ maxRetries then k.attempt else 0) ≤
      if count ≤ maxRetries then k.attempt else 0 := by
    split <;> split <;> omega
  cases stage <;> simp only [weight] <;> omega

/-- A begun attempt is one less, or the last that this call may make. -/
theorem begin_pays {count : Nat} {c d : Call} (hc : c.pending = true)
    (hd : d.stage = .cleaning ∨ d.ended = true) :
    k.begin + ((maxRetries - (count + 1)) * k.attempt + k.weight (count + 1) d.stage) ≤
      (maxRetries - count) * k.attempt + k.weight count c.stage := by
  have hweight : k.begin + k.weight (count + 1) d.stage ≤
      k.attempt + if count + 1 ≤ maxRetries then k.attempt else 0 := by
    rcases hd with hd | hd
    · simp only [hd, weight, attempt]
      omega
    · rw [k.weight_ended hd]
      simp only [attempt]
      omega
  have hattempts : ((maxRetries - (count + 1)) * k.attempt +
      if count + 1 ≤ maxRetries then k.attempt else 0) ≤ (maxRetries - count) * k.attempt := by
    split
    next hle =>
      have hsub : maxRetries - count = maxRetries - (count + 1) + 1 := by omega
      rw [hsub, Nat.succ_mul]
    next hle =>
      have hsub : maxRetries - (count + 1) = 0 := by omega
      rw [hsub, Nat.zero_mul]
      exact Nat.zero_le _
  rw [k.weight_pending hc]
  omega

theorem moves_pay {count count' : Nat} {c d : Call} (hm : Moves count c d count') :
    k.next c.stage + ((maxRetries - count') * k.attempt + k.weight count' d.stage) ≤
      (maxRetries - count) * k.attempt + k.weight count c.stage := by
  cases hm with
  | begin hc hd =>
    rw [k.next_pending hc]
    exact k.begin_pays hc (.inl hd)
  | refuse hc hd =>
    rw [k.next_pending hc]
    exact k.begin_pays hc (.inr hd)
  | make hc hd =>
    simp only [hc, hd, next, weight]
    omega
  | retry hc hd hcount =>
    rw [k.weight_pending hd]
    rcases hc with hc | ⟨n, hc⟩ <;> simp only [hc, next, weight, if_pos hcount] <;> omega
  | finish hc hd =>
    rw [k.weight_ended hd]
    have hle := k.next_le_weight count c.stage
    omega

theorem budget_set {id : Nat} {c d : Call} (hc : s.calls[id]? = some c)
    (ht : t.calls = s.calls.set id d) (hm : Moves s.initAttemptCount c d t.initAttemptCount) :
    k.next c.stage + k.budget t ≤ k.budget s := by
  have hpay := k.moves_pay hm
  have hset := sum_set_le (d := d) (fun x => k.weight_le hm.le x.stage) hc
  simp only [budget, ht]
  omega

/-- Every step but a new call is paid for. -/
theorem step_pays {e : Event} (hnew : e.isNew = false) (h : step s e = some t) :
    k.price e + k.budget t ≤ k.budget s := by
  obtain ⟨hcalls, hcount, hprice⟩ | ⟨id, c, d, hc, hd, hm, -, hprice⟩ := step_moves hnew h k
  · simp only [budget, hcalls, hcount, hprice]
    omega
  · have hle := k.budget_set hc hd hm
    omega

end Cost

/-! ### What a step does to the engines -/

/-- No engine is made and none comes alive, and where the bridge stays ready none is lost. -/
structure Calms (s t : KokoroTTSEngine) : Prop where
  androidTts : t.androidTts = s.androidTts
  made : t.made = s.made
  connected : t.connected = s.connected
  live : t.live ⊆ s.live
  ready : t.isReady = true → s.isReady = true ∧ t.live = s.live

theorem Calms.of_calls {calls : List Call} : Calms s { s with calls := calls } :=
  ⟨rfl, rfl, rfl, Finset.Subset.refl _, fun h => ⟨h, rfl⟩⟩

theorem Calms.unready (htts : t.androidTts = s.androidTts)
    (hmade : t.made = s.made) (hconnected : t.connected = s.connected) (hlive : t.live ⊆ s.live)
    (hready : t.isReady = false) : Calms s t :=
  ⟨htts, hmade, hconnected, hlive, fun h => by simp only [hready, Bool.false_eq_true] at h⟩

theorem Calms.trans {v : KokoroTTSEngine} (h : Calms s t) (h' : Calms t v) : Calms s v := by
  refine ⟨h'.androidTts.trans h.androidTts, h'.made.trans h.made, h'.connected.trans h.connected,
    h'.live.trans h.live, fun hready => ?_⟩
  obtain ⟨ht, hlive⟩ := h'.ready hready
  obtain ⟨hs, hlive'⟩ := h.ready ht
  exact ⟨hs, hlive.trans hlive'⟩

theorem shutdown_calms (s : KokoroTTSEngine) : Calms s s.shutdown := by
  unfold shutdown
  split
  · exact .unready rfl rfl rfl (Finset.Subset.refl _) rfl
  · exact .unready rfl rfl rfl (Finset.erase_subset _ _) rfl

theorem attempt_calms (id : Nat) (enclosed available : Bool) :
    Calms s (s.attempt id enclosed available) := by
  cases available with
  | false => exact .unready rfl rfl rfl (Finset.Subset.refl _) rfl
  | true =>
    have hshut := shutdown_calms { s with initAttemptCount := s.initAttemptCount + 1 }
    exact ⟨hshut.androidTts, hshut.made, hshut.connected, hshut.live, hshut.ready⟩

theorem retryOrEnd_calms (id : Nat) (enclosed inTry : Bool) :
    Calms s (s.retryOrEnd id enclosed inTry) := by
  unfold retryOrEnd
  split <;> exact .of_calls

theorem unready_calms : Calms s { s with isReady := false } :=
  .unready rfl rfl rfl (Finset.Subset.refl _) rfl

theorem caught_calms (message : String) : Calms s (s.caught message) :=
  .unready rfl rfl rfl (Finset.Subset.refl _) rfl

theorem awaited_calms (id : Nat) (enclosed success : Bool) :
    Calms s (s.awaited id enclosed success) := by
  cases success with
  | true => exact .of_calls
  | false => exact unready_calms.trans (retryOrEnd_calms id enclosed true)

theorem ensureReady_calms (s : KokoroTTSEngine) : Calms s s.ensureReady := by
  unfold ensureReady
  split
  · exact .of_calls
  · exact ⟨rfl, rfl, rfl, Finset.Subset.refl _, fun h => ⟨h, rfl⟩⟩

/-- A callback makes the bridge ready only for an engine that is connected and alive. -/
structure Configures (s t : KokoroTTSEngine) : Prop where
  androidTts : t.androidTts = s.androidTts
  made : t.made = s.made
  connected : t.connected = s.connected
  live : t.live = s.live
  ready : t.isReady = s.isReady ∨
    t.isReady = true ∧ ∃ n, s.androidTts = some n ∧ n ∈ s.live ∧ n ∈ s.connected

theorem setLanguage_supported {n : Nat} {answers : Locale → LanguageResult} {l : Locale}
    (h : (s.setLanguage n answers l).supported = true) : n ∈ s.live ∧ n ∈ s.connected := by
  unfold setLanguage at h
  split at h
  next hn => exact hn
  next => simp only [LanguageResult.supported, Bool.false_eq_true] at h

theorem onInit_acts (engine : Nat) (status : Int)
    (answers : Except String (Locale → LanguageResult)) :
    Configures s (s.onInit engine status answers) := by
  unfold onInit
  split
  · unfold configureTts
    split
    next => exact ⟨rfl, rfl, rfl, rfl, .inl rfl⟩
    next => exact ⟨rfl, rfl, rfl, rfl, .inl rfl⟩
    next n answers htts =>
      split
      next hany =>
        obtain ⟨l, -, hl⟩ := List.any_eq_true.mp hany
        exact ⟨rfl, rfl, rfl, rfl, .inr ⟨rfl, n, htts, setLanguage_supported hl⟩⟩
      next => exact ⟨rfl, rfl, rfl, rfl, .inl rfl⟩
  · exact ⟨rfl, rfl, rfl, rfl, .inl rfl⟩

/-- What becomes of the engines: they calm down, one connects, one calls back, or one is made. -/
theorem step_acts {e : Event} (h : step s e = some t) :
    Calms s t ∨ (∃ n ∈ s.live, t = { s with connected := insert n s.connected }) ∨
      Configures s t ∨
      ∃ id enclosed, e = .cleaned id (.ok ()) ∧ s.calls[id]? = some ⟨.cleaning, enclosed⟩ ∧
        t = s.construct id enclosed (.ok ()) := by
  cases e with
  | start =>
    cases Option.some.inj h
    exact .inl .of_calls
  | ensureReady =>
    cases Option.some.inj h
    exact .inl (ensureReady_calms s)
  | begin id available =>
    obtain ⟨c, enclosed, -, -, rfl⟩ := step_begin h
    exact .inl (attempt_calms id enclosed available)
  | cleaned id made =>
    obtain ⟨enclosed, hc, rfl⟩ := step_cleaned h
    cases made with
    | ok _ => exact .inr (.inr (.inr ⟨id, enclosed, rfl, hc, rfl⟩))
    | error message =>
      exact .inl ((caught_calms message).trans (retryOrEnd_calms id enclosed false))
  | connect n =>
    obtain ⟨hn, rfl⟩ := step_connect h
    exact .inr (.inl ⟨n, hn, rfl⟩)
  | onInit n status answers =>
    cases step_onInit h
    exact .inr (.inr (.inl (onInit_acts n status answers)))
  | complete id =>
    obtain ⟨n, enclosed, success, -, rfl⟩ := step_complete h
    exact .inl (awaited_calms id enclosed success)
  | timeout id =>
    obtain ⟨n, enclosed, -, rfl⟩ := step_timeout h
    exact .inl (awaited_calms id enclosed false)
  | cancel id message =>
    obtain ⟨c, -, -, rfl | rfl⟩ := step_cancel h
    · exact .inl .of_calls
    · exact .inl ((caught_calms message).trans .of_calls)
  | speakError =>
    cases step_speakError h
    exact .inl unready_calms
  | shutdown =>
    cases Option.some.inj h
    exact .inl (shutdown_calms s)

/-! ### Calls end -/

/-- A step that a call takes by itself. -/
def Event.ofCall : Event → Bool
  | .begin _ _ | .cleaned _ _ | .complete _ | .timeout _ => true
  | _ => false

def stepsLeft (s : KokoroTTSEngine) : Nat :=
  Cost.budget ⟨1, 1, 1⟩ s

def enginesLeft (s : KokoroTTSEngine) : Nat :=
  Cost.budget ⟨0, 1, 0⟩ s

def Idle (s : KokoroTTSEngine) : Prop :=
  ∀ c ∈ s.calls, c.ended = true

instance : Decidable s.Idle :=
  inferInstanceAs (Decidable (∀ c ∈ s.calls, c.ended = true))

theorem step_made {e : Event} (h : step s e = some t) :
    t.made ≤ s.made + Cost.price ⟨0, 1, 0⟩ e := by
  obtain hcalm | ⟨n, -, rfl⟩ | hconf | ⟨id, enclosed, rfl, -, rfl⟩ := step_acts h
  · exact hcalm.made.le.trans (Nat.le_add_right _ _)
  · exact Nat.le_add_right _ _
  · exact hconf.made.le.trans (Nat.le_add_right _ _)
  · exact Nat.le_refl _

theorem price_own (e : Event) : Cost.price ⟨1, 1, 1⟩ e = if e.ofCall then 1 else 0 := by
  cases e <;> rfl

/-- A call that has not ended has a step to take. -/
theorem exists_step {id : Nat} {c : Call} (hc : s.calls[id]? = some c) (hended : c.ended = false) :
    ∃ e t, e.ofCall = true ∧ step s e = some t := by
  obtain ⟨stage, enclosed⟩ := c
  cases stage with
  | entering => exact ⟨.begin id true, s.attempt id enclosed true, rfl, by simp only [step, hc]⟩
  | cleaning => exact ⟨.cleaned id (.ok ()), s.construct id enclosed (.ok ()), rfl, by simp only [step, hc]⟩
  | awaiting n => exact ⟨.timeout id, s.awaited id enclosed false, rfl, by simp only [step, hc]⟩
  | retrying inTry => exact ⟨.begin id true, s.attempt id (enclosed || inTry) true, rfl, by simp only [step, hc]⟩
  | ended result => simp only [Call.ended, Bool.true_eq_false] at hended

/-- Without new calls, the ones under way take a bounded number of steps and make a bounded number of
engines, in whatever order they interleave; and until they have all ended one of them can go on. -/
theorem calls_end {es : List Event} (hnew : ∀ e ∈ es, e.isNew = false)
    (hr : Machine.run step s es = some u) :
    (es.filter Event.ofCall).length ≤ s.stepsLeft ∧ u.made ≤ s.made + s.enginesLeft ∧
      (u.Idle ∨ ∃ e t, e.ofCall = true ∧ step u e = some t) := by
  refine ⟨?_, ?_, ?_⟩
  · have hpays : ∀ s t, ∀ e ∈ es, step s e = some t →
        (if e.ofCall then 1 else 0) + t.stepsLeft ≤ s.stepsLeft := by
      intro s t e he h
      rw [← price_own]
      exact Cost.step_pays ⟨1, 1, 1⟩ (hnew e he) h
    have hspent := Machine.run_pays hpays hr
    omega
  · have hkeep := Machine.run_keeps (I := fun t => t.made + t.enginesLeft ≤ s.made + s.enginesLeft)
      (fun t v e he hi h => by
        have hpay := Cost.step_pays ⟨0, 1, 0⟩ (hnew e he) h
        have hmade := step_made h
        simp only [enginesLeft] at hi ⊢
        omega) (Nat.le_refl _) hr
    omega
  · by_cases hidle : u.Idle
    · exact .inl hidle
    · obtain ⟨c, hmem, hended⟩ : ∃ c ∈ u.calls, ¬ c.ended = true := by
        simpa only [Idle, not_forall, exists_prop] using hidle
      obtain ⟨id, hc⟩ := List.mem_iff_getElem?.mp hmem
      exact .inr (exists_step hc (Bool.eq_false_of_not_eq_true hended))

/-- An attempt that succeeds: the engine number `engine` connects and is configured for call `id`. -/
def smoothAttempt (id engine : Nat) : List Event :=
  [.begin id true, .cleaned id (.ok ()), .connect engine,
    .onInit engine 0 (.ok fun _ => .available), .complete id]

theorem calls_end_smooth : ∃ u, Machine.run step (ensureReady {}) (smoothAttempt 0 0) = some u ∧
    ((smoothAttempt 0 0).filter Event.ofCall).length ≤ 9 ∧ u.made ≤ 0 + 3 ∧
      (u.Idle ∨ ∃ e t, e.ofCall = true ∧ step u e = some t) := by
  obtain ⟨u, hu⟩ : ∃ u, Machine.run step (ensureReady {}) (smoothAttempt 0 0) = some u :=
    Option.isSome_iff_exists.mp (by decide)
  exact ⟨u, hu, calls_end (by decide) hu⟩

/-! ### One engine at a time -/

/-- No engine is left alive but the one in use, and the bridge is ready only for an engine that is
connected and alive. -/
structure Sound (s : KokoroTTSEngine) : Prop where
  noLeak : ∀ n ∈ s.live, s.androidTts = some n
  ready : s.isReady = true → ∃ n, s.androidTts = some n ∧ n ∈ s.live ∧ n ∈ s.connected

/-- A call that may still make an engine. -/
def CanMake (count : Nat) (c : Call) : Prop :=
  match c.stage with
  | .entering | .cleaning | .retrying _ => True
  | .awaiting _ => count ≤ maxRetries
  | .ended _ => False

def OneMaker (s : KokoroTTSEngine) : Prop :=
  ∀ (i j : Nat) (c d : Call), s.calls[i]? = some c → s.calls[j]? = some d →
    CanMake s.initAttemptCount c → CanMake s.initAttemptCount d → i = j

/-- What a call has cleaned up stays so until it makes its engine. -/
def Cleaned (s : KokoroTTSEngine) : Prop :=
  ∀ c ∈ s.calls, c.stage = .cleaning → s.Clear

/-- A future in which no call is added. -/
def Reaches (s t : KokoroTTSEngine) : Prop :=
  ∃ es : List Event, (∀ e ∈ es, e.isNew = false) ∧ Machine.run step s es = some t

theorem Calms.sound (h : Calms s t) (hs : s.Sound) : t.Sound where
  noLeak n hn := h.androidTts.trans (hs.noLeak n (h.live hn))
  ready hready := by
    obtain ⟨hsready, hlive⟩ := h.ready hready
    rw [h.androidTts, h.connected, hlive]
    exact hs.ready hsready

theorem Calms.clear (h : Calms s t) (hs : s.Clear) : t.Clear :=
  fun n hn hlive => hs n (h.androidTts.symm.trans hn) (h.live hlive)

theorem Configures.sound (h : Configures s t) (hs : s.Sound) : t.Sound where
  noLeak n hn := by
    rw [h.live] at hn
    exact h.androidTts.trans (hs.noLeak n hn)
  ready hready := by
    rw [h.androidTts, h.connected, h.live]
    obtain hsame | ⟨-, hcur⟩ := h.ready
    · exact hs.ready (hsame.symm.trans hready)
    · exact hcur

theorem Configures.clear (h : Configures s t) (hs : s.Clear) : t.Clear := by
  intro n hn
  rw [h.live]
  exact hs n (h.androidTts.symm.trans hn)

theorem construct_sound (id : Nat) (enclosed : Bool) (hs : s.Sound) (hclear : s.Clear) :
    (s.construct id enclosed (.ok ())).Sound where
  noLeak n hn := by
    have hmem : n ∈ insert s.made s.live := hn
    rcases Finset.mem_insert.mp hmem with rfl | hlive
    · rfl
    · exact absurd hlive (hclear n (hs.noLeak n hlive))
  ready hready := by
    obtain ⟨n, htts, hlive, -⟩ := hs.ready hready
    exact absurd hlive (hclear n htts)

theorem canMake_pending {count : Nat} {c : Call} (hc : c.pending = true) : CanMake count c := by
  obtain ⟨stage, enclosed⟩ := c
  cases stage <;> trivial

theorem not_canMake {count : Nat} {c : Call} (hc : c.ended = true) : ¬ CanMake count c := by
  obtain ⟨stage, enclosed⟩ := c
  cases stage <;> first | exact id | simp only [Call.ended, Bool.false_eq_true] at hc

theorem canMake_of_le {count count' : Nat} (h : count ≤ count') {c : Call}
    (hc : CanMake count' c) : CanMake count c := by
  obtain ⟨stage, enclosed⟩ := c
  cases stage with
  | awaiting n => exact h.trans hc
  | entering | cleaning | retrying _ => trivial
  | ended result => exact hc

theorem Moves.canMake {count count' : Nat} {c d : Call} (h : Moves count c d count')
    (hmake : CanMake count' d) : CanMake count c := by
  cases h with
  | begin hc hd => exact canMake_pending hc
  | refuse hc hd => exact canMake_pending hc
  | make hc hd => simp only [CanMake, hc]
  | retry hc hd hcount =>
    rcases hc with hc | ⟨n, hc⟩
    · simp only [CanMake, hc]
    · simpa only [CanMake, hc] using hcount
  | finish hc hd => exact absurd hmake (not_canMake hd)

/-- Only a call that could make an engine can make one later. -/
theorem step_canMake {e : Event} (hnew : e.isNew = false) (h : step s e = some t) {j : Nat}
    {d : Call} (hd : t.calls[j]? = some d) (hmake : CanMake t.initAttemptCount d) :
    ∃ c, s.calls[j]? = some c ∧ CanMake s.initAttemptCount c := by
  obtain ⟨hcalls, hcount, -⟩ | ⟨id, c, d', hc, ht, hm, -⟩ := step_moves hnew h ⟨0, 0, 0⟩
  · rw [hcalls] at hd
    rw [hcount] at hmake
    exact ⟨d, hd, hmake⟩
  · rw [ht, List.getElem?_set] at hd
    split at hd
    next heq =>
      split at hd
      next =>
        cases Option.some.inj hd
        exact ⟨c, heq ▸ hc, hm.canMake hmake⟩
      next => cases hd
    next => exact ⟨d, hd, canMake_of_le hm.le hmake⟩

theorem OneMaker.step {e : Event} (hs : s.OneMaker) (hnew : e.isNew = false)
    (h : step s e = some t) : t.OneMaker := by
  intro i j c d hc hd hmc hmd
  obtain ⟨c', hc', hmc'⟩ := step_canMake hnew h hc hmc
  obtain ⟨d', hd', hmd'⟩ := step_canMake hnew h hd hmd
  exact hs i j c' d' hc' hd' hmc' hmd'

/-- A call that cleans up has just shut the engine in use down, or was at it before. -/
theorem step_cleaning {e : Event} (hnew : e.isNew = false) (h : step s e = some t) {c : Call}
    (hmem : c ∈ t.calls) (hstage : c.stage = .cleaning) : t.Clear ∨ c ∈ s.calls := by
  obtain ⟨hcalls, -, -⟩ | ⟨id, c', d, -, ht, -, hclear, -⟩ := step_moves hnew h ⟨0, 0, 0⟩
  · exact .inr (hcalls ▸ hmem)
  · rw [ht] at hmem
    rcases List.mem_or_eq_of_mem_set hmem with hmem | rfl
    · exact .inr hmem
    · exact .inl (hclear hstage)

theorem Cleaned.step {e : Event} (hs : s.Cleaned) (hone : s.OneMaker) (hnew : e.isNew = false)
    (h : step s e = some t) : t.Cleaned := by
  intro c hmem hstage
  obtain hclear | hbefore := step_cleaning hnew h hmem hstage
  · exact hclear
  have hclear := hs c hbefore hstage
  obtain hcalm | ⟨n, -, rfl⟩ | hconf | ⟨id, enclosed, rfl, hc, rfl⟩ := step_acts h
  · exact hcalm.clear hclear
  · exact hclear
  · exact hconf.clear hclear
  · -- the call that makes its engine is the only one that cleans up
    obtain ⟨j, hj⟩ := List.mem_iff_getElem?.mp hmem
    have hset : (s.calls.set id ⟨.awaiting s.made, enclosed⟩)[j]? = some c := hj
    rw [List.getElem?_set] at hset
    split at hset
    next =>
      split at hset
      next =>
        cases Option.some.inj hset
        cases hstage
      next => cases hset
    next hne =>
      have hmake : CanMake s.initAttemptCount c := by simp only [CanMake, hstage]
      exact absurd (hone id j _ c hc hset trivial hmake) hne

theorem step_sound {e : Event} (hs : s.Sound) (hclean : s.Cleaned) (h : step s e = some t) :
    t.Sound := by
  obtain hcalm | ⟨n, -, rfl⟩ | hconf | ⟨id, enclosed, rfl, hc, rfl⟩ := step_acts h
  · exact hcalm.sound hs
  · refine ⟨hs.noLeak, fun hready => ?_⟩
    obtain ⟨m, htts, hlive, hconn⟩ := hs.ready hready
    exact ⟨m, htts, hlive, Finset.mem_insert_of_mem hconn⟩
  · exact hconf.sound hs
  · exact construct_sound id enclosed hs (hclean _ (List.mem_of_getElem? hc) rfl)

/-- The engines alive are numbered below the next one, and there is one where the bridge is ready. -/
structure Numbered (s : KokoroTTSEngine) : Prop where
  live : ∀ n ∈ s.live, n < s.made
  inUse : s.isReady = true → s.androidTts.isSome = true

theorem step_numbered {e : Event} (hs : s.Numbered) (h : step s e = some t) : t.Numbered := by
  obtain hcalm | ⟨n, -, rfl⟩ | hconf | ⟨id, enclosed, rfl, hc, rfl⟩ := step_acts h
  · refine ⟨fun n hn => ?_, fun hready => ?_⟩
    · rw [hcalm.made]
      exact hs.live n (hcalm.live hn)
    · rw [hcalm.androidTts]
      exact hs.inUse (hcalm.ready hready).1
  · exact ⟨hs.live, hs.inUse⟩
  · refine ⟨fun n hn => ?_, fun hready => ?_⟩
    · rw [hconf.made]
      exact hs.live n (hconf.live ▸ hn)
    · rw [hconf.androidTts]
      obtain hsame | ⟨-, n, htts, -⟩ := hconf.ready
      · exact hs.inUse (hsame.symm.trans hready)
      · rw [htts]
        rfl
  · refine ⟨fun n hn => ?_, fun _ => rfl⟩
    have hmem : n ∈ insert s.made s.live := hn
    rcases Finset.mem_insert.mp hmem with rfl | hlive
    · exact Nat.lt_succ_self _
    · exact (hs.live n hlive).trans (Nat.lt_succ_self _)

theorem numbered_of_run {es : List Event} (hr : Machine.run step {} es = some s) : s.Numbered := by
  have hstart : Numbered {} :=
    ⟨fun n hn => absurd hn (Finset.notMem_empty n), fun h => absurd h Bool.false_ne_true⟩
  exact Machine.run_preserves (fun _ _ _ hs h => step_numbered hs h) hstart hr

theorem Reaches.refl (s : KokoroTTSEngine) : Reaches s s :=
  ⟨[], fun _ he => absurd he List.not_mem_nil, rfl⟩

theorem Reaches.trans (h : Reaches s t) (h' : Reaches t u) : Reaches s u := by
  obtain ⟨es, hnew, hr⟩ := h
  obtain ⟨es', hnew', hr'⟩ := h'
  refine ⟨es ++ es', fun e he => ?_, ?_⟩
  · rcases List.mem_append.mp he with he | he
    · exact hnew e he
    · exact hnew' e he
  · rw [Machine.run_append, hr]
    exact hr'

theorem Reaches.of_step {e : Event} (hnew : e.isNew = false) (h : step s e = some t) :
    Reaches s t := by
  refine ⟨[e], fun e' he => ?_, ?_⟩
  · cases List.mem_singleton.mp he
    exact hnew
  · exact Machine.run_cons_iff.mpr ⟨t, h, rfl⟩

/-- The other calls stay where they are. -/
def Beside (i : Nat) (s t : KokoroTTSEngine) : Prop :=
  ∀ k, k ≠ i → t.calls[k]? = s.calls[k]?

theorem Beside.of_set {i : Nat} {d : Call} (h : t.calls = s.calls.set i d) : Beside i s t := by
  intro k hk
  rw [h, List.getElem?_set_ne (Ne.symm hk)]

theorem getElem?_set_of {l : List Call} {i : Nat} {c : Call} (hc : l[i]? = some c) (d : Call) :
    (l.set i d)[i]? = some d := by
  obtain ⟨hlt, -⟩ := List.getElem?_eq_some_iff.mp hc
  rw [List.getElem?_set_self hlt]

/-- A call that may make an engine can be brought before its next attempt, if it is not at the cleanup
already; the others keep their chances. -/
theorem reaches_pending {i : Nat} {c : Call} (hc : s.calls[i]? = some c)
    (hmake : CanMake s.initAttemptCount c) :
    ∃ t d, Reaches s t ∧ t.calls[i]? = some d ∧ (d.pending = true ∨ d.stage = .cleaning) ∧
      t.initAttemptCount = s.initAttemptCount ∧ Beside i s t := by
  obtain ⟨stage, enclosed⟩ := c
  cases stage with
  | entering => exact ⟨s, _, .refl s, hc, .inl rfl, rfl, fun _ _ => rfl⟩
  | cleaning => exact ⟨s, _, .refl s, hc, .inr rfl, rfl, fun _ _ => rfl⟩
  | retrying inTry => exact ⟨s, _, .refl s, hc, .inl rfl, rfl, fun _ _ => rfl⟩
  | ended result => exact absurd hmake id
  | awaiting n =>
    have hcount : s.initAttemptCount ≤ maxRetries := hmake
    have hstep : step s (.timeout i) = some (s.awaited i enclosed false) := by
      simp only [step, hc]
    have hcalls : (s.awaited i enclosed false).calls =
        s.calls.set i { stage := .retrying true, enclosed } := by
      simp only [awaited, Bool.false_eq_true, ↓reduceIte, retryOrEnd, hcount, setCall]
    have hsame : (s.awaited i enclosed false).initAttemptCount = s.initAttemptCount := by
      simp only [awaited, Bool.false_eq_true, ↓reduceIte, retryOrEnd, hcount, setCall]
    refine ⟨_, { stage := .retrying true, enclosed }, .of_step rfl hstep, ?_, .inl rfl, hsame,
      .of_set hcalls⟩
    rw [hcalls]
    exact getElem?_set_of hc _

theorem reaches_cleaning {i : Nat} {c : Call} (hc : s.calls[i]? = some c)
    (hnext : c.pending = true ∨ c.stage = .cleaning) :
    ∃ t enclosed, Reaches s t ∧ t.calls[i]? = some ⟨.cleaning, enclosed⟩ ∧ Beside i s t := by
  have hbegin : ∀ enclosed, step s (.begin i true) = some (s.attempt i enclosed true) →
      ∃ t enclosed, Reaches s t ∧ t.calls[i]? = some ⟨.cleaning, enclosed⟩ ∧ Beside i s t := by
    intro enclosed hstep
    have hcalls : (s.attempt i enclosed true).calls =
        s.calls.set i { stage := .cleaning, enclosed } := by
      simp only [attempt, ↓reduceIte, setCall, shutdown_calls]
    refine ⟨_, enclosed, .of_step rfl hstep, ?_, .of_set hcalls⟩
    rw [hcalls]
    exact getElem?_set_of hc _
  obtain ⟨stage, enclosed⟩ := c
  cases stage with
  | entering => exact hbegin enclosed (by simp only [step, hc])
  | retrying inTry => exact hbegin (enclosed || inTry) (by simp only [step, hc])
  | cleaning => exact ⟨s, enclosed, .refl s, hc, fun _ _ => rfl⟩
  | awaiting n => rcases hnext with h | h <;> cases h
  | ended result => rcases hnext with h | h <;> cases h

/-- Two calls at the cleanup make two engines, and one of them is lost. -/
theorem leaks_of_two {i j : Nat} {enclosed enclosed' : Bool} (hij : i ≠ j)
    (hi : s.calls[i]? = some ⟨.cleaning, enclosed⟩)
    (hj : s.calls[j]? = some ⟨.cleaning, enclosed'⟩) : ∃ t, Reaches s t ∧ ¬ t.Sound := by
  have hfirst : step s (.cleaned i (.ok ())) = some (s.construct i enclosed (.ok ())) := by
    simp only [step, hi]
  have hj' : (s.construct i enclosed (.ok ())).calls[j]? = some ⟨.cleaning, enclosed'⟩ := by
    have hset : (s.construct i enclosed (.ok ())).calls =
        s.calls.set i ⟨.awaiting s.made, enclosed⟩ := rfl
    rw [hset, List.getElem?_set_ne hij]
    exact hj
  have hsecond : step (s.construct i enclosed (.ok ())) (.cleaned j (.ok ())) =
      some ((s.construct i enclosed (.ok ())).construct j enclosed' (.ok ())) := by
    simp only [step, hj']
  refine ⟨_, (Reaches.of_step rfl hfirst).trans (.of_step rfl hsecond), fun hsound => ?_⟩
  have hlive : s.made ∈ insert (s.made + 1) (insert s.made s.live) :=
    Finset.mem_insert_of_mem (Finset.mem_insert_self _ _)
  have hcur : some (s.made + 1) = some s.made := hsound.noLeak s.made hlive
  have hnum := Option.some.inj hcur
  omega

theorem leaks_of_makers {i j : Nat} {c d : Call} (hij : i ≠ j) (hc : s.calls[i]? = some c)
    (hd : s.calls[j]? = some d) (hmc : CanMake s.initAttemptCount c)
    (hmd : CanMake s.initAttemptCount d) : ∃ t, Reaches s t ∧ ¬ t.Sound := by
  obtain ⟨s₁, c₁, hr₁, hc₁, hnext₁, hcount₁, hbeside₁⟩ := reaches_pending hc hmc
  have hd₁ : s₁.calls[j]? = some d := (hbeside₁ j (Ne.symm hij)).trans hd
  obtain ⟨s₂, d₂, hr₂, hd₂, hnext₂, -, hbeside₂⟩ := reaches_pending hd₁ (hcount₁ ▸ hmd)
  have hc₂ : s₂.calls[i]? = some c₁ := (hbeside₂ i hij).trans hc₁
  obtain ⟨s₃, enclosed, hr₃, hc₃, hbeside₃⟩ := reaches_cleaning hc₂ hnext₁
  have hd₃ : s₃.calls[j]? = some d₂ := (hbeside₃ j (Ne.symm hij)).trans hd₂
  obtain ⟨s₄, enclosed', hr₄, hd₄, hbeside₄⟩ := reaches_cleaning hd₃ hnext₂
  have hc₄ : s₄.calls[i]? = some ⟨.cleaning, enclosed⟩ := (hbeside₄ i hij).trans hc₃
  obtain ⟨t, hr, hleak⟩ := leaks_of_two hij hc₄ hd₄
  exact ⟨t, ((((hr₁.trans hr₂).trans hr₃).trans hr₄).trans hr), hleak⟩

/-- After any run, no future without further calls loses an engine or shows the bridge ready without
one, exactly if that is so now, at most one call may still make an engine, and the engine in use is
shut down where a call is at the cleanup. -/
theorem stays_sound_iff {es : List Event} (hr : Machine.run step {} es = some s) :
    (∀ u, Reaches s u → u.Sound) ↔ s.Sound ∧ s.OneMaker ∧ s.Cleaned := by
  constructor
  · intro h
    refine ⟨h s (.refl s), fun i j c d hc hd hmc hmd => ?_, fun c hmem hstage n htts hlive => ?_⟩
    · by_contra hij
      obtain ⟨t, hreach, hleak⟩ := leaks_of_makers hij hc hd hmc hmd
      exact hleak (h t hreach)
    · obtain ⟨id, hid⟩ := List.mem_iff_getElem?.mp hmem
      obtain ⟨stage, enclosed⟩ := c
      cases hstage
      have hstep : step s (.cleaned id (.ok ())) = some (s.construct id enclosed (.ok ())) := by
        simp only [step, hid]
      have hsound := h _ (.of_step rfl hstep)
      have hcur : some s.made = some n := hsound.noLeak n (Finset.mem_insert_of_mem hlive)
      have hlt := (numbered_of_run hr).live n hlive
      have hnum := Option.some.inj hcur
      omega
  · rintro hs u ⟨more, hnew, hrun⟩
    have hkeep := Machine.run_keeps (I := fun s => s.Sound ∧ s.OneMaker ∧ s.Cleaned)
      (fun s t e he ⟨hsound, hone, hclean⟩ h =>
        ⟨step_sound hsound hclean h, hone.step (hnew e he) h, hclean.step hone (hnew e he) h⟩)
      hs hrun
    exact hkeep.1

/-- Two replies that both find the bridge not ready. -/
theorem stays_sound_overlapping :
    ¬ ∀ u, Reaches (ensureReady (ensureReady {})) u → u.Sound := by
  intro h
  have hr : Machine.run step {} [.ensureReady, .ensureReady] =
      some (ensureReady (ensureReady {})) := rfl
  obtain ⟨-, hone, -⟩ := (stays_sound_iff hr).mp h
  have hsame := hone 0 1 {} {} rfl rfl trivial trivial
  cases hsame

/-! ### A bridge that is ready -/

/-- What takes the readiness away by itself: a further `initialize`, an error of the engine when it
speaks, or `shutdown`. -/
def Event.disturbs : Event → Bool
  | .start | .speakError | .shutdown => true
  | _ => false

theorem shutdown_isReady (s : KokoroTTSEngine) : s.shutdown.isReady = false := by
  unfold shutdown
  split <;> rfl

theorem attempt_isReady (id : Nat) (enclosed available : Bool) :
    (s.attempt id enclosed available).isReady = false := by
  cases available with
  | false => rfl
  | true => exact shutdown_isReady _

theorem retryOrEnd_isReady (id : Nat) (enclosed inTry : Bool) :
    (s.retryOrEnd id enclosed inTry).isReady = s.isReady := by
  unfold retryOrEnd
  split <;> rfl

/-- Wherever a call stands, it can take the readiness away. -/
theorem exists_unready {id : Nat} {c : Call} (hc : s.calls[id]? = some c)
    (hended : c.ended = false) :
    ∃ e t, e.disturbs = false ∧ step s e = some t ∧ t.isReady = false := by
  obtain ⟨stage, enclosed⟩ := c
  cases stage with
  | entering =>
    exact ⟨.begin id true, s.attempt id enclosed true, rfl, by simp only [step, hc],
      attempt_isReady id enclosed true⟩
  | cleaning =>
    exact ⟨.cleaned id (.error ""), s.construct id enclosed (.error ""), rfl,
      by simp only [step, hc], @retryOrEnd_isReady (s.caught "") id enclosed false⟩
  | awaiting n =>
    exact ⟨.timeout id, s.awaited id enclosed false, rfl, by simp only [step, hc],
      @retryOrEnd_isReady { s with isReady := false } id enclosed true⟩
  | retrying inTry =>
    exact ⟨.begin id true, s.attempt id (enclosed || inTry) true, rfl, by simp only [step, hc],
      attempt_isReady id (enclosed || inTry) true⟩
  | ended result => simp only [Call.ended, Bool.true_eq_false] at hended

/-- The bridge is ready and no call is under way. -/
structure Settled (s : KokoroTTSEngine) : Prop where
  isReady : s.isReady = true
  androidTts : s.androidTts.isSome = true
  idle : s.Idle

theorem Moves.under_way {count count' : Nat} {c d : Call} (h : Moves count c d count') :
    c.ended = false := by
  have hpending : ∀ c : Call, c.pending = true → c.ended = false := by
    rintro ⟨stage, enclosed⟩ hc
    cases stage <;> first | rfl | simp only [Call.pending, Bool.false_eq_true] at hc
  cases h with
  | begin hc hd => exact hpending _ hc
  | refuse hc hd => exact hpending _ hc
  | make hc hd => simp only [Call.ended, hc]
  | retry hc hd hcount => rcases hc with hc | ⟨n, hc⟩ <;> simp only [Call.ended, hc]
  | finish hc hd => exact hc

/-- Where no call is under way, only a new call changes anything about the calls. -/
theorem Idle.step {e : Event} (hs : s.Idle) (hnew : e.isNew = false) (h : step s e = some t)
    (k : Cost) : t.calls = s.calls ∧ k.price e = 0 := by
  obtain ⟨hcalls, -, hprice⟩ | ⟨id, c, d, hc, -, hm, -⟩ := step_moves hnew h k
  · exact ⟨hcalls, hprice⟩
  · have hended := hs c (List.mem_of_getElem? hc)
    simp only [hm.under_way, Bool.false_eq_true] at hended

theorem Settled.ensureReady (hs : s.Settled) : s.ensureReady.Settled := by
  have hif : (s.isReady && s.androidTts.isSome) = true := by
    rw [hs.isReady, hs.androidTts]
    rfl
  simp only [KokoroTTSEngine.ensureReady, if_pos hif]
  refine ⟨hs.isReady, hs.androidTts, fun c hmem => ?_⟩
  rcases List.mem_append.mp hmem with hmem | hmem
  · exact hs.idle c hmem
  · cases List.mem_singleton.mp hmem
    rfl

theorem Settled.step {e : Event} (hs : s.Settled) (hquiet : e.disturbs = false)
    (h : step s e = some t) : t.Settled := by
  by_cases hnew : e.isNew = true
  · cases e with
    | ensureReady =>
      cases Option.some.inj h
      exact hs.ensureReady
    | start => cases hquiet
    | _ => cases hnew
  obtain ⟨hcalls, -⟩ := hs.idle.step (Bool.eq_false_of_not_eq_true hnew) h ⟨0, 0, 0⟩
  have hidle : t.Idle := fun c hmem => hs.idle c (hcalls ▸ hmem)
  have hended : ∀ {id : Nat} {c : Call}, s.calls[id]? = some c → ¬ c.ended = false :=
    fun hc hfalse => by
      have htrue := hs.idle _ (List.mem_of_getElem? hc)
      simp only [hfalse, Bool.false_eq_true] at htrue
  cases e with
  | start => cases hquiet
  | ensureReady => exact absurd rfl hnew
  | begin id available =>
    obtain ⟨c, enclosed, hc, hpending, -⟩ := step_begin h
    have hmoves := (attempt_moves (s := s) id enclosed available hpending).choose_spec.2.1
    exact absurd hmoves.under_way (hended hc)
  | cleaned id made =>
    obtain ⟨enclosed, hc, -⟩ := step_cleaned h
    exact absurd rfl (hended hc)
  | connect n =>
    obtain ⟨-, rfl⟩ := step_connect h
    exact ⟨hs.isReady, hs.androidTts, hidle⟩
  | onInit n status answers =>
    cases step_onInit h
    have hconf := onInit_acts (s := s) n status answers
    refine ⟨?_, hconf.androidTts ▸ hs.androidTts, hidle⟩
    obtain hsame | ⟨hready, -⟩ := hconf.ready
    · exact hsame.trans hs.isReady
    · exact hready
  | complete id =>
    obtain ⟨n, enclosed, success, hc, -⟩ := step_complete h
    exact absurd rfl (hended hc)
  | timeout id =>
    obtain ⟨n, enclosed, hc, -⟩ := step_timeout h
    exact absurd rfl (hended hc)
  | cancel id message =>
    obtain ⟨c, hc, hfalse, -⟩ := step_cancel h
    exact absurd hfalse (hended hc)
  | speakError => cases hquiet
  | shutdown => cases hquiet

/-- After any run, the bridge stays ready whatever `ensureReady` calls, connections and late callbacks
come, exactly if it is ready and no call is under way. -/
theorem stays_ready_iff {es : List Event} (hr : Machine.run step {} es = some s) :
    (∀ more u, (∀ e ∈ more, e.disturbs = false) → Machine.run step s more = some u →
      u.isReady = true) ↔ s.isReady = true ∧ s.Idle := by
  constructor
  · intro h
    refine ⟨h [] s (fun e he => absurd he List.not_mem_nil) rfl, fun c hmem => ?_⟩
    by_contra hended
    obtain ⟨id, hc⟩ := List.mem_iff_getElem?.mp hmem
    obtain ⟨e, t, hquiet, hstep, hunready⟩ :=
      exists_unready hc (Bool.eq_false_of_not_eq_true hended)
    have hready := h [e] t (fun e' he => List.mem_singleton.mp he ▸ hquiet)
      (Machine.run_cons_iff.mpr ⟨t, hstep, rfl⟩)
    simp only [hunready, Bool.false_eq_true] at hready
  · rintro ⟨hready, hidle⟩ more u hquiet hrun
    have hsettled : s.Settled := ⟨hready, (numbered_of_run hr).inUse hready, hidle⟩
    exact (Machine.run_keeps (fun s t e he hs h => Settled.step hs (hquiet e he) h) hsettled
      hrun).isReady

theorem stays_ready_smooth : ∃ s, Machine.run step {} (.ensureReady :: smoothAttempt 0 0) = some s ∧
    ∀ more u, (∀ e ∈ more, e.disturbs = false) → Machine.run step s more = some u →
      u.isReady = true := by
  have hready : (Machine.run step {} (.ensureReady :: smoothAttempt 0 0)).any
      (fun s => s.isReady && decide s.Idle) = true := by decide
  obtain ⟨s, hs, hboth⟩ := (Option.any_eq_true _ _).mp hready
  simp only [Bool.and_eq_true, decide_eq_true_eq] at hboth
  exact ⟨s, hs, (stays_ready_iff hs).mpr hboth⟩

/-! ### Calls in turns -/

/-- A call starts only when those before it have ended. -/
def InTurn (s : KokoroTTSEngine) (e : Event) : Prop :=
  e.isNew = true → s.Idle

instance {e : Event} : Decidable (InTurn s e) :=
  inferInstanceAs (Decidable (e.isNew = true → s.Idle))

structure Turns (s : KokoroTTSEngine) : Prop where
  sound : s.Sound
  oneMaker : s.OneMaker
  cleaned : s.Cleaned
  made : s.made ≤ 3 * s.calls.length
  left : s.Idle ∨ s.made + s.enginesLeft ≤ 3 * s.calls.length

theorem ensureReady_cases (s : KokoroTTSEngine) :
    s.ensureReady = { s with calls := s.calls ++ [{ stage := .ended (some true) }] } ∨
      s.ensureReady =
        { s with initAttemptCount := 0, calls := s.calls ++ [{ stage := .entering }] } := by
  unfold ensureReady
  split
  · exact .inl rfl
  · exact .inr rfl

theorem step_new {e : Event} (hnew : e.isNew = true) (h : step s e = some t) :
    ∃ c, t.calls = s.calls ++ [c] ∧ t.made = s.made ∧ (c.ended = true ∨ c = { stage := .entering }) := by
  cases e with
  | start =>
    cases Option.some.inj h
    exact ⟨_, rfl, rfl, .inr rfl⟩
  | ensureReady =>
    cases Option.some.inj h
    obtain heq | heq := ensureReady_cases s
    · exact ⟨_, by rw [heq], by rw [heq], .inl rfl⟩
    · exact ⟨_, by rw [heq], by rw [heq], .inr rfl⟩
  | _ => cases hnew

theorem OneMaker.of_idle {c : Call} (hs : s.Idle) (ht : t.calls = s.calls ++ [c]) :
    t.OneMaker := by
  have hlast : ∀ i d, t.calls[i]? = some d → CanMake t.initAttemptCount d → i = s.calls.length := by
    intro i d hd hmake
    rw [ht, List.getElem?_append] at hd
    split at hd
    next => exact absurd hmake (not_canMake (hs d (List.mem_of_getElem? hd)))
    next hle =>
      obtain ⟨hlt, -⟩ := List.getElem?_eq_some_iff.mp hd
      simp only [List.length_singleton] at hlt
      omega
  intro i j c' d hc hd hmc hmd
  exact (hlast i c' hc hmc).trans (hlast j d hd hmd).symm

theorem Cleaned.of_idle {c : Call} (hs : s.Idle) (ht : t.calls = s.calls ++ [c])
    (hc : c.ended = true ∨ c = { stage := .entering }) : t.Cleaned := by
  intro d hmem hstage
  rw [ht] at hmem
  have hnot : d.ended = false := by simp only [Call.ended, hstage]
  rcases List.mem_append.mp hmem with hmem | hmem
  · have hended := hs d hmem
    simp only [hnot, Bool.false_eq_true] at hended
  · cases List.mem_singleton.mp hmem
    rcases hc with hc | rfl
    · simp only [hnot, Bool.false_eq_true] at hc
    · cases hstage

theorem sum_weight_idle (k : Cost) (count : Nat) {calls : List Call}
    (h : ∀ c ∈ calls, c.ended = true) : (calls.map fun c => k.weight count c.stage).sum = 0 := by
  induction calls with
  | nil => rfl
  | cons c cs ih =>
    have hhead := @Cost.weight_ended k count c (h c (List.mem_cons_self ..))
    have htail := ih fun d hd => h d (List.mem_cons_of_mem _ hd)
    simp only [List.map_cons, List.sum_cons, hhead, htail]

theorem enginesLeft_new (hs : s.Idle) (ht : t.calls = s.calls ++ [{ stage := .entering }]) :
    t.enginesLeft ≤ 3 := by
  have hsum := sum_weight_idle ⟨0, 1, 0⟩ t.initAttemptCount hs
  have hattempt : Cost.attempt ⟨0, 1, 0⟩ = 1 := rfl
  have hweight : Cost.weight ⟨0, 1, 0⟩ t.initAttemptCount .entering = 1 := rfl
  simp only [enginesLeft, Cost.budget, ht, List.map_append, List.sum_append, hsum, List.map_cons,
    List.map_nil, List.sum_cons, List.sum_nil, hattempt, hweight, maxRetries]
  omega

theorem Turns.new {e : Event} (hs : s.Turns) (hidle : s.Idle) (hnew : e.isNew = true)
    (h : step s e = some t) : t.Turns := by
  obtain ⟨c, hcalls, hmade, hc⟩ := step_new hnew h
  have hlength : t.calls.length = s.calls.length + 1 := by
    rw [hcalls, List.length_append, List.length_singleton]
  have hbound := hs.made
  refine ⟨step_sound hs.sound hs.cleaned h, .of_idle hidle hcalls, .of_idle hidle hcalls hc, ?_, ?_⟩
  · omega
  · rcases hc with hc | rfl
    · refine .inl fun d hmem => ?_
      rw [hcalls] at hmem
      rcases List.mem_append.mp hmem with hmem | hmem
      · exact hidle d hmem
      · exact List.mem_singleton.mp hmem ▸ hc
    · have hleft := enginesLeft_new hidle hcalls
      exact .inr (by omega)

theorem Turns.old {e : Event} (hs : s.Turns) (hnew : e.isNew = false) (h : step s e = some t) :
    t.Turns := by
  have hlength : t.calls.length = s.calls.length := by
    obtain ⟨hcalls, -, -⟩ | ⟨id, c, d, -, ht, -⟩ := step_moves hnew h ⟨0, 0, 0⟩
    · rw [hcalls]
    · rw [ht, List.length_set]
  have hmade := step_made h
  have hpay := Cost.step_pays ⟨0, 1, 0⟩ hnew h
  have hbound := hs.made
  refine ⟨step_sound hs.sound hs.cleaned h, hs.oneMaker.step hnew h,
    hs.cleaned.step hs.oneMaker hnew h, ?_, ?_⟩
  · rcases hs.left with hidle | hleft
    · obtain ⟨-, hprice⟩ := hidle.step hnew h ⟨0, 1, 0⟩
      omega
    · simp only [enginesLeft] at hleft
      omega
  · rcases hs.left with hidle | hleft
    · obtain ⟨hcalls, -⟩ := hidle.step hnew h ⟨0, 1, 0⟩
      exact .inl fun c hmem => hidle c (hcalls ▸ hmem)
    · simp only [enginesLeft] at hleft ⊢
      exact .inr (by omega)

end KokoroTTSEngine

end HeyNilo

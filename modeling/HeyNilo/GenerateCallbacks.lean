import HeyNilo.LlamaBridge

namespace HeyNilo

/-- A call made on a `StreamingCallback`. -/
inductive StreamingCallback where
  | onToken (token : Text)
  | onComplete (fullText : Text)
  | onError (error : Text)
deriving DecidableEq, Repr

def StreamingCallback.isTerminal : StreamingCallback → Bool
  | .onToken _ => false
  | .onComplete _ => true
  | .onError _ => true

/-- The tokens come first, then exactly one of `onComplete` and `onError`, and nothing after it. -/
def OneTerminal (received : List StreamingCallback) : Prop :=
  ∃ (tokens : List Text) (last : StreamingCallback),
    received = tokens.map .onToken ++ [last] ∧ last.isTerminal = true

namespace LlamaBridge

/-- What a throwable does to the job: an `Exception` is caught, another `Throwable` is not. -/
inductive Thrown where
  | exception (message : Option Text)
  | error
deriving DecidableEq, Repr

/-- `CallVoidMethod(callback, onCompleteMethod)` leaves out the argument, so what is passed is
whatever stands in its place: it passes for an object, it is null, or the process aborts. `message` is
that of the exception Kotlin throws on a null argument. -/
inductive MissingArgument where
  | passes
  | null (message : Option Text)
  | aborts
deriving DecidableEq, Repr

/-- The exits of `nativeGenerateStream`. -/
inductive NativeExit where
  | contextNotReady
  | methodsMissing
  | mutexTimeout (argument : MissingArgument)
  | tokenizeFailed (argument : MissingArgument)
  | decodeFailed
  | ended
  | thrown (failure : Thrown)
deriving DecidableEq, Repr

/-- What comes before the exit: a token from the native side, or the cancellation of the job. -/
inductive RunStep where
  | token (token : Text)
  | cancel
deriving DecidableEq, Repr

/-- A job's stay in `nativeGenerateStream`. Only a run that gets to its sampling loop has tokens.
`cancelledLate` is a cancellation after the exit's own callback. -/
structure NativeRun where
  steps : List RunStep
  exit : NativeExit
  cancelledLate : Bool
  silent : exit ≠ .ended → (∀ failure, exit ≠ .thrown failure) → ∀ step ∈ steps, step = .cancel

/-- The variables of a generation job, and what its `StreamingCallback` has received. -/
structure Wrapper where
  isActive : Bool
  fullResponse : Text
  errorOccurred : Bool
  received : List StreamingCallback
deriving DecidableEq, Repr

/-- How the native call comes back to the job; after an abort nothing does. -/
inductive NativeOutcome where
  | returned
  | threw (failure : Thrown)
  | aborted
deriving DecidableEq, Repr

namespace Wrapper

def new : Wrapper := ⟨true, [], false, []⟩

def onToken (w : Wrapper) (token : Text) : Wrapper :=
  if w.isActive then
    { w with fullResponse := w.fullResponse ++ token, received := w.received ++ [.onToken token] }
  else w

/-- The native text is not looked at. -/
def onComplete (w : Wrapper) (_fullText : Text) : Wrapper :=
  { w with received := w.received ++ [.onComplete w.fullResponse] }

def cancel (w : Wrapper) : Wrapper := { w with isActive := false }

def runStep (w : Wrapper) : RunStep → Wrapper
  | .token token => w.onToken token
  | .cancel => w.cancel

/-- `catch (e: Exception)` -/
def catchException (w : Wrapper) (message : Option Text) : Wrapper :=
  if w.isActive then
    { w with
      received := w.received ++
        [.onError ("Generation error: ".toList ++ message.getD "null".toList)] }
  else w

/-- The call of `onComplete` without its argument. -/
def completeUnset (w : Wrapper) : MissingArgument → Wrapper × NativeOutcome
  | .passes => (w.onComplete [], .returned)
  | .null message => (w, .threw (.exception message))
  | .aborts => (w, .aborted)

/-- `nativeGenerateStream` at its exit. It knows `onToken` and `onComplete` and never calls
`onError`. -/
def exitWith (w : Wrapper) (response : Text) : NativeExit → Wrapper × NativeOutcome
  | .contextNotReady => (w, .returned)
  -- a `NoSuchMethodError` is pending
  | .methodsMissing => (w, .threw .error)
  | .mutexTimeout argument => w.completeUnset argument
  | .tokenizeFailed argument => w.completeUnset argument
  | .decodeFailed => (w.onComplete [], .returned)
  | .ended => (w.onComplete response, .returned)
  | .thrown failure => (w, .threw failure)

end Wrapper

namespace NativeRun

def response (run : NativeRun) : Text :=
  run.steps.flatMap fun
    | .token token => token
    | .cancel => []

def call (run : NativeRun) : Wrapper × NativeOutcome :=
  let w := run.steps.foldl Wrapper.runStep .new
  let exit := w.exitWith run.response run.exit
  (if run.cancelledLate then exit.1.cancel else exit.1, exit.2)

/-- The job is not cancelled before its last look at `isActive`. -/
def staysActive (run : NativeRun) : Bool := !run.steps.contains .cancel && !run.cancelledLate

end NativeRun

inductive EntryPoint where
  | generate
  | generateWithMaxTokens
deriving DecidableEq, Repr

def generateJob (run : NativeRun) : Wrapper :=
  match run.call with
  | (w, .returned) => w
  | (w, .threw (.exception message)) => w.catchException message
  | (w, .threw .error) => w
  | (w, .aborted) => w

/-- Other than `generateJob` it completes once more after the return. -/
def generateWithMaxTokensJob (run : NativeRun) : Wrapper :=
  match run.call with
  | (w, .returned) => if w.isActive && !w.errorOccurred then w.onComplete [] else w
  | (w, .threw (.exception message)) => w.catchException message
  | (w, .threw .error) => w
  | (w, .aborted) => w

def EntryPoint.job : EntryPoint → NativeRun → Wrapper
  | .generate => generateJob
  | .generateWithMaxTokens => generateWithMaxTokensJob

/-- What the callback of a call receives; a job that is cancelled before its start has no run. -/
def callbacks (s : LlamaBridge) (entry : EntryPoint) (run : Option NativeRun) :
    List StreamingCallback :=
  match s.notReady with
  | some message =>
    let lastError := (s.setError message).lastError
    [.onError ("Bridge not ready: ".toList ++ lastError.getD "unknown error".toList)]
  | none =>
    match run with
    | none => []
    | some run => (entry.job run).received

/-- Which runs of a job settle: one terminal callback comes from the native side or from the job, not
both and not neither. -/
def settles (entry : EntryPoint) (run : NativeRun) : Bool :=
  match run.exit with
  | .contextNotReady => entry = .generateWithMaxTokens && run.staysActive
  | .methodsMissing => false
  | .mutexTimeout argument | .tokenizeFailed argument =>
    match argument with
    | .passes => entry = .generate || !run.staysActive
    | .null _ => run.staysActive
    | .aborts => false
  | .decodeFailed | .ended => entry = .generate || !run.staysActive
  | .thrown (.exception _) => run.staysActive
  | .thrown .error => false

end LlamaBridge

open LlamaBridge

theorem oneTerminal_append {tokens : List Text} {tail : List StreamingCallback}
    (htail : ∀ callback ∈ tail, callback.isTerminal = true) :
    OneTerminal (tokens.map .onToken ++ tail) ↔ tail.length = 1 := by
  have htokens (tokens : List Text) :
      (tokens.map StreamingCallback.onToken).countP (·.isTerminal) = 0 := by
    simp [List.countP_map, Function.comp_def, StreamingCallback.isTerminal]
  constructor
  · rintro ⟨others, last, heq, hlast⟩
    have hcount := congrArg (List.countP (·.isTerminal)) heq
    rw [List.countP_append, List.countP_append, htokens, htokens, List.countP_eq_length.mpr htail,
      List.countP_singleton, if_pos hlast] at hcount
    omega
  · intro hlen
    obtain ⟨last, rfl⟩ := List.length_eq_one_iff.mp hlen
    exact ⟨tokens, last, rfl, htail last (List.mem_singleton.mpr rfl)⟩

namespace LlamaBridge

/-- Before the exit the callback has received tokens only, and the job is active until cancelled. -/
structure Wrapper.Streaming (w : Wrapper) (cancelled : Bool) : Prop where
  tokens : ∃ tokens : List Text, w.received = tokens.map .onToken
  active : w.isActive = !cancelled
  noError : w.errorOccurred = false

theorem Wrapper.Streaming.runStep {w : Wrapper} {cancelled : Bool} (h : w.Streaming cancelled)
    (step : RunStep) : (w.runStep step).Streaming (cancelled || step = .cancel) := by
  obtain ⟨⟨tokens, htokens⟩, hactive, hnoError⟩ := h
  cases step with
  | cancel => exact ⟨⟨tokens, htokens⟩, by simp [Wrapper.runStep, Wrapper.cancel], hnoError⟩
  | token token =>
    simp only [Wrapper.runStep, Wrapper.onToken]
    split
    next =>
      refine ⟨⟨tokens ++ [token], ?_⟩, by simpa using hactive, hnoError⟩
      simp [htokens]
    next => exact ⟨⟨tokens, htokens⟩, by simpa using hactive, hnoError⟩

theorem Wrapper.Streaming.run {w : Wrapper} {cancelled : Bool} (h : w.Streaming cancelled)
    (steps : List RunStep) :
    (steps.foldl Wrapper.runStep w).Streaming (cancelled || steps.contains .cancel) := by
  induction steps generalizing w cancelled with
  | nil => simpa using h
  | cons step steps ih =>
    have hnext := ih (h.runStep step)
    have hcontains : (step :: steps).contains .cancel =
        (decide (step = .cancel) || steps.contains .cancel) := by
      cases step <;> simp
    rw [hcontains, ← Bool.or_assoc]
    exact hnext

/-- The exit's own call of `onComplete` reaches the job. -/
def NativeExit.completes : NativeExit → Bool
  | .mutexTimeout .passes | .tokenizeFailed .passes | .decodeFailed | .ended => true
  | _ => false

def NativeExit.outcome : NativeExit → NativeOutcome
  | .methodsMissing => .threw .error
  | .mutexTimeout (.null message) | .tokenizeFailed (.null message) =>
    .threw (.exception message)
  | .mutexTimeout .aborts | .tokenizeFailed .aborts => .aborted
  | .thrown failure => .threw failure
  | _ => .returned

theorem exitWith_eq (w : Wrapper) (response : Text) (exit : NativeExit) :
    w.exitWith response exit = (if exit.completes then w.onComplete [] else w, exit.outcome) := by
  cases exit with
  | mutexTimeout argument => cases argument <;> rfl
  | tokenizeFailed argument => cases argument <;> rfl
  | _ => rfl

/-- What the job adds after the native call. -/
def afterCall (entry : EntryPoint) (active : Bool) (fullResponse : Text) :
    NativeOutcome → List StreamingCallback
  | .returned =>
    if entry = .generateWithMaxTokens && active then [.onComplete fullResponse] else []
  | .threw (.exception message) =>
    if active then [.onError ("Generation error: ".toList ++ message.getD "null".toList)] else []
  | .threw .error => []
  | .aborted => []

theorem call_eq (run : NativeRun) :
    ∃ (tokens : List Text) (fullResponse : Text),
      run.call.1 = ⟨run.staysActive, fullResponse, false, tokens.map .onToken ++
        if run.exit.completes then [.onComplete fullResponse] else []⟩ ∧
      run.call.2 = run.exit.outcome := by
  have hnew : Wrapper.new.Streaming false := ⟨⟨[], rfl⟩, rfl, rfl⟩
  obtain ⟨⟨tokens, htokens⟩, hactive, hnoError⟩ := hnew.run run.steps
  rw [Bool.false_or] at hactive
  refine ⟨tokens, (run.steps.foldl Wrapper.runStep .new).fullResponse, ?_⟩
  unfold NativeRun.call NativeRun.staysActive
  dsimp only
  generalize run.steps.foldl Wrapper.runStep .new = w at htokens hactive hnoError ⊢
  obtain ⟨isActive, fullResponse, errorOccurred, received⟩ := w
  dsimp only at htokens hactive hnoError ⊢
  subst htokens hactive hnoError
  rw [exitWith_eq]
  refine ⟨?_, rfl⟩
  cases run.exit.completes <;> cases run.cancelledLate <;> simp [Wrapper.cancel, Wrapper.onComplete]

theorem job_received (entry : EntryPoint) (run : NativeRun) :
    ∃ (tokens : List Text) (fullResponse : Text),
      (entry.job run).received = tokens.map .onToken ++
        ((if run.exit.completes then [.onComplete fullResponse] else []) ++
          afterCall entry run.staysActive fullResponse run.exit.outcome) := by
  obtain ⟨tokens, fullResponse, hw, hout⟩ := call_eq run
  refine ⟨tokens, fullResponse, ?_⟩
  rw [← List.append_assoc]
  obtain ⟨w, outcome, hcall⟩ : ∃ w outcome, run.call = (w, outcome) := ⟨_, _, rfl⟩
  rw [hcall] at hw hout
  generalize run.exit.outcome = out at hout ⊢
  subst hw hout
  cases entry with
  | generate =>
    simp only [EntryPoint.job, generateJob, hcall]
    rcases outcome with _ | (message | _) | _
    · simp [afterCall]
    · cases run.staysActive <;> simp [afterCall, Wrapper.catchException]
    · simp [afterCall]
    · simp [afterCall]
  | generateWithMaxTokens =>
    simp only [EntryPoint.job, generateWithMaxTokensJob, hcall]
    rcases outcome with _ | (message | _) | _
    · cases run.staysActive <;> simp [afterCall, Wrapper.onComplete]
    · cases run.staysActive <;> simp [afterCall, Wrapper.catchException]
    · simp [afterCall]
    · simp [afterCall]

theorem afterCall_terminal {entry : EntryPoint} {active : Bool} {fullResponse : Text}
    {outcome : NativeOutcome} :
    ∀ callback ∈ afterCall entry active fullResponse outcome, callback.isTerminal = true := by
  intro callback hmem
  unfold afterCall at hmem
  split at hmem
  next =>
    split at hmem
    next => cases List.mem_singleton.mp hmem; rfl
    next => cases hmem
  next =>
    split at hmem
    next => cases List.mem_singleton.mp hmem; rfl
    next => cases hmem
  next => cases hmem
  next => cases hmem

/-- The exits of the native side against the job's own part: the two make one terminal callback
exactly in the runs that settle. -/
theorem settles_iff (entry : EntryPoint) (run : NativeRun) (fullResponse : Text) :
    ((if run.exit.completes then [StreamingCallback.onComplete fullResponse] else []) ++
      afterCall entry run.staysActive fullResponse run.exit.outcome).length = 1 ↔
        settles entry run = true := by
  unfold settles
  cases hexit : run.exit with
  | contextNotReady =>
    cases entry <;> cases run.staysActive <;> simp [NativeExit.completes, NativeExit.outcome, afterCall]
  | methodsMissing => simp [NativeExit.completes, NativeExit.outcome, afterCall]
  | mutexTimeout argument =>
    cases argument <;> cases entry <;> cases run.staysActive <;>
      simp [NativeExit.completes, NativeExit.outcome, afterCall]
  | tokenizeFailed argument =>
    cases argument <;> cases entry <;> cases run.staysActive <;>
      simp [NativeExit.completes, NativeExit.outcome, afterCall]
  | decodeFailed =>
    cases entry <;> cases run.staysActive <;> simp [NativeExit.completes, NativeExit.outcome, afterCall]
  | ended =>
    cases entry <;> cases run.staysActive <;> simp [NativeExit.completes, NativeExit.outcome, afterCall]
  | thrown failure =>
    cases failure <;> cases run.staysActive <;>
      simp [NativeExit.completes, NativeExit.outcome, afterCall]

theorem job_oneTerminal (entry : EntryPoint) (run : NativeRun) :
    OneTerminal (entry.job run).received ↔ settles entry run = true := by
  obtain ⟨tokens, fullResponse, hreceived⟩ := job_received entry run
  rw [hreceived, oneTerminal_append, settles_iff]
  intro callback hmem
  rcases List.mem_append.mp hmem with hmem | hmem
  · split at hmem
    next => cases List.mem_singleton.mp hmem; rfl
    next => cases hmem
  · exact afterCall_terminal callback hmem

/-- A call's callback receives its tokens and then one terminal callback exactly when the call is
rejected, or its job is started and settles. -/
theorem one_terminal_iff (s : LlamaBridge) (entry : EntryPoint) (run : Option NativeRun) :
    OneTerminal (s.callbacks entry run) ↔
      s.notReady.isSome = true ∨ ∃ job, run = some job ∧ settles entry job = true := by
  unfold callbacks
  cases s.notReady with
  | some message =>
    refine iff_of_true ?_ (.inl rfl)
    show OneTerminal (([] : List Text).map .onToken ++ [.onError _])
    exact (oneTerminal_append (by simp [StreamingCallback.isTerminal])).mpr rfl
  | none =>
    cases run with
    | none =>
      refine iff_of_false ?_ (by simp)
      rintro ⟨tokens, last, heq, -⟩
      simp at heq
    | some job => simpa using job_oneTerminal entry job

/-- A reply of one token. -/
def shortRun : NativeRun := ⟨[.token "Hi".toList], .ended, false, fun h => absurd rfl h⟩

/-- The native side completes, and `generateWithMaxTokens` completes again. -/
theorem completes_twice :
    ¬ ∀ (s : LlamaBridge) (entry : EntryPoint) (run : Option NativeRun),
      OneTerminal (s.callbacks entry run) := by
  intro h
  have hready : OneTerminal (EntryPoint.generateWithMaxTokens.job shortRun).received :=
    h ((new.init none).loadModel "model.gguf".toList .loaded) .generateWithMaxTokens (some shortRun)
  have hsettles := (job_oneTerminal .generateWithMaxTokens shortRun).mp hready
  cases hsettles

end LlamaBridge

end HeyNilo

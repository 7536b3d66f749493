import HeyNilo.Machine
import HeyNilo.VoiceCore
import HeyNilo.VoiceStop

namespace HeyNilo.VoicePipeline

open Machine

/-- What a coroutine does once an exception is thrown in it. -/
inductive CatchStatement where
  | enterError
  /-- `withContext(Dispatchers.Main)` with the call of `onResponseUpdate`. -/
  | deliverReply
  /-- The same with the call of `onError`. -/
  | reportError
  /-- `delay(1000)` -/
  | pause
  | restart
deriving DecidableEq, Repr

/-- The statement suspends, so that it throws in a cancelled coroutine before it does anything. -/
def CatchStatement.suspends : CatchStatement → Bool
  | .enterError | .restart => false
  | .deliverReply | .reportError | .pause => true

/-- What a cancelled coroutine does of its statements. -/
def performed (statements : List CatchStatement) : List CatchStatement :=
  statements.takeWhile fun statement => !statement.suspends

def sttCatch : List CatchStatement := [.enterError, .reportError]

def legacyCatch : List CatchStatement := [.enterError, .reportError, .pause, .restart]

/-- The provider job alone catches `CancellationException` on its own. -/
def providerCatch (s : VoicePipeline) : List CatchStatement :=
  if isBlank s.fullResponseText then [] else [.deliverReply]

def catchOfRestart (s : VoicePipeline) : AfterRestart → List CatchStatement
  | .launched | .llm .failed => []
  | .stt => sttCatch
  | .llm .legacyNet => legacyCatch
  | .llm _ => s.providerCatch

/-- The statements between the suspension point of a cancelled coroutine and its `finally` block. An
STT job with a blank result first calls `restartListening`, which throws unless it returns at
once; one that had not started, and one in its `catch` block, has none. -/
def statementsLeft (s : VoicePipeline) : Task → Outcome → List CatchStatement
  | .recordingDelay (.restart rest), _ | .restartDelay rest, _ => s.catchOfRestart rest
  | .stt .transcribe, .transcription text =>
    if isBlank text then .restart :: if s.isRestarting || !s.isRunning then [] else sttCatch
    else sttCatch
  | .stt .transcribe, .throws | .stt (.transcribed _), _ => sttCatch
  | .provider .start, _ | .provider .failed, _ => []
  | .provider _, _ => s.providerCatch
  | .legacy .start, _ | .legacy .failed, _ => []
  | .legacy _, _ => legacyCatch
  | _, _ => []

/-- What cancelled coroutines have done. -/
structure CancelledWork where
  movedToError : Bool
  reportedError : Bool
  restarted : Bool
deriving DecidableEq, Repr

/-- The history of a step of a cancelled coroutine. -/
def CancelledWork.next (w : CancelledWork) (s : VoicePipeline) (e : Event) : CancelledWork :=
  match s.step e, e with
  | some t, .run i outcome =>
    match s.jobs[i]? with
    | some job =>
      if job.cancelled then
        let done := performed (s.statementsLeft job.task outcome)
        { movedToError := w.movedToError || s.movesTo t (· = .error)
          reportedError := w.reportedError || .reportError ∈ done
          restarted := w.restarted || .restart ∈ done }
      else w
    | none => w
  | _, _ => w

/-- The pipeline with the history of its cancelled coroutines. -/
def watchCancelled : VoicePipeline × CancelledWork → Event → Option (VoicePipeline × CancelledWork) :=
  withHistory step CancelledWork.next

/-- No cancelled coroutine has moved the state to `ERROR`, reported an error or restarted the
listening. -/
def CancelledQuietly (c : VoicePipeline × CancelledWork) : Prop := c.2 = ⟨false, false, false⟩

instance (c : VoicePipeline × CancelledWork) : Decidable (CancelledQuietly c) :=
  inferInstanceAs (Decidable (_ = _))

/-- A cancelled STT job calls `restartListening`. -/
def restartsBlank : Task → Outcome → Bool
  | .stt .transcribe, .transcription text => isBlank text
  | _, _ => false

/-- A cancelled coroutine comes into the `catch` block of the STT or the legacy job. -/
def catchesAll (s : VoicePipeline) : Task → Outcome → Bool
  | .recordingDelay (.restart rest), _ | .restartDelay rest, _ =>
    rest = .stt || rest = .llm .legacyNet
  | .stt .transcribe, .transcription text =>
    !(isBlank text && (s.isRestarting || !s.isRunning))
  | .stt .transcribe, .throws | .stt (.transcribed _), _ => true
  | .legacy point, _ => point ≠ .start && point ≠ .failed
  | _, _ => false

/-- The steps in which the cancellation of a coroutine is taken for a failure. -/
def failsCancelled (s : VoicePipeline) : Event → Bool
  | .run i outcome =>
    match s.jobs[i]? with
    | some job =>
      job.cancelled && (restartsBlank job.task outcome ||
        s.catchesAll job.task outcome && s.currentState ≠ .error)
    | none => false
  | _ => false

section Cancelled

variable {s t : VoicePipeline} {state : PipelineState}

theorem performed_statementsLeft (task : Task) (outcome : Outcome) :
    performed (s.statementsLeft task outcome) =
      (if restartsBlank task outcome then [.restart] else []) ++
        if s.catchesAll task outcome then [.enterError] else [] := by
  have hprovider : performed s.providerCatch = [] := by
    unfold providerCatch
    split <;> rfl
  have hrestart (rest : AfterRestart) : performed (s.catchOfRestart rest) =
      if rest = .stt || rest = .llm .legacyNet then [.enterError] else [] := by
    cases rest with
    | launched => rfl
    | stt => rfl
    | llm rest =>
      cases rest with
      | complete isFirstToken => exact hprovider
      | providerNet => exact hprovider
      | legacyNet => rfl
      | failed => rfl
  cases task with
  | restartDelay rest => exact hrestart rest
  | recordingDelay rest =>
    cases rest with
    | restart rest => exact hrestart rest
    | _ => rfl
  | stt point =>
    cases point with
    | transcribe =>
      cases outcome with
      | transcription text =>
        show performed (if isBlank text then _ else sttCatch) = (if isBlank text then _ else _) ++ _
        split
        next hblank =>
          show performed (.restart :: if _ then [] else sttCatch) =
            [.restart] ++ if !(isBlank text && (s.isRestarting || !s.isRunning)) then _ else []
          rw [hblank, Bool.true_and]
          cases s.isRestarting || !s.isRunning <;> rfl
        next hblank =>
          show performed sttCatch =
            if !(isBlank text && (s.isRestarting || !s.isRunning)) then _ else []
          rw [eq_false_of_ne_true hblank]
          rfl
      | _ => rfl
    | transcribed text => cases outcome <;> rfl
    | failed => cases outcome <;> rfl
  | provider point => cases point <;> first | rfl | exact hprovider
  | legacy point => cases point <;> rfl
  | _ => rfl

theorem enters_endCancelledActs (task : Task) (outcome : Outcome) :
    enters (· = .error) state (s.endCancelledActs task outcome) =
      (s.catchesAll task outcome && state ≠ .error) := by
  have herror (as : List Act) (h : enters (· = .error) .error as = false) :
      enters (· = .error) state (.enter .error :: as) = decide (state ≠ .error) := by
    show (true && decide (state ≠ .error) || enters _ _ _) = _
    rw [h, Bool.or_false, Bool.true_and]
  have hrestart (rest : AfterRestart) : enters (· = .error) state (restartCancelledActs rest) =
      ((rest = .stt || rest = .llm .legacyNet) && state ≠ .error) := by
    cases rest with
    | launched => rfl
    | stt => exact herror _ rfl
    | llm rest =>
      cases rest with
      | legacyNet => exact herror _ rfl
      | _ => rfl
  cases task with
  | restartDelay rest => exact hrestart rest
  | recordingDelay rest =>
    cases rest with
    | restart rest => exact hrestart rest
    | _ => rfl
  | stt point =>
    cases point with
    | transcribe =>
      cases outcome with
      | transcription text =>
        show enters _ _ (if isBlank text then _ else _) =
          (!(isBlank text && (s.isRestarting || !s.isRunning)) && _)
        split
        next hblank =>
          rw [hblank, Bool.true_and]
          split
          next hnow => rw [hnow]; rfl
          next hnow =>
            rw [eq_false_of_ne_true hnow]
            unfold restartListeningActs
            rw [if_neg hnow]
            exact herror _ rfl
        next hblank =>
          rw [eq_false_of_ne_true hblank]
          exact herror _ rfl
      | throws => exact herror _ rfl
      | _ => rfl
    | transcribed text => cases outcome <;> exact herror _ rfl
    | failed => cases outcome <;> rfl
  | provider point => cases point <;> rfl
  | legacy point => cases point <;> first | rfl | exact herror _ rfl
  | tts point => cases point <;> rfl
  | _ => rfl

/-- A cancelled coroutine moves the state to `ERROR` exactly when it is caught, in another state. -/
theorem movesTo_error_of_cancelled {i : Nat} {outcome : Outcome} {job : Job}
    (hopen : s.isListeningForNextQuery = false) (hjob : s.jobs[i]? = some job)
    (hcancelled : job.cancelled = true) (hr : s.run i outcome = some t) :
    s.movesTo t (· = .error) = (s.catchesAll job.task outcome && s.currentState ≠ .error) := by
  have hend : s.runActs i outcome = s.endCancelledActs job.task outcome ++ [.suspend i none] := by
    unfold runActs
    rw [hjob]
    exact if_pos hcancelled
  rw [movesTo_of_acts hopen (core_run hr), hend, enters_suspend]
  exact enters_endCancelledActs job.task outcome

/-- The history of a step stays quiet exactly when the step does not fail. -/
theorem quiet_next_iff {e : Event} (hopen : s.isListeningForNextQuery = false)
    (hs : s.step e = some t) :
    CancelledWork.next ⟨false, false, false⟩ s e = ⟨false, false, false⟩ ↔
      s.failsCancelled e = false := by
  unfold CancelledWork.next failsCancelled
  rw [hs]
  cases e with
  | run i outcome =>
    obtain ⟨job, hjob, -⟩ := Option.bind_eq_some_iff.mp hs
    dsimp only
    rw [hjob]
    dsimp only
    split
    next hcancelled =>
      rw [movesTo_error_of_cancelled hopen hjob hcancelled hs, hcancelled, performed_statementsLeft]
      generalize (s.catchesAll job.task outcome : Bool) = catches
      cases restartsBlank job.task outcome <;> cases catches <;> simp
    next hcancelled => simp [eq_false_of_ne_true hcancelled]
  | _ => exact iff_of_true rfl rfl

end Cancelled

/-- In a run no cancelled coroutine moves the state to `ERROR`, reports an error or restarts the
listening, exactly when no step of the run takes a cancellation for a failure. -/
theorem cancelled_quietly_iff {hasProvider hasQueue : Bool} {es : List Event}
    {t : VoicePipeline × CancelledWork}
    (hr : Machine.run watchCancelled (start hasProvider hasQueue, ⟨false, false, false⟩) es =
      some t) :
    Always watchCancelled CancelledQuietly (start hasProvider hasQueue, ⟨false, false, false⟩) es ↔
      Meets watchCancelled (fun c e => c.1.failsCancelled e = false)
        (start hasProvider hasQueue, ⟨false, false, false⟩) es := by
  refine always_iff_meets
    (I := fun c => c.1.isListeningForNextQuery = false ∧ CancelledQuietly c) ?_ ?_ ?_ ?_ hr
  · exact fun c hc => hc.2
  · rintro ⟨s, w⟩ e ⟨u, w'⟩ ⟨hopen, hquiet⟩ hok hs
    obtain ⟨hstep, rfl⟩ := withHistory_iff.mp hs
    cases show w = ⟨false, false, false⟩ from hquiet
    exact ⟨(step_later hstep).isListeningForNextQuery hopen, (quiet_next_iff hopen hstep).mpr hok⟩
  · rintro ⟨s, w⟩ e ⟨u, w'⟩ ⟨hopen, hquiet⟩ hbad hs hkept
    obtain ⟨hstep, rfl⟩ := withHistory_iff.mp hs
    cases show w = ⟨false, false, false⟩ from hquiet
    exact hbad ((quiet_next_iff hopen hstep).mp hkept)
  · exact ⟨rfl, rfl⟩

/-- A new question cancels the provider job, which ends without an effect. -/
theorem cancelled_quietly_newQuestion :
    Always watchCancelled CancelledQuietly (start true true, ⟨false, false, false⟩)
      [.initialized, .startVoiceConversation,
        .frame ⟨512, .speechStart, false, true, false, false⟩,
        .frame ⟨512, .speechEnd, false, true, false, false⟩,
        .run 1 (.transcription ['a']), .run 1 (.resume { available := true }),
        .run 1 (.resume {}), .restartForNewQuestion, .run 1 .throws] :=
  (@cancelled_quietly_iff true true _ _ rfl).mpr (by decide)

/-- The legacy job cancels itself after a successful reply, and then ends in `ERROR`. -/
theorem reply_cancelled_into_error : ∃ s t,
    Machine.run watchCancelled (start false true, ⟨false, false, false⟩)
      [.initialized, .startVoiceConversation,
        .frame ⟨512, .speechStart, false, true, false, false⟩,
        .frame ⟨512, .speechEnd, false, true, false, false⟩,
        .run 1 (.transcription ['a']), .run 1 (.resume {}), .run 1 (.resume {}),
        .run 1 (.queueResponse ⟨[], some ['b'], true, none⟩),
        .run 1 (.resume {})] = some s ∧
    s.1.responseUpdates = [(['b'], true)] ∧
    watchCancelled s (.run 1 .ended) = some t ∧
    t.1.currentState = .error ∧ ¬ CancelledQuietly t :=
  ⟨_, _, rfl, rfl, rfl, rfl, by decide⟩

end HeyNilo.VoicePipeline

import HeyNilo.InferenceQueue

namespace HeyNilo

open Machine

/-- The queue, how many calls of `pause` stand before their `bridge.stop()`, and whether a call of
`pause` has returned with no `resume` since. -/
structure PausableQueue where
  queue : InferenceQueue
  pausing : Nat
  paused : Bool
deriving DecidableEq, Repr

namespace PausableQueue

/-- The two steps of `pause`, the one of `resume`, and the steps of everyone else. -/
inductive Event where
  | pause
  | pauseReturns
  | resume
  | other (e : InferenceQueue.Event)
deriving DecidableEq, Repr

def start (systemPrompt : Text) : PausableQueue := ⟨.start systemPrompt, 0, false⟩

/-- What a step does to the queue. -/
def Event.queueEvent : Event → InferenceQueue.Event
  | .pause => .setPaused true
  | .pauseReturns => .stopGeneration
  | .resume => .setPaused false
  | .other e => e

/-- Only `pause` and `resume` set the flag, and only a call that began can return. -/
def canTake (s : PausableQueue) : Event → Bool
  | .pauseReturns => s.pausing ≠ 0
  | .other (.setPaused _) => false
  | _ => true

def step (s : PausableQueue) (e : Event) : Option PausableQueue :=
  if s.canTake e then
    (s.queue.step e.queueEvent).map fun queue =>
      match e with
      | .pause => ⟨queue, s.pausing + 1, s.paused⟩
      | .pauseReturns => ⟨queue, s.pausing - 1, true⟩
      | .resume => ⟨queue, s.pausing, false⟩
      | .other _ => ⟨queue, s.pausing, s.paused⟩
  else none

/-- A request is polled, or a generation enters native code. -/
def begins (s : PausableQueue) : Event → Bool
  | .other .poll => s.queue.processor = .polling ∧ s.queue.requestQueue ≠ []
  | .other (.stream .start) => s.queue.stream.job = .launched
  | _ => false

/-- While the queue is paused, whatever follows before a `resume` begins nothing. -/
def StartsNothing (s : PausableQueue) : Prop :=
  s.paused = true → ∀ es, .resume ∉ es → Meets step (fun t e => t.begins e = false) s es

/-- A call of `pause` returns with its flag still set, unless the scope is cancelled, while the
processor is not between its check of the flag and its poll, and no generation is scheduled. -/
def pausesInTime (s : PausableQueue) : Event → Bool
  | .pauseReturns =>
    (s.queue.isPaused || !s.queue.isActive) && s.queue.processor ≠ .polling &&
      s.queue.stream.job ≠ .scheduled
  | _ => true

/-- What holds while the queue is paused. -/
structure Held (s : InferenceQueue) : Prop where
  flag : s.isActive = true → s.isPaused = true
  notPolling : s.processor ≠ .polling
  notScheduled : s.stream.job ≠ .scheduled
  notLaunched : s.stream.job ≠ .launched

/-- The invariant behind `StartsNothing`; a processor that stopped was cancelled. -/
structure HeldBack (s : PausableQueue) : Prop where
  held : s.paused = true → Held s.queue
  stopped : s.queue.processor = .stopped → s.queue.isActive = false

variable {s t : PausableQueue} {q r : InferenceQueue} {e : Event}

theorem step_some (h : s.step e = some t) :
    s.canTake e = true ∧ s.queue.step e.queueEvent = some t.queue := by
  obtain ⟨hcan, h⟩ := Option.ite_none_right_eq_some.mp h
  obtain ⟨queue, hqueue, rfl⟩ := Option.map_eq_some_iff.mp h
  refine ⟨hcan, hqueue.trans ?_⟩
  cases e <;> rfl

theorem step_paused (h : s.step e = some t) :
    t.paused = match e with
      | .pauseReturns => true
      | .resume => false
      | _ => s.paused := by
  obtain ⟨-, h⟩ := Option.ite_none_right_eq_some.mp h
  obtain ⟨queue, -, rfl⟩ := Option.map_eq_some_iff.mp h
  cases e <;> rfl

/-- A stop leaves no generation that is still to enter native code. -/
theorem stop_waits {stream : TokenStream} (h : stream.job ≠ .scheduled) :
    stream.stop.job ≠ .scheduled ∧ stream.stop.job ≠ .launched := by
  unfold TokenStream.stop
  split
  next => exact ⟨by simp, by simp⟩
  next => exact ⟨by simp, by simp⟩
  next hlaunched _ => exact ⟨h, hlaunched⟩

theorem stream_waits {stream next : TokenStream} {e : StreamEvent} (h : stream.step e = some next)
    (hscheduled : stream.job ≠ .scheduled) (hlaunched : stream.job ≠ .launched) :
    next.job ≠ .scheduled ∧ next.job ≠ .launched := by
  cases e with
  | notReady =>
    obtain ⟨hjob, -⟩ := Option.ite_none_right_eq_some.mp h
    exact absurd hjob hscheduled
  | launch =>
    obtain ⟨hjob, -⟩ := Option.ite_none_right_eq_some.mp h
    exact absurd hjob hscheduled
  | start =>
    obtain ⟨hjob, -⟩ := Option.ite_none_right_eq_some.mp h
    exact absurd hjob hlaunched
  | onToken token =>
    simp only [TokenStream.step] at h
    split at h
    next => cases h; exact ⟨hscheduled, hlaunched⟩
    next =>
      obtain ⟨-, h⟩ := Option.ite_none_right_eq_some.mp h
      cases h
      exact ⟨hscheduled, hlaunched⟩
  | onComplete =>
    obtain ⟨-, h⟩ := Option.ite_none_right_eq_some.mp h
    cases h
    exact ⟨by simp [TokenStream.close], by simp [TokenStream.close]⟩
  | onError =>
    obtain ⟨-, h⟩ := Option.ite_none_right_eq_some.mp h
    cases h
    exact ⟨by simp [TokenStream.close], by simp [TokenStream.close]⟩

theorem finishRequest_processor (q : InferenceQueue) :
    q.finishRequest.processor = if q.isActive then .checking else .stopped := rfl

/-- A step that does not clear the flag. -/
theorem Held.step {e : InferenceQueue.Event} (h : Held q) (he : e ≠ .setPaused false)
    (hr : q.step e = some r) : Held r := by
  have hwaits := stop_waits h.notScheduled
  by_cases hcheck : e = .checkPaused
  · subst hcheck
    cases hactive : q.isActive with
    | false =>
      have hnext : q.processor = .checking ∧ { q with processor := .stopped } = r := by
        cases hp : q.processor <;> simp [InferenceQueue.step, hp, hactive] at hr ⊢
        exact hr
      obtain ⟨-, rfl⟩ := hnext
      exact ⟨h.flag, by simp, h.notScheduled, h.notLaunched⟩
    | true =>
      have hnext : q = r := by
        cases hp : q.processor <;>
          simp [InferenceQueue.step, hp, hactive, h.flag hactive] at hr
        exact hr
      exact hnext ▸ h
  cases InferenceQueue.step_cases hr with
  | setPaused paused =>
    cases paused with
    | false => exact absurd rfl he
    | true => exact ⟨fun _ => rfl, h.notPolling, h.notScheduled, h.notLaunched⟩
  | queueOp | cancelIgnored | clearContext =>
    exact ⟨h.flag, h.notPolling, h.notScheduled, h.notLaunched⟩
  | cancelStops | stopGeneration => exact ⟨h.flag, h.notPolling, hwaits.1, hwaits.2⟩
  | cancelScope =>
    have hflag (hactive : false = true) : q.isPaused = true := absurd hactive Bool.false_ne_true
    exact ⟨hflag, h.notPolling, h.notScheduled, h.notLaunched⟩
  | loopEnds | paused | notPaused => exact absurd rfl hcheck
  | delayCancelled hp => exact absurd hp h.notPolling
  | pollEmpty hp => exact absurd hp h.notPolling
  | pollRequest request rest hp => exact absurd hp h.notPolling
  | receive | endOfStream | streamFailed =>
    exact ⟨h.flag, by simp, h.notScheduled, h.notLaunched⟩
  | streamCancelled | complete =>
    refine ⟨h.flag, ?_, h.notScheduled, h.notLaunched⟩
    rw [finishRequest_processor]
    split <;> simp
  | addUserMessage request response hp =>
    rw [InferenceQueue.addUserMessage_eq]
    exact ⟨h.flag, by simp, h.notScheduled, h.notLaunched⟩
  | addAssistantResponse request response hp =>
    rw [InferenceQueue.addAssistantResponse_eq]
    exact ⟨h.flag, by simp, h.notScheduled, h.notLaunched⟩
  | stream e next hnext =>
    obtain ⟨hscheduled, hlaunched⟩ := stream_waits hnext h.notScheduled h.notLaunched
    exact ⟨h.flag, h.notPolling, hscheduled, hlaunched⟩

/-- Only a cancelled scope stops the processor. -/
theorem stopped_step {e : InferenceQueue.Event} (h : q.processor = .stopped → q.isActive = false)
    (hr : q.step e = some r) : r.processor = .stopped → r.isActive = false := by
  cases InferenceQueue.step_cases hr with
  | setPaused | queueOp | cancelIgnored | clearContext | cancelStops | stopGeneration | paused
  | stream => exact h
  | cancelScope => exact fun _ => rfl
  | loopEnds hp hactive => exact fun _ => hactive
  | delayCancelled hp hactive => exact fun _ => hactive
  | notPaused | pollEmpty | receive | endOfStream | streamFailed => simp
  | pollRequest => simp [InferenceQueue.startRequest]
  | streamCancelled | complete =>
    rw [finishRequest_processor]
    intro hstopped
    split at hstopped
    next => cases hstopped
    next hactive => exact Bool.not_eq_true _ ▸ hactive
  | addUserMessage =>
    rw [InferenceQueue.addUserMessage_eq]
    simp
  | addAssistantResponse =>
    rw [InferenceQueue.addAssistantResponse_eq]
    simp

theorem queueEvent_ne (hcan : s.canTake e = true) (he : e ≠ .resume) :
    e.queueEvent ≠ .setPaused false := by
  cases e with
  | pause => simp [Event.queueEvent]
  | pauseReturns => simp [Event.queueEvent]
  | resume => exact absurd rfl he
  | other e =>
    rintro rfl
    cases hcan

theorem HeldBack.step (h : HeldBack s) (hok : s.pausesInTime e = true) (ht : s.step e = some t) :
    HeldBack t := by
  obtain ⟨hcan, hqueue⟩ := step_some ht
  have hpaused := step_paused ht
  refine ⟨fun hheld => ?_, stopped_step h.stopped hqueue⟩
  cases e with
  | resume => cases hpaused.symm.trans hheld
  | pauseReturns =>
    have hstop : { s.queue with stream := s.queue.stream.stop } = t.queue := Option.some.inj hqueue
    simp only [pausesInTime, Bool.and_eq_true, Bool.or_eq_true, decide_eq_true_eq, ne_eq] at hok
    obtain ⟨⟨hflag, hpolling⟩, hscheduled⟩ := hok
    obtain ⟨hwaits, hlaunched⟩ := stop_waits hscheduled
    rw [← hstop]
    refine ⟨fun hactive => ?_, by simpa using hpolling, hwaits, hlaunched⟩
    rcases hflag with hflag | hflag
    · exact hflag
    · have hinactive : s.queue.isActive = false := by simpa using hflag
      cases hinactive.symm.trans hactive
  | pause =>
    exact (h.held (hpaused.symm.trans hheld)).step (queueEvent_ne hcan (by simp)) hqueue
  | other e =>
    exact (h.held (hpaused.symm.trans hheld)).step (queueEvent_ne hcan (by simp)) hqueue

theorem Held.begins (h : Held s.queue) (e : Event) : s.begins e = false := by
  unfold PausableQueue.begins
  split
  next => simpa using fun hpolling => absurd hpolling h.notPolling
  next => simpa using h.notLaunched
  next => rfl

theorem HeldBack.startsNothing (h : HeldBack s) : s.StartsNothing := by
  intro hpaused es hes
  have hheld := h.held hpaused
  clear hpaused h
  induction es generalizing s with
  | nil => trivial
  | cons e es ih =>
    refine ⟨hheld.begins e, fun t ht => ?_⟩
    obtain ⟨hcan, hqueue⟩ := step_some ht
    have he : e ≠ .resume := fun he => hes (he ▸ List.mem_cons_self)
    exact ih (fun hmem => hes (List.mem_cons_of_mem e hmem)) (hheld.step (queueEvent_ne hcan he) hqueue)

/-- Some run without a `resume` leads to a step that begins something. -/
def CanBegin (s : PausableQueue) : Prop :=
  ∃ es t e, .resume ∉ es ∧ e ≠ .resume ∧ Machine.run step s es = some t ∧ t.begins e = true

theorem CanBegin.not_startsNothing (h : CanBegin s) (hpaused : s.paused = true) :
    ¬ s.StartsNothing := by
  obtain ⟨es, t, e, hes, he, hr, hbegins⟩ := h
  intro hnothing
  have hmeets := hnothing hpaused (es ++ [e]) (by simpa using ⟨hes, he.symm⟩)
  have hlast : t.begins e = false := (meets_after hmeets hr).1
  cases hbegins.symm.trans hlast

theorem CanBegin.cons (ht : s.step e = some t) (he : e ≠ .resume) (h : CanBegin t) :
    CanBegin s := by
  obtain ⟨es, u, e', hes, he', hr, hbegins⟩ := h
  refine ⟨e :: es, u, e', ?_, he', run_cons_iff.mpr ⟨t, ht, hr⟩, hbegins⟩
  exact fun hmem => (List.mem_cons.mp hmem).elim (fun hsame => he hsame.symm) hes

/-- A step of the processor or of the generation. -/
theorem step_other {e : InferenceQueue.Event} (he : ∀ paused, e ≠ .setPaused paused)
    (hr : s.queue.step e = some r) : s.step (.other e) = some ⟨r, s.pausing, s.paused⟩ := by
  have hcan : s.canTake (.other e) = true := by
    unfold canTake
    split
    next => rename_i heq; cases heq
    next paused heq => cases heq; exact absurd rfl (he paused)
    next => rfl
  rw [step, if_pos hcan]
  exact Option.map_eq_some_iff.mpr ⟨r, hr, rfl⟩

theorem canBegin_of_scheduled (h : s.queue.stream.job = .scheduled) : CanBegin s := by
  refine ⟨[.other (.stream .launch)], ⟨{ s.queue with
    stream := { s.queue.stream with job := .launched } }, s.pausing, s.paused⟩,
    .other (.stream .start), by simp, by simp, ?_, rfl⟩
  refine run_cons_iff.mpr ⟨_, step_other (fun _ => by simp) ?_, rfl⟩
  simp [InferenceQueue.step, TokenStream.step, h]

/-- A request comes in and is polled. -/
theorem canBegin_of_polling (h : s.queue.processor = .polling) : CanBegin s := by
  obtain ⟨request⟩ : Nonempty InferenceQueue.Request := ⟨{ id := [], prompt := [] }⟩
  refine ⟨[.other (.queueOp (.add request))],
    ⟨{ s.queue with requestQueue := s.queue.requestQueue ++ [request] }, s.pausing, s.paused⟩,
    .other .poll, by simp, by simp, ?_, ?_⟩
  · exact run_cons_iff.mpr ⟨_, step_other (fun _ => by simp) rfl, rfl⟩
  · simp [begins, h]

section

variable (hactive : s.queue.isActive = true) (hpaused : s.queue.isPaused = false)

include hactive hpaused

theorem canBegin_of_checking (h : s.queue.processor = .checking) : CanBegin s := by
  have ht : s.step (.other .checkPaused) =
      some ⟨{ s.queue with processor := .polling }, s.pausing, s.paused⟩ :=
    step_other (fun _ => by simp) (by simp [InferenceQueue.step, h, hactive, hpaused])
  exact .cons ht (by simp) (canBegin_of_polling rfl)

/-- The request in work is completed. -/
theorem canBegin_of_completing {request : InferenceQueue.Request} {response : List Text}
    (h : s.queue.processor = .completing request response) : CanBegin s := by
  have hr : s.queue.step .complete =
      some (s.queue.emit { requestId := request.id, isComplete := true }).finishRequest := by
    simp only [InferenceQueue.step, h]
  have ht := step_other (fun _ => by simp) hr
  refine .cons ht (by simp) (canBegin_of_checking hactive hpaused ?_)
  rw [finishRequest_processor]
  exact if_pos hactive

theorem canBegin_of_addingAssistant {request : InferenceQueue.Request} {response : List Text}
    (h : s.queue.processor = .addingAssistant request response) : CanBegin s := by
  have hr : s.queue.step .addAssistantResponse =
      some (s.queue.addAssistantResponse request response) := by
    simp only [InferenceQueue.step, h]
  have ht := step_other (fun _ => by simp) hr
  rw [InferenceQueue.addAssistantResponse_eq] at ht
  exact .cons ht (by simp) (canBegin_of_completing hactive hpaused rfl)

theorem canBegin_of_addingUser {request : InferenceQueue.Request} {response : List Text}
    (h : s.queue.processor = .addingUser request response) : CanBegin s := by
  have hr : s.queue.step .addUserMessage =
      some (s.queue.addUserMessage request response) := by
    simp only [InferenceQueue.step, h]
  have ht := step_other (fun _ => by simp) hr
  rw [InferenceQueue.addUserMessage_eq] at ht
  exact .cons ht (by simp) (canBegin_of_addingAssistant hactive hpaused rfl)

/-- The stream of the request in work is cancelled. -/
theorem canBegin_of_collecting {request : InferenceQueue.Request} {response : List Text}
    (h : s.queue.processor = .collecting request response) : CanBegin s := by
  have hr : s.queue.step (.streamThrows ⟨true, none⟩) =
      some (s.queue.streamThrows request response ⟨true, none⟩) := by
    simp only [InferenceQueue.step, h]
  have ht := step_other (fun _ => by simp) hr
  refine .cons ht (by simp) (canBegin_of_checking hactive hpaused ?_)
  rw [InferenceQueue.streamThrows_cancelled _ _ _ rfl, finishRequest_processor]
  exact if_pos hactive

theorem canBegin_of_running (h : s.queue.processor ≠ .stopped) : CanBegin s := by
  cases hp : s.queue.processor with
  | checking => exact canBegin_of_checking hactive hpaused hp
  | polling => exact canBegin_of_polling hp
  | collecting request response => exact canBegin_of_collecting hactive hpaused hp
  | addingUser request response => exact canBegin_of_addingUser hactive hpaused hp
  | addingAssistant request response => exact canBegin_of_addingAssistant hactive hpaused hp
  | completing request response => exact canBegin_of_completing hactive hpaused hp
  | stopped => exact absurd hp h

end

/-- Otherwise something can begin after the call of `pause` has returned. -/
theorem HeldBack.breaks (h : HeldBack s) (hbad : ¬ s.pausesInTime e = true)
    (ht : s.step e = some t) : ¬ t.StartsNothing := by
  cases e with
  | pause | resume | other => exact absurd rfl hbad
  | pauseReturns =>
    have hstop : { s.queue with stream := s.queue.stream.stop } = t.queue :=
      Option.some.inj (step_some ht).2
    refine CanBegin.not_startsNothing ?_ (step_paused ht)
    by_cases hpolling : s.queue.processor = .polling
    · exact canBegin_of_polling (by rw [← hstop]; exact hpolling)
    by_cases hscheduled : s.queue.stream.job = .scheduled
    · refine canBegin_of_scheduled ?_
      rw [← hstop]
      simp [TokenStream.stop, hscheduled]
    -- the flag was cleared between the two steps of the call
    have hflag : s.queue.isPaused = false ∧ s.queue.isActive = true := by
      simpa [pausesInTime, hpolling, hscheduled] using hbad
    refine canBegin_of_running ?_ ?_ fun hstopped => ?_
    · rw [← hstop]
      exact hflag.2
    · rw [← hstop]
      exact hflag.1
    · have hinactive := stopped_step h.stopped (step_some ht).2 hstopped
      rw [← hstop] at hinactive
      cases hinactive.symm.trans hflag.2

/-- Along a run nothing begins between the return of a `pause` and the next `resume`, whatever
follows, exactly when each `pause` returns in time. -/
theorem paused_starts_nothing_iff {systemPrompt : Text} {es : List Event}
    (hr : Machine.run step (start systemPrompt) es = some t) :
    Always step StartsNothing (start systemPrompt) es ↔
      Meets step (fun s e => s.pausesInTime e = true) (start systemPrompt) es := by
  refine always_iff_meets (I := HeldBack) (fun s h => h.startsNothing) (fun s e t h hok ht => ?_)
    (fun s e t h hbad ht => h.breaks hbad ht) ⟨fun hpaused => ?_, fun hstopped => ?_⟩ hr
  · exact h.step hok ht
  · cases hpaused
  · cases hstopped

/-- A request is in work when the queue is paused; it ends, and the next one waits for `resume`. -/
def pausedInWork : List Event :=
  [.other (.queueOp (.add { id := "1".toList, prompt := "hi".toList })), .other .checkPaused,
    .other .poll, .other (.stream .launch), .other (.stream .start),
    .other (.queueOp (.add { id := "2".toList, prompt := "so".toList })), .pause, .pauseReturns,
    .other (.stream .onComplete), .other .endOfStream, .other .addUserMessage,
    .other .addAssistantResponse, .other .complete, .other .checkPaused, .resume,
    .other .checkPaused, .other .poll]

theorem paused_starts_nothing_inWork :
    Always step StartsNothing (start []) pausedInWork := by
  obtain ⟨t, hr⟩ := Option.isSome_iff_exists.mp
    (show (Machine.run step (start []) pausedInWork).isSome = true by decide)
  exact (paused_starts_nothing_iff hr).mpr (by decide)

/-- The queue is paused after the processor has checked the flag, and the request is still polled. -/
theorem paused_after_check :
    ¬ ∀ (es : List Event) (t : PausableQueue), Machine.run step (start []) es = some t →
      Always step StartsNothing (start []) es := by
  intro h
  obtain ⟨t, hr, hpolls⟩ : ∃ t, Machine.run step (start [])
      [.other .checkPaused, .other (.queueOp (.add { id := "1".toList, prompt := "hi".toList })),
        .pause, .pauseReturns] = some t ∧ t.paused = true ∧ t.begins (.other .poll) = true :=
    ⟨_, rfl, rfl, by decide⟩
  have hnothing := always_run (h _ t hr) hr hpolls.1 [.other .poll] (by decide)
  cases hpolls.2.symm.trans hnothing.1

end PausableQueue

end HeyNilo

import HeyNilo.InferenceQueue

open Machine

namespace HeyNilo

namespace InferenceQueue

/-- The calls of `addToHistory` for a list of turns. -/
def turnCalls (turns : List (Text × Text)) : List (Text × Text) :=
  turns.flatMap fun turn => [("user".toList, turn.1), ("assistant".toList, turn.2)]

/-- Between requests, and while a request is not between its two calls, the history has exactly
the completed turns. -/
def CompletedTurnsOnly (x : InferenceQueue × Ledger) : Prop :=
  (∀ request response, x.1.processor ≠ .addingAssistant request response) →
    x.1.historyCalls = turnCalls x.2.turns

/-- The user half that is in the history while the processor is between its two calls. -/
def userHalf (s : InferenceQueue) (g : Ledger) : List (Text × Text) :=
  match s.processor with
  | .addingAssistant request _ =>
    if isBlank (filterMessage request.prompt) || g.cleared then []
    else [("user".toList, filterMessage request.prompt)]
  | _ => []

/-- When the assistant half is due: a generation that ran to its end with a reply has its user
half in the history, and any other has neither a user half there nor a reply. -/
def addsTurn (x : InferenceQueue × Ledger) (e : Event) : Bool :=
  match e, x.1.processor with
  | .addAssistantResponse, .addingAssistant request response =>
    let noUser := isBlank (filterMessage request.prompt) || x.2.cleared
    let noReply := isBlank (filterMessage response.flatten)
    if x.2.outcome = some .completed ∧ noReply = false then !noUser else noUser && noReply
  | _, _ => true

def HistoryInv (x : InferenceQueue × Ledger) : Prop :=
  x.1.historyCalls = turnCalls x.2.turns ++ userHalf x.1 x.2

theorem userHalf_eq_nil {s : InferenceQueue} {g : Ledger}
    (h : ∀ request response, s.processor ≠ .addingAssistant request response) :
    userHalf s g = [] := by
  unfold userHalf
  split
  next request response hp => exact absurd hp (h request response)
  next => rfl

theorem HistoryInv.completedTurnsOnly {x : InferenceQueue × Ledger} (h : HistoryInv x) :
    CompletedTurnsOnly x := by
  intro hbetween
  rw [h, userHalf_eq_nil hbetween, List.append_nil]

theorem Ledger.finish_turns (g : Ledger) (s t : InferenceQueue) :
    (g.finish s t).turns = g.turns ∧ (g.finish s t).cleared = g.cleared := by
  unfold Ledger.finish
  split <;> exact ⟨rfl, rfl⟩

theorem userHalf_finishRequest (s : InferenceQueue) (g : Ledger) :
    userHalf s.finishRequest g = [] := by
  unfold userHalf finishRequest
  cases s.isActive <;> rfl

theorem turnCalls_append (turns : List (Text × Text)) (turn : Text × Text) :
    turnCalls (turns ++ [turn]) =
      turnCalls turns ++ [("user".toList, turn.1), ("assistant".toList, turn.2)] := by
  simp [turnCalls]

/-- Any step but those of the two calls and of `clearContext` leaves history, turns and user half
as they are. -/
theorem HistoryInv.frame {s t : InferenceQueue} {g h : Ledger} (hinv : HistoryInv (s, g))
    (hcalls : t.historyCalls = s.historyCalls) (hturns : h.turns = g.turns ∧ h.cleared = g.cleared)
    (hhalf : t.processor = s.processor ∨ userHalf t h = [] ∧ userHalf s g = []) :
    HistoryInv (t, h) := by
  have heq : userHalf t h = userHalf s g := by
    rcases hhalf with hp | ⟨ht, hs⟩
    · simp only [userHalf, hp, hturns.2]
    · rw [ht, hs]
  unfold HistoryInv at hinv ⊢
  rw [hcalls, hturns.1, heq, hinv]

theorem next_stream (g : Ledger) (s : InferenceQueue) (e : StreamEvent) :
    (g.next s (.stream e)).turns = g.turns ∧ (g.next s (.stream e)).cleared = g.cleared := by
  cases e with
  | onToken token =>
    simp only [Ledger.next]
    split <;> exact ⟨rfl, rfl⟩
  | _ => exact ⟨rfl, rfl⟩

theorem next_cancelInFlight (g : Ledger) (s : InferenceQueue) (id : Text) :
    (g.next s (.cancelInFlight id)).turns = g.turns ∧
      (g.next s (.cancelInFlight id)).cleared = g.cleared := by
  simp only [Ledger.next]
  split <;> exact ⟨rfl, rfl⟩

/-- The user half: the call is made unless the message is blank. -/
theorem HistoryInv.addUserMessage {s : InferenceQueue} {g : Ledger} {request : Request}
    {response : List Text} (h : HistoryInv (s, g)) (hp : s.processor = .addingUser request response) :
    HistoryInv (s.addUserMessage request response, { g with cleared := false }) := by
  have hhalf : userHalf s g = [] := by simp [userHalf, hp]
  have hcalls : s.historyCalls = turnCalls g.turns := by
    rw [HistoryInv, hhalf, List.append_nil] at h
    exact h
  unfold HistoryInv InferenceQueue.addUserMessage userHalf
  cases hblank : isBlank (filterMessage request.prompt) <;> simp [hblank, hcalls, addToHistory]

theorem HistoryInv.addAssistantResponse_iff {s : InferenceQueue} {g : Ledger} {request : Request}
    {response : List Text} (h : HistoryInv (s, g))
    (hp : s.processor = .addingAssistant request response) :
    HistoryInv (s.addAssistantResponse request response, g.addTurn s) ↔
      addsTurn (s, g) .addAssistantResponse = true := by
  have hcalls : s.historyCalls = turnCalls g.turns ++
      if isBlank (filterMessage request.prompt) || g.cleared then []
      else [("user".toList, filterMessage request.prompt)] := by
    rw [HistoryInv, userHalf, hp] at h
    exact h
  unfold HistoryInv InferenceQueue.addAssistantResponse userHalf addsTurn Ledger.addTurn
  simp only [hp, Processor.inFlight]
  cases hreply : isBlank (filterMessage response.flatten) <;>
    cases hnoUser : isBlank (filterMessage request.prompt) || g.cleared <;>
    by_cases hout : g.outcome = some .completed <;>
    simp [hnoUser, hout, addToHistory, hcalls, turnCalls_append]

/-- One step: the assistant half is the only one that can leave an incomplete turn. -/
theorem HistoryInv.step {s t : InferenceQueue} {g : Ledger} {e : Event} (h : HistoryInv (s, g))
    (hs : Step s e t) (hok : addsTurn (s, g) e = true) : HistoryInv (t, g.next s e) := by
  cases hs with
  | queueOp op => exact h.frame rfl ⟨rfl, rfl⟩ (Or.inl rfl)
  | setPaused paused => exact h.frame rfl ⟨rfl, rfl⟩ (Or.inl rfl)
  | cancelStops id hjob => exact h.frame rfl (next_cancelInFlight g s id) (Or.inl rfl)
  | cancelIgnored id hjob => exact h.frame rfl (next_cancelInFlight g s id) (Or.inl rfl)
  | stopGeneration => exact h.frame rfl ⟨rfl, rfl⟩ (Or.inl rfl)
  | clearContext =>
    show [] = turnCalls [] ++ userHalf _ _
    unfold userHalf
    split <;> simp [turnCalls, Ledger.next]
  | cancelScope => exact h.frame rfl ⟨rfl, rfl⟩ (Or.inl rfl)
  | loopEnds hp hactive => exact h.frame rfl ⟨rfl, rfl⟩ (Or.inr (by simp [userHalf, hp]))
  | paused hp hpaused => exact h.frame rfl ⟨rfl, rfl⟩ (Or.inl rfl)
  | notPaused hp hpaused => exact h.frame rfl ⟨rfl, rfl⟩ (Or.inr (by simp [userHalf, hp]))
  | delayCancelled hp hactive => exact h.frame rfl ⟨rfl, rfl⟩ (Or.inr (by simp [userHalf, hp]))
  | pollEmpty hp hqueue =>
    simp only [Ledger.next, hqueue]
    exact h.frame rfl ⟨rfl, rfl⟩ (Or.inr (by simp [userHalf, hp]))
  | pollRequest request rest hp hqueue =>
    simp only [Ledger.next, hqueue]
    exact h.frame rfl ⟨rfl, rfl⟩ (Or.inr (by simp [userHalf, hp, startRequest]))
  | receive request response token channel hp hchannel =>
    exact h.frame rfl ⟨rfl, rfl⟩ (Or.inr (by simp [userHalf, hp]))
  | endOfStream request response hp hchannel hclosed =>
    exact h.frame rfl ⟨rfl, rfl⟩ (Or.inr (by simp [userHalf, hp]))
  | streamCancelled request response e hp he =>
    simp only [Ledger.next, he, ↓reduceIte]
    have hturns := (g.cancel).finish_turns s ((s.step (.streamThrows e)).getD s)
    exact h.frame rfl hturns (Or.inr ⟨userHalf_finishRequest _ _, by simp [userHalf, hp]⟩)
  | streamFailed request response e hp he =>
    simp only [Ledger.next, he, Bool.false_eq_true, ↓reduceIte]
    exact h.frame rfl ⟨rfl, rfl⟩ (Or.inr (by simp [userHalf, hp]))
  | addUserMessage request response hp => exact h.addUserMessage hp
  | addAssistantResponse request response hp => exact (h.addAssistantResponse_iff hp).mpr hok
  | complete request response hp =>
    have hturns := g.finish_turns s ((s.step .complete).getD s)
    exact h.frame rfl hturns (Or.inr ⟨userHalf_finishRequest _ _, by simp [userHalf, hp]⟩)
  | stream e stream hstream => exact h.frame rfl (next_stream g s e) (Or.inl rfl)

theorem HistoryInv.breaks {s t : InferenceQueue} {g : Ledger} {e : Event} (h : HistoryInv (s, g))
    (hs : Step s e t) (hok : addsTurn (s, g) e ≠ true) :
    ¬ CompletedTurnsOnly (t, g.next s e) := by
  cases hs with
  | addAssistantResponse request response hp =>
    intro honly
    have hcompleting : (s.addAssistantResponse request response).processor =
        .completing request response := rfl
    have hprocessor (r : Request) (rs : List Text) :
        (s.addAssistantResponse request response).processor ≠ .addingAssistant r rs := by
      rw [hcompleting]
      exact nofun
    refine hok ((h.addAssistantResponse_iff hp).mp ?_)
    rw [HistoryInv, userHalf_eq_nil hprocessor, List.append_nil]
    exact honly hprocessor
  | _ => simp [addsTurn] at hok

/-- Along a run of the queue its calls of `addToHistory` since the last `clearContext` are the
completed turns exactly when each request that reaches the history adds a completed turn or
nothing. -/
theorem history_completed_iff {systemPrompt : Text} {es : List Event} {s : InferenceQueue}
    {g : Ledger} (hr : run (withHistory step Ledger.next) (start systemPrompt, {}) es = some (s, g)) :
    Always (withHistory step Ledger.next) CompletedTurnsOnly (start systemPrompt, {}) es ↔
      Meets (withHistory step Ledger.next) (addsTurn · · = true) (start systemPrompt, {}) es := by
  refine always_iff_meets (I := HistoryInv) (fun x h => h.completedTurnsOnly) ?_ ?_ rfl hr
  · rintro ⟨s, g⟩ e ⟨t, g'⟩ h hok hstep
    obtain ⟨hs, rfl⟩ := withHistory_iff.mp hstep
    exact h.step (step_cases hs) hok
  · rintro ⟨s, g⟩ e ⟨t, g'⟩ h hok hstep
    obtain ⟨hs, rfl⟩ := withHistory_iff.mp hstep
    exact h.breaks (step_cases hs) hok

/-- A request whose generation sends one token and completes, and a clear of the context. -/
def completedRun : List Event :=
  enqueue 0 [] greeting ++
    [.checkPaused, .poll, .stream .launch, .stream .start, .stream (.onToken "yes".toList), .receive,
      .stream .onComplete, .endOfStream, .addUserMessage, .addAssistantResponse, .complete] ++
    pause ++ [.checkPaused, .clearContext]

theorem history_completed_run : Always (withHistory step Ledger.next) CompletedTurnsOnly
    (start "persona".toList, {}) completedRun := by
  obtain ⟨x, hx⟩ : ∃ x, run (withHistory step Ledger.next) (start "persona".toList, {})
      completedRun = some x := ⟨_, rfl⟩
  exact (history_completed_iff (s := x.1) (g := x.2) hx).mpr (by decide +kernel)

/-- A request that finds the bridge not ready. -/
def notReadyRun : List Event :=
  enqueue 0 [] greeting ++
    [.checkPaused, .poll, .stream .notReady, .endOfStream, .addUserMessage, .addAssistantResponse,
      .complete]

/-- A generation that never started leaves the user half of a turn in the history. -/
theorem failed_generation_adds_user : ¬ Always (withHistory step Ledger.next) CompletedTurnsOnly
    (start "persona".toList, {}) notReadyRun := by
  intro h
  obtain ⟨x, hx, hprocessor, hcalls⟩ : ∃ x, run (withHistory step Ledger.next)
      (start "persona".toList, {}) notReadyRun = some x ∧ x.1.processor = .checking ∧
        x.1.historyCalls ≠ turnCalls x.2.turns := ⟨_, rfl, rfl, by decide +kernel⟩
  refine hcalls (always_run h hx ?_)
  rw [hprocessor]
  exact nofun

end InferenceQueue

end HeyNilo

import HeyNilo.InferenceQueue

namespace HeyNilo

/-- Where a call of `enqueue` stands: before which of its atomic operations, or what it returned. -/
inductive EnqueuePhase where
  | size
  | synchronized
  | toList
  | clear (tempList : List Nat)
  | addFirst (tempList : List Nat)
  | addAll (tempList : List Nat)
  | add
  | returned (result : Bool)
deriving DecidableEq, Repr

structure EnqueueCall where
  request : InferenceQueue.Request
  phase : EnqueuePhase
deriving DecidableEq, Repr

/-- The calls of `enqueue` so far. A request in the queue is the number of its call; `polled` holds
those that the processor has polled. -/
structure EnqueueCalls where
  requestQueue : List Nat
  calls : List EnqueueCall
  lock : Option Nat
  polled : List Nat
deriving DecidableEq, Repr

namespace EnqueueCalls

inductive Event where
  | call (request : InferenceQueue.Request)
  | advance (i : Nat)
  | poll
deriving DecidableEq, Repr

def start : EnqueueCalls := ⟨[], [], none, []⟩

def setPhase (calls : List EnqueueCall) (i : Nat) (phase : EnqueuePhase) : List EnqueueCall :=
  calls.modify i fun call => { call with phase := phase }

def advance (s : EnqueueCalls) (i : Nat) (call : EnqueueCall) : Option EnqueueCalls :=
  match call.phase with
  | .size =>
    if s.requestQueue.length ≥ 10 then
      some { s with calls := setPhase s.calls i (.returned false) }
    else if call.request.priority = .high then
      some { s with calls := setPhase s.calls i .synchronized }
    else some { s with calls := setPhase s.calls i .add }
  | .synchronized =>
    match s.lock with
    | none => some { s with calls := setPhase s.calls i .toList, lock := some i }
    | some _ => none
  | .toList => some { s with calls := setPhase s.calls i (.clear s.requestQueue) }
  | .clear tempList =>
    some { s with calls := setPhase s.calls i (.addFirst tempList), requestQueue := [] }
  | .addFirst tempList =>
    some { s with
      calls := setPhase s.calls i (.addAll tempList)
      requestQueue := s.requestQueue ++ [i] }
  | .addAll tempList =>
    some { s with
      calls := setPhase s.calls i (.returned true)
      requestQueue := s.requestQueue ++ tempList
      lock := none }
  | .add =>
    some { s with
      calls := setPhase s.calls i (.returned true)
      requestQueue := s.requestQueue ++ [i] }
  | .returned _ => none

def step (s : EnqueueCalls) : Event → Option EnqueueCalls
  | .call request => some { s with calls := s.calls ++ [⟨request, .size⟩] }
  | .advance i => s.calls[i]?.bind (s.advance i)
  | .poll =>
    match s.requestQueue with
    | [] => some s
    | i :: rest => some { s with requestQueue := rest, polled := s.polled ++ [i] }

def requestsOf (s : EnqueueCalls) (numbers : List Nat) : List InferenceQueue.Request :=
  numbers.filterMap fun i => s.calls[i]?.map (·.request)

/-- The operation of `InferenceQueue.enqueue` that a step is. -/
def queueOp (s : EnqueueCalls) : Event → Option InferenceQueue.QueueOp
  | .advance i => s.calls[i]?.bind fun call =>
    match call.phase with
    | .clear _ => some .clear
    | .addFirst _ | .add => some (.add call.request)
    | .addAll tempList => some (.addAll (s.requestsOf tempList))
    | _ => none
  | .call _ | .poll => none

variable {s t : EnqueueCalls} {i : Nat} {call : EnqueueCall}

theorem requestsOf_setPhase (s : EnqueueCalls) (i : Nat) (phase : EnqueuePhase) {queue polled : List Nat}
    {lock : Option Nat} (numbers : List Nat) :
    requestsOf ⟨queue, setPhase s.calls i phase, lock, polled⟩ numbers = s.requestsOf numbers := by
  unfold requestsOf
  congr 1
  funext k
  rw [setPhase, List.getElem?_modify]
  cases s.calls[k]? with
  | none => rfl
  | some call =>
    rw [Option.map_eq_map, Option.map_some, Option.map_some, Option.map_some]
    split <;> rfl

theorem requestsOf_singleton (hcall : s.calls[i]? = some call) : s.requestsOf [i] = [call.request] := by
  simp [requestsOf, hcall]

/-- A step of a call acts on the queue as its operation does. -/
theorem advance_requests (hstep : step s (.advance i) = some t) :
    t.requestsOf t.requestQueue = (s.queueOp (.advance i)).elim (s.requestsOf s.requestQueue)
      fun op => op.apply (s.requestsOf s.requestQueue) := by
  obtain ⟨call, hcall, hstep⟩ := Option.bind_eq_some_iff.mp hstep
  have happend : ∀ numbers, s.requestsOf (s.requestQueue ++ numbers) =
      s.requestsOf s.requestQueue ++ s.requestsOf numbers :=
    fun numbers => List.filterMap_append
  rw [queueOp, hcall, Option.bind_some]
  unfold advance at hstep
  cases hphase : call.phase with
  | size =>
    simp only [hphase] at hstep
    split at hstep
    · cases hstep
      exact requestsOf_setPhase s i _ _
    · split at hstep
      · cases hstep
        exact requestsOf_setPhase s i _ _
      · cases hstep
        exact requestsOf_setPhase s i _ _
  | synchronized =>
    simp only [hphase] at hstep
    split at hstep
    · cases hstep
      exact requestsOf_setPhase s i _ _
    · cases hstep
  | toList =>
    simp only [hphase] at hstep
    cases hstep
    exact requestsOf_setPhase s i _ _
  | clear tempList =>
    simp only [hphase] at hstep
    cases hstep
    rfl
  | addFirst tempList =>
    simp only [hphase] at hstep
    cases hstep
    rw [requestsOf_setPhase, happend, requestsOf_singleton hcall]
    rfl
  | addAll tempList =>
    simp only [hphase] at hstep
    cases hstep
    rw [requestsOf_setPhase, happend]
    rfl
  | add =>
    simp only [hphase] at hstep
    cases hstep
    rw [requestsOf_setPhase, happend, requestsOf_singleton hcall]
    rfl
  | returned result =>
    simp only [hphase] at hstep
    cases hstep

end EnqueueCalls

end HeyNilo

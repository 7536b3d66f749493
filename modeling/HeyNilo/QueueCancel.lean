import HeyNilo.InferenceQueue
import HeyNilo.Machine
import Mathlib.Data.List.Forall2

namespace HeyNilo

namespace InferenceQueue

inductive Effect where
  | responds (response : Response)
  | remembers (role content : Text)
deriving DecidableEq, Repr

/-- What a step from `s` to `t` does for a request: the response it emits, what it adds to the history. -/
def effects (s t : InferenceQueue) : Event → List (Text × Effect)
  | .addUserMessage | .addAssistantResponse =>
    s.processor.inFlight.elim [] fun flight =>
      (t.historyCalls.drop s.historyCalls.length).map fun call => (flight.1.id, .remembers call.1 call.2)
  | _ => (t.responses.drop s.responses.length).map fun response => (response.requestId, .responds response)

def observe : InferenceQueue → List Event → List (Text × Effect)
  | _, [] => []
  | s, e :: es => (s.step e).elim [] fun t => effects s t e ++ observe t es

/-- What is done for the requests with other ids. -/
def others (id : Text) (done : List (Text × Effect)) : List (Text × Effect) :=
  done.filter fun effect => effect.1 ≠ id

def isProcessorStep : Event → Bool
  | .checkPaused | .delayCancelled | .poll | .receive | .endOfStream | .streamThrows _ => true
  | .addUserMessage | .addAssistantResponse | .complete | .stream _ => true
  | .queueOp _ | .setPaused _ | .cancelInFlight _ | .stopGeneration | .clearContext | .cancelScope => false

/-- Some of the requests with the id are missing. -/
inductive Erased (id : Text) : List Request → List Request → Prop where
  | nil : Erased id [] []
  | keep (request : Request) {queue queue' : List Request} (h : Erased id queue queue') :
    Erased id (request :: queue) (request :: queue')
  | erase {request : Request} {queue queue' : List Request} (hid : request.id = id)
    (h : Erased id queue queue') : Erased id (request :: queue) queue'

/-- A caller of `enqueue` does the same, but puts back what it read of the other queue. -/
inductive SameCall (id : Text) : Event → Event → Prop where
  | same (e : Event) : SameCall id e e
  | addAll {requests requests' : List Request} (h : Erased id requests requests') :
    SameCall id (.queueOp (.addAll requests)) (.queueOp (.addAll requests'))

/-- Some of the steps of the processor and the generation are missing. -/
inductive Fewer : List Event → List Event → Prop where
  | nil : Fewer [] []
  | keep (e : Event) {es es' : List Event} (h : Fewer es es') : Fewer (e :: es) (e :: es')
  | skip {e : Event} {es es' : List Event} (he : isProcessorStep e = true) (h : Fewer es es') :
    Fewer (e :: es) es'

/-- Whatever happens from `s` on, the callers can do the same from `s'` on and the processor do exactly
the same for all requests with other ids. -/
def OthersProceed (id : Text) (s s' : InferenceQueue) : Prop :=
  ∀ es t calls, Machine.run step s es = some t → List.Forall₂ (SameCall id) es calls →
    ∃ es' t', Fewer calls es' ∧ Machine.run step s' es' = some t' ∧
      others id (observe s' es') = others id (observe s es)

/-- The generation in work has ended or been stopped. -/
def generationOver (s : InferenceQueue) : Bool :=
  s.stream.job = .cancelled || s.stream.job = .neverStarted || s.stream.job = .ended

def isInFlight (s : InferenceQueue) (id : Text) : Bool :=
  s.processor.inFlight.any fun flight => flight.1.id = id

/-- `cancel` affects its request only: that one is stopped when it is in flight, and not pending any
more when it is not. -/
structure CancelsOnly (s : InferenceQueue) (id : Text) (s' : InferenceQueue) : Prop where
  proceed : OthersProceed id s s'
  stopped : s.isInFlight id = true → s'.generationOver = true
  removed : s.isInFlight id = false → ∀ request ∈ s'.requestQueue, request.id ≠ id

variable {id : Text} {s s' t t' : InferenceQueue} {e : Event}

theorem Erased.refl (id : Text) : ∀ queue, Erased id queue queue
  | [] => .nil
  | request :: queue => .keep request (Erased.refl id queue)

theorem Erased.append {queue queue' more more' : List Request} (h : Erased id queue queue')
    (hmore : Erased id more more') : Erased id (queue ++ more) (queue' ++ more') := by
  induction h with
  | nil => exact hmore
  | keep request _ ih => exact .keep request ih
  | erase hid _ ih => exact .erase hid ih

theorem Erased.filter {queue queue' : List Request} (h : Erased id queue queue') (p : Request → Bool) :
    Erased id (queue.filter p) (queue'.filter p) := by
  induction h with
  | nil => exact .nil
  | keep request _ ih =>
    rw [List.filter_cons, List.filter_cons]
    split
    · exact .keep request ih
    · exact ih
  | erase hid _ ih =>
    rw [List.filter_cons]
    split
    · exact .erase hid ih
    · exact ih

theorem erased_removeIf (id : Text) (queue : List Request) :
    Erased id queue ((QueueOp.removeIf id).apply queue) := by
  induction queue with
  | nil => exact .nil
  | cons request queue ih =>
    rw [QueueOp.apply, List.filter_cons]
    split
    · exact .keep request ih
    · rename_i hid
      exact .erase (by simpa using hid) ih

/-- The queue operations of a call keep the two queues apart by requests with the id only. -/
theorem Erased.queueOp {queue queue' : List Request} {op op' : QueueOp} (h : Erased id queue queue')
    (hop : SameCall id (.queueOp op) (.queueOp op')) : Erased id (op.apply queue) (op'.apply queue') := by
  cases hop with
  | addAll hmore => exact h.append hmore
  | same =>
    cases op with
    | add request => exact h.append (.refl id _)
    | addAll requests => exact h.append (.refl id _)
    | clear => exact .nil
    | removeIf other => exact h.filter _

/-- Where the processors of the two queues stand: at the same request, both without one, or the second
one waits while the first one is busy with a request that the second queue lacks. -/
inductive Mode (id : Text) (s s' : InferenceQueue) : Prop where
  | busy (request : Request) (response : List Text)
    (hflight : s.processor.inFlight = some (request, response)) (hp : s'.processor = s.processor)
    (hstream : s'.stream = s.stream)
  | idle (hflight : s.processor.inFlight = none) (hp : s'.processor = s.processor)
  | alone (request : Request) (response : List Text)
    (hflight : s.processor.inFlight = some (request, response)) (hid : request.id = id)
    (hp : s'.processor = .polling)
  | returning (hs : s.processor = .checking ∨ s.processor = .stopped) (hp : s'.processor = .polling)

structure Beside (id : Text) (s s' : InferenceQueue) : Prop where
  queue : Erased id s.requestQueue s'.requestQueue
  isPaused : s'.isPaused = s.isPaused
  isActive : s'.isActive = s.isActive
  job : s.hasCurrentJob = false ∧ s'.hasCurrentJob = false
  wasCancelled : s.wasCancelled = false ∧ s'.wasCancelled = false
  mode : Mode id s s'

theorem Mode.frame (h : Mode id s s') (hp : t.processor = s.processor)
    (hp' : t'.processor = s'.processor) (hstream : s'.stream = s.stream → t'.stream = t.stream) :
    Mode id t t' := by
  cases h with
  | busy request response hflight hsame hs =>
    exact .busy request response (hp ▸ hflight) (hp'.trans (hsame.trans hp.symm)) (hstream hs)
  | idle hflight hsame => exact .idle (hp ▸ hflight) (hp'.trans (hsame.trans hp.symm))
  | alone request response hflight hid hpolling =>
    exact .alone request response (hp ▸ hflight) hid (hp'.trans hpolling)
  | returning hs hpolling => exact .returning (hp ▸ hs) (hp'.trans hpolling)

theorem effects_of_responses (he : isProcessorStep e = false) (h : t.responses = s.responses) :
    effects s t e = [] := by
  have hnone : (t.responses.drop s.responses.length).map
      (fun response => (response.requestId, Effect.responds response)) = [] := by
    rw [h, List.drop_length]
    rfl
  cases e with
  | addUserMessage => cases he
  | addAssistantResponse => cases he
  | _ => exact hnone

theorem sameCall_eq {e' : Event} (h : SameCall id e e') : e' = e ∨
    ∃ op op', e = .queueOp op ∧ e' = .queueOp op' := by
  cases h with
  | same => exact .inl rfl
  | addAll hmore => exact .inr ⟨_, _, rfl, rfl⟩

/-- What the callers do is done to both queues. -/
theorem Beside.call {e' : Event} (h : Beside id s s') (he : isProcessorStep e = false)
    (hcall : SameCall id e e') (hstep : s.step e = some t) :
    ∃ t', s'.step e' = some t' ∧ Beside id t t' ∧ effects s' t' e' = [] ∧ effects s t e = [] := by
  obtain ⟨hqueue, hpaused, hactive, hjob, hcancelled, hmode⟩ := h
  rcases sameCall_eq hcall with rfl | ⟨op, op', rfl, rfl⟩
  · cases step_cases hstep with
    | queueOp op =>
      refine ⟨_, rfl, ⟨hqueue.queueOp hcall, hpaused, hactive, hjob, hcancelled, ?_⟩, ?_, ?_⟩
      · exact hmode.frame rfl rfl fun hs => hs
      · exact effects_of_responses rfl rfl
      · exact effects_of_responses rfl rfl
    | setPaused paused =>
      refine ⟨_, rfl, ⟨hqueue, rfl, hactive, hjob, hcancelled, ?_⟩, ?_, ?_⟩
      · exact hmode.frame rfl rfl fun hs => hs
      · exact effects_of_responses rfl rfl
      · exact effects_of_responses rfl rfl
    | cancelStops other hboth =>
      rw [hjob.1] at hboth
      cases hboth
    | cancelIgnored other hnot =>
      have hstep' : s'.step (.cancelInFlight other) = some s' := by
        rw [step, hjob.2]
        rfl
      refine ⟨s', hstep', ⟨hqueue, hpaused, hactive, hjob, hcancelled, hmode⟩, ?_, ?_⟩
      · exact effects_of_responses rfl rfl
      · exact effects_of_responses rfl rfl
    | stopGeneration =>
      refine ⟨_, rfl, ⟨hqueue, hpaused, hactive, hjob, hcancelled, ?_⟩, ?_, ?_⟩
      · exact hmode.frame rfl rfl fun hs => congrArg TokenStream.stop hs
      · exact effects_of_responses rfl rfl
      · exact effects_of_responses rfl rfl
    | clearContext =>
      refine ⟨_, rfl, ⟨hqueue, hpaused, hactive, hjob, hcancelled, ?_⟩, ?_, ?_⟩
      · exact hmode.frame rfl rfl fun hs => hs
      · exact effects_of_responses rfl rfl
      · exact effects_of_responses rfl rfl
    | cancelScope =>
      refine ⟨_, rfl, ⟨hqueue, hpaused, rfl, hjob, hcancelled, ?_⟩, ?_, ?_⟩
      · exact hmode.frame rfl rfl fun hs => hs
      · exact effects_of_responses rfl rfl
      · exact effects_of_responses rfl rfl
    | _ => cases he
  · cases Option.some.inj hstep
    refine ⟨_, rfl, ⟨hqueue.queueOp hcall, hpaused, hactive, hjob, hcancelled, ?_⟩, ?_, ?_⟩
    · exact hmode.frame rfl rfl fun hs => hs
    · exact effects_of_responses rfl rfl
    · exact effects_of_responses rfl rfl

theorem drop_addUserMessage (s : InferenceQueue) (request : Request) (response : List Text) :
    (s.addUserMessage request response).historyCalls.drop s.historyCalls.length =
      if isBlank (filterMessage request.prompt) then []
      else [("user".toList, filterMessage request.prompt)] := by
  unfold addUserMessage
  dsimp only
  split
  · exact List.drop_length
  · exact List.drop_left

theorem drop_addAssistantResponse (s : InferenceQueue) (request : Request) (response : List Text) :
    (s.addAssistantResponse request response).historyCalls.drop s.historyCalls.length =
      if isBlank (filterMessage response.flatten) then []
      else [("assistant".toList, filterMessage response.flatten)] := by
  unfold addAssistantResponse
  dsimp only
  split
  · exact List.drop_length
  · exact List.drop_left

theorem effects_addUserMessage {request : Request} {response : List Text}
    (hp : s.processor = .addingUser request response) :
    effects s (s.addUserMessage request response) .addUserMessage =
      if isBlank (filterMessage request.prompt) then []
      else [(request.id, .remembers "user".toList (filterMessage request.prompt))] := by
  rw [effects, hp]
  dsimp only [Processor.inFlight, Option.elim_some]
  rw [drop_addUserMessage]
  split <;> rfl

theorem effects_addAssistantResponse {request : Request} {response : List Text}
    (hp : s.processor = .addingAssistant request response) :
    effects s (s.addAssistantResponse request response) .addAssistantResponse =
      if isBlank (filterMessage response.flatten) then []
      else [(request.id, .remembers "assistant".toList (filterMessage response.flatten))] := by
  rw [effects, hp]
  dsimp only [Processor.inFlight, Option.elim_some]
  rw [drop_addAssistantResponse]
  split <;> rfl

theorem drop_emitted {response : Response} (h : t.responses = s.responses ++ [response]) :
    (t.responses.drop s.responses.length).map
      (fun response => (response.requestId, Effect.responds response)) =
      [(response.requestId, .responds response)] := by
  rw [h, List.drop_left]
  rfl

theorem drop_silent (h : t.responses = s.responses) : (t.responses.drop s.responses.length).map
    (fun response => (response.requestId, Effect.responds response)) = [] := by
  rw [h, List.drop_length]
  rfl

theorem step_of_cases (h : Step s e t) (he : e ≠ .checkPaused) : s.step e = some t := by
  cases h with
  | queueOp op => rfl
  | setPaused paused => rfl
  | cancelStops other hjob => simp only [step, hjob, if_true]
  | cancelIgnored other hjob => simp only [step, hjob, Bool.false_eq_true, if_false]
  | stopGeneration => rfl
  | clearContext => rfl
  | cancelScope => rfl
  | loopEnds hp hactive => exact absurd rfl he
  | paused hp hpaused => exact absurd rfl he
  | notPaused hp hpaused => exact absurd rfl he
  | delayCancelled hp hactive => simp only [step, hp, hactive, Bool.false_eq_true, if_false]
  | pollEmpty hp hqueue => simp only [step, hp, hqueue]
  | pollRequest request rest hp hqueue => simp only [step, hp, hqueue]
  | receive request response token channel hp hchannel => simp only [step, hp, hchannel]
  | endOfStream request response hp hchannel hclosed => simp only [step, hp, hchannel, hclosed]
  | streamCancelled request response e hp hcause =>
    simp only [step, hp, streamThrows_cancelled s request response hcause]
  | streamFailed request response e hp hcause =>
    simp only [step, hp, streamThrows_failed s request response hcause]
  | addUserMessage request response hp => simp only [step, hp]
  | addAssistantResponse request response hp => simp only [step, hp]
  | complete request response hp => simp only [step, hp]
  | stream e stream hstream => simp only [step, hstream, Option.map_some]

/-- Two processors at the same request do the same. -/
theorem Beside.busy {request : Request} {response : List Text} (h : Beside id s s')
    (he : isProcessorStep e = true) (hflight : s.processor.inFlight = some (request, response))
    (hp : s'.processor = s.processor) (hstream : s'.stream = s.stream) (hstep : s.step e = some t) :
    ∃ t', s'.step e = some t' ∧ Beside id t t' ∧ effects s' t' e = effects s t e := by
  obtain ⟨hqueue, hpaused, hactive, hjob, hcancelled, -⟩ := h
  have hfinish : Mode id s.finishRequest s'.finishRequest := by
    have hsame : s'.finishRequest.processor = s.finishRequest.processor := by
      rw [finishRequest, finishRequest, hactive]
    refine .idle ?_ hsame
    rw [finishRequest]
    dsimp only
    split <;> rfl
  cases step_cases hstep with
  | receive request response token channel hs hchannel =>
    refine ⟨_, step_of_cases (.receive request response token channel (hp.trans hs)
      ((congrArg TokenStream.channel hstream).trans hchannel)) (fun heq => nomatch heq), ⟨hqueue, hpaused, hactive, hjob, hcancelled, ?_⟩, ?_⟩
    · exact .busy request (response ++ [token]) rfl rfl
        (congrArg (fun stream : TokenStream => { stream with channel := channel }) hstream)
    · exact (drop_emitted rfl).trans (drop_emitted rfl).symm
  | endOfStream request response hs hchannel hclosed =>
    refine ⟨_, step_of_cases (.endOfStream request response (hp.trans hs)
      ((congrArg TokenStream.channel hstream).trans hchannel)
      ((congrArg TokenStream.closed hstream).trans hclosed)) (fun heq => nomatch heq), ⟨hqueue, hpaused, hactive, hjob, hcancelled, ?_⟩, ?_⟩
    · exact .busy request response rfl rfl hstream
    · exact (drop_silent rfl).trans (drop_silent rfl).symm
  | streamCancelled request response e hs hcause =>
    refine ⟨_, step_of_cases (.streamCancelled request response e (hp.trans hs) hcause)
      (fun heq => nomatch heq), ⟨hqueue, hpaused, hactive, hjob, hcancelled, ?_⟩, ?_⟩
    · exact hfinish.frame rfl rfl fun hs => hs
    · exact (drop_emitted rfl).trans (drop_emitted rfl).symm
  | streamFailed request response e hs hcause =>
    refine ⟨_, step_of_cases (.streamFailed request response e (hp.trans hs) hcause)
      (fun heq => nomatch heq), ⟨hqueue, hpaused, hactive, hjob, hcancelled, ?_⟩, ?_⟩
    · exact .busy request response rfl rfl hstream
    · exact (drop_emitted rfl).trans (drop_emitted rfl).symm
  | addUserMessage request response hs =>
    refine ⟨_, step_of_cases (.addUserMessage request response (hp.trans hs)) (fun heq => nomatch heq), ?_, ?_⟩
    · rw [addUserMessage_eq s, addUserMessage_eq s']
      exact ⟨hqueue, hpaused, hactive, hjob, hcancelled, .busy request response rfl rfl hstream⟩
    · rw [effects_addUserMessage (hp.trans hs), effects_addUserMessage hs]
  | addAssistantResponse request response hs =>
    refine ⟨_, step_of_cases (.addAssistantResponse request response (hp.trans hs))
      (fun heq => nomatch heq), ?_, ?_⟩
    · rw [addAssistantResponse_eq s, addAssistantResponse_eq s']
      exact ⟨hqueue, hpaused, hactive, hjob, hcancelled, .busy request response rfl rfl hstream⟩
    · rw [effects_addAssistantResponse (hp.trans hs), effects_addAssistantResponse hs]
  | complete request response hs =>
    refine ⟨_, step_of_cases (.complete request response (hp.trans hs)) (fun heq => nomatch heq), ⟨hqueue, hpaused, hactive, hjob, hcancelled, ?_⟩, ?_⟩
    · exact hfinish.frame rfl rfl fun hs => hs
    · exact (drop_emitted rfl).trans (drop_emitted rfl).symm
  | stream e stream hs =>
    refine ⟨_, step_of_cases (.stream e stream (by rw [hstream, hs])) (fun heq => nomatch heq), ⟨hqueue, hpaused, hactive, hjob, hcancelled, ?_⟩, ?_⟩
    · exact .busy request response hflight hp rfl
    · exact (drop_silent rfl).trans (drop_silent rfl).symm
  | loopEnds hs => rw [hs] at hflight; cases hflight
  | paused hs => rw [hs] at hflight; cases hflight
  | notPaused hs => rw [hs] at hflight; cases hflight
  | delayCancelled hs => rw [hs] at hflight; cases hflight
  | pollEmpty hs => rw [hs] at hflight; cases hflight
  | pollRequest request rest hs => rw [hs] at hflight; cases hflight
  | _ => cases he

/-- The second queue stays behind while the first one takes a step that concerns the request only. -/
def Skips (id : Text) (s s' t : InferenceQueue) (e : Event) : Prop :=
  isProcessorStep e = true ∧ Beside id t s' ∧ others id (effects s t e) = []

/-- Both queues take the step, with the same effects. -/
def Matches (id : Text) (s s' t : InferenceQueue) (e e' : Event) : Prop :=
  ∃ t', s'.step e' = some t' ∧ Beside id t t' ∧ effects s' t' e' = effects s t e

theorem finishRequest_idle_cases (s : InferenceQueue) :
    s.finishRequest.processor = .checking ∨ s.finishRequest.processor = .stopped := by
  rw [finishRequest]
  cases s.isActive with
  | true => exact .inl rfl
  | false => exact .inr rfl

theorem others_own {done : List (Text × Effect)} (h : ∀ effect ∈ done, effect.1 = id) :
    others id done = [] :=
  List.filter_eq_nil_iff.mpr fun effect heffect => by simp [h effect heffect]

theorem others_emitted {response : Response} (h : t.responses = s.responses ++ [response])
    (hid : response.requestId = id) : others id ((t.responses.drop s.responses.length).map
      fun response => (response.requestId, Effect.responds response)) = [] := by
  rw [drop_emitted h]
  exact others_own fun effect heffect => by rw [List.mem_singleton.mp heffect]; exact hid

theorem others_silent (h : t.responses = s.responses) : others id
    ((t.responses.drop s.responses.length).map
      fun response => (response.requestId, Effect.responds response)) = [] := by
  rw [drop_silent h]
  rfl

/-- The first processor is busy with a request that the second queue lacks. -/
theorem Beside.alone {request : Request} {response : List Text} (h : Beside id s s')
    (he : isProcessorStep e = true) (hflight : s.processor.inFlight = some (request, response))
    (hid : request.id = id) (hp : s'.processor = .polling) (hstep : s.step e = some t) :
    Skips id s s' t e := by
  obtain ⟨hqueue, hpaused, hactive, hjob, hcancelled, -⟩ := h
  refine ⟨he, ?_⟩
  cases step_cases hstep with
  | receive request response token channel hs hchannel =>
    rw [hs] at hflight
    cases hflight
    refine ⟨⟨hqueue, hpaused, hactive, hjob, hcancelled, .alone request _ rfl hid hp⟩, ?_⟩
    exact others_emitted rfl hid
  | endOfStream request response hs hchannel hclosed =>
    rw [hs] at hflight
    cases hflight
    refine ⟨⟨hqueue, hpaused, hactive, hjob, hcancelled, .alone request _ rfl hid hp⟩, ?_⟩
    exact others_silent rfl
  | streamCancelled request response e hs hcause =>
    rw [hs] at hflight
    cases hflight
    refine ⟨⟨hqueue, hpaused, hactive, hjob, hcancelled,
      .returning (finishRequest_idle_cases _) hp⟩, ?_⟩
    exact others_emitted rfl hid
  | streamFailed request response e hs hcause =>
    rw [hs] at hflight
    cases hflight
    refine ⟨⟨hqueue, hpaused, hactive, hjob, hcancelled, .alone request _ rfl hid hp⟩, ?_⟩
    exact others_emitted rfl hid
  | addUserMessage request response hs =>
    have heffects := effects_addUserMessage hs
    rw [hs] at hflight
    cases hflight
    rw [heffects, addUserMessage_eq]
    refine ⟨⟨hqueue, hpaused, hactive, hjob, hcancelled, .alone request _ rfl hid hp⟩, ?_⟩
    refine others_own fun effect heffect => ?_
    split at heffect
    · cases heffect
    · rw [List.mem_singleton.mp heffect]
      exact hid
  | addAssistantResponse request response hs =>
    have heffects := effects_addAssistantResponse hs
    rw [hs] at hflight
    cases hflight
    rw [heffects, addAssistantResponse_eq]
    refine ⟨⟨hqueue, hpaused, hactive, hjob, hcancelled, .alone request _ rfl hid hp⟩, ?_⟩
    refine others_own fun effect heffect => ?_
    split at heffect
    · cases heffect
    · rw [List.mem_singleton.mp heffect]
      exact hid
  | complete request response hs =>
    rw [hs] at hflight
    cases hflight
    refine ⟨⟨hqueue, hpaused, hactive, hjob, hcancelled,
      .returning (finishRequest_idle_cases _) hp⟩, ?_⟩
    exact others_emitted rfl hid
  | stream e stream hs =>
    refine ⟨⟨hqueue, hpaused, hactive, hjob, hcancelled, .alone request response hflight hid hp⟩, ?_⟩
    exact others_silent rfl
  | loopEnds hs => rw [hs] at hflight; cases hflight
  | paused hs => rw [hs] at hflight; cases hflight
  | notPaused hs => rw [hs] at hflight; cases hflight
  | delayCancelled hs => rw [hs] at hflight; cases hflight
  | pollEmpty hs => rw [hs] at hflight; cases hflight
  | pollRequest request rest hs => rw [hs] at hflight; cases hflight
  | _ => cases he

/-- The first processor is back at the top of its loop, the second one still polls. -/
theorem Beside.returning (h : Beside id s s') (he : isProcessorStep e = true)
    (hs : s.processor = .checking ∨ s.processor = .stopped) (hp : s'.processor = .polling)
    (hstep : s.step e = some t) : Skips id s s' t e := by
  obtain ⟨hqueue, hpaused, hactive, hjob, hcancelled, -⟩ := h
  have hnot : s.processor ≠ .polling ∧ s.processor.inFlight = none := by
    rcases hs with hs | hs
    · rw [hs]
      exact ⟨(fun heq => nomatch heq), rfl⟩
    · rw [hs]
      exact ⟨(fun heq => nomatch heq), rfl⟩
  refine ⟨he, ?_⟩
  cases step_cases hstep with
  | loopEnds =>
    exact ⟨⟨hqueue, hpaused, hactive, hjob, hcancelled, .returning (.inr rfl) hp⟩, others_silent rfl⟩
  | paused => exact ⟨⟨hqueue, hpaused, hactive, hjob, hcancelled, .returning hs hp⟩, others_silent rfl⟩
  | notPaused => exact ⟨⟨hqueue, hpaused, hactive, hjob, hcancelled, .idle rfl hp⟩, others_silent rfl⟩
  | stream e stream =>
    exact ⟨⟨hqueue, hpaused, hactive, hjob, hcancelled, .returning hs hp⟩, others_silent rfl⟩
  | delayCancelled hpolling => exact absurd hpolling hnot.1
  | pollEmpty hpolling => exact absurd hpolling hnot.1
  | pollRequest request rest hpolling => exact absurd hpolling hnot.1
  | receive request response token channel hbusy => rw [hbusy] at hnot; cases hnot.2
  | endOfStream request response hbusy => rw [hbusy] at hnot; cases hnot.2
  | streamCancelled request response e hbusy => rw [hbusy] at hnot; cases hnot.2
  | streamFailed request response e hbusy => rw [hbusy] at hnot; cases hnot.2
  | addUserMessage request response hbusy => rw [hbusy] at hnot; cases hnot.2
  | addAssistantResponse request response hbusy => rw [hbusy] at hnot; cases hnot.2
  | complete request response hbusy => rw [hbusy] at hnot; cases hnot.2
  | _ => cases he

/-- Two processors without a request poll the same one, unless the second queue lacks it. -/
theorem Beside.poll {request : Request} {rest : List Request} (h : Beside id s s')
    (hp : s'.processor = .polling)
    (hqueue : s.requestQueue = request :: rest) :
    Skips id s s' (s.startRequest request rest) .poll ∨
      Matches id s s' (s.startRequest request rest) .poll .poll := by
  obtain ⟨herased, hpaused, hactive, hjob, hcancelled, -⟩ := h
  rw [hqueue] at herased
  generalize hqueue' : s'.requestQueue = queue' at herased
  cases herased with
  | keep _ herased =>
    refine .inr ⟨_, step_of_cases (.pollRequest request _ hp hqueue') (fun heq => nomatch heq),
      ⟨herased, hpaused, hactive, hjob, ⟨rfl, rfl⟩, .busy request [] rfl rfl rfl⟩, ?_⟩
    exact (drop_silent rfl).trans (drop_silent rfl).symm
  | erase hid herased =>
    refine .inl ⟨rfl, ⟨hqueue' ▸ herased, hpaused, hactive, hjob, ⟨rfl, hcancelled.2⟩,
      .alone request [] rfl hid hp⟩, others_silent rfl⟩

theorem Beside.checkPaused (h : Beside id s s') (hp : s'.processor = s.processor)
    (hstep : s.step .checkPaused = some t) : Matches id s s' t .checkPaused .checkPaused := by
  have hbeside := h
  obtain ⟨hqueue, hpaused, hactive, hjob, hcancelled, -⟩ := h
  simp only [step] at hstep
  split at hstep
  · rename_i hs
    have hs' := hp.trans hs
    split at hstep
    · rename_i hended
      cases hstep
      refine ⟨{ s' with processor := .stopped }, ?_,
        ⟨hqueue, hpaused, hactive, hjob, hcancelled, .idle rfl rfl⟩,
        (drop_silent rfl).trans (drop_silent rfl).symm⟩
      simp only [step, hs', hactive, hended, if_true]
    · rename_i hrunning
      split at hstep
      · rename_i hon
        cases hstep
        refine ⟨s', ?_, hbeside, (drop_silent rfl).trans (drop_silent rfl).symm⟩
        simp only [step, hs', hactive, hpaused, hon, if_true]
        exact if_neg hrunning
      · rename_i hon
        cases hstep
        refine ⟨{ s' with processor := .polling }, ?_,
          ⟨hqueue, hpaused, hactive, hjob, hcancelled, .idle rfl rfl⟩,
          (drop_silent rfl).trans (drop_silent rfl).symm⟩
        simp only [step, hs', hactive, hpaused]
        rw [if_neg hrunning, if_neg hon]
  · cases hstep

theorem Beside.idle (h : Beside id s s') (he : isProcessorStep e = true)
    (hflight : s.processor.inFlight = none) (hp : s'.processor = s.processor)
    (hstep : s.step e = some t) : Skips id s s' t e ∨ Matches id s s' t e e := by
  by_cases hcheck : e = .checkPaused
  · subst hcheck
    exact .inr (h.checkPaused hp hstep)
  · have hbeside := h
    obtain ⟨hqueue, hpaused, hactive, hjob, hcancelled, -⟩ := h
    cases step_cases hstep with
    | delayCancelled hs hended =>
      refine .inr ⟨_, step_of_cases (.delayCancelled (hp.trans hs) (hactive.trans hended))
        (fun heq => nomatch heq), ⟨hqueue, hpaused, hactive, hjob, hcancelled, .idle rfl rfl⟩, ?_⟩
      exact (drop_silent rfl).trans (drop_silent rfl).symm
    | pollEmpty hs hempty =>
      have hempty' : s'.requestQueue = [] := by
        rw [hempty] at hqueue
        generalize s'.requestQueue = queue' at hqueue
        cases hqueue
        rfl
      refine .inr ⟨_, step_of_cases (.pollEmpty (hp.trans hs) hempty') (fun heq => nomatch heq),
        ⟨hqueue, hpaused, hactive, hjob, hcancelled, .idle rfl rfl⟩, ?_⟩
      exact (drop_silent rfl).trans (drop_silent rfl).symm
    | pollRequest request rest hs hrest => exact hbeside.poll (hp.trans hs) hrest
    | stream e stream =>
      exact .inl ⟨he, ⟨hqueue, hpaused, hactive, hjob, hcancelled, .idle hflight hp⟩, others_silent rfl⟩
    | loopEnds => exact absurd rfl hcheck
    | paused => exact absurd rfl hcheck
    | notPaused => exact absurd rfl hcheck
    | receive request response token channel hbusy => rw [hbusy] at hflight; cases hflight
    | endOfStream request response hbusy => rw [hbusy] at hflight; cases hflight
    | streamCancelled request response e hbusy => rw [hbusy] at hflight; cases hflight
    | streamFailed request response e hbusy => rw [hbusy] at hflight; cases hflight
    | addUserMessage request response hbusy => rw [hbusy] at hflight; cases hflight
    | addAssistantResponse request response hbusy => rw [hbusy] at hflight; cases hflight
    | complete request response hbusy => rw [hbusy] at hflight; cases hflight
    | _ => cases he

/-- Each step beside the other queue is skipped or matched there. -/
theorem Beside.step {e' : Event} (h : Beside id s s') (hcall : SameCall id e e')
    (hstep : s.step e = some t) :
    isProcessorStep e' = true ∧ Beside id t s' ∧ others id (effects s t e) = [] ∨
      Matches id s s' t e e' := by
  cases he : isProcessorStep e with
  | false =>
    obtain ⟨t', hstep', hbeside, hnone', hnone⟩ := h.call he hcall hstep
    exact .inr ⟨t', hstep', hbeside, hnone'.trans hnone.symm⟩
  | true =>
    have hsame : e' = e := by
      rcases sameCall_eq hcall with hsame | ⟨op, op', rfl, -⟩
      · exact hsame
      · cases he
    subst hsame
    cases h.mode with
    | busy request response hflight hp hstream => exact .inr (h.busy he hflight hp hstream hstep)
    | idle hflight hp => exact h.idle he hflight hp hstep
    | alone request response hflight hid hp => exact .inl (h.alone he hflight hid hp hstep)
    | returning hs hp => exact .inl (h.returning he hs hp hstep)

theorem observe_cons (hstep : s.step e = some t) (es : List Event) :
    observe s (e :: es) = effects s t e ++ observe t es := by
  rw [observe, hstep, Option.elim_some]

theorem others_append (id : Text) (done more : List (Text × Effect)) :
    others id (done ++ more) = others id done ++ others id more :=
  List.filter_append _ _

theorem Beside.proceed (h : Beside id s s') : OthersProceed id s s' := by
  intro es
  induction es generalizing s s' with
  | nil =>
    intro t calls _ hcalls
    cases hcalls
    exact ⟨[], s', .nil, rfl, rfl⟩
  | cons e es ih =>
    intro t calls hrun hcalls
    obtain ⟨e', calls, hcall, hmore, rfl⟩ := List.forall₂_cons_left_iff.mp hcalls
    obtain ⟨u, hstep, hrun⟩ := Machine.run_cons_iff.mp hrun
    rw [observe_cons hstep, others_append]
    rcases h.step hcall hstep with ⟨he, hbeside, hnone⟩ | ⟨u', hstep', hbeside, hsame⟩
    · obtain ⟨es', t', hfewer, hrun', hothers⟩ := ih hbeside t calls hrun hmore
      exact ⟨es', t', .skip he hfewer, hrun', by rw [hothers, hnone, List.nil_append]⟩
    · obtain ⟨es', t', hfewer, hrun', hothers⟩ := ih hbeside t calls hrun hmore
      refine ⟨e' :: es', t', .keep e' hfewer, Machine.run_cons_iff.mpr ⟨u', hstep', hrun'⟩, ?_⟩
      rw [observe_cons hstep', others_append, hothers, hsame]

/-- Nothing ever sets `currentJob`, so no run sets `wasCancelled` either. -/
theorem run_noJob {systemPrompt : Text} {es : List Event}
    (hrun : Machine.run step (start systemPrompt) es = some s) :
    s.hasCurrentJob = false ∧ s.wasCancelled = false := by
  refine Machine.run_preserves (I := fun s => s.hasCurrentJob = false ∧ s.wasCancelled = false)
    (fun s e t h hstep => ?_) ⟨rfl, rfl⟩ hrun
  cases step_cases hstep with
  | cancelStops other hboth =>
    rw [h.1] at hboth
    cases hboth
  | pollRequest request rest hp hqueue => exact ⟨h.1, rfl⟩
  | addUserMessage request response hp =>
    rw [addUserMessage_eq]
    exact h
  | addAssistantResponse request response hp =>
    rw [addAssistantResponse_eq]
    exact h
  | _ => exact h

theorem run_cancel (h : s.hasCurrentJob = false) (id : Text) :
    Machine.run step s (cancel id) =
      some { s with requestQueue := (QueueOp.removeIf id).apply s.requestQueue } := by
  simp only [cancel, Machine.run, step, h, Bool.false_and, Option.bind_some, Bool.false_eq_true, if_false]

theorem beside_cancelled (h : s.hasCurrentJob = false ∧ s.wasCancelled = false) (id : Text) :
    Beside id s { s with requestQueue := (QueueOp.removeIf id).apply s.requestQueue } := by
  refine ⟨erased_removeIf id _, rfl, rfl, ⟨h.1, h.1⟩, ⟨h.2, h.2⟩, ?_⟩
  cases hflight : s.processor.inFlight with
  | none => exact .idle hflight rfl
  | some flight => exact .busy flight.1 flight.2 hflight rfl rfl

def question : Request := { id := "2".toList, prompt := "why".toList }

end InferenceQueue

end HeyNilo

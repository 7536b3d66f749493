import HeyNilo.InferenceQueue
import HeyNilo.SharedFlow

namespace HeyNilo

/-- A coroutine that enqueues a request and collects `responses`: `processWithLegacyQueue`, or the
collector of the chat, which goes on when its request is complete. -/
structure ResponseCollector where
  requestId : Text
  untilComplete : Bool
  /-- The steps of its `enqueue` call that are still to come. -/
  enqueuing : List InferenceQueue.Event
  slot : Option Nat
  hasLeft : Bool
  /-- The responses to its request, as its block got them. -/
  received : List InferenceQueue.Response
  responseComplete : Bool
deriving DecidableEq, Repr

structure ResponseDelivery where
  queue : InferenceQueue
  flow : SharedFlow InferenceQueue.Response
  collector : ResponseCollector
deriving DecidableEq, Repr

namespace InferenceQueue

def Response.ends (response : Response) : Bool := response.error.isSome || response.isComplete

/-- The request that a step of the processor emits a response for. -/
def emitsFor (s : InferenceQueue) : Event → Option Text
  | .receive | .streamThrows _ | .complete => s.processor.inFlight.map fun flight => flight.1.id
  | _ => none

/-- The responses up to the first one that ends the request. -/
def throughEnd : List Response → List Response
  | [] => []
  | response :: responses =>
    if response.ends then [response] else response :: throughEnd responses

end InferenceQueue

namespace ResponseDelivery

/-- `extraBufferCapacity`, without a replay cache. -/
def bufferCapacity : Nat := 64

inductive Event where
  /-- A step of the processor, of the generation or of another caller. -/
  | queue (e : InferenceQueue.Event)
  | enqueue
  | subscribe
  | receive
  /-- The timeout, or the end of the coroutine. -/
  | leaves
  | otherSubscribes
  | otherReceives (slot : Nat)
  | otherLeaves (slot : Nat)
deriving DecidableEq, Repr

def start (systemPrompt : Text) (size : Nat) (tempList : List InferenceQueue.Request)
    (request : InferenceQueue.Request) (untilComplete : Bool) : ResponseDelivery where
  queue := InferenceQueue.start systemPrompt
  flow := .empty
  collector := {
    requestId := request.id
    untilComplete := untilComplete
    enqueuing := InferenceQueue.enqueue size tempList request
    slot := none
    hasLeft := false
    received := []
    responseComplete := false }

def publish (flow : SharedFlow InferenceQueue.Response) (responses : List InferenceQueue.Response) :
    SharedFlow InferenceQueue.Response :=
  responses.foldl (SharedFlow.emit bufferCapacity) flow

def queueStep (d : ResponseDelivery) (e : InferenceQueue.Event) : Option ResponseDelivery :=
  (d.queue.step e).map fun t =>
    { d with queue := t, flow := publish d.flow (t.responses.drop d.queue.responses.length) }

def leave (d : ResponseDelivery) : ResponseDelivery :=
  { d with
    flow := match d.collector.slot with
      | some i => d.flow.leave i
      | none => d.flow
    collector := { d.collector with slot := none, hasLeft := true } }

/-- `takeWhile` looks at the flag when the next response comes, of whatever request. -/
def handle (d : ResponseDelivery) (response : InferenceQueue.Response) : ResponseDelivery :=
  if d.collector.responseComplete then d.leave
  else if response.requestId = d.collector.requestId then
    { d with collector := { d.collector with
      received := d.collector.received ++ [response]
      responseComplete := d.collector.untilComplete && response.ends } }
  else d

def step (d : ResponseDelivery) : Event → Option ResponseDelivery
  | .queue e => d.queueStep e
  | .enqueue =>
    match d.collector.enqueuing with
    | [] => none
    | e :: rest => { d with collector := { d.collector with enqueuing := rest } }.queueStep e
  | .subscribe =>
    if d.collector.slot.isNone && !d.collector.hasLeft &&
        (!d.collector.untilComplete || d.collector.enqueuing.isEmpty) then
      some { d with
        flow := d.flow.subscribe
        collector := { d.collector with slot := some d.flow.slots.length } }
    else none
  | .receive =>
    d.collector.slot.bind fun i =>
      (d.flow.take i).map fun (response, flow) => { d with flow := flow }.handle response
  | .leaves => if d.collector.hasLeft then none else some d.leave
  | .otherSubscribes => some { d with flow := d.flow.subscribe }
  | .otherReceives i =>
    if d.collector.slot = some i then none
    else (d.flow.take i).map fun (_, flow) => { d with flow := flow }
  | .otherLeaves i =>
    if d.collector.slot = some i then none else some { d with flow := d.flow.leave i }

def own (d : ResponseDelivery) (responses : List InferenceQueue.Response) :
    List InferenceQueue.Response :=
  responses.filter fun response => response.requestId = d.collector.requestId

/-- What the collector has before it in the flow. -/
def waiting (d : ResponseDelivery) : List InferenceQueue.Response :=
  (d.collector.slot.bind d.flow.unread).getD []

/-- What was emitted for the request the collector has received or still gets, in order, until its
request is complete. -/
def NothingLost (d : ResponseDelivery) : Prop :=
  if d.collector.responseComplete then
    d.collector.received = InferenceQueue.throughEnd (d.own d.queue.responses)
  else d.own d.queue.responses = d.collector.received ++ d.own d.waiting

/-- No response to the request comes while the collector is not subscribed, none is the oldest one
before the collector when its buffer overflows, and none is before it when it leaves. -/
def InTime (d : ResponseDelivery) : Event → Prop
  | .queue e =>
    d.collector.responseComplete = true ∨ ∀ id ∈ d.queue.emitsFor e,
      (id = d.collector.requestId → d.collector.slot.isSome = true) ∧
      (bufferCapacity ≤ d.waiting.length → d.waiting.head?.all
        (fun response => response.requestId != d.collector.requestId) = true)
  | .leaves => d.collector.responseComplete = true ∨ d.own d.waiting = []
  | _ => True

instance (d : ResponseDelivery) : Decidable d.NothingLost :=
  inferInstanceAs (Decidable (ite _ _ _))

instance (d : ResponseDelivery) : ∀ e, Decidable (d.InTime e)
  | .queue e => inferInstanceAs (Decidable (_ ∨ ∀ id ∈ d.queue.emitsFor e, _))
  | .leaves => inferInstanceAs (Decidable (_ ∨ _))
  | .enqueue | .subscribe | .receive | .otherSubscribes | .otherReceives _ | .otherLeaves _ =>
    isTrue trivial

end ResponseDelivery

end HeyNilo

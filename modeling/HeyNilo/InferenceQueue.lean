import HeyNilo.KotlinText
import HeyNilo.Machine

namespace HeyNilo

/-- The coroutines behind `LlamaBridge.generateStream`: the outer one is scheduled, it launches
the one that calls the native generation, and that one runs, is cancelled by `stopGeneration`
while it runs, or before it has started. -/
inductive GenerationJob where
  | scheduled
  | launched
  | running
  | cancelled
  | neverStarted
  | ended
deriving DecidableEq, Repr

/-- The channel that `generateStream` collects. -/
structure TokenStream where
  job : GenerationJob
  channel : List Text
  closed : Bool
deriving DecidableEq, Repr

inductive StreamEvent where
  | notReady
  | launch
  | start
  | onToken (token : Text)
  | onComplete
  | onError
deriving DecidableEq, Repr

namespace TokenStream

def scheduled : TokenStream := ⟨.scheduled, [], false⟩

def close (stream : TokenStream) : TokenStream := { stream with job := .ended, closed := true }

/-- Both `onComplete` and `onError` close the channel without a cause; a cancelled job forwards no
more tokens. -/
def step (stream : TokenStream) : StreamEvent → Option TokenStream
  | .notReady => if stream.job = .scheduled then some stream.close else none
  | .launch => if stream.job = .scheduled then some { stream with job := .launched } else none
  | .start => if stream.job = .launched then some { stream with job := .running } else none
  | .onToken token =>
    if stream.job = .running then some { stream with channel := stream.channel ++ [token] }
    else if stream.job = .cancelled then some stream
    else none
  | .onComplete =>
    if stream.job = .running ∨ stream.job = .cancelled then some stream.close else none
  | .onError =>
    if stream.job = .running ∨ stream.job = .cancelled then some stream.close else none

/-- `stopGeneration` cancels the job of the generation; before it is launched there is none, and a
job cancelled before its start never runs. -/
def stop (stream : TokenStream) : TokenStream :=
  match stream.job with
  | .launched => { stream with job := .neverStarted }
  | .running => { stream with job := .cancelled }
  | _ => stream

theorem stop_channel (stream : TokenStream) :
    stream.stop.channel = stream.channel ∧ stream.stop.closed = stream.closed := by
  unfold stop
  split <;> exact ⟨rfl, rfl⟩

theorem stop_ended {stream : TokenStream} (h : stream.job = .ended) : stream.stop = stream := by
  simp [stop, h]

theorem stop_ended_iff {stream : TokenStream} : stream.stop.job = .ended ↔ stream.job = .ended := by
  cases hjob : stream.job <;> simp [stop, hjob]

theorem stop_started {stream : TokenStream} (h : stream.job ≠ .neverStarted)
    (hlaunched : stream.job ≠ .launched) : stream.stop.job ≠ .neverStarted := by
  cases hjob : stream.job <;> simp_all [stop]

end TokenStream

/-- An exception of the token stream. -/
structure StreamException where
  isCancellation : Bool
  message : Option Text
deriving DecidableEq, Repr

namespace InferenceQueue

inductive Priority where
  | high
  | normal
  | low
deriving DecidableEq, Repr

structure Request where
  id : Text
  prompt : Text
  systemPrompt : Option Text := none
  maxTokens : Int := 2048
  priority : Priority := .normal
deriving DecidableEq, Repr

structure Response where
  requestId : Text
  token : Option Text := none
  isComplete : Bool := false
  error : Option Text := none
deriving DecidableEq, Repr

/-- Where the processor coroutine stands; `response` is the list of the tokens appended to
`responseBuilder`. -/
inductive Processor where
  | checking
  | polling
  | collecting (request : Request) (response : List Text)
  | addingUser (request : Request) (response : List Text)
  | addingAssistant (request : Request) (response : List Text)
  | completing (request : Request) (response : List Text)
  | stopped
deriving DecidableEq, Repr

/-- One operation of the `ConcurrentLinkedQueue`. -/
inductive QueueOp where
  | add (request : Request)
  | addAll (requests : List Request)
  | clear
  | removeIf (id : Text)
deriving DecidableEq, Repr

def QueueOp.apply : QueueOp → List Request → List Request
  | .add request, queue => queue ++ [request]
  | .addAll requests, queue => queue ++ requests
  | .clear, _ => []
  | .removeIf id, queue => queue.filter fun request => request.id != id

/-- Single steps: first those of the public methods and of the bridge's other users, then those of
the processor, then those of the generation. -/
inductive Event where
  | queueOp (op : QueueOp)
  | setPaused (paused : Bool)
  | cancelInFlight (id : Text)
  | stopGeneration
  | clearContext
  | cancelScope
  | checkPaused
  | delayCancelled
  | poll
  | receive
  | endOfStream
  | streamThrows (e : StreamException)
  | addUserMessage
  | addAssistantResponse
  | complete
  | stream (e : StreamEvent)
deriving DecidableEq, Repr

/-- The steps of `enqueue`, given the size and the queue that it reads. -/
def enqueue (size : Nat) (tempList : List Request) (request : Request) : List Event :=
  if size ≥ 10 then []
  else if request.priority = .high then
    [.queueOp .clear, .queueOp (.add request), .queueOp (.addAll tempList)]
  else [.queueOp (.add request)]

def cancel (requestId : Text) : List Event :=
  [.queueOp (.removeIf requestId), .cancelInFlight requestId]

def pause : List Event := [.setPaused true, .stopGeneration]

def resume : List Event := [.setPaused false]

def clear : List Event := [.queueOp .clear, .stopGeneration]

def destroy : List Event := clear ++ [.cancelScope]

end InferenceQueue

open InferenceQueue in
/-- The queue with what its processor has done: the responses it emitted, and its calls of
`addToHistory` since the last `clearContext`. -/
structure InferenceQueue where
  requestQueue : List Request
  responses : List Response
  isProcessing : Bool
  isPaused : Bool
  /-- Whether `currentJob` is set; nothing ever assigns it. -/
  hasCurrentJob : Bool
  wasCancelled : Bool
  isActive : Bool
  processor : Processor
  stream : TokenStream
  systemPrompt : Text
  historyCalls : List (Text × Text)
deriving DecidableEq, Repr

namespace InferenceQueue

def start (systemPrompt : Text) : InferenceQueue where
  requestQueue := []
  responses := []
  isProcessing := false
  isPaused := false
  hasCurrentJob := false
  wasCancelled := false
  isActive := true
  processor := .checking
  stream := ⟨.ended, [], true⟩
  systemPrompt := systemPrompt
  historyCalls := []

def emit (s : InferenceQueue) (response : Response) : InferenceQueue :=
  { s with responses := s.responses ++ [response] }

/-- The `finally` block of `processQueue` and the way back to the top of its loop. -/
def finishRequest (s : InferenceQueue) : InferenceQueue :=
  { s with isProcessing := false, processor := if s.isActive then .checking else .stopped }

/-- The response to an exception that leaves `processRequest`. -/
def caught (wasCancelled : Bool) (id : Text) (e : StreamException) : Response :=
  if e.isCancellation || e.message.any (fun m => containsText "cancelled".toList (lowercase m)) ||
      wasCancelled then
    { requestId := id, isComplete := true }
  else { requestId := id, error := some (e.message.getD "Unknown error".toList) }

/-- The text of a message as it goes to the history. -/
def filterMessage (text : Text) : Text :=
  trim (replaceText "</s>".toList []
    (replaceText "<|im_start|>".toList [] (replaceText "<|im_end|>".toList [] text)))

def addToHistory (s : InferenceQueue) (role content : Text) : InferenceQueue :=
  { s with historyCalls := s.historyCalls ++ [(role, content)] }

/-- A request is taken from the queue and `processRequest` starts its generation. -/
def startRequest (s : InferenceQueue) (request : Request) (rest : List Request) : InferenceQueue :=
  { s with
    requestQueue := rest
    isProcessing := true
    wasCancelled := false
    systemPrompt := request.systemPrompt.getD s.systemPrompt
    stream := .scheduled
    processor := .collecting request [] }

/-- `catch` on the stream: a cancellation goes on to `processQueue`, any other exception is emitted
and the request goes on. -/
def streamThrows (s : InferenceQueue) (request : Request) (response : List Text)
    (e : StreamException) : InferenceQueue :=
  if e.isCancellation then (s.emit (caught s.wasCancelled request.id e)).finishRequest
  else
    { s.emit { requestId := request.id, error := some (e.message.getD "Stream error".toList) } with
      processor := .addingUser request response }

def addUserMessage (s : InferenceQueue) (request : Request) (response : List Text) :
    InferenceQueue :=
  let filteredUserMessage := filterMessage request.prompt
  let s := if isBlank filteredUserMessage then s else s.addToHistory "user".toList filteredUserMessage
  { s with processor := .addingAssistant request response }

def addAssistantResponse (s : InferenceQueue) (request : Request) (response : List Text) :
    InferenceQueue :=
  let filteredResponse := filterMessage response.flatten
  let s := if isBlank filteredResponse then s else s.addToHistory "assistant".toList filteredResponse
  { s with processor := .completing request response }

theorem addUserMessage_eq (s : InferenceQueue) (request : Request) (response : List Text) :
    s.addUserMessage request response =
      { s with
        historyCalls := (s.addUserMessage request response).historyCalls
        processor := .addingAssistant request response } := by
  unfold addUserMessage
  dsimp only
  split <;> rfl

theorem addAssistantResponse_eq (s : InferenceQueue) (request : Request) (response : List Text) :
    s.addAssistantResponse request response =
      { s with
        historyCalls := (s.addAssistantResponse request response).historyCalls
        processor := .completing request response } := by
  unfold addAssistantResponse
  dsimp only
  split <;> rfl

def step (s : InferenceQueue) : Event → Option InferenceQueue
  | .queueOp op => some { s with requestQueue := op.apply s.requestQueue }
  | .setPaused paused => some { s with isPaused := paused }
  | .cancelInFlight _ =>
    if s.hasCurrentJob && s.isProcessing then
      some { s with wasCancelled := true, stream := s.stream.stop }
    else some s
  | .stopGeneration => some { s with stream := s.stream.stop }
  | .clearContext => some { s with historyCalls := [] }
  | .cancelScope => some { s with isActive := false }
  | .checkPaused =>
    match s.processor with
    | .checking =>
      if !s.isActive then some { s with processor := .stopped }
      else if s.isPaused then some s
      else some { s with processor := .polling }
    | _ => none
  | .delayCancelled =>
    match s.processor with
    | .polling => if s.isActive then none else some { s with processor := .stopped }
    | _ => none
  | .poll =>
    match s.processor, s.requestQueue with
    | .polling, [] => some { s with processor := .checking }
    | .polling, request :: rest => some (s.startRequest request rest)
    | _, _ => none
  | .receive =>
    match s.processor, s.stream.channel with
    | .collecting request response, token :: channel =>
      some { s.emit { requestId := request.id, token := some token } with
        stream := { s.stream with channel := channel }
        processor := .collecting request (response ++ [token]) }
    | _, _ => none
  | .endOfStream =>
    match s.processor, s.stream.channel, s.stream.closed with
    | .collecting request response, [], true =>
      some { s with processor := .addingUser request response }
    | _, _, _ => none
  | .streamThrows e =>
    match s.processor with
    | .collecting request response => some (s.streamThrows request response e)
    | _ => none
  | .addUserMessage =>
    match s.processor with
    | .addingUser request response => some (s.addUserMessage request response)
    | _ => none
  | .addAssistantResponse =>
    match s.processor with
    | .addingAssistant request response => some (s.addAssistantResponse request response)
    | _ => none
  | .complete =>
    match s.processor with
    | .completing request _ =>
      some (s.emit { requestId := request.id, isComplete := true }).finishRequest
    | _ => none
  | .stream e => (s.stream.step e).map fun stream => { s with stream := stream }

/-- What each step can do, one constructor for each branch of `step`. -/
inductive Step (s : InferenceQueue) : Event → InferenceQueue → Prop where
  | queueOp (op : QueueOp) :
    Step s (.queueOp op) { s with requestQueue := op.apply s.requestQueue }
  | setPaused (paused : Bool) : Step s (.setPaused paused) { s with isPaused := paused }
  | cancelStops (id : Text) (hjob : (s.hasCurrentJob && s.isProcessing) = true) :
    Step s (.cancelInFlight id) { s with wasCancelled := true, stream := s.stream.stop }
  | cancelIgnored (id : Text) (hjob : (s.hasCurrentJob && s.isProcessing) = false) :
    Step s (.cancelInFlight id) s
  | stopGeneration : Step s .stopGeneration { s with stream := s.stream.stop }
  | clearContext : Step s .clearContext { s with historyCalls := [] }
  | cancelScope : Step s .cancelScope { s with isActive := false }
  | loopEnds (hp : s.processor = .checking) (hactive : s.isActive = false) :
    Step s .checkPaused { s with processor := .stopped }
  | paused (hp : s.processor = .checking) (hpaused : s.isPaused = true) : Step s .checkPaused s
  | notPaused (hp : s.processor = .checking) (hpaused : s.isPaused = false) :
    Step s .checkPaused { s with processor := .polling }
  | delayCancelled (hp : s.processor = .polling) (hactive : s.isActive = false) :
    Step s .delayCancelled { s with processor := .stopped }
  | pollEmpty (hp : s.processor = .polling) (hqueue : s.requestQueue = []) :
    Step s .poll { s with processor := .checking }
  | pollRequest (request : Request) (rest : List Request) (hp : s.processor = .polling)
    (hqueue : s.requestQueue = request :: rest) : Step s .poll (s.startRequest request rest)
  | receive (request : Request) (response : List Text) (token : Text) (channel : List Text)
    (hp : s.processor = .collecting request response)
    (hchannel : s.stream.channel = token :: channel) :
    Step s .receive
      { s.emit { requestId := request.id, token := some token } with
        stream := { s.stream with channel := channel }
        processor := .collecting request (response ++ [token]) }
  | endOfStream (request : Request) (response : List Text)
    (hp : s.processor = .collecting request response) (hchannel : s.stream.channel = [])
    (hclosed : s.stream.closed = true) :
    Step s .endOfStream { s with processor := .addingUser request response }
  | streamCancelled (request : Request) (response : List Text) (e : StreamException)
    (hp : s.processor = .collecting request response) (he : e.isCancellation = true) :
    Step s (.streamThrows e)
      (s.emit { requestId := request.id, isComplete := true }).finishRequest
  | streamFailed (request : Request) (response : List Text) (e : StreamException)
    (hp : s.processor = .collecting request response) (he : e.isCancellation = false) :
    Step s (.streamThrows e)
      { s.emit { requestId := request.id, error := some (e.message.getD "Stream error".toList) } with
        processor := .addingUser request response }
  | addUserMessage (request : Request) (response : List Text)
    (hp : s.processor = .addingUser request response) :
    Step s .addUserMessage (s.addUserMessage request response)
  | addAssistantResponse (request : Request) (response : List Text)
    (hp : s.processor = .addingAssistant request response) :
    Step s .addAssistantResponse (s.addAssistantResponse request response)
  | complete (request : Request) (response : List Text)
    (hp : s.processor = .completing request response) :
    Step s .complete (s.emit { requestId := request.id, isComplete := true }).finishRequest
  | stream (e : StreamEvent) (stream : TokenStream) (hstream : s.stream.step e = some stream) :
    Step s (.stream e) { s with stream := stream }

theorem streamThrows_cancelled (s : InferenceQueue) (request : Request) (response : List Text)
    {e : StreamException} (he : e.isCancellation = true) :
    s.streamThrows request response e =
      (s.emit { requestId := request.id, isComplete := true }).finishRequest := by
  simp [streamThrows, caught, he]

theorem streamThrows_failed (s : InferenceQueue) (request : Request) (response : List Text)
    {e : StreamException} (he : e.isCancellation = false) :
    s.streamThrows request response e =
      { s.emit { requestId := request.id, error := some (e.message.getD "Stream error".toList) } with
        processor := .addingUser request response } := by
  simp [streamThrows, he]

theorem step_cases {s t : InferenceQueue} {e : Event} (h : s.step e = some t) : Step s e t := by
  cases e with
  | queueOp op => cases Option.some.inj h; exact .queueOp op
  | setPaused paused => cases Option.some.inj h; exact .setPaused paused
  | stopGeneration => cases Option.some.inj h; exact .stopGeneration
  | clearContext => cases Option.some.inj h; exact .clearContext
  | cancelScope => cases Option.some.inj h; exact .cancelScope
  | cancelInFlight id =>
    simp only [step] at h
    split at h
    next hjob => cases h; exact .cancelStops id hjob
    next hjob => cases h; exact .cancelIgnored id (by simpa using hjob)
  | stream e =>
    obtain ⟨stream, hstream, h⟩ := Option.map_eq_some_iff.mp h
    cases h
    exact .stream e stream hstream
  | checkPaused =>
    simp only [step] at h
    split at h
    next hp =>
      split at h
      next hactive => cases h; exact .loopEnds hp (by simpa using hactive)
      next =>
        split at h
        next hpaused => cases h; exact .paused hp hpaused
        next hpaused => cases h; exact .notPaused hp (by simpa using hpaused)
    next => cases h
  | delayCancelled =>
    simp only [step] at h
    split at h
    next hp =>
      split at h
      next => cases h
      next hactive => cases h; exact .delayCancelled hp (by simpa using hactive)
    next => cases h
  | poll =>
    simp only [step] at h
    split at h
    next hp hqueue => cases h; exact .pollEmpty hp hqueue
    next request rest hp hqueue => cases h; exact .pollRequest request rest hp hqueue
    next => cases h
  | receive =>
    simp only [step] at h
    split at h
    next request response token channel hp hchannel =>
      cases h
      exact .receive request response token channel hp hchannel
    next => cases h
  | endOfStream =>
    simp only [step] at h
    split at h
    next request response hp hchannel hclosed =>
      cases h
      exact .endOfStream request response hp hchannel hclosed
    next => cases h
  | streamThrows e =>
    simp only [step] at h
    split at h
    next request response hp =>
      cases h
      rcases Bool.eq_false_or_eq_true e.isCancellation with he | he
      · rw [streamThrows_cancelled s request response he]
        exact .streamCancelled request response e hp he
      · rw [streamThrows_failed s request response he]
        exact .streamFailed request response e hp he
    next => cases h
  | addUserMessage =>
    simp only [step] at h
    split at h
    next request response hp => cases h; exact .addUserMessage request response hp
    next => cases h
  | addAssistantResponse =>
    simp only [step] at h
    split at h
    next request response hp => cases h; exact .addAssistantResponse request response hp
    next => cases h
  | complete =>
    simp only [step] at h
    split at h
    next request response hp => cases h; exact .complete request response hp
    next => cases h

/-- The request in work, with the tokens received for it. -/
def Processor.inFlight : Processor → Option (Request × List Text)
  | .collecting request response | .addingUser request response
  | .addingAssistant request response | .completing request response => some (request, response)
  | .checking | .polling | .stopped => none

/-- How a generation ended. -/
inductive Outcome where
  | completed
  | interrupted
  | failed
deriving DecidableEq, Repr

/-- A request that the processor is done with, the tokens that its generation sent, how the
generation ended and what was emitted for the request. -/
structure Handled where
  request : Request
  sent : List Text
  outcome : Option Outcome
  emitted : List Response
deriving DecidableEq, Repr

/-- What an observer of the run notes about it. -/
structure Ledger where
  dequeued : List Request := []
  finished : List Handled := []
  /-- The number of responses emitted before the request in work. -/
  emittedBefore : Nat := 0
  sent : List Text := []
  /-- A cancellation or a stop came before the generation in work ended. -/
  interrupted : Bool := false
  outcome : Option Outcome := none
  /-- The messages and replies of the completed turns since the last `clearContext`. -/
  turns : List (Text × Text) := []
  /-- `clearContext` was called since the user half of the turn in work was added. -/
  cleared : Bool := false
deriving DecidableEq, Repr

namespace Ledger

/-- A request is dequeued. -/
def begin (g : Ledger) (s : InferenceQueue) (request : Request) : Ledger :=
  { g with
    dequeued := g.dequeued ++ [request]
    emittedBefore := s.responses.length
    sent := []
    interrupted := false
    outcome := none }

def interrupt (g : Ledger) : Ledger := { g with interrupted := true }

/-- The generation in work ends; only its first ending counts. -/
def endsWith (g : Ledger) (outcome : Outcome) : Ledger :=
  { g with outcome := g.outcome.or (some outcome) }

/-- The request in work is cancelled; a generation that has failed before stays failed. -/
def cancel (g : Ledger) : Ledger :=
  { g with outcome := if g.outcome = some .failed then some .failed else some .interrupted }

def handled (g : Ledger) (request : Request) (emitted : List Response) : Ledger :=
  { g with finished := g.finished ++ [⟨request, g.sent, g.outcome, emitted⟩] }

/-- The request in work is done with the step to `t`; all responses since its start are its own. -/
def finish (g : Ledger) (s t : InferenceQueue) : Ledger :=
  match s.processor.inFlight with
  | some (request, _) => g.handled request (t.responses.drop g.emittedBefore)
  | none => g

/-- A turn counts if its generation ran to its end with a reply. -/
def addTurn (g : Ledger) (s : InferenceQueue) : Ledger :=
  match s.processor.inFlight with
  | some (request, response) =>
    if g.outcome = some .completed ∧ isBlank (filterMessage response.flatten) = false then
      { g with
        turns := g.turns ++ [(filterMessage request.prompt, filterMessage response.flatten)] }
    else g
  | none => g

def next (g : Ledger) (s : InferenceQueue) (e : Event) : Ledger :=
  match e with
  | .cancelInFlight id =>
    if s.processor.inFlight.any fun flight => flight.1.id = id then g.interrupt else g
  | .stopGeneration => g.interrupt
  | .clearContext => { g with turns := [], cleared := true }
  | .poll =>
    match s.requestQueue with
    | [] => g
    | request :: _ => g.begin s request
  | .streamThrows e =>
    if e.isCancellation then g.cancel.finish s ((s.step (.streamThrows e)).getD s)
    else { g with outcome := some .failed }
  | .addUserMessage => { g with cleared := false }
  | .addAssistantResponse => g.addTurn s
  | .complete => g.finish s ((s.step .complete).getD s)
  | .stream (.onToken token) =>
    if s.stream.job = .running then { g with sent := g.sent ++ [token] } else g
  | .stream .onComplete => g.endsWith (if g.interrupted then .interrupted else .completed)
  | .stream .onError | .stream .notReady => g.endsWith .failed
  | _ => g

end Ledger

def greeting : Request := { id := "1".toList, prompt := "hi".toList }

end InferenceQueue

end HeyNilo

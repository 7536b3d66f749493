import HeyNilo.InferenceQueue

open Machine

namespace HeyNilo

namespace InferenceQueue

def tokenResponse (request : Request) (token : Text) : Response :=
  { requestId := request.id, token := some token }

/-- The tokens of the generation in order, then one terminal response, which is an error if the
generation failed and a completion otherwise. -/
def Handled.Answered (h : Handled) : Prop :=
  ∃ tokens terminal, tokens <+: h.sent ∧ (h.outcome = some .completed → tokens = h.sent) ∧
    h.emitted = tokens.map (tokenResponse h.request) ++ [terminal] ∧
    terminal.requestId = h.request.id ∧ terminal.token = none ∧
    (terminal.error.isSome = true ↔ h.outcome = some .failed) ∧
    (terminal.isComplete = true ↔ h.outcome ≠ some .failed)

/-- The responses emitted for the requests that are done. -/
def Ledger.emittedSoFar (g : Ledger) : List Response := g.finished.flatMap (·.emitted)

/-- The steps that take a request to its end: those of its generation and of the processor. -/
def Event.isProgress : Event → Bool
  | .receive | .endOfStream | .addUserMessage | .addAssistantResponse | .complete | .stream _ => true
  | _ => false

/-- The request in work, if any, can still come to its end. -/
def CanFinish (s : InferenceQueue) : Prop :=
  ∃ es t, (∀ e ∈ es, e.isProgress = true) ∧ run step s es = some t ∧ t.processor.inFlight = none

/-- Each dequeued request is answered, or in work and can still come to its end. -/
structure EachAnswered (x : InferenceQueue × Ledger) : Prop where
  answered : ∀ h ∈ x.2.finished, h.Answered
  all : x.1.processor.inFlight = none →
    x.2.dequeued = x.2.finished.map (·.request) ∧ x.1.responses = x.2.emittedSoFar
  canFinish : CanFinish x.1

/-- The step ends no request whose generation failed, and stops no generation that has not
started. -/
def endsWell (x : InferenceQueue × Ledger) (e : Event) : Bool :=
  match e, x.1.processor with
  | .complete, .completing _ _ => x.2.outcome ≠ some .failed
  | .streamThrows e, .collecting _ _ => !e.isCancellation || x.2.outcome ≠ some .failed
  | .stopGeneration, .collecting _ _ => x.1.stream.job ≠ .launched
  | _, _ => true

/-- A request in work: the requests dequeued before it are done. -/
structure InWork (g : Ledger) (request : Request) : Prop where
  dequeued : g.dequeued = g.finished.map (·.request) ++ [request]
  before : g.emittedBefore = g.emittedSoFar.length

structure Collecting (stream : TokenStream) (responses : List Response) (g : Ledger)
    (request : Request) (response : List Text) : Prop extends InWork g request where
  responses : responses = g.emittedSoFar ++ response.map (tokenResponse request)
  sent : response ++ stream.channel = g.sent
  started : stream.job ≠ .neverStarted
  closed : stream.closed = true ↔ stream.job = .ended
  outcome : stream.closed = true → g.outcome ≠ none

/-- After the stream: unless the generation failed, its tokens have all been emitted. -/
structure Recording (stream : TokenStream) (responses : List Response) (g : Ledger)
    (request : Request) (response : List Text) : Prop extends InWork g request where
  outcome : g.outcome ≠ none
  responses : ∃ own, responses = g.emittedSoFar ++ own ∧
    (g.outcome ≠ some .failed → own = response.map (tokenResponse request) ∧
      response = g.sent ∧ stream.job = .ended)

def FlightInv (s : InferenceQueue) (g : Ledger) : Prop :=
  match s.processor with
  | .checking | .polling | .stopped =>
    g.dequeued = g.finished.map (·.request) ∧ s.responses = g.emittedSoFar
  | .collecting request response => Collecting s.stream s.responses g request response
  | .addingUser request response | .addingAssistant request response
  | .completing request response => Recording s.stream s.responses g request response

structure ResponseInv (x : InferenceQueue × Ledger) : Prop where
  noJob : x.1.hasCurrentJob = false
  answered : ∀ h ∈ x.2.finished, h.Answered
  flight : FlightInv x.1 x.2

theorem flightInv_idle {s : InferenceQueue} {g : Ledger} (hidle : s.processor.inFlight = none) :
    FlightInv s g ↔
      g.dequeued = g.finished.map (·.request) ∧ s.responses = g.emittedSoFar := by
  unfold FlightInv
  cases hp : s.processor <;> simp_all [Processor.inFlight]

theorem finishRequest_idle (s : InferenceQueue) : s.finishRequest.processor.inFlight = none := by
  unfold finishRequest
  cases s.isActive <;> rfl

theorem canFinish_of_idle {s : InferenceQueue} (h : s.processor.inFlight = none) : CanFinish s :=
  ⟨[], s, by simp, rfl, h⟩

theorem CanFinish.of_step {s t : InferenceQueue} {e : Event} (h : CanFinish t)
    (he : e.isProgress = true) (hs : s.step e = some t) : CanFinish s := by
  obtain ⟨es, u, hes, hr, hu⟩ := h
  refine ⟨e :: es, u, ?_, run_cons_iff.mpr ⟨t, hs, hr⟩, hu⟩
  intro d hd
  rcases List.mem_cons.mp hd with rfl | hd
  · exact he
  · exact hes d hd

theorem canFinish_completing {s : InferenceQueue} {request : Request} {response : List Text}
    (hp : s.processor = .completing request response) : CanFinish s := by
  have hs : s.step .complete =
      some (s.emit { requestId := request.id, isComplete := true }).finishRequest := by
    simp only [step, hp]
  exact (canFinish_of_idle (finishRequest_idle _)).of_step rfl hs

theorem canFinish_addingAssistant {s : InferenceQueue} {request : Request}
    {response : List Text} (hp : s.processor = .addingAssistant request response) :
    CanFinish s := by
  have hs : s.step .addAssistantResponse = some (s.addAssistantResponse request response) := by
    simp only [step, hp]
  rw [addAssistantResponse_eq] at hs
  have hnext := canFinish_completing (s := { s with
    historyCalls := (s.addAssistantResponse request response).historyCalls
    processor := .completing request response }) rfl
  exact hnext.of_step rfl hs

theorem canFinish_addingUser {s : InferenceQueue} {request : Request} {response : List Text}
    (hp : s.processor = .addingUser request response) : CanFinish s := by
  have hs : s.step .addUserMessage = some (s.addUserMessage request response) := by
    simp only [step, hp]
  rw [addUserMessage_eq] at hs
  have hnext := canFinish_addingAssistant (s := { s with
    historyCalls := (s.addUserMessage request response).historyCalls
    processor := .addingAssistant request response }) rfl
  exact hnext.of_step rfl hs

/-- Once the channel is closed, its tokens are received and the request is completed. -/
theorem canFinish_closed {s : InferenceQueue} {request : Request} {response : List Text}
    (hp : s.processor = .collecting request response) (hclosed : s.stream.closed = true) :
    CanFinish s := by
  cases hchannel : s.stream.channel with
  | nil =>
    have hs : s.step .endOfStream = some { s with processor := .addingUser request response } := by
      simp only [step, hp, hchannel, hclosed]
    have hnext := canFinish_addingUser (s := { s with processor := .addingUser request response })
      rfl
    exact hnext.of_step rfl hs
  | cons token channel =>
    have hs : s.step .receive = some { s.emit (tokenResponse request token) with
        stream := { s.stream with channel := channel }
        processor := .collecting request (response ++ [token]) } := by
      simp only [step, hp, hchannel]
      rfl
    have hnext := canFinish_closed (s := { s.emit (tokenResponse request token) with
        stream := { s.stream with channel := channel }
        processor := .collecting request (response ++ [token]) }) rfl hclosed
    exact hnext.of_step rfl hs
termination_by s.stream.channel.length
decreasing_by simp [hchannel]

theorem canFinish_collecting {s : InferenceQueue} {request : Request} {response : List Text}
    (hp : s.processor = .collecting request response) (hstarted : s.stream.job ≠ .neverStarted)
    (hclosed : s.stream.closed = true ↔ s.stream.job = .ended) : CanFinish s := by
  have hrunning (s : InferenceQueue) (hp : s.processor = .collecting request response)
      (hjob : s.stream.job = .running ∨ s.stream.job = .cancelled) : CanFinish s := by
    have hs : s.step (.stream .onComplete) = some { s with stream := s.stream.close } := by
      simp only [step, TokenStream.step, if_pos hjob, Option.map_some]
    exact (canFinish_closed (s := { s with stream := s.stream.close }) hp rfl).of_step rfl hs
  have hlaunched (s : InferenceQueue) (hp : s.processor = .collecting request response)
      (hjob : s.stream.job = .launched) : CanFinish s := by
    have hs : s.step (.stream .start) =
        some { s with stream := { s.stream with job := .running } } := by
      simp only [step, TokenStream.step, if_pos hjob, Option.map_some]
    have hnext := hrunning { s with stream := { s.stream with job := .running } } hp (Or.inl rfl)
    exact hnext.of_step rfl hs
  cases hjob : s.stream.job with
  | scheduled =>
    have hs : s.step (.stream .launch) =
        some { s with stream := { s.stream with job := .launched } } := by
      simp only [step, TokenStream.step, if_pos hjob, Option.map_some]
    exact (hlaunched { s with stream := { s.stream with job := .launched } } hp rfl).of_step rfl hs
  | launched => exact hlaunched s hp hjob
  | running => exact hrunning s hp (Or.inl hjob)
  | cancelled => exact hrunning s hp (Or.inr hjob)
  | neverStarted => exact absurd hjob hstarted
  | ended => exact canFinish_closed hp (hclosed.mpr hjob)

/-- A request whose generation was cancelled before it started waits for ever. -/
theorem not_canFinish {s : InferenceQueue} {request : Request} {response : List Text}
    (hp : s.processor = .collecting request response) (hjob : s.stream.job = .neverStarted)
    (hclosed : s.stream.closed = false) : ¬ CanFinish s := by
  rintro ⟨es, t, hes, hr, hidle⟩
  induction es generalizing s request response with
  | nil =>
    cases Option.some.inj hr
    simp [hp, Processor.inFlight] at hidle
  | cons e es ih =>
    obtain ⟨u, hu, hr⟩ := run_cons_iff.mp hr
    have he := hes e List.mem_cons_self
    have hrest (d : Event) (hd : d ∈ es) := hes d (List.mem_cons_of_mem e hd)
    cases step_cases hu with
    | receive r rs token channel hp' hchannel =>
      exact ih (s := { s.emit (tokenResponse r token) with
        stream := { s.stream with channel := channel }
        processor := .collecting r (rs ++ [token]) }) rfl hjob hclosed hrest hr
    | endOfStream r rs hp' hchannel hclosed' => simp [hclosed] at hclosed'
    | addUserMessage r rs hp' => simp [hp] at hp'
    | addAssistantResponse r rs hp' => simp [hp] at hp'
    | complete r rs hp' => simp [hp] at hp'
    | stream e stream hstream => cases e <;> simp [TokenStream.step, hjob] at hstream
    | _ => cases he

theorem ResponseInv.eachAnswered {x : InferenceQueue × Ledger} (h : ResponseInv x) :
    EachAnswered x := by
  have hflight := h.flight
  refine ⟨h.answered, fun hnone => (flightInv_idle hnone).mp hflight, ?_⟩
  cases hp : x.1.processor with
  | collecting request response =>
    simp only [FlightInv, hp] at hflight
    exact canFinish_collecting hp hflight.started hflight.closed
  | addingUser request response => exact canFinish_addingUser hp
  | addingAssistant request response => exact canFinish_addingAssistant hp
  | completing request response => exact canFinish_completing hp
  | _ => exact canFinish_of_idle (by rw [hp]; rfl)

theorem Collecting.stop {stream : TokenStream} {responses : List Response} {g : Ledger}
    {request : Request} {response : List Text} (h : Collecting stream responses g request response)
    (hlaunched : stream.job ≠ .launched) :
    Collecting stream.stop responses g.interrupt request response where
  dequeued := h.dequeued
  before := h.before
  responses := h.responses
  sent := (congrArg (response ++ ·) stream.stop_channel.1).trans h.sent
  started := TokenStream.stop_started h.started hlaunched
  closed := by
    rw [stream.stop_channel.2, h.closed, TokenStream.stop_ended_iff]
  outcome := by
    rw [stream.stop_channel.2]
    exact h.outcome

theorem Recording.stop {stream : TokenStream} {responses : List Response} {g : Ledger}
    {request : Request} {response : List Text} (h : Recording stream responses g request response) :
    Recording stream.stop responses g.interrupt request response where
  dequeued := h.dequeued
  before := h.before
  outcome := h.outcome
  responses := by
    obtain ⟨own, hown, hrest⟩ := h.responses
    refine ⟨own, hown, fun houtcome => ?_⟩
    obtain ⟨hresponse, hsent, hjob⟩ := hrest houtcome
    rw [TokenStream.stop_ended hjob]
    exact ⟨hresponse, hsent, hjob⟩

theorem stream_cases {g : Ledger} {s : InferenceQueue} {e : StreamEvent} {stream : TokenStream}
    (h : s.stream.step e = some stream) :
    s.stream.job ≠ .ended ∧
      ((stream.channel = s.stream.channel ∧ stream.closed = s.stream.closed ∧
          stream.job ≠ .neverStarted ∧ stream.job ≠ .ended ∧ g.next s (.stream e) = g) ∨
        (∃ token, stream = { s.stream with channel := s.stream.channel ++ [token] } ∧
          g.next s (.stream e) = { g with sent := g.sent ++ [token] }) ∨
        (stream = s.stream.close ∧ ∃ outcome, g.next s (.stream e) = g.endsWith outcome)) := by
  cases e with
  | notReady =>
    simp only [TokenStream.step] at h
    split at h <;> cases h
    next hjob => exact ⟨by simp [hjob], Or.inr (Or.inr ⟨rfl, _, rfl⟩)⟩
  | launch =>
    simp only [TokenStream.step] at h
    split at h <;> cases h
    next hjob => exact ⟨by simp [hjob], Or.inl ⟨rfl, rfl, by simp, by simp, rfl⟩⟩
  | start =>
    simp only [TokenStream.step] at h
    split at h <;> cases h
    next hjob => exact ⟨by simp [hjob], Or.inl ⟨rfl, rfl, by simp, by simp, rfl⟩⟩
  | onToken token =>
    simp only [TokenStream.step] at h
    split at h
    next hjob =>
      cases h
      exact ⟨by simp [hjob], Or.inr (Or.inl ⟨token, rfl, by simp [Ledger.next, hjob]⟩)⟩
    next =>
      split at h <;> cases h
      next hjob =>
      exact ⟨by simp [hjob], Or.inl ⟨rfl, rfl, by simp [hjob], by simp [hjob],
        by simp [Ledger.next, hjob]⟩⟩
  | onComplete =>
    simp only [TokenStream.step] at h
    split at h <;> cases h
    next hjob => exact ⟨by rcases hjob with hjob | hjob <;> simp [hjob], Or.inr (Or.inr ⟨rfl, _, rfl⟩)⟩
  | onError =>
    simp only [TokenStream.step] at h
    split at h <;> cases h
    next hjob => exact ⟨by rcases hjob with hjob | hjob <;> simp [hjob], Or.inr (Or.inr ⟨rfl, _, rfl⟩)⟩

theorem Collecting.stream {s : InferenceQueue} {g : Ledger} {request : Request}
    {response : List Text} {e : StreamEvent} {stream : TokenStream}
    (h : Collecting s.stream s.responses g request response)
    (hstream : s.stream.step e = some stream) :
    Collecting stream s.responses (g.next s (.stream e)) request response := by
  obtain ⟨hjob, hcases⟩ := stream_cases (g := g) hstream
  have hopen : s.stream.closed = false := by
    by_contra hclosed
    exact hjob (h.closed.mp (by simpa using hclosed))
  rcases hcases with ⟨hchannel, hclosed, hstarted, hended, hnext⟩ | ⟨token, rfl, hnext⟩ |
    ⟨rfl, _, hnext⟩
  · rw [hnext]
    refine ⟨h.toInWork, h.responses, ?_, hstarted, ?_, ?_⟩
    · rw [← h.sent, ← hchannel]
    · simp [hclosed, hopen, hended]
    · simp [hclosed, hopen]
  · rw [hnext]
    refine ⟨⟨h.dequeued, h.before⟩, h.responses, ?_, h.started, h.closed, h.outcome⟩
    rw [← h.sent, List.append_assoc]
  · rw [hnext]
    refine ⟨⟨h.dequeued, h.before⟩, h.responses, h.sent, nofun, by simp [TokenStream.close], ?_⟩
    simp [Ledger.endsWith]

theorem Recording.stream {s : InferenceQueue} {g : Ledger} {request : Request}
    {response : List Text} {e : StreamEvent} {stream : TokenStream}
    (h : Recording s.stream s.responses g request response)
    (hstream : s.stream.step e = some stream) :
    Recording stream s.responses (g.next s (.stream e)) request response := by
  obtain ⟨hjob, hcases⟩ := stream_cases (g := g) hstream
  obtain ⟨own, hown, hrest⟩ := h.responses
  -- the generation is still under way, so it is one that failed
  have hfailed : g.outcome = some .failed := by
    by_contra hne
    exact hjob (hrest hne).2.2
  rcases hcases with ⟨hchannel, hclosed, hstarted, hended, hnext⟩ | ⟨token, rfl, hnext⟩ |
    ⟨rfl, _, hnext⟩
  all_goals
    rw [hnext]
    refine ⟨⟨h.dequeued, h.before⟩, by simp [hfailed, Ledger.endsWith], own, hown, fun hne => ?_⟩
    simp [hfailed, Ledger.endsWith] at hne

theorem InWork.finish {s : InferenceQueue} {g : Ledger} {request : Request}
    {response : List Text} {own : List Response} {terminal : Response} (h : InWork g request)
    (hp : s.processor.inFlight = some (request, response))
    (hresponses : s.responses = g.emittedSoFar ++ own) :
    g.finish s (s.emit terminal).finishRequest = g.handled request (own ++ [terminal]) := by
  have hown : (s.emit terminal).finishRequest.responses.drop g.emittedBefore =
      own ++ [terminal] := by
    show (s.responses ++ [terminal]).drop g.emittedBefore = _
    rw [hresponses, h.before, List.append_assoc, List.drop_left]
  simp only [Ledger.finish, hp, hown]

theorem InWork.flightInv {s : InferenceQueue} {g : Ledger} {request : Request}
    {own : List Response} {terminal : Response} (h : InWork g request)
    (hresponses : s.responses = g.emittedSoFar ++ own) :
    FlightInv (s.emit terminal).finishRequest (g.handled request (own ++ [terminal])) := by
  rw [flightInv_idle (finishRequest_idle _)]
  constructor
  · simp [Ledger.handled, h.dequeued]
  · show s.responses ++ [terminal] = _
    simp [hresponses, Ledger.handled, Ledger.emittedSoFar]

theorem answered_complete {request : Request} {response : List Text} {g : Ledger}
    (hsent : response <+: g.sent) (hcompleted : g.outcome = some .completed → response = g.sent)
    (hfailed : g.outcome ≠ some .failed) :
    Handled.Answered ⟨request, g.sent, g.outcome, response.map (tokenResponse request) ++
      [{ requestId := request.id, isComplete := true }]⟩ :=
  ⟨response, _, hsent, hcompleted, rfl, rfl, rfl, by simp [hfailed], by simp [hfailed]⟩

/-- A failed generation that is closed with a completion is not answered as it should be. -/
theorem not_answered_failed {h : Handled} {own : List Response} {id : Text}
    (hfailed : h.outcome = some .failed)
    (hemitted : h.emitted = own ++ [{ requestId := id, isComplete := true }]) : ¬ h.Answered := by
  rintro ⟨tokens, terminal, _, _, htokens, _, _, _, hcomplete⟩
  have hterminal := List.append_inj_right' (hemitted.symm.trans htokens) rfl
  cases hterminal
  exact hcomplete.mp rfl hfailed

theorem not_eachAnswered_handled {s : InferenceQueue} {g : Ledger} {request : Request}
    {own : List Response} {id : Text} (hfailed : g.outcome = some .failed) :
    ¬ EachAnswered
      (s, g.handled request (own ++ [{ requestId := id, isComplete := true }])) := by
  intro heach
  have hmem : ⟨request, g.sent, g.outcome, own ++ [{ requestId := id, isComplete := true }]⟩ ∈
      (g.handled request (own ++ [{ requestId := id, isComplete := true }])).finished :=
    List.mem_append_right _ (List.mem_singleton.mpr rfl)
  exact not_answered_failed hfailed rfl (heach.answered _ hmem)

theorem FlightInv.frame {s t : InferenceQueue} {g k : Ledger} (h : FlightInv s g)
    (hp : t.processor = s.processor) (hresponses : t.responses = s.responses)
    (hstream : t.stream = s.stream)
    (hk : k = { g with turns := k.turns, cleared := k.cleared, interrupted := k.interrupted }) :
    FlightInv t k := by
  rw [hk]
  unfold FlightInv at h ⊢
  rw [hp, hresponses, hstream]
  cases hproc : s.processor <;> simp only [hproc] at h ⊢
  case collecting request response =>
    exact ⟨⟨h.dequeued, h.before⟩, h.responses, h.sent, h.started, h.closed, h.outcome⟩
  case checking => exact h
  case polling => exact h
  case stopped => exact h
  all_goals exact ⟨⟨h.dequeued, h.before⟩, h.outcome, h.responses⟩

theorem FlightInv.stop {s : InferenceQueue} {g : Ledger} (h : FlightInv s g)
    (hlaunched : ∀ request response, s.processor = .collecting request response →
      s.stream.job ≠ .launched) :
    FlightInv { s with stream := s.stream.stop } g.interrupt := by
  unfold FlightInv at h ⊢
  cases hproc : s.processor <;> simp only [hproc] at h ⊢
  case collecting request response => exact h.stop (hlaunched request response hproc)
  case checking => exact h
  case polling => exact h
  case stopped => exact h
  all_goals exact h.stop

theorem FlightInv.stream {s : InferenceQueue} {g : Ledger} {e : StreamEvent}
    {stream : TokenStream} (h : FlightInv s g) (hstream : s.stream.step e = some stream) :
    FlightInv { s with stream := stream } (g.next s (.stream e)) := by
  obtain ⟨_, hcases⟩ := stream_cases (g := g) hstream
  have hkeeps : (g.next s (.stream e)).dequeued = g.dequeued ∧
      (g.next s (.stream e)).finished = g.finished := by
    rcases hcases with ⟨_, _, _, _, hnext⟩ | ⟨token, _, hnext⟩ | ⟨_, _, hnext⟩ <;> rw [hnext] <;>
      exact ⟨rfl, rfl⟩
  unfold FlightInv at h ⊢
  cases hproc : s.processor <;> simp only [hproc] at h ⊢
  case collecting request response => exact h.stream hstream
  case checking => rw [hkeeps.1, hkeeps.2, Ledger.emittedSoFar, hkeeps.2]; exact h
  case polling => rw [hkeeps.1, hkeeps.2, Ledger.emittedSoFar, hkeeps.2]; exact h
  case stopped => rw [hkeeps.1, hkeeps.2, Ledger.emittedSoFar, hkeeps.2]; exact h
  all_goals exact h.stream hstream

theorem addTurn_eq (g : Ledger) (s : InferenceQueue) :
    g.addTurn s = { g with turns := (g.addTurn s).turns } := by
  unfold Ledger.addTurn
  split
  · split <;> rfl
  · rfl

/-- A request that ends well joins those that are answered. -/
theorem ResponseInv.handled {s : InferenceQueue} {g : Ledger} {request : Request}
    {response : List Text} (hjob : s.hasCurrentJob = false)
    (hanswered : ∀ h ∈ g.finished, h.Answered) (h : InWork g request)
    (hp : s.processor.inFlight = some (request, response))
    (hresponses : s.responses = g.emittedSoFar ++ response.map (tokenResponse request))
    (hsent : response <+: g.sent) (hcompleted : g.outcome = some .completed → response = g.sent)
    (hfailed : g.outcome ≠ some .failed) :
    ResponseInv ((s.emit { requestId := request.id, isComplete := true }).finishRequest,
      g.finish s (s.emit { requestId := request.id, isComplete := true }).finishRequest) := by
  rw [h.finish hp hresponses]
  refine ⟨hjob, fun handled hmem => ?_, h.flightInv hresponses⟩
  rcases List.mem_append.mp hmem with hmem | hmem
  · exact hanswered handled hmem
  · rw [List.mem_singleton.mp hmem]
    exact answered_complete hsent hcompleted hfailed

theorem next_cancelInFlight_eq (g : Ledger) (s : InferenceQueue) (id : Text) :
    g.next s (.cancelInFlight id) =
      { g with interrupted := (g.next s (.cancelInFlight id)).interrupted } := by
  simp only [Ledger.next]
  split <;> rfl

theorem ResponseInv.step {s t : InferenceQueue} {g : Ledger} {e : Event} (h : ResponseInv (s, g))
    (hs : Step s e t) (hok : endsWell (s, g) e = true) : ResponseInv (t, g.next s e) := by
  have hflight := h.flight
  cases hs with
  | queueOp op => exact ⟨h.noJob, h.answered, hflight.frame rfl rfl rfl rfl⟩
  | setPaused paused => exact ⟨h.noJob, h.answered, hflight.frame rfl rfl rfl rfl⟩
  | clearContext => exact ⟨h.noJob, h.answered, hflight.frame rfl rfl rfl rfl⟩
  | cancelScope => exact ⟨h.noJob, h.answered, hflight.frame rfl rfl rfl rfl⟩
  | cancelStops id hjob =>
    have hnone : s.hasCurrentJob = false := h.noJob
    simp [hnone] at hjob
  | cancelIgnored id hjob =>
    rw [next_cancelInFlight_eq]
    exact ⟨h.noJob, h.answered, hflight.frame rfl rfl rfl rfl⟩
  | stopGeneration =>
    refine ⟨h.noJob, h.answered, FlightInv.stop hflight fun request response hp => ?_⟩
    simpa [endsWell, hp] using hok
  | loopEnds hp hactive =>
    have hidle := (flightInv_idle (by simp [hp, Processor.inFlight])).mp hflight
    exact ⟨h.noJob, h.answered, (flightInv_idle rfl).mpr hidle⟩
  | paused hp hpaused => exact h
  | notPaused hp hpaused =>
    have hidle := (flightInv_idle (by simp [hp, Processor.inFlight])).mp hflight
    exact ⟨h.noJob, h.answered, (flightInv_idle rfl).mpr hidle⟩
  | delayCancelled hp hactive =>
    have hidle := (flightInv_idle (by simp [hp, Processor.inFlight])).mp hflight
    exact ⟨h.noJob, h.answered, (flightInv_idle rfl).mpr hidle⟩
  | pollEmpty hp hqueue =>
    have hidle := (flightInv_idle (by simp [hp, Processor.inFlight])).mp hflight
    simp only [Ledger.next, hqueue]
    exact ⟨h.noJob, h.answered, (flightInv_idle rfl).mpr hidle⟩
  | pollRequest request rest hp hqueue =>
    obtain ⟨hdequeued, hresponses⟩ :=
      (flightInv_idle (by simp [hp, Processor.inFlight])).mp hflight
    simp only [Ledger.next, hqueue]
    refine ⟨h.noJob, h.answered, ?_⟩
    exact {
      dequeued := congrArg (· ++ [request]) hdequeued
      before := congrArg List.length hresponses
      responses := hresponses.trans (List.append_nil _).symm
      sent := rfl
      started := fun hnever => by cases hnever
      closed := by simp [startRequest, TokenStream.scheduled]
      outcome := fun hclosed => by cases hclosed }
  | receive request response token channel hp hchannel =>
    simp only [FlightInv, hp] at hflight
    refine ⟨h.noJob, h.answered, ?_⟩
    exact {
      dequeued := hflight.dequeued
      before := hflight.before
      responses := by
        show s.responses ++ [tokenResponse request token] = _
        rw [hflight.responses, List.map_append, List.append_assoc]
        rfl
      sent := by
        show response ++ [token] ++ channel = g.sent
        rw [List.append_assoc, List.singleton_append, ← hchannel]
        exact hflight.sent
      started := hflight.started
      closed := hflight.closed
      outcome := hflight.outcome }
  | endOfStream request response hp hchannel hclosed =>
    simp only [FlightInv, hp] at hflight
    have hjob := hflight.closed.mp hclosed
    have hsent : response = g.sent := by
      have hs := hflight.sent
      rwa [hchannel, List.append_nil] at hs
    refine ⟨h.noJob, h.answered, ?_⟩
    exact ⟨⟨hflight.dequeued, hflight.before⟩, hflight.outcome hclosed, _, hflight.responses,
      fun _ => ⟨rfl, hsent, hjob⟩⟩
  | streamCancelled request response e hp he =>
    have hstep : s.step (.streamThrows e) =
        some (s.emit { requestId := request.id, isComplete := true }).finishRequest := by
      simp only [InferenceQueue.step, hp, streamThrows_cancelled s request response he]
    have hfailed : g.outcome ≠ some .failed := by
      simpa [endsWell, hp, he] using hok
    simp only [FlightInv, hp] at hflight
    simp only [Ledger.next, he, ↓reduceIte, hstep, Option.getD_some]
    refine ResponseInv.handled (g := g.cancel) h.noJob h.answered
      ⟨hflight.dequeued, hflight.before⟩ (by rw [hp]; rfl) hflight.responses ?_ ?_ ?_
    · exact ⟨_, hflight.sent⟩
    · simp [Ledger.cancel, hfailed]
    · simp [Ledger.cancel, hfailed]
  | streamFailed request response e hp he =>
    simp only [FlightInv, hp] at hflight
    simp only [Ledger.next, he, Bool.false_eq_true, ↓reduceIte]
    refine ⟨h.noJob, h.answered, ?_⟩
    refine Recording.mk ⟨hflight.dequeued, hflight.before⟩ (fun hnone => by cases hnone)
      ⟨response.map (tokenResponse request) ++ [{
        requestId := request.id, error := some (e.message.getD "Stream error".toList) }], ?_,
        fun hne => absurd rfl hne⟩
    show s.responses ++ [_] = _
    rw [hflight.responses, List.append_assoc]
    rfl
  | addUserMessage request response hp =>
    simp only [FlightInv, hp] at hflight
    rw [addUserMessage_eq]
    refine ⟨h.noJob, h.answered, ?_⟩
    exact ⟨⟨hflight.dequeued, hflight.before⟩, hflight.outcome, hflight.responses⟩
  | addAssistantResponse request response hp =>
    simp only [FlightInv, hp] at hflight
    simp only [Ledger.next]
    rw [addAssistantResponse_eq, addTurn_eq]
    refine ⟨h.noJob, h.answered, ?_⟩
    exact ⟨⟨hflight.dequeued, hflight.before⟩, hflight.outcome, hflight.responses⟩
  | complete request response hp =>
    have hstep : s.step .complete =
        some (s.emit { requestId := request.id, isComplete := true }).finishRequest := by
      simp only [InferenceQueue.step, hp]
    have hfailed : g.outcome ≠ some .failed := by
      simpa [endsWell, hp] using hok
    simp only [FlightInv, hp] at hflight
    obtain ⟨own, hown, hrest⟩ := hflight.responses
    obtain ⟨rfl, hsent, _⟩ := hrest hfailed
    simp only [Ledger.next, hstep, Option.getD_some]
    exact ResponseInv.handled h.noJob h.answered hflight.toInWork (by rw [hp]; rfl) hown
      (hsent ▸ List.prefix_rfl) (fun _ => hsent) hfailed
  | stream e stream hstream =>
    obtain ⟨_, hcases⟩ := stream_cases (g := g) hstream
    refine ⟨h.noJob, ?_, FlightInv.stream hflight hstream⟩
    rcases hcases with ⟨_, _, _, _, hnext⟩ | ⟨token, _, hnext⟩ | ⟨_, _, hnext⟩ <;> rw [hnext] <;>
      exact h.answered

/-- A failed generation that ends with a completion, or a generation stopped before its start. -/
theorem ResponseInv.breaks {s t : InferenceQueue} {g : Ledger} {e : Event}
    (h : ResponseInv (s, g)) (hs : Step s e t) (hok : endsWell (s, g) e ≠ true) :
    ¬ EachAnswered (t, g.next s e) := by
  have hflight := h.flight
  intro heach
  cases hs with
  | stopGeneration =>
    cases hp : s.processor with
    | collecting request response =>
      simp only [FlightInv, hp] at hflight
      have hjob : s.stream.job = .launched := by simpa [endsWell, hp] using hok
      have hopen : s.stream.closed = false := by
        by_contra hclosed
        have hended := hflight.closed.mp (by simpa using hclosed)
        simp [hjob] at hended
      refine not_canFinish (s := { s with stream := s.stream.stop }) hp ?_ ?_ heach.canFinish
      · simp [TokenStream.stop, hjob]
      · exact s.stream.stop_channel.2.trans hopen
    | _ => simp [endsWell, hp] at hok
  | streamCancelled request response e hp he =>
    have hstep : s.step (.streamThrows e) =
        some (s.emit { requestId := request.id, isComplete := true }).finishRequest := by
      simp only [InferenceQueue.step, hp, streamThrows_cancelled s request response he]
    have hfailed : g.outcome = some .failed := by simpa [endsWell, hp, he] using hok
    simp only [FlightInv, hp] at hflight
    have hnext : g.next s (.streamThrows e) = g.cancel.handled request
        (response.map (tokenResponse request) ++
          [{ requestId := request.id, isComplete := true }]) := by
      simp only [Ledger.next, he, ↓reduceIte, hstep, Option.getD_some]
      exact InWork.finish (g := g.cancel) ⟨hflight.dequeued, hflight.before⟩ (by rw [hp]; rfl)
        hflight.responses
    rw [hnext] at heach
    exact not_eachAnswered_handled (by simp [Ledger.cancel, hfailed]) heach
  | complete request response hp =>
    have hstep : s.step .complete =
        some (s.emit { requestId := request.id, isComplete := true }).finishRequest := by
      simp only [InferenceQueue.step, hp]
    have hfailed : g.outcome = some .failed := by simpa [endsWell, hp] using hok
    simp only [FlightInv, hp] at hflight
    obtain ⟨own, hown, _⟩ := hflight.responses
    have hnext : g.next s .complete = g.handled request
        (own ++ [{ requestId := request.id, isComplete := true }]) := by
      simp only [Ledger.next, hstep, Option.getD_some]
      exact hflight.toInWork.finish (by rw [hp]; rfl) hown
    rw [hnext] at heach
    exact not_eachAnswered_handled hfailed heach
  | streamFailed request response e hp he => simp [endsWell, hp, he] at hok
  | _ => simp [endsWell] at hok

/-- A request that is stopped after its first token. -/
def stoppedRun : List Event :=
  enqueue 0 [] greeting ++
    [.checkPaused, .poll, .stream .launch, .stream .start, .stream (.onToken "yes".toList)] ++
    pause ++
    [.stream (.onToken "no".toList), .stream .onComplete, .receive, .endOfStream, .addUserMessage,
      .addAssistantResponse, .complete]

/-- A generation that reports an error after its first token. -/
def failedRun : List Event :=
  enqueue 0 [] greeting ++
    [.checkPaused, .poll, .stream .launch, .stream .start, .stream (.onToken "yes".toList), .receive,
      .stream .onError, .endOfStream, .addUserMessage, .addAssistantResponse, .complete]

end InferenceQueue

end HeyNilo

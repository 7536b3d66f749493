import HeyNilo.ResponseDelivery

namespace HeyNilo

namespace InferenceQueue

/-- A step emits one response for the request in work, or none at all. -/
theorem step_responses {s t : InferenceQueue} {e : Event} (h : s.step e = some t) :
    s.emitsFor e = none ∧ t.responses = s.responses ∨
      ∃ response, s.emitsFor e = some response.requestId ∧
        t.responses = s.responses ++ [response] := by
  cases step_cases h with
  | receive request response token channel hp hchannel =>
    exact .inr ⟨_, by simp [emitsFor, hp, Processor.inFlight], rfl⟩
  | streamCancelled request response e hp he =>
    exact .inr ⟨_, by simp [emitsFor, hp, Processor.inFlight], rfl⟩
  | streamFailed request response e hp he =>
    exact .inr ⟨_, by simp [emitsFor, hp, Processor.inFlight], rfl⟩
  | complete request response hp =>
    exact .inr ⟨_, by simp [emitsFor, hp, Processor.inFlight], rfl⟩
  | addUserMessage request response hp =>
    exact .inl ⟨rfl, by rw [addUserMessage_eq]⟩
  | addAssistantResponse request response hp =>
    exact .inl ⟨rfl, by rw [addAssistantResponse_eq]⟩
  | queueOp op => exact .inl ⟨rfl, rfl⟩
  | setPaused paused => exact .inl ⟨rfl, rfl⟩
  | cancelStops id hjob => exact .inl ⟨rfl, rfl⟩
  | cancelIgnored id hjob => exact .inl ⟨rfl, rfl⟩
  | stopGeneration => exact .inl ⟨rfl, rfl⟩
  | clearContext => exact .inl ⟨rfl, rfl⟩
  | cancelScope => exact .inl ⟨rfl, rfl⟩
  | loopEnds hp hactive => exact .inl ⟨rfl, rfl⟩
  | paused hp hpaused => exact .inl ⟨rfl, rfl⟩
  | notPaused hp hpaused => exact .inl ⟨rfl, rfl⟩
  | delayCancelled hp hactive => exact .inl ⟨rfl, rfl⟩
  | pollEmpty hp hqueue => exact .inl ⟨rfl, rfl⟩
  | pollRequest request rest hp hqueue => exact .inl ⟨rfl, rfl⟩
  | endOfStream request response hp hchannel hclosed => exact .inl ⟨rfl, rfl⟩
  | stream e stream hstream => exact .inl ⟨rfl, rfl⟩

theorem throughEnd_append_of_ends {responses more : List Response}
    (h : ∃ response ∈ responses, response.ends = true) :
    throughEnd (responses ++ more) = throughEnd responses := by
  induction responses with
  | nil =>
    obtain ⟨_, hmem, -⟩ := h
    cases hmem
  | cons response responses ih =>
    rw [List.cons_append, throughEnd, throughEnd]
    split
    · rfl
    · rename_i hends
      obtain ⟨other, hmem, hother⟩ := h
      rcases List.mem_cons.mp hmem with rfl | hmem
      · exact absurd hother hends
      · rw [ih ⟨other, hmem, hother⟩]

theorem throughEnd_append_cons {responses more : List Response} {response : Response}
    (h : ∀ r ∈ responses, r.ends = false) (hends : response.ends = true) :
    throughEnd (responses ++ response :: more) = responses ++ [response] := by
  induction responses with
  | nil => rw [List.nil_append, throughEnd, if_pos hends, List.nil_append]
  | cons first responses ih =>
    obtain ⟨hfirst, h⟩ := List.forall_mem_cons.mp h
    rw [List.cons_append, throughEnd, if_neg (by rw [hfirst]; exact Bool.false_ne_true), ih h,
      List.cons_append]

end InferenceQueue

namespace ResponseDelivery

variable {d d' : ResponseDelivery} {e : Event}

structure Inv (d : ResponseDelivery) : Prop where
  valid : d.flow.Valid bufferCapacity
  live : ∀ i ∈ d.collector.slot, ∃ l, d.flow.unread i = some l
  nothingLost : d.NothingLost
  goesOn : d.collector.responseComplete = false → d.collector.untilComplete = true →
    ∀ response ∈ d.collector.received, response.ends = false
  ended : d.collector.responseComplete = true →
    ∃ response ∈ d.own d.queue.responses, response.ends = true
  enqueues : ∀ f ∈ d.collector.enqueuing, ∃ op, f = .queueOp op

theorem own_append (d : ResponseDelivery) (l m : List InferenceQueue.Response) :
    d.own (l ++ m) = d.own l ++ d.own m :=
  List.filter_append _ _

theorem own_cons_of_eq {response : InferenceQueue.Response} (l : List InferenceQueue.Response)
    (h : response.requestId = d.collector.requestId) : d.own (response :: l) = response :: d.own l :=
  List.filter_cons_of_pos (decide_eq_true h)

theorem own_cons_of_ne {response : InferenceQueue.Response} (l : List InferenceQueue.Response)
    (h : response.requestId ≠ d.collector.requestId) : d.own (response :: l) = d.own l :=
  List.filter_cons_of_neg (by simpa using h)

theorem nothingLost_iff_of_complete (h : d.collector.responseComplete = true) :
    d.NothingLost ↔ d.collector.received = InferenceQueue.throughEnd (d.own d.queue.responses) := by
  rw [NothingLost, if_pos h]

theorem nothingLost_iff (h : d.collector.responseComplete = false) :
    d.NothingLost ↔ d.own d.queue.responses = d.collector.received ++ d.own d.waiting := by
  rw [NothingLost, if_neg (by rw [h]; exact Bool.false_ne_true)]

theorem waiting_of_slot {i : Nat} {l : List InferenceQueue.Response}
    (hslot : d.collector.slot = some i) (hl : d.flow.unread i = some l) : d.waiting = l := by
  rw [waiting, hslot, Option.bind_some, hl, Option.getD_some]

theorem waiting_of_none (hslot : d.collector.slot = none) : d.waiting = [] := by
  rw [waiting, hslot]
  rfl

/-- A step of the queue, as the flow and the collector see it. -/
theorem queueStep_cases {f : InferenceQueue.Event} (h : d.queueStep f = some d') :
    d'.collector = d.collector ∧
      (d.queue.emitsFor f = none ∧ d'.queue.responses = d.queue.responses ∧ d'.flow = d.flow ∨
        ∃ response, d.queue.emitsFor f = some response.requestId ∧
          d'.queue.responses = d.queue.responses ++ [response] ∧
          d'.flow = SharedFlow.emit bufferCapacity d.flow response) := by
  obtain ⟨t, ht, heq⟩ := Option.map_eq_some_iff.mp h
  cases heq
  refine ⟨rfl, ?_⟩
  rcases InferenceQueue.step_responses ht with ⟨hnone, hsame⟩ | ⟨response, hsome, happend⟩
  · refine .inl ⟨hnone, hsame, ?_⟩
    rw [hsame, List.drop_length]
    rfl
  · refine .inr ⟨response, hsome, happend, ?_⟩
    rw [happend, List.drop_left]
    rfl

/-- The responses before the collector when one is emitted. -/
theorem waiting_emit {response : InferenceQueue.Response} (h : Inv d)
    (hflow : d'.flow = SharedFlow.emit bufferCapacity d.flow response)
    (hcollector : d'.collector = d.collector) :
    d'.waiting = if d.collector.slot.isSome then
        if d.waiting.length < bufferCapacity then d.waiting ++ [response]
        else (d.waiting ++ [response]).tail
      else [] := by
  cases hslot : d.collector.slot with
  | none =>
    rw [waiting_of_none (hcollector ▸ hslot)]
    rfl
  | some i =>
    obtain ⟨l, hl⟩ := h.live i hslot
    have hl' := SharedFlow.unread_emit h.valid hl response
    rw [waiting_of_slot (hcollector ▸ hslot) (hflow ▸ hl'), waiting_of_slot hslot hl]
    rfl

theorem live_emit {response : InferenceQueue.Response} (h : Inv d) :
    ∀ i ∈ d.collector.slot, ∃ l, (SharedFlow.emit bufferCapacity d.flow response).unread i = some l := by
  intro i hi
  obtain ⟨l, hl⟩ := h.live i hi
  exact ⟨_, SharedFlow.unread_emit h.valid hl response⟩

theorem own_congr (h : d'.collector = d.collector) : d'.own = d.own := by
  unfold own
  rw [h]

theorem own_singleton_eq_nil_iff {response : InferenceQueue.Response} :
    d.own [response] = [] ↔ response.requestId ≠ d.collector.requestId := by
  by_cases h : response.requestId = d.collector.requestId
  · rw [own_cons_of_eq [] h]
    exact iff_of_false (List.cons_ne_nil _ _) (not_not_intro h)
  · rw [own_cons_of_ne [] h]
    exact iff_of_true rfl h

/-- All own responses stay before the collector exactly when it is subscribed to the new one and the
overflow does not hit one of them. -/
theorem own_waiting_emit_iff {response : InferenceQueue.Response} (h : Inv d)
    (hflow : d'.flow = SharedFlow.emit bufferCapacity d.flow response)
    (hcollector : d'.collector = d.collector) :
    d.own d'.waiting = d.own d.waiting ++ d.own [response] ↔
      (response.requestId = d.collector.requestId → d.collector.slot.isSome = true) ∧
      (bufferCapacity ≤ d.waiting.length → d.waiting.head?.all
        (fun oldest => oldest.requestId != d.collector.requestId) = true) := by
  rw [waiting_emit h hflow hcollector]
  cases hslot : d.collector.slot with
  | none =>
    rw [waiting_of_none hslot]
    have hempty : d.own [] = [] := rfl
    simp only [Option.isSome_none, Bool.false_eq_true, if_false, hempty, List.nil_append]
    rw [eq_comm, own_singleton_eq_nil_iff]
    exact ⟨fun hne => ⟨hne, fun _ => rfl⟩, fun hin => hin.1⟩
  | some i =>
    rw [Option.isSome_some, if_pos rfl]
    split
    · rename_i hroom
      refine iff_of_true (own_append d _ _) ⟨fun _ => rfl, fun hfull => ?_⟩
      exact absurd hroom (Nat.not_lt.mpr hfull)
    · rename_i hfull
      rw [Nat.not_lt] at hfull
      cases hwaiting : d.waiting with
      | nil => exact absurd (hwaiting ▸ hfull) (by decide)
      | cons oldest rest =>
        rw [List.cons_append, List.tail_cons, own_append, List.append_left_inj]
        by_cases howner : oldest.requestId = d.collector.requestId
        · rw [own_cons_of_eq rest howner]
          refine iff_of_false (fun heq => List.cons_ne_self _ _ heq.symm) fun hin => ?_
          have hother := hin.2 (hwaiting ▸ hfull)
          simp [howner] at hother
        · rw [own_cons_of_ne rest howner]
          exact iff_of_true rfl ⟨fun _ => rfl, fun _ => by simpa using howner⟩

theorem queueStep_iff {f : InferenceQueue.Event} (h : Inv d) (hstep : d.queueStep f = some d') :
    d'.NothingLost ↔ d.InTime (.queue f) := by
  obtain ⟨hcollector, hcases⟩ := queueStep_cases hstep
  have hown := own_congr hcollector
  rcases hcases with ⟨hnone, hsame, hflow⟩ | ⟨response, hsome, happend, hflow⟩
  · refine iff_of_true ?_ (.inr fun id hid => ?_)
    · have hlost := h.nothingLost
      unfold NothingLost waiting at hlost ⊢
      rwa [hown, hsame, hcollector, hflow]
    · rw [hnone] at hid
      cases hid
  · cases hcomplete : d.collector.responseComplete with
    | true =>
      refine iff_of_true ?_ (.inl hcomplete)
      rw [nothingLost_iff_of_complete (hcollector ▸ hcomplete), hown, happend, own_append,
        InferenceQueue.throughEnd_append_of_ends (h.ended hcomplete), hcollector]
      exact (nothingLost_iff_of_complete hcomplete).mp h.nothingLost
    | false =>
      have hlost := (nothingLost_iff hcomplete).mp h.nothingLost
      rw [nothingLost_iff (hcollector ▸ hcomplete), hown, hcollector, happend, own_append, hlost,
        List.append_assoc, List.append_right_inj, eq_comm, own_waiting_emit_iff h hflow hcollector]
      simp only [InTime, hcomplete, hsome, Bool.false_eq_true, false_or, Option.mem_def,
        Option.some.injEq, forall_eq']

theorem inv_queueStep {f : InferenceQueue.Event} (h : Inv d) (hstep : d.queueStep f = some d')
    (hlost : d'.NothingLost) : Inv d' := by
  obtain ⟨hcollector, hcases⟩ := queueStep_cases hstep
  have hown := own_congr hcollector
  have hflow : d'.flow.Valid bufferCapacity ∧ ∀ i ∈ d.collector.slot, ∃ l, d'.flow.unread i = some l := by
    rcases hcases with ⟨-, -, hflow⟩ | ⟨response, -, -, hflow⟩
    · rw [hflow]
      exact ⟨h.valid, h.live⟩
    · rw [hflow]
      exact ⟨SharedFlow.emit_valid h.valid response, live_emit h⟩
  have hmore : ∀ response ∈ d.own d.queue.responses, response ∈ d.own d'.queue.responses := by
    rcases hcases with ⟨-, hsame, -⟩ | ⟨response, -, happend, -⟩
    · rw [hsame]
      exact fun _ hmem => hmem
    · rw [happend, own_append]
      exact fun _ hmem => List.mem_append_left _ hmem
  constructor
  · exact hflow.1
  · rw [hcollector]
    exact hflow.2
  · exact hlost
  · rw [hcollector]
    exact h.goesOn
  · rw [hcollector, hown]
    intro hcomplete
    obtain ⟨response, hmem, hends⟩ := h.ended hcomplete
    exact ⟨response, hmore response hmem, hends⟩
  · rw [hcollector]
    exact h.enqueues

/-- The collector takes the next response. -/
theorem receive_cases (h : Inv d) (hstep : step d .receive = some d') :
    ∃ i response flow rest, d.collector.slot = some i ∧ d.waiting = response :: rest ∧
      flow.Valid bufferCapacity ∧ flow.unread i = some rest ∧
      d' = { d with flow := flow }.handle response := by
  obtain ⟨i, hslot, hstep⟩ := Option.bind_eq_some_iff.mp hstep
  obtain ⟨⟨response, flow⟩, htake, heq⟩ := Option.map_eq_some_iff.mp hstep
  obtain ⟨hvalid, ⟨rest, hunread, hrest⟩, -⟩ := SharedFlow.take_spec h.valid htake
  exact ⟨i, response, flow, rest, hslot, waiting_of_slot hslot hunread, hvalid, hrest, heq.symm⟩

theorem inv_leave (h : Inv d)
    (hnone : d.collector.responseComplete = true ∨ d.own d.waiting = []) : Inv d.leave := by
  have hvalid : d.leave.flow.Valid bufferCapacity := by
    unfold leave
    cases d.collector.slot with
    | none => exact h.valid
    | some i => exact (SharedFlow.leave_spec h.valid i).1
  refine ⟨hvalid, fun i hi => absurd hi (Option.not_mem_none i), ?_, h.goesOn, h.ended, h.enqueues⟩
  cases hcomplete : d.collector.responseComplete with
  | true =>
    refine (nothingLost_iff_of_complete (d := d.leave) hcomplete).mpr ?_
    exact (nothingLost_iff_of_complete hcomplete).mp h.nothingLost
  | false =>
    refine (nothingLost_iff (d := d.leave) hcomplete).mpr ?_
    rcases hnone with htrue | hnil
    · exact Bool.noConfusion (hcomplete.symm.trans htrue)
    · have hlost := (nothingLost_iff hcomplete).mp h.nothingLost
      rw [hnil] at hlost
      exact hlost

theorem inv_receive (h : Inv d) (hstep : step d .receive = some d') : Inv d' := by
  obtain ⟨i, response, flow, rest, hslot, hwaiting, hvalid, hrest, rfl⟩ := receive_cases h hstep
  have hlive : ∀ j ∈ d.collector.slot, ∃ l, flow.unread j = some l := by
    intro j hj
    cases Option.some.inj (hslot.symm.trans hj)
    exact ⟨rest, hrest⟩
  have hnow : ({ d with flow := flow } : ResponseDelivery).waiting = rest := waiting_of_slot hslot hrest
  cases hcomplete : d.collector.responseComplete with
  | true =>
    have hlost := (nothingLost_iff_of_complete hcomplete).mp h.nothingLost
    have htaken : Inv { d with flow := flow } :=
      ⟨hvalid, hlive, (nothingLost_iff_of_complete (by exact hcomplete)).mpr hlost, h.goesOn, h.ended,
        h.enqueues⟩
    rw [handle, if_pos (by exact hcomplete)]
    exact inv_leave htaken (.inl hcomplete)
  | false =>
    have hlost := (nothingLost_iff hcomplete).mp h.nothingLost
    rw [handle, if_neg (by simp [hcomplete])]
    by_cases howner : response.requestId = d.collector.requestId
    · rw [if_pos (by exact howner)]
      rw [hwaiting, own_cons_of_eq rest howner] at hlost
      have hreceived : Inv { d with
          flow := flow
          collector := { d.collector with
            received := d.collector.received ++ [response]
            responseComplete := d.collector.untilComplete && response.ends } } := by
        refine ⟨hvalid, hlive, ?_, fun hgoes hstops r hr => ?_, fun hdone => ?_, h.enqueues⟩
        · cases hends : d.collector.untilComplete && response.ends with
          | true =>
            obtain ⟨hstops, hends⟩ := Bool.and_eq_true_iff.mp hends
            refine (nothingLost_iff_of_complete rfl).mpr ?_
            exact ((congrArg _ hlost).trans
              (InferenceQueue.throughEnd_append_cons (h.goesOn hcomplete hstops) hends)).symm
          | false =>
            refine (nothingLost_iff rfl).mpr (hlost.trans ?_)
            rw [waiting_of_slot (d := { d with flow := flow, collector := { d.collector with
              received := d.collector.received ++ [response], responseComplete := false } }) hslot hrest]
            exact List.append_cons _ _ _
        · rcases List.mem_append.mp hr with hold | hnew
          · exact h.goesOn hcomplete hstops r hold
          · rw [List.mem_singleton.mp hnew]
            exact (Bool.and_eq_false_imp.mp hgoes) hstops
        · refine ⟨response, ?_, (Bool.and_eq_true_iff.mp hdone).2⟩
          exact hlost ▸ List.mem_append_right _ (List.mem_cons_self ..)
      exact hreceived
    · rw [if_neg (by exact howner)]
      rw [hwaiting, own_cons_of_ne rest howner] at hlost
      refine ⟨hvalid, hlive, (nothingLost_iff (by exact hcomplete)).mpr ?_, h.goesOn, h.ended, h.enqueues⟩
      rw [hnow]
      exact hlost

theorem inv_subscribe (h : Inv d) (hstep : step d .subscribe = some d') : Inv d' := by
  simp only [step] at hstep
  split at hstep
  · rename_i hguard
    have hslot : d.collector.slot = none := by
      simp only [Bool.and_eq_true, Option.isNone_iff_eq_none] at hguard
      exact hguard.1.1
    cases hstep
    have hunread := SharedFlow.unread_subscribe d.flow
    refine ⟨SharedFlow.subscribe_valid h.valid, fun i hi => ?_, ?_, h.goesOn, h.ended, h.enqueues⟩
    · cases hi
      exact ⟨[], hunread⟩
    · have hlost := h.nothingLost
      unfold NothingLost at hlost ⊢
      rw [waiting_of_none hslot] at hlost
      rw [waiting_of_slot rfl hunread]
      exact hlost
  · cases hstep

/-- What the other collectors do leaves the collector what it has before it. -/
theorem inv_frame {flow : SharedFlow InferenceQueue.Response} (h : Inv d)
    (hvalid : flow.Valid bufferCapacity)
    (hsame : ∀ i ∈ d.collector.slot, flow.unread i = d.flow.unread i) :
    Inv { d with flow := flow } := by
  have hwaiting : ({ d with flow := flow } : ResponseDelivery).waiting = d.waiting := by
    unfold waiting
    cases hslot : d.collector.slot with
    | none => rfl
    | some i => exact congrArg (fun l => Option.getD l []) (hsame i hslot)
  refine ⟨hvalid, fun i hi => ?_, ?_, h.goesOn, h.ended, h.enqueues⟩
  · exact hsame i hi ▸ h.live i hi
  · have hlost := h.nothingLost
    unfold NothingLost at hlost ⊢
    rw [hwaiting]
    exact hlost

theorem unread_other_subscribe (h : Inv d) {i : Nat} (hi : i ∈ d.collector.slot) :
    d.flow.subscribe.unread i = d.flow.unread i := by
  obtain ⟨l, hl⟩ := h.live i hi
  obtain ⟨k, hslot, -⟩ := SharedFlow.unread_eq_some_iff.mp hl
  obtain ⟨hlt, -⟩ := List.getElem?_eq_some_iff.mp hslot
  exact SharedFlow.unread_subscribe_of_ne (Nat.ne_of_lt hlt)

theorem otherReceives_cases {j : Nat} (h : Inv d) (hstep : step d (.otherReceives j) = some d') :
    ∃ flow, flow.Valid bufferCapacity ∧
      (∀ i ∈ d.collector.slot, flow.unread i = d.flow.unread i) ∧ d' = { d with flow := flow } := by
  simp only [step] at hstep
  split at hstep
  · cases hstep
  · rename_i hother
    obtain ⟨⟨response, flow⟩, htake, heq⟩ := Option.map_eq_some_iff.mp hstep
    obtain ⟨hvalid, -, hsame⟩ := SharedFlow.take_spec h.valid htake
    refine ⟨flow, hvalid, fun i hi => hsame i ?_, heq.symm⟩
    rintro rfl
    exact hother hi

theorem otherLeaves_cases {j : Nat} (h : Inv d) (hstep : step d (.otherLeaves j) = some d') :
    (d.flow.leave j).Valid bufferCapacity ∧
      (∀ i ∈ d.collector.slot, (d.flow.leave j).unread i = d.flow.unread i) ∧
      d' = { d with flow := d.flow.leave j } := by
  simp only [step] at hstep
  split at hstep
  · cases hstep
  · rename_i hother
    obtain ⟨hvalid, -, hsame⟩ := SharedFlow.leave_spec h.valid j
    refine ⟨hvalid, fun i hi => hsame i ?_, (Option.some.inj hstep).symm⟩
    rintro rfl
    exact hother hi

theorem emitsFor_queueOp (s : InferenceQueue) (op : InferenceQueue.QueueOp) :
    s.emitsFor (.queueOp op) = none := rfl

/-- A step of the collector's `enqueue` call is one of the queue that emits nothing. -/
theorem enqueue_cases (h : Inv d) (hstep : step d .enqueue = some d') :
    ∃ op rest, Inv { d with collector := { d.collector with enqueuing := rest } } ∧
      queueStep { d with collector := { d.collector with enqueuing := rest } } (.queueOp op) = some d' := by
  simp only [step] at hstep
  split at hstep
  · cases hstep
  · rename_i f rest hsteps
    obtain ⟨op, rfl⟩ := h.enqueues f (hsteps ▸ List.mem_cons_self ..)
    refine ⟨op, rest, ⟨h.valid, h.live, h.nothingLost, h.goesOn, h.ended, fun f hf => ?_⟩, hstep⟩
    exact h.enqueues f (hsteps ▸ List.mem_cons_of_mem _ hf)

theorem nothingLost_iff_inTime (h : Inv d) (hstep : step d e = some d') :
    d'.NothingLost ↔ d.InTime e := by
  cases e with
  | queue f => exact queueStep_iff h hstep
  | enqueue =>
    obtain ⟨op, rest, hinv, hqueue⟩ := enqueue_cases h hstep
    refine iff_of_true ((queueStep_iff hinv hqueue).mpr (.inr fun id hid => ?_)) trivial
    rw [emitsFor_queueOp] at hid
    cases hid
  | subscribe => exact iff_of_true (inv_subscribe h hstep).nothingLost trivial
  | receive => exact iff_of_true (inv_receive h hstep).nothingLost trivial
  | leaves =>
    simp only [step] at hstep
    split at hstep
    · cases hstep
    · cases hstep
      refine ⟨fun hlost => ?_, fun hnone => (inv_leave h hnone).nothingLost⟩
      cases hcomplete : d.collector.responseComplete with
      | true => exact .inl hcomplete
      | false =>
        have hbefore := (nothingLost_iff hcomplete).mp h.nothingLost
        have hafter : d.own d.queue.responses = d.collector.received ++ [] :=
          (nothingLost_iff (d := d.leave) hcomplete).mp hlost
        exact .inr (List.append_cancel_left (hbefore.symm.trans hafter))
  | otherSubscribes =>
    cases hstep
    refine iff_of_true (inv_frame h (SharedFlow.subscribe_valid h.valid) fun i hi => ?_).nothingLost trivial
    exact unread_other_subscribe h hi
  | otherReceives j =>
    obtain ⟨flow, hvalid, hsame, rfl⟩ := otherReceives_cases h hstep
    exact iff_of_true (inv_frame h hvalid hsame).nothingLost trivial
  | otherLeaves j =>
    obtain ⟨hvalid, hsame, rfl⟩ := otherLeaves_cases h hstep
    exact iff_of_true (inv_frame h hvalid hsame).nothingLost trivial

theorem inv_step (h : Inv d) (hin : d.InTime e) (hstep : step d e = some d') : Inv d' := by
  have hlost := (nothingLost_iff_inTime h hstep).mpr hin
  cases e with
  | queue f => exact inv_queueStep h hstep hlost
  | enqueue =>
    obtain ⟨op, rest, hinv, hqueue⟩ := enqueue_cases h hstep
    exact inv_queueStep hinv hqueue hlost
  | subscribe => exact inv_subscribe h hstep
  | receive => exact inv_receive h hstep
  | leaves =>
    simp only [step] at hstep
    split at hstep
    · cases hstep
    · cases hstep
      exact inv_leave h hin
  | otherSubscribes =>
    cases hstep
    exact inv_frame h (SharedFlow.subscribe_valid h.valid) fun i hi => unread_other_subscribe h hi
  | otherReceives j =>
    obtain ⟨flow, hvalid, hsame, rfl⟩ := otherReceives_cases h hstep
    exact inv_frame h hvalid hsame
  | otherLeaves j =>
    obtain ⟨hvalid, hsame, rfl⟩ := otherLeaves_cases h hstep
    exact inv_frame h hvalid hsame

theorem enqueue_queueOps (size : Nat) (tempList : List InferenceQueue.Request)
    (request : InferenceQueue.Request) :
    ∀ f ∈ InferenceQueue.enqueue size tempList request, ∃ op, f = .queueOp op := by
  intro f hf
  unfold InferenceQueue.enqueue at hf
  split at hf
  · cases hf
  · split at hf
    · simp only [List.mem_cons, List.not_mem_nil, or_false] at hf
      rcases hf with rfl | rfl | rfl
      · exact ⟨_, rfl⟩
      · exact ⟨_, rfl⟩
      · exact ⟨_, rfl⟩
    · exact ⟨_, List.mem_singleton.mp hf⟩

variable {systemPrompt : Text} {size : Nat} {tempList : List InferenceQueue.Request}
  {request : InferenceQueue.Request} {untilComplete : Bool}

theorem start_inv : Inv (start systemPrompt size tempList request untilComplete) where
  valid := SharedFlow.empty_valid
  live i hi := absurd hi (Option.not_mem_none i)
  nothingLost := rfl
  goesOn _ _ _ hr := absurd hr List.not_mem_nil
  ended h := nomatch h
  enqueues := enqueue_queueOps size tempList request

/-- The collector loses no response to its request in exactly the runs in which it is subscribed when
the first one comes, never more than the buffer behind, and done when it leaves. -/
theorem nothing_lost_iff {es : List Event}
    (hrun : Machine.run step (start systemPrompt size tempList request untilComplete) es = some d) :
    Machine.Always step NothingLost (start systemPrompt size tempList request untilComplete) es ↔
      Machine.Meets step InTime (start systemPrompt size tempList request untilComplete) es :=
  Machine.always_iff_meets (fun _ h => h.nothingLost) (fun _ _ _ h hin hstep => inv_step h hin hstep)
    (fun _ _ _ h hlate hstep hlost => hlate ((nothingLost_iff_inTime h hstep).mp hlost)) start_inv hrun

def greetingTurn : List Event :=
  [.enqueue, .queue .checkPaused, .subscribe, .otherSubscribes, .queue .poll, .queue (.stream .launch),
    .queue (.stream .start), .queue (.stream (.onToken "yo".toList)), .queue .receive, .receive,
    .queue (.stream .onComplete), .queue .endOfStream, .queue .addUserMessage,
    .queue .addAssistantResponse, .otherReceives 1, .queue .complete, .receive, .leaves]

theorem nothing_lost_greeting : Machine.Always step NothingLost
    (start [] 0 [] InferenceQueue.greeting true) greetingTurn := by
  have hrun : (Machine.run step (start [] 0 [] InferenceQueue.greeting true) greetingTurn).isSome = true := by
    decide +kernel
  obtain ⟨d, hd⟩ := Option.isSome_iff_exists.mp hrun
  exact (nothing_lost_iff hd).mpr (by decide +kernel)

/-- The processor emits the first token before the collector that enqueued the request subscribes. -/
theorem first_token_lost : ¬ Machine.Always step NothingLost (start [] 0 [] InferenceQueue.greeting true)
    [.enqueue, .queue .checkPaused, .queue .poll, .queue (.stream .launch), .queue (.stream .start),
      .queue (.stream (.onToken "yo".toList)), .queue .receive, .subscribe] := by
  have hrun : ∃ d, Machine.run step (start [] 0 [] InferenceQueue.greeting true)
      [.enqueue, .queue .checkPaused, .queue .poll, .queue (.stream .launch), .queue (.stream .start),
        .queue (.stream (.onToken "yo".toList)), .queue .receive, .subscribe] = some d ∧
      ¬ d.NothingLost := by
    refine ⟨_, rfl, ?_⟩
    decide +kernel
  obtain ⟨d, hd, hlost⟩ := hrun
  exact fun hall => hlost (Machine.always_run hall hd)

end ResponseDelivery

end HeyNilo

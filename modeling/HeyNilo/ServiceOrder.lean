import HeyNilo.EnqueueCalls

namespace HeyNilo

open Machine

/-- The order of the priorities: HIGH before NORMAL before LOW. -/
def InferenceQueue.Priority.rank : InferenceQueue.Priority → Nat
  | .high => 0
  | .normal => 1
  | .low => 2

namespace EnqueueCalls

/-- A call of `enqueue` that no other step interrupts, or a poll. -/
inductive Call where
  | enqueue (request : InferenceQueue.Request)
  | poll
deriving DecidableEq, Repr

/-- The steps of such a call of `enqueue`. -/
def callEvents (s : EnqueueCalls) (request : InferenceQueue.Request) : List Event :=
  .call request ::
    List.replicate
      (if s.requestQueue.length ≥ 10 then 1 else if request.priority = .high then 6 else 2)
      (.advance s.calls.length)

def serve (s : EnqueueCalls) : Call → Option EnqueueCalls
  | .enqueue request => Machine.run step s (s.callEvents request)
  | .poll => s.step .poll

/-- Call `i` is to be served before call `j`: by priority, and in the order of the calls within a
priority. -/
def Precedes (calls : List EnqueueCall) (i j : Nat) : Prop :=
  ∃ a b, calls[i]? = some a ∧ calls[j]? = some b ∧
    (a.request.priority.rank < b.request.priority.rank ∨
      a.request.priority.rank = b.request.priority.rank ∧ i < j)

/-- A poll returns, of the pending requests, the earliest one of the highest priority. -/
def PollsFirst (s : EnqueueCalls) : Prop :=
  ∀ i rest, s.requestQueue = i :: rest → ∀ j ∈ rest, Precedes s.calls i j

/-- So does the next poll, and each poll after it. -/
def ServesInOrder (s : EnqueueCalls) : Prop :=
  ∀ n t, Machine.run serve s (List.replicate n .poll) = some t → t.PollsFirst

/-- The priorities of the pending requests. -/
def pendingPriorities (s : EnqueueCalls) : List InferenceQueue.Priority :=
  (s.requestsOf s.requestQueue).map (·.priority)

/-- A HIGH request is accepted only while no other is pending, a NORMAL one only while no LOW one
is. -/
def keepsOrder (s : EnqueueCalls) : Call → Bool
  | .enqueue request =>
    decide (s.requestQueue.length ≥ 10) ||
      match request.priority with
      | .high => !s.pendingPriorities.contains .high
      | .normal => !s.pendingPriorities.contains .low
      | .low => true
  | .poll => true

/-- The state after a whole call. -/
def enqueued (s : EnqueueCalls) (request : InferenceQueue.Request) : EnqueueCalls :=
  { s with
    calls := s.calls ++ [⟨request, .returned (decide (s.requestQueue.length < 10))⟩]
    requestQueue :=
      if s.requestQueue.length ≥ 10 then s.requestQueue
      else if request.priority = .high then s.calls.length :: s.requestQueue
      else s.requestQueue ++ [s.calls.length] }

section

variable {s t : EnqueueCalls} {request : InferenceQueue.Request} {calls : List EnqueueCall}
  {call : EnqueueCall} {phase : EnqueuePhase} {i j : Nat} {c : Call}

@[simp] theorem setPhase_last :
    setPhase (calls ++ [call]) calls.length phase = calls ++ [{ call with phase := phase }] := by
  induction calls with
  | nil => rfl
  | cons first calls ih =>
    rw [setPhase, List.cons_append, List.length_cons, List.modify_succ_cons, ← setPhase, ih]
    rfl

theorem step_advance_last {queue polled : List Nat} {lock : Option Nat} :
    step ⟨queue, calls ++ [call], lock, polled⟩ (.advance calls.length) =
      advance ⟨queue, calls ++ [call], lock, polled⟩ calls.length call := by
  rw [step, List.getElem?_concat_length, Option.bind_some]

/-- An uninterrupted call does what `enqueued` says. -/
theorem serve_enqueue (hlock : s.lock = none) :
    s.serve (.enqueue request) = some (s.enqueued request) := by
  obtain ⟨queue, calls, lock, polled⟩ := s
  replace hlock : lock = none := hlock
  subst hlock
  have hcall : step ⟨queue, calls, none, polled⟩ (.call request) =
      some ⟨queue, calls ++ [⟨request, .size⟩], none, polled⟩ := rfl
  simp only [serve, callEvents, Machine.run, hcall, Option.bind_some]
  by_cases hfull : queue.length ≥ 10
  · have hnot : ¬queue.length < 10 := Nat.not_lt.mpr hfull
    rw [if_pos hfull]
    simp [List.replicate, Machine.run, step_advance_last, advance, hfull, enqueued, hnot]
  · have hroom : queue.length < 10 := Nat.lt_of_not_le hfull
    rw [if_neg hfull]
    by_cases hhigh : request.priority = .high
    · rw [if_pos hhigh]
      simp [List.replicate, Machine.run, step_advance_last, advance, hfull, enqueued, hhigh, hroom]
    · rw [if_neg hhigh]
      simp [List.replicate, Machine.run, step_advance_last, advance, hfull, enqueued, hhigh, hroom]

theorem Precedes.append (h : Precedes calls i j) : Precedes (calls ++ [call]) i j := by
  obtain ⟨a, b, ha, hb, horder⟩ := h
  have hi := (List.getElem?_eq_some_iff.mp ha).1
  have hj := (List.getElem?_eq_some_iff.mp hb).1
  exact ⟨a, b, by rwa [List.getElem?_append_left hi], by rwa [List.getElem?_append_left hj], horder⟩

/-- The polls return in order what stands in order in the queue. -/
theorem servesInOrder_iff : s.ServesInOrder ↔ s.requestQueue.Pairwise (Precedes s.calls) := by
  obtain ⟨queue, calls, lock, polled⟩ := s
  induction queue generalizing polled with
  | nil =>
    refine iff_of_true (fun n t ht => ?_) List.Pairwise.nil
    have hsame : t = ⟨[], calls, lock, polled⟩ := by
      induction n with
      | zero => exact (Option.some.inj ht).symm
      | succ n ih => exact ih ht
    rw [hsame]
    intro i rest hqueue
    cases hqueue
  | cons i rest ih =>
    have hpoll : serve ⟨i :: rest, calls, lock, polled⟩ .poll =
        some ⟨rest, calls, lock, polled ++ [i]⟩ := rfl
    rw [List.pairwise_cons, ← ih (polled ++ [i])]
    constructor
    · intro h
      refine ⟨h 0 _ rfl i rest rfl, fun n t ht => h (n + 1) t ?_⟩
      rw [List.replicate_succ, Machine.run, hpoll]
      exact ht
    · intro h n t ht
      cases n with
      | zero =>
        cases Option.some.inj ht
        intro i' rest' hqueue
        obtain ⟨rfl, rfl⟩ := List.cons.inj hqueue
        exact h.1
      | succ n =>
        rw [List.replicate_succ, Machine.run, hpoll] at ht
        exact h.2 n t ht

/-- The queue in order of service, of calls that were made. -/
structure QueueInv (s : EnqueueCalls) : Prop where
  ordered : s.requestQueue.Pairwise (Precedes s.calls)
  made : ∀ i ∈ s.requestQueue, i < s.calls.length
  unlocked : s.lock = none

theorem QueueInv.start : QueueInv start := ⟨List.Pairwise.nil, by simp [EnqueueCalls.start], rfl⟩

theorem mem_pendingPriorities {priority : InferenceQueue.Priority} :
    priority ∈ s.pendingPriorities ↔
      ∃ i ∈ s.requestQueue, ∃ a, s.calls[i]? = some a ∧ a.request.priority = priority := by
  simp only [pendingPriorities, requestsOf, List.mem_map, List.mem_filterMap, Option.map_eq_some_iff]
  constructor
  · rintro ⟨_, ⟨i, hi, a, ha, rfl⟩, hpriority⟩
    exact ⟨i, hi, a, ha, hpriority⟩
  · rintro ⟨i, hi, a, ha, hpriority⟩
    exact ⟨a.request, ⟨i, hi, a, ha, rfl⟩, hpriority⟩

theorem QueueInv.poll (h : QueueInv s) (ht : s.serve .poll = some t) : QueueInv t := by
  simp only [serve, step] at ht
  cases hqueue : s.requestQueue with
  | nil =>
    simp only [hqueue] at ht
    cases ht
    exact h
  | cons i rest =>
    simp only [hqueue] at ht
    cases ht
    have hordered := h.ordered
    rw [hqueue] at hordered
    refine ⟨(List.pairwise_cons.mp hordered).2, fun j hj => h.made j ?_, h.unlocked⟩
    rw [hqueue]
    exact List.mem_cons_of_mem i hj

theorem QueueInv.refused (h : QueueInv s) (hfull : s.requestQueue.length ≥ 10) :
    QueueInv (s.enqueued request) := by
  have hqueue : (s.enqueued request).requestQueue = s.requestQueue := by simp [enqueued, hfull]
  refine ⟨?_, fun i hi => ?_, h.unlocked⟩
  · rw [hqueue]
    exact List.Pairwise.imp (fun hij => hij.append) h.ordered
  · rw [hqueue] at hi
    have hmade := h.made i hi
    simp only [enqueued, List.length_append, List.length_singleton]
    omega

theorem QueueInv.enqueue (h : QueueInv s) (hok : s.keepsOrder (.enqueue request) = true) :
    QueueInv (s.enqueued request) := by
  by_cases hfull : s.requestQueue.length ≥ 10
  · exact h.refused hfull
  simp only [keepsOrder, hfull, decide_false, Bool.false_or] at hok
  obtain ⟨call, hcall⟩ : ∃ call : EnqueueCall, call = ⟨request, .returned true⟩ := ⟨_, rfl⟩
  have hcalls : (s.enqueued request).calls = s.calls ++ [call] := by
    have hroom : s.requestQueue.length < 10 := Nat.lt_of_not_le hfull
    simp [enqueued, hcall, hroom]
  have hlast : (s.calls ++ [call])[s.calls.length]? = some call := List.getElem?_concat_length
  have hrequest : call.request = request := by rw [hcall]
  have hold : s.requestQueue.Pairwise (Precedes (s.calls ++ [call])) :=
    List.Pairwise.imp (fun hij => hij.append) h.ordered
  have hmade : ∀ i ∈ (s.enqueued request).requestQueue, i < (s.enqueued request).calls.length := by
    intro i hi
    rw [hcalls, List.length_append, List.length_singleton]
    simp only [enqueued, hfull, if_false] at hi
    split at hi
    · rcases List.mem_cons.mp hi with rfl | hi
      · omega
      · have := h.made i hi
        omega
    · rcases List.mem_append.mp hi with hi | hi
      · have := h.made i hi
        omega
      · rw [List.mem_singleton.mp hi]
        omega
  refine ⟨?_, hmade, h.unlocked⟩
  rw [hcalls]
  by_cases hhigh : request.priority = .high
  · have hqueue : (s.enqueued request).requestQueue = s.calls.length :: s.requestQueue := by
      simp [enqueued, hfull, hhigh]
    rw [hqueue]
    refine List.pairwise_cons.mpr ⟨fun j hj => ?_, hold⟩
    -- no pending request is HIGH
    obtain ⟨b, hb⟩ : ∃ b, s.calls[j]? = some b := ⟨_, List.getElem?_eq_getElem (h.made j hj)⟩
    have hother : b.request.priority ≠ .high := by
      intro hsame
      have hin := mem_pendingPriorities.mpr ⟨j, hj, b, hb, hsame⟩
      simp [hhigh, hin] at hok
    refine ⟨call, b, hlast, by rwa [List.getElem?_append_left (h.made j hj)], .inl ?_⟩
    rw [hrequest, hhigh]
    cases hb' : b.request.priority with
    | high => exact absurd hb' hother
    | normal => decide
    | low => decide
  · have hqueue : (s.enqueued request).requestQueue = s.requestQueue ++ [s.calls.length] := by
      simp [enqueued, hfull, hhigh]
    rw [hqueue]
    refine List.pairwise_append.mpr ⟨hold, List.pairwise_singleton _ _, fun i hi j hj => ?_⟩
    rw [List.mem_singleton.mp hj]
    obtain ⟨a, ha⟩ : ∃ a, s.calls[i]? = some a := ⟨_, List.getElem?_eq_getElem (h.made i hi)⟩
    refine ⟨a, call, by rwa [List.getElem?_append_left (h.made i hi)], hlast, ?_⟩
    have hlt : i < s.calls.length := h.made i hi
    rw [hrequest]
    cases hpriority : request.priority with
    | high => exact absurd hpriority hhigh
    | normal =>
      -- no pending request is LOW
      have hother : a.request.priority ≠ .low := by
        intro hsame
        have hin := mem_pendingPriorities.mpr ⟨i, hi, a, ha, hsame⟩
        simp [hpriority, hin] at hok
      cases ha' : a.request.priority with
      | high => exact .inl (by decide)
      | normal => exact .inr ⟨rfl, hlt⟩
      | low => exact absurd ha' hother
    | low =>
      cases ha' : a.request.priority with
      | high => exact .inl (by decide)
      | normal => exact .inl (by decide)
      | low => exact .inr ⟨rfl, hlt⟩

/-- Any other request that is accepted stands before or behind one that it may not pass or follow. -/
theorem QueueInv.breaks (h : QueueInv s) (hbad : ¬s.keepsOrder (.enqueue request) = true) :
    ¬(s.enqueued request).ServesInOrder := by
  rw [servesInOrder_iff]
  intro hordered
  have hfull : ¬s.requestQueue.length ≥ 10 := by
    intro hfull
    simp [keepsOrder, hfull] at hbad
  simp only [keepsOrder, hfull, decide_false, Bool.false_or] at hbad
  have hlast : (s.enqueued request).calls[s.calls.length]? =
      some ⟨request, .returned (decide (s.requestQueue.length < 10))⟩ := by
    rw [enqueued]
    exact List.getElem?_concat_length
  have hfirst {j : Nat} {b : EnqueueCall} (hb : s.calls[j]? = some b) :
      (s.enqueued request).calls[j]? = some b := by
    have hj := (List.getElem?_eq_some_iff.mp hb).1
    rw [enqueued]
    simpa [List.getElem?_append_left hj] using hb
  cases hpriority : request.priority with
  | high =>
    have hqueue : (s.enqueued request).requestQueue = s.calls.length :: s.requestQueue := by
      simp [enqueued, hfull, hpriority]
    have hin : InferenceQueue.Priority.high ∈ s.pendingPriorities := by
      simpa [hpriority] using hbad
    obtain ⟨j, hj, b, hb, hsame⟩ := mem_pendingPriorities.mp hin
    rw [hqueue] at hordered
    obtain ⟨a, b', ha, hb', horder⟩ := (List.pairwise_cons.mp hordered).1 j hj
    cases Option.some.inj (hlast.symm.trans ha)
    cases Option.some.inj ((hfirst hb).symm.trans hb')
    have hmade := h.made j hj
    rw [hpriority, hsame] at horder
    simp only [InferenceQueue.Priority.rank] at horder
    omega
  | normal =>
    have hqueue : (s.enqueued request).requestQueue = s.requestQueue ++ [s.calls.length] := by
      simp [enqueued, hfull, hpriority]
    have hin : InferenceQueue.Priority.low ∈ s.pendingPriorities := by
      simpa [hpriority] using hbad
    obtain ⟨i, hi, a, ha, hsame⟩ := mem_pendingPriorities.mp hin
    rw [hqueue] at hordered
    obtain ⟨a', b, ha', hb, horder⟩ :=
      (List.pairwise_append.mp hordered).2.2 i hi _ (List.mem_singleton_self _)
    cases Option.some.inj ((hfirst ha).symm.trans ha')
    cases Option.some.inj (hlast.symm.trans hb)
    rw [hpriority, hsame] at horder
    simp only [InferenceQueue.Priority.rank] at horder
    omega
  | low => simp [hpriority] at hbad

/-- Along a run the polls return the pending requests by priority and arrival exactly where each HIGH
request is accepted with no other one pending, and each NORMAL one with no LOW one. -/
theorem serves_in_order_iff {calls : List Call} (hr : Machine.run serve start calls = some t) :
    Always serve ServesInOrder start calls ↔
      Meets serve (fun s c => s.keepsOrder c = true) start calls := by
  refine always_iff_meets (I := QueueInv) (fun s h => servesInOrder_iff.mpr h.ordered) ?_ ?_ .start hr
  · intro s c t h hok ht
    cases c with
    | enqueue request =>
      rw [serve_enqueue h.unlocked] at ht
      cases ht
      exact h.enqueue hok
    | poll => exact h.poll ht
  · intro s c t h hbad ht
    cases c with
    | enqueue request =>
      rw [serve_enqueue h.unlocked] at ht
      cases ht
      exact h.breaks hbad
    | poll => exact absurd rfl hbad

end

def queued (priority : InferenceQueue.Priority) : InferenceQueue.Request :=
  { id := "1".toList, prompt := "hi".toList, priority := priority }

/-- A NORMAL, a LOW and a HIGH request, all of them polled. -/
theorem serves_in_order_mixed :
    ∃ t, Machine.run serve start
        [.enqueue (queued .normal), .enqueue (queued .low), .enqueue (queued .high), .poll, .poll,
          .poll] = some t ∧
      t.polled = [2, 0, 1] ∧
      Always serve ServesInOrder start
        [.enqueue (queued .normal), .enqueue (queued .low), .enqueue (queued .high), .poll, .poll,
          .poll] := by
  obtain ⟨t, hr, hpolled⟩ := Option.map_eq_some_iff.mp
    (show (Machine.run serve start [.enqueue (queued .normal), .enqueue (queued .low),
      .enqueue (queued .high), .poll, .poll, .poll]).map (·.polled) = some [2, 0, 1] by decide)
  exact ⟨t, hr, hpolled, (serves_in_order_iff hr).mpr (by decide)⟩

/-- Of two HIGH requests the later one is polled first. -/
theorem high_served_last_first :
    ¬∀ (calls : List Call) (t : EnqueueCalls), Machine.run serve start calls = some t →
      Always serve ServesInOrder start calls := by
  intro h
  obtain ⟨t, hr, hqueue⟩ := Option.map_eq_some_iff.mp
    (show (Machine.run serve start [.enqueue (queued .high), .enqueue (queued .high)]).map
      (fun t => (t.requestQueue, t.calls)) =
        some ([1, 0], [⟨queued .high, .returned true⟩, ⟨queued .high, .returned true⟩]) by decide)
  obtain ⟨hqueue, hcalls⟩ := Prod.mk.inj hqueue
  have hordered : t.ServesInOrder := always_run (h _ t hr) hr
  rw [servesInOrder_iff, hqueue, hcalls] at hordered
  obtain ⟨a, b, ha, hb, horder⟩ := (List.pairwise_cons.mp hordered).1 0 (by simp)
  cases ha
  cases hb
  exact absurd horder (by decide)

end EnqueueCalls

end HeyNilo

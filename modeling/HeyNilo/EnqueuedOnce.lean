import HeyNilo.EnqueueCalls
import HeyNilo.Machine
import Mathlib.Data.List.Nodup

namespace HeyNilo

namespace EnqueuePhase

/-- The request has been put into the queue. -/
def entered : EnqueuePhase → Nat
  | .addAll _ | .returned true => 1
  | _ => 0

def holdsLock : EnqueuePhase → Bool
  | .toList | .clear _ | .addFirst _ | .addAll _ => true
  | _ => false

/-- The requests taken out of the queue that go back behind the new one. -/
def inTransit : EnqueuePhase → List Nat
  | .addFirst tempList | .addAll tempList => tempList
  | _ => []

end EnqueuePhase

namespace EnqueueCalls

variable {s t : EnqueueCalls} {e : Event} {i j : Nat} {call : EnqueueCall} {phase : EnqueuePhase}

def inTransit (s : EnqueueCalls) : List Nat :=
  (s.lock.bind fun i => s.calls[i]?).elim [] fun call => call.phase.inTransit

/-- How often a request was polled or is still queued. -/
def places (s : EnqueueCalls) (i : Nat) : Nat :=
  s.polled.count i + s.requestQueue.count i + s.inTransit.count i

def Accepted (s : EnqueueCalls) (i : Nat) : Prop :=
  ∃ call, s.calls[i]? = some call ∧ call.phase = .returned true

/-- Every request whose call returned true was polled once or is queued once, and the queue is never
longer than 10. -/
structure ExactlyOnce (s : EnqueueCalls) : Prop where
  once : ∀ i, s.Accepted i → s.places i = 1
  bounded : s.requestQueue.length ≤ 10

/-- What a call must find in the queue before its next step. -/
def Finds (s : EnqueueCalls) : EnqueuePhase → Prop
  | .clear tempList => s.requestQueue.Perm tempList
  | .add | .addFirst _ => s.requestQueue.length < 10
  | .addAll tempList => s.requestQueue.length + tempList.length ≤ 10
  | .size | .synchronized | .toList | .returned _ => True

/-- `clear` finds the requests that `toList` found, and what the insertion finds has room for what it
inserts. -/
def Undisturbed (s : EnqueueCalls) : Event → Prop
  | .advance i => ∀ call ∈ s.calls[i]?, s.Finds call.phase
  | .call _ | .poll => True

structure Inv (s : EnqueueCalls) : Prop where
  counted : ∀ i, s.places i = s.calls[i]?.elim 0 fun call => call.phase.entered
  locked : ∀ (i : Nat) (call : EnqueueCall), s.calls[i]? = some call → (call.phase.holdsLock = true ↔ s.lock = some i)
  holder : ∀ i ∈ s.lock, i < s.calls.length
  listed : ∀ (i : Nat) (call : EnqueueCall) (tempList : List Nat), s.calls[i]? = some call →
    call.phase = .clear tempList → tempList.Nodup ∧ ∀ k ∈ tempList, s.Accepted k
  bounded : s.requestQueue.length ≤ 10

theorem Inv.exactlyOnce (h : Inv s) : ExactlyOnce s where
  once i := by
    rintro ⟨call, hcall, hphase⟩
    rw [h.counted i, hcall, Option.elim_some, hphase]
    rfl
  bounded := h.bounded

theorem getElem?_setPhase_self (hcall : s.calls[i]? = some call) :
    (setPhase s.calls i phase)[i]? = some { call with phase := phase } := by
  rw [setPhase, List.getElem?_modify_eq, hcall]
  rfl

theorem getElem?_setPhase_of_ne (hj : j ≠ i) : (setPhase s.calls i phase)[j]? = s.calls[j]? :=
  List.getElem?_modify_ne _ _ hj.symm

theorem inTransit_of_lock (hlock : s.lock = some i) (hcall : s.calls[i]? = some call) :
    s.inTransit = call.phase.inTransit := by
  rw [inTransit, hlock, Option.bind_some, hcall, Option.elim_some]

theorem inTransit_of_none (hlock : s.lock = none) : s.inTransit = [] := by
  rw [inTransit, hlock]
  rfl

/-- A call that does not hold the lock changes nothing about the requests in transit. -/
theorem inTransit_setPhase (hlock : s.lock ≠ some i) {queue : List Nat} :
    inTransit { s with calls := setPhase s.calls i phase, requestQueue := queue } = s.inTransit := by
  unfold inTransit
  cases hs : s.lock with
  | none => rfl
  | some k =>
    have hk : k ≠ i := fun heq => hlock (hs.trans (congrArg some heq))
    rw [Option.bind_some, Option.bind_some, getElem?_setPhase_of_ne hk]

theorem inTransit_setPhase_self {queue polled : List Nat} {lock : Option Nat}
    (hcall : s.calls[i]? = some call) (hlock : lock = some i) :
    inTransit ⟨queue, setPhase s.calls i phase, lock, polled⟩ = phase.inTransit := by
  have hcall' : (setPhase s.calls i phase)[i]? = some { call with phase := phase } :=
    getElem?_setPhase_self hcall
  rw [inTransit, hlock, Option.bind_some, hcall', Option.elim_some]

/-- The invariant after a step of a call, from what the step has changed. -/
theorem Inv.advance (h : Inv s) (hcall : s.calls[i]? = some call)
    (hrunning : ∀ result, call.phase ≠ .returned result)
    (hcalls : t.calls = setPhase s.calls i phase)
    (hlock : ∀ k, k ≠ i → (t.lock = some k ↔ s.lock = some k))
    (hhold : phase.holdsLock = true ↔ t.lock = some i)
    (hplaces : ∀ k, k ≠ i → t.places k = s.places k) (hself : t.places i = phase.entered)
    (hlisted : ∀ tempList, phase = .clear tempList → tempList.Nodup ∧ ∀ k ∈ tempList, s.Accepted k)
    (hbounded : t.requestQueue.length ≤ 10) : Inv t := by
  have haccepted : ∀ k, s.Accepted k → t.Accepted k := by
    rintro k ⟨other, hother, hphase⟩
    have hk : k ≠ i := by
      rintro rfl
      cases Option.some.inj (hcall.symm.trans hother)
      exact hrunning true hphase
    exact ⟨other, by rw [hcalls, getElem?_setPhase_of_ne hk, hother], hphase⟩
  constructor
  · intro k
    by_cases hk : k = i
    · rw [hk, hself, hcalls, getElem?_setPhase_self hcall, Option.elim_some]
    · rw [hplaces k hk, h.counted k, hcalls, getElem?_setPhase_of_ne hk]
  · intro k other hother
    by_cases hk : k = i
    · subst hk
      rw [hcalls, getElem?_setPhase_self hcall] at hother
      cases hother
      exact hhold
    · rw [hcalls, getElem?_setPhase_of_ne hk] at hother
      rw [hlock k hk]
      exact h.locked k other hother
  · intro k hk
    rw [hcalls, setPhase, List.length_modify]
    by_cases hki : k = i
    · rw [hki]
      exact (List.getElem?_eq_some_iff.mp hcall).1
    · exact h.holder k ((hlock k hki).mp hk)
  · intro k other tempList hother hphase
    have hold : tempList.Nodup ∧ ∀ k ∈ tempList, s.Accepted k := by
      by_cases hk : k = i
      · subst hk
        rw [hcalls, getElem?_setPhase_self hcall] at hother
        cases hother
        exact hlisted tempList hphase
      · rw [hcalls, getElem?_setPhase_of_ne hk] at hother
        exact h.listed k other tempList hother hphase
    exact ⟨hold.1, fun k hk => haccepted k (hold.2 k hk)⟩
  · exact hbounded

theorem start_inv : Inv start where
  counted _ := rfl
  locked _ _ h := nomatch h
  holder _ h := nomatch h
  listed _ _ _ h := nomatch h
  bounded := Nat.zero_le _

theorem Inv.called (h : Inv s) (request : InferenceQueue.Request) :
    Inv { s with calls := s.calls ++ [⟨request, .size⟩] } := by
  have hold : ∀ {k : Nat} {other : EnqueueCall}, (s.calls ++ [⟨request, .size⟩])[k]? = some other →
      s.calls[k]? = some other ∨ k = s.calls.length ∧ other = ⟨request, .size⟩ := by
    intro k other hother
    rcases Nat.lt_or_ge k s.calls.length with hk | hk
    · rw [List.getElem?_append_left hk] at hother
      exact .inl hother
    · rw [List.getElem?_append_right hk, List.getElem?_singleton] at hother
      split at hother
      · exact .inr ⟨by omega, (Option.some.inj hother).symm⟩
      · cases hother
  have hkeep : ∀ {k : Nat} {other : EnqueueCall}, s.calls[k]? = some other →
      (s.calls ++ [⟨request, .size⟩])[k]? = some other := by
    intro k other hother
    rw [List.getElem?_append_left (List.getElem?_eq_some_iff.mp hother).1, hother]
  have htransit : inTransit { s with calls := s.calls ++ [⟨request, .size⟩] } = s.inTransit := by
    unfold inTransit
    cases hlock : s.lock with
    | none => rfl
    | some k => rw [Option.bind_some, Option.bind_some, List.getElem?_append_left (h.holder k hlock)]
  constructor
  · intro k
    have hplaces : places { s with calls := s.calls ++ [⟨request, .size⟩] } k = s.places k := by
      rw [places, htransit]
      rfl
    rw [hplaces, h.counted k]
    cases hother : (s.calls ++ [⟨request, .size⟩])[k]? with
    | none =>
      rw [List.getElem?_eq_none_iff, List.length_append] at hother
      rw [List.getElem?_eq_none (by omega)]
    | some other =>
      rcases hold hother with hs | ⟨rfl, rfl⟩
      · rw [hs]
      · rw [List.getElem?_eq_none (Nat.le_refl _)]
        rfl
  · intro k other hother
    rcases hold hother with hs | ⟨rfl, rfl⟩
    · exact h.locked k other hs
    · exact iff_of_false Bool.false_ne_true fun hlock => Nat.lt_irrefl _ (h.holder _ hlock)
  · intro k hk
    rw [List.length_append]
    exact Nat.lt_add_right _ (h.holder k hk)
  · intro k other tempList hother hphase
    rcases hold hother with hs | ⟨rfl, rfl⟩
    · obtain ⟨hnodup, haccepted⟩ := h.listed k other tempList hs hphase
      refine ⟨hnodup, fun l hl => ?_⟩
      obtain ⟨accepted, haccepted, hreturned⟩ := haccepted l hl
      exact ⟨accepted, hkeep haccepted, hreturned⟩
    · cases hphase
  · exact h.bounded

theorem Inv.poll (h : Inv s) (hstep : step s .poll = some t) : Inv t := by
  simp only [step] at hstep
  split at hstep
  · cases hstep
    exact h
  · rename_i i rest hqueue
    cases hstep
    refine ⟨fun k => ?_, h.locked, h.holder, h.listed, ?_⟩
    · rw [← h.counted k, places, places, hqueue]
      simp only [List.count_append, List.count_cons, List.count_nil, inTransit]
      omega
    · have hbounded := h.bounded
      rw [hqueue, List.length_cons] at hbounded
      exact Nat.le_of_succ_le hbounded

/-- A step that leaves the queue, the lock and the requests in transit alone. -/
theorem Inv.advance_quiet (h : Inv s) (hcall : s.calls[i]? = some call)
    (hrunning : ∀ result, call.phase ≠ .returned result) (hcalls : t.calls = setPhase s.calls i phase)
    (hqueue : t.requestQueue = s.requestQueue) (hpolled : t.polled = s.polled) (hlock : t.lock = s.lock)
    (hhold : phase.holdsLock = call.phase.holdsLock) (htransit : phase.inTransit = call.phase.inTransit)
    (hentered : phase.entered = call.phase.entered)
    (hlisted : ∀ tempList, phase = .clear tempList → tempList.Nodup ∧ ∀ k ∈ tempList, s.Accepted k) :
    Inv t := by
  have hsame : t.inTransit = s.inTransit := by
    by_cases howner : s.lock = some i
    · have hcall' : t.calls[i]? = some { call with phase := phase } := by
        rw [hcalls, getElem?_setPhase_self hcall]
      rw [inTransit_of_lock howner hcall, inTransit_of_lock (hlock.trans howner) hcall']
      exact htransit
    · have hother : inTransit { s with calls := setPhase s.calls i phase } = s.inTransit :=
        inTransit_setPhase howner
      rw [← hother]
      unfold inTransit
      rw [hlock, hcalls]
  have hplaces : ∀ k, t.places k = s.places k := fun k => by
    rw [places, places, hqueue, hpolled, hsame]
  refine h.advance hcall hrunning hcalls (fun k _ => by rw [hlock]) ?_ (fun k _ => hplaces k) ?_ hlisted
    (hqueue ▸ h.bounded)
  · rw [hhold, hlock]
    exact h.locked i call hcall
  · rw [hplaces i, h.counted i, hcall, Option.elim_some, hentered]

theorem Inv.places_le (h : Inv s) (k : Nat) : s.places k ≤ 1 := by
  rw [h.counted k]
  cases s.calls[k]? with
  | none => exact Nat.zero_le _
  | some call =>
    rw [Option.elim_some]
    cases call.phase with
    | returned result => cases result <;> decide
    | addAll tempList => exact Nat.le_refl _
    | size => exact Nat.zero_le _
    | synchronized => exact Nat.zero_le _
    | toList => exact Nat.zero_le _
    | clear tempList => exact Nat.zero_le _
    | addFirst tempList => exact Nat.zero_le _
    | add => exact Nat.zero_le _

theorem Inv.queue_nodup (h : Inv s) : s.requestQueue.Nodup := by
  refine List.nodup_iff_count_le_one.mpr fun k => ?_
  have hplaces := h.places_le k
  rw [places] at hplaces
  omega

/-- While a call under the lock has not put its request into the queue yet, all that is queued was
accepted. -/
theorem Inv.queue_accepted (h : Inv s) (hcall : s.calls[i]? = some call)
    (hhold : call.phase.holdsLock = true) (hbefore : call.phase.entered = 0) :
    ∀ k ∈ s.requestQueue, s.Accepted k := by
  intro k hk
  have hcount := List.count_pos_iff.mpr hk
  have hplaces := h.counted k
  rw [places] at hplaces
  cases hother : s.calls[k]? with
  | none =>
    rw [hother, Option.elim_none] at hplaces
    omega
  | some other =>
    rw [hother, Option.elim_some] at hplaces
    have hone : other.phase.entered ≠ 0 := by omega
    refine ⟨other, hother, ?_⟩
    cases hphase : other.phase with
    | returned result =>
      cases result with
      | true => rfl
      | false => exact absurd (by rw [hphase]; rfl) hone
    | addAll tempList =>
      -- both would hold the lock
      have howner := (h.locked i call hcall).mp hhold
      have hk' := (h.locked k other hother).mp (by rw [hphase]; rfl)
      cases Option.some.inj (howner.symm.trans hk')
      cases Option.some.inj (hcall.symm.trans hother)
      exact absurd hbefore hone
    | size => exact absurd (by rw [hphase]; rfl) hone
    | synchronized => exact absurd (by rw [hphase]; rfl) hone
    | toList => exact absurd (by rw [hphase]; rfl) hone
    | clear tempList => exact absurd (by rw [hphase]; rfl) hone
    | addFirst tempList => exact absurd (by rw [hphase]; rfl) hone
    | add => exact absurd (by rw [hphase]; rfl) hone

theorem running_of_phase (hphase : call.phase = phase) (hrunning : ∀ result, phase ≠ .returned result) :
    ∀ result, call.phase ≠ .returned result := fun result heq => hrunning result (hphase.symm.trans heq)

theorem Inv.synchronized (h : Inv s) (hcall : s.calls[i]? = some call)
    (hphase : call.phase = .synchronized) (hlock : s.lock = none) :
    Inv { s with calls := setPhase s.calls i .toList, lock := some i } := by
  have htransit : inTransit { s with calls := setPhase s.calls i .toList, lock := some i } =
      s.inTransit := by
    rw [inTransit_setPhase_self hcall rfl, inTransit_of_none hlock]
    rfl
  have hplaces : ∀ k, places { s with calls := setPhase s.calls i .toList, lock := some i } k =
      s.places k := fun k => by rw [places, places, htransit]
  refine h.advance hcall (running_of_phase hphase fun _ heq => nomatch heq) rfl (fun k hk => ?_)
    (iff_of_true rfl rfl) (fun k _ => hplaces k) ?_ (fun _ heq => nomatch heq) h.bounded
  · rw [hlock]
    exact iff_of_false (fun heq => hk (Option.some.inj heq).symm) (fun heq => nomatch heq)
  · rw [hplaces i, h.counted i, hcall, Option.elim_some, hphase]
    rfl

/-- What `clear` leaves in the queue and in transit. -/
theorem places_clear {tempList : List Nat} (hcall : s.calls[i]? = some call) (hlock : s.lock = some i)
    (k : Nat) :
    places { s with calls := setPhase s.calls i (.addFirst tempList), requestQueue := [] } k =
      s.polled.count k + tempList.count k := by
  rw [places, inTransit_setPhase_self hcall hlock]
  rfl

theorem places_before {tempList : List Nat} (hcall : s.calls[i]? = some call) (hlock : s.lock = some i)
    (hphase : call.phase = .clear tempList) (k : Nat) :
    s.places k = s.polled.count k + s.requestQueue.count k := by
  rw [places, inTransit_of_lock hlock hcall, hphase]
  rfl

theorem Inv.clear {tempList : List Nat} (h : Inv s) (hcall : s.calls[i]? = some call)
    (hphase : call.phase = .clear tempList) (hsame : s.requestQueue.Perm tempList) :
    Inv { s with calls := setPhase s.calls i (.addFirst tempList), requestQueue := [] } := by
  have hlock := (h.locked i call hcall).mp (by rw [hphase]; rfl)
  have hplaces : ∀ k, places { s with
      calls := setPhase s.calls i (.addFirst tempList), requestQueue := [] } k = s.places k := by
    intro k
    rw [places_clear hcall hlock, places_before hcall hlock hphase, hsame.count_eq]
  refine h.advance hcall (running_of_phase hphase fun _ heq => nomatch heq) rfl (fun k _ => Iff.rfl)
    (iff_of_true rfl hlock) (fun k _ => hplaces k) ?_ (fun _ heq => nomatch heq) (Nat.zero_le _)
  rw [hplaces i, h.counted i, hcall, Option.elim_some, hphase]
  rfl

/-- Of a queue that is no longer the one of `toList`, `clear` drops a request or `addAll` repeats one. -/
theorem Inv.perm_of_clear {tempList : List Nat} (h : Inv s) (hcall : s.calls[i]? = some call)
    (hphase : call.phase = .clear tempList) (hafter : ExactlyOnce { s with
      calls := setPhase s.calls i (.addFirst tempList), requestQueue := [] }) :
    s.requestQueue.Perm tempList := by
  have hlock := (h.locked i call hcall).mp (by rw [hphase]; rfl)
  have hqueue := h.queue_accepted hcall (by rw [hphase]; rfl) (by rw [hphase]; rfl)
  have hlisted := (h.listed i call tempList hcall hphase).2
  refine List.perm_iff_count.mpr fun k => ?_
  by_cases haccepted : s.Accepted k
  · have hbefore := h.exactlyOnce.once k haccepted
    obtain ⟨other, hother, hreturned⟩ := haccepted
    have hk : k ≠ i := by
      rintro rfl
      cases Option.some.inj (hcall.symm.trans hother)
      cases hphase.symm.trans hreturned
    have hafter := hafter.once k ⟨other, by rw [← hother]; exact getElem?_setPhase_of_ne hk, hreturned⟩
    rw [places_clear hcall hlock] at hafter
    rw [places_before hcall hlock hphase] at hbefore
    omega
  · rw [List.count_eq_zero.mpr fun hk => haccepted (hqueue k hk),
      List.count_eq_zero.mpr fun hk => haccepted (hlisted k hk)]

theorem Inv.addFirst {tempList : List Nat} (h : Inv s) (hcall : s.calls[i]? = some call)
    (hphase : call.phase = .addFirst tempList) (hroom : s.requestQueue.length < 10) :
    Inv { s with
      calls := setPhase s.calls i (.addAll tempList), requestQueue := s.requestQueue ++ [i] } := by
  have hlock := (h.locked i call hcall).mp (by rw [hphase]; rfl)
  have htransit : inTransit { s with
      calls := setPhase s.calls i (.addAll tempList), requestQueue := s.requestQueue ++ [i] } =
      s.inTransit := by
    rw [inTransit_of_lock hlock hcall, inTransit_setPhase_self hcall hlock, hphase]
    rfl
  have hplaces : ∀ k, places { s with
      calls := setPhase s.calls i (.addAll tempList), requestQueue := s.requestQueue ++ [i] } k =
      s.places k + [i].count k := by
    intro k
    simp only [places, htransit, List.count_append]
    omega
  refine h.advance hcall (running_of_phase hphase fun _ heq => nomatch heq) rfl (fun k _ => Iff.rfl)
    (iff_of_true rfl hlock) (fun k hk => ?_) ?_ (fun _ heq => nomatch heq) ?_
  · rw [hplaces k, List.count_eq_zero.mpr fun hmem => hk (List.mem_singleton.mp hmem), Nat.add_zero]
  · rw [hplaces i, h.counted i, hcall, Option.elim_some, hphase, List.count_singleton_self]
    rfl
  · rw [List.length_append]
    exact hroom

theorem Inv.addAll {tempList : List Nat} (h : Inv s) (hcall : s.calls[i]? = some call)
    (hphase : call.phase = .addAll tempList)
    (hroom : s.requestQueue.length + tempList.length ≤ 10) :
    Inv { s with
      calls := setPhase s.calls i (.returned true)
      requestQueue := s.requestQueue ++ tempList
      lock := none } := by
  have hlock := (h.locked i call hcall).mp (by rw [hphase]; rfl)
  have hplaces : ∀ k, places { s with
      calls := setPhase s.calls i (.returned true)
      requestQueue := s.requestQueue ++ tempList
      lock := none } k = s.places k := by
    intro k
    simp only [places, inTransit_of_none, inTransit_of_lock hlock hcall, hphase, List.count_append,
      List.count_nil, EnqueuePhase.inTransit]
    omega
  refine h.advance hcall (running_of_phase hphase fun _ heq => nomatch heq) rfl (fun k hk => ?_)
    (iff_of_false Bool.false_ne_true fun heq => nomatch heq) (fun k _ => hplaces k) ?_
    (fun _ heq => nomatch heq) ?_
  · rw [hlock]
    exact iff_of_false (fun heq => nomatch heq) fun heq => hk (Option.some.inj heq).symm
  · rw [hplaces i, h.counted i, hcall, Option.elim_some, hphase]
    rfl
  · rw [List.length_append]
    exact hroom

theorem Inv.add (h : Inv s) (hcall : s.calls[i]? = some call) (hphase : call.phase = .add)
    (hroom : s.requestQueue.length < 10) :
    Inv { s with
      calls := setPhase s.calls i (.returned true), requestQueue := s.requestQueue ++ [i] } := by
  have hlock : s.lock ≠ some i := fun heq => by
    have hhold := (h.locked i call hcall).mpr heq
    rw [hphase] at hhold
    cases hhold
  have hplaces : ∀ k, places { s with
      calls := setPhase s.calls i (.returned true), requestQueue := s.requestQueue ++ [i] } k =
      s.places k + [i].count k := by
    intro k
    simp only [places, inTransit_setPhase hlock, List.count_append]
    omega
  refine h.advance hcall (running_of_phase hphase fun _ heq => nomatch heq) rfl (fun k _ => Iff.rfl)
    (iff_of_false Bool.false_ne_true hlock) (fun k hk => ?_) ?_ (fun _ heq => nomatch heq) ?_
  · rw [hplaces k, List.count_eq_zero.mpr fun hmem => hk (List.mem_singleton.mp hmem), Nat.add_zero]
  · rw [hplaces i, h.counted i, hcall, Option.elim_some, hphase, List.count_singleton_self]
    rfl
  · rw [List.length_append]
    exact hroom

/-- A step keeps the invariant when its call is undisturbed, and breaks the claim of the queue otherwise. -/
theorem step_spec (h : Inv s) (hstep : step s e = some t) :
    (s.Undisturbed e → Inv t) ∧ (¬ s.Undisturbed e → ¬ ExactlyOnce t) := by
  cases e with
  | call request =>
    cases hstep
    exact ⟨fun _ => h.called request, fun hnot => absurd trivial hnot⟩
  | poll => exact ⟨fun _ => h.poll hstep, fun hnot => absurd trivial hnot⟩
  | advance i =>
    obtain ⟨call, hcall, hstep⟩ := Option.bind_eq_some_iff.mp hstep
    have hundisturbed : s.Undisturbed (.advance i) ↔ s.Finds call.phase := by
      simp only [Undisturbed, hcall, Option.mem_def, Option.some.injEq, forall_eq']
    rw [hundisturbed]
    unfold EnqueueCalls.advance at hstep
    have hquiet : ∀ {phase : EnqueuePhase}, (∀ result, call.phase ≠ .returned result) →
        phase.holdsLock = call.phase.holdsLock → phase.inTransit = call.phase.inTransit →
        phase.entered = call.phase.entered →
        (∀ tempList, phase = .clear tempList → tempList.Nodup ∧ ∀ k ∈ tempList, s.Accepted k) →
        Inv { s with calls := setPhase s.calls i phase } :=
      fun hrunning hhold htransit hentered hlisted =>
        h.advance_quiet hcall hrunning rfl rfl rfl rfl hhold htransit hentered hlisted
    cases hphase : call.phase with
    | size =>
      simp only [hphase] at hstep hquiet
      refine ⟨fun _ => ?_, fun hnot => absurd trivial hnot⟩
      split at hstep
      · cases hstep
        exact hquiet (fun _ heq => nomatch heq) rfl rfl rfl fun _ heq => nomatch heq
      · split at hstep
        · cases hstep
          exact hquiet (fun _ heq => nomatch heq) rfl rfl rfl fun _ heq => nomatch heq
        · cases hstep
          exact hquiet (fun _ heq => nomatch heq) rfl rfl rfl fun _ heq => nomatch heq
    | synchronized =>
      simp only [hphase] at hstep
      refine ⟨fun _ => ?_, fun hnot => absurd trivial hnot⟩
      split at hstep
      · rename_i hlock
        cases hstep
        exact h.synchronized hcall hphase hlock
      · cases hstep
    | toList =>
      simp only [hphase] at hstep hquiet
      refine ⟨fun _ => ?_, fun hnot => absurd trivial hnot⟩
      cases hstep
      refine hquiet (fun _ heq => nomatch heq) rfl rfl rfl fun tempList heq => ?_
      cases heq
      exact ⟨h.queue_nodup, h.queue_accepted hcall (by rw [hphase]; rfl) (by rw [hphase]; rfl)⟩
    | clear tempList =>
      simp only [hphase] at hstep
      cases hstep
      exact ⟨h.clear hcall hphase, fun hnot hafter => hnot (h.perm_of_clear hcall hphase hafter)⟩
    | addFirst tempList =>
      simp only [hphase] at hstep
      cases hstep
      refine ⟨h.addFirst hcall hphase, fun hnot hafter => hnot ?_⟩
      have hbounded := hafter.bounded
      rwa [List.length_append] at hbounded
    | addAll tempList =>
      simp only [hphase] at hstep
      cases hstep
      refine ⟨h.addAll hcall hphase, fun hnot hafter => hnot ?_⟩
      have hbounded := hafter.bounded
      rwa [List.length_append] at hbounded
    | add =>
      simp only [hphase] at hstep
      cases hstep
      refine ⟨h.add hcall hphase, fun hnot hafter => hnot ?_⟩
      have hbounded := hafter.bounded
      rwa [List.length_append] at hbounded
    | returned result =>
      simp only [hphase] at hstep
      cases hstep

/-- The queue keeps every accepted request exactly once and its bound in exactly the runs in which no
`clear` finds another queue than its `toList` did and no insertion a fuller one than its check did. -/
theorem exactly_once_iff {es : List Event} (hrun : Machine.run step start es = some s) :
    Machine.Always step ExactlyOnce start es ↔ Machine.Meets step Undisturbed start es :=
  Machine.always_iff_meets (fun _ h => h.exactlyOnce)
    (fun _ _ _ h hundisturbed hstep => (step_spec h hstep).1 hundisturbed)
    (fun _ _ _ h hnot hstep => (step_spec h hstep).2 hnot) start_inv hrun

instance decidableFinds (s : EnqueueCalls) : ∀ phase, Decidable (s.Finds phase)
  | .clear _ => inferInstanceAs (Decidable (List.Perm _ _))
  | .add | .addFirst _ => inferInstanceAs (Decidable (_ < _))
  | .addAll _ => inferInstanceAs (Decidable (_ ≤ _))
  | .size | .synchronized | .toList | .returned _ => isTrue trivial

instance decidableUndisturbed (s : EnqueueCalls) : ∀ e, Decidable (s.Undisturbed e)
  | .advance i => inferInstanceAs (Decidable (∀ call ∈ s.calls[i]?, s.Finds call.phase))
  | .call _ | .poll => isTrue trivial

def background : InferenceQueue.Request := { id := "2".toList, prompt := "sum".toList, priority := .low }

def waiting : InferenceQueue.Request := { id := "3".toList, prompt := "yo".toList, priority := .high }

theorem exactly_once_ahead : Machine.Always step ExactlyOnce start
    [.call background, .advance 0, .call waiting, .advance 0, .advance 1, .advance 1, .advance 1,
      .advance 1, .poll, .advance 1, .poll, .advance 1, .poll, .poll] :=
  (exactly_once_iff rfl).mpr (by decide +kernel)

/-- A poll between `toList` and `clear`: the request is polled, and put back into the queue. -/
theorem polled_request_put_back : ¬ Machine.Always step ExactlyOnce start
    [.call background, .advance 0, .advance 0, .call waiting, .advance 1, .advance 1, .advance 1, .poll,
      .advance 1, .advance 1, .advance 1] := by
  intro hall
  obtain ⟨s, hs, htwice⟩ : ∃ s, Machine.run step start
      [.call background, .advance 0, .advance 0, .call waiting, .advance 1, .advance 1, .advance 1, .poll,
        .advance 1, .advance 1, .advance 1] = some s ∧ s.places 0 = 2 ∧
      s.calls[0]? = some ⟨background, .returned true⟩ := ⟨_, rfl, by decide +kernel⟩
  have honce := (Machine.always_run hall hs).once 0 ⟨_, htwice.2, rfl⟩
  rw [htwice.1] at honce
  cases honce

end EnqueueCalls

end HeyNilo

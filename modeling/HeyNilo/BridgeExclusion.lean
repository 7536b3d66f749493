import HeyNilo.LlamaBridge
import HeyNilo.Machine

namespace HeyNilo.LlamaBridge

open Machine

/-- The job is inside `nativeGenerateStream`. -/
def GenerationJob.inNative (job : GenerationJob) : Bool := job.point ≠ .launched

/-- The job is to return from `nativeGenerateStream` some time; one that was cancelled before its
start never enters it. -/
def GenerationJob.isActive (job : GenerationJob) : Bool := job.inNative || !job.cancelled

/-- As long as a job is to return the bridge is busy and rejects further calls, and at most one job
is inside `nativeGenerateStream`. -/
def Exclusive (s : LlamaBridge) : Prop :=
  (s.jobs.any (·.isActive) = true → s.currentState = .busy ∧ s.notReady.isSome = true) ∧
    s.jobs.Pairwise fun a b => (a.inNative && b.inNative) = false

instance (s : LlamaBridge) : Decidable (Exclusive s) := inferInstanceAs (Decidable ((_ → _) ∧ _))

/-- While a job is active no call rejected or made over it changes the state, and none stops it in
`nativeGenerateStream`. -/
def keepsBusy (s : LlamaBridge) (e : Event) : Bool :=
  !s.jobs.any (·.isActive) ||
    match e with
    | .init _ | .loadModel _ _ | .generate _ | .generateWithMaxTokens _ _ => false
    | .stopGeneration | .release => !s.jobs.any (·.inNative)
    | _ => true

/-- The invariant behind `Exclusive`: the one active job is the current one. -/
structure Exclusion (s : LlamaBridge) : Prop where
  busy : ∀ job ∈ s.jobs, job.isActive = true → s.currentState = .busy
  current : ∀ job ∈ s.jobs, job.isActive = true → s.currentGenerationJob = some job.id
  one : s.jobs.Pairwise fun a b => (a.isActive && b.isActive) = false

variable {s t : LlamaBridge}

theorem notReady_of_busy (h : s.currentState = .busy) : s.notReady.isSome = true := by
  simp [notReady, h]

theorem inNative_isActive {job : GenerationJob} (h : job.inNative = true) :
    job.isActive = true := by
  simp [GenerationJob.isActive, h]

theorem Exclusion.exclusive (h : Exclusion s) : Exclusive s := by
  constructor
  · intro hany
    obtain ⟨job, hjob, hactive⟩ := List.any_eq_true.mp hany
    have hbusy := h.busy job hjob hactive
    exact ⟨hbusy, notReady_of_busy hbusy⟩
  · refine h.one.imp ?_
    intro a b hab
    cases ha : a.inNative with
    | false => rfl
    | true =>
      cases hb : b.inNative with
      | false => rfl
      | true =>
        rw [inNative_isActive ha, inNative_isActive hb] at hab
        cases hab

theorem Exclusion.of_idle (h : ∀ job ∈ s.jobs, job.isActive = false) : Exclusion s := by
  constructor
  · intro job hjob hactive
    rw [h job hjob] at hactive
    cases hactive
  · intro job hjob hactive
    rw [h job hjob] at hactive
    cases hactive
  · refine List.pairwise_of_forall_mem_list fun a ha b _ => ?_
    rw [h a ha, Bool.false_and]

/-- What a step leaves alone, but for inactive jobs it removes. -/
theorem Exclusion.of_sublist (h : Exclusion s) (hj : List.Sublist t.jobs s.jobs)
    (hs : t.currentState = s.currentState)
    (hc : t.currentGenerationJob = s.currentGenerationJob) : Exclusion t := by
  constructor
  · intro job hjob hactive
    rw [hs]
    exact h.busy job (hj.subset hjob) hactive
  · intro job hjob hactive
    rw [hc]
    exact h.current job (hj.subset hjob) hactive
  · exact h.one.sublist hj

theorem Exclusion.setPoint (h : Exclusion s) {i : Nat} {job : GenerationJob}
    (hi : s.jobs[i]? = some job) (hactive : job.isActive = true) {point : JobPoint}
    (hp : point ≠ .launched) : Exclusion (s.setPoint i point) := by
  obtain ⟨hlt, hget⟩ := List.getElem?_eq_some_iff.mp hi
  obtain ⟨before, a, after, hjobs, hlen, hmodify⟩ :=
    List.exists_of_modify (fun job : GenerationJob => { job with point := point }) hlt
  have ha : a = job := by
    rw [hjobs, ← hlen] at hi
    simpa using hi
  subst ha
  have hnext : { a with point := point }.isActive = true := by
    simp [GenerationJob.isActive, GenerationJob.inNative, hp]
  -- only the point of the job changes, so whatever held of its old form holds of its new one
  have hmem : ∀ job ∈ (s.setPoint i point).jobs, job.isActive = true →
      ∃ old ∈ s.jobs, old.isActive = true ∧ old.id = job.id := by
    intro job hjob hjobActive
    have hcases : job ∈ before ++ { a with point := point } :: after := hmodify ▸ hjob
    rw [hjobs]
    rcases List.mem_append.mp hcases with hjob | hjob
    · exact ⟨job, List.mem_append_left _ hjob, hjobActive, rfl⟩
    · rcases List.mem_cons.mp hjob with rfl | hjob
      · exact ⟨a, by simp, hactive, rfl⟩
      · exact ⟨job, by simp [hjob], hjobActive, rfl⟩
  constructor
  · intro job hjob hjobActive
    obtain ⟨old, hold, holdActive, -⟩ := hmem job hjob hjobActive
    exact h.busy old hold holdActive
  · intro job hjob hjobActive
    obtain ⟨old, hold, holdActive, hid⟩ := hmem job hjob hjobActive
    rw [← hid]
    exact h.current old hold holdActive
  · have hmap : (s.setPoint i point).jobs.map (·.isActive) = s.jobs.map (·.isActive) := by
      have hset : (s.setPoint i point).jobs = before ++ { a with point := point } :: after := hmodify
      rw [hset, hjobs]
      simp [hnext, hactive]
    have hone : (s.jobs.map (·.isActive)).Pairwise fun x y => (x && y) = false :=
      List.pairwise_map.mpr h.one
    rw [← hmap] at hone
    exact List.pairwise_map.mp hone

theorem Exclusion.idle_of_erase (h : Exclusion s) {i : Nat} {job : GenerationJob}
    (hi : s.jobs[i]? = some job) (hactive : job.isActive = true) :
    ∀ other ∈ s.jobs.eraseIdx i, other.isActive = false := by
  intro other hother
  obtain ⟨j, hne, hj⟩ := List.mem_eraseIdx_iff_getElem?.mp hother
  obtain ⟨hilt, higet⟩ := List.getElem?_eq_some_iff.mp hi
  obtain ⟨hjlt, hjget⟩ := List.getElem?_eq_some_iff.mp hj
  have hone := List.pairwise_iff_getElem.mp h.one
  rcases Nat.lt_or_gt_of_ne hne with hlt | hlt
  · have hpair := hone j i hjlt hilt hlt
    rwa [hjget, higet, hactive, Bool.and_true] at hpair
  · have hpair := hone i j hilt hjlt hlt
    rwa [hjget, higet, hactive, Bool.true_and] at hpair

/-- A job that is told to stop before its start is none to wait for. -/
theorem idle_of_cancel (h : Exclusion s) (hnative : s.jobs.any (·.inNative) = false) :
    ∀ job ∈ s.cancelGenerationJob.jobs, job.isActive = false := by
  intro job hjob
  obtain ⟨old, hold, rfl⟩ := List.mem_map.mp hjob
  have hlaunched : old.inNative = false := by
    simpa using List.any_eq_false.mp hnative old hold
  have hpoint : old.point = .launched := by simpa [GenerationJob.inNative] using hlaunched
  cases hactive : old.isActive with
  | true =>
    rw [if_pos (h.current old hold hactive)]
    simp [GenerationJob.isActive, GenerationJob.inNative, hpoint]
  | false =>
    split
    next => simp [GenerationJob.isActive, GenerationJob.inNative, hpoint]
    next => exact hactive

theorem not_inNative_of_idle (h : s.jobs.any (·.isActive) = false) :
    s.jobs.any (·.inNative) = false := by
  rw [List.any_eq_false] at h ⊢
  intro job hjob hnative
  exact h job hjob (inNative_isActive hnative)

theorem launchGeneration_exclusion (h : s.jobs.any (·.isActive) = false) (prompt : Bytes)
    (maxTokens : Nat) : Exclusion (s.launchGeneration prompt maxTokens) := by
  have hidle : ∀ job ∈ s.jobs, job.isActive = false := by simpa using List.any_eq_false.mp h
  unfold launchGeneration
  split
  next => exact .of_idle (by simpa using hidle)
  next =>
    constructor
    · intro job _ _
      simp
    · intro job hjob hactive
      simp only [updateState_jobs, updateState_nextId, List.mem_append, List.mem_singleton] at hjob
      rcases hjob with hjob | rfl
      · rw [hidle job hjob] at hactive
        cases hactive
      · simp
    · simp only [updateState_jobs, updateState_nextId, List.pairwise_append]
      refine ⟨?_, List.pairwise_singleton _ _, ?_⟩
      · refine List.pairwise_of_forall_mem_list fun a ha b _ => ?_
        rw [hidle a ha, Bool.false_and]
      · intro a ha b _
        rw [hidle a ha, Bool.false_and]

/-- A step of the bridge without an active job: only a call of `generate` can launch one. -/
theorem step_of_idle {e : Event} (h : s.jobs.any (·.isActive) = false) (hs : s.step e = some t) :
    Exclusion t := by
  have hidle : ∀ job ∈ s.jobs, job.isActive = false := by simpa using List.any_eq_false.mp h
  have hall : Exclusion s := .of_idle hidle
  cases e with
  | init failure =>
    cases Option.some.inj hs
    refine .of_idle ?_
    unfold init
    split
    next => exact hidle
    next => cases failure <;> simpa using hidle
  | recoverFromError failure =>
    cases Option.some.inj hs
    refine .of_idle ?_
    unfold recoverFromError init
    split
    next => exact hidle
    next =>
      split
      next => simpa using hidle
      next => cases failure <;> simpa using hidle
  | loadModel path result =>
    cases Option.some.inj hs
    refine .of_idle ?_
    unfold loadModel
    split
    next => simpa using hidle
    next =>
      dsimp only
      split <;> simpa using hidle
  | unloadModel => cases Option.some.inj hs; exact .of_idle hidle
  | generate prompt => cases Option.some.inj hs; exact launchGeneration_exclusion h prompt 256
  | generateWithMaxTokens prompt maxTokens =>
    cases Option.some.inj hs
    exact launchGeneration_exclusion h prompt maxTokens
  | stopGeneration =>
    cases Option.some.inj hs
    refine .of_idle ?_
    simpa [stopGeneration] using idle_of_cancel hall (not_inNative_of_idle h)
  | release =>
    cases Option.some.inj hs
    refine .of_idle ?_
    simpa [release, stopGeneration] using idle_of_cancel hall (not_inNative_of_idle h)
  | setSystemPrompt prompt => cases Option.some.inj hs; exact .of_idle hidle
  | addToHistory role content => cases Option.some.inj hs; exact .of_idle hidle
  | clearContext acquired => cases Option.some.inj hs; exact .of_idle hidle
  | start i =>
    obtain ⟨job, hi, hs⟩ := Option.bind_eq_some_iff.mp hs
    have hjob := hidle job (List.mem_of_getElem? hi)
    split at hs
    next hpoint =>
      split at hs
      next =>
        cases Option.some.inj hs
        exact .of_idle fun other hother => hidle other (List.mem_of_mem_eraseIdx hother)
      next hcancelled => simp [GenerationJob.isActive, hcancelled] at hjob
    next => cases hs
  | buildPrompt i =>
    obtain ⟨job, hi, hs⟩ := Option.bind_eq_some_iff.mp hs
    have hjob := hidle job (List.mem_of_getElem? hi)
    split at hs
    next hpoint => simp [GenerationJob.isActive, GenerationJob.inNative, hpoint] at hjob
    next => cases hs
  | finish i =>
    obtain ⟨job, hi, hs⟩ := Option.bind_eq_some_iff.mp hs
    split at hs
    next => cases hs
    next =>
      cases Option.some.inj hs
      refine .of_idle fun other hother => hidle other ?_
      simp only [updateState_jobs] at hother
      exact List.mem_of_mem_eraseIdx hother

theorem busy_of_any (h : Exclusion s) (hany : s.jobs.any (·.isActive) = true) :
    s.currentState = .busy := by
  obtain ⟨job, hjob, hactive⟩ := List.any_eq_true.mp hany
  exact h.busy job hjob hactive

theorem step_exclusion {e : Event} (h : Exclusion s) (hok : s.keepsBusy e = true)
    (hs : s.step e = some t) : Exclusion t := by
  cases hany : s.jobs.any (·.isActive) with
  | false => exact step_of_idle hany hs
  | true =>
    have hbusy := busy_of_any h hany
    simp only [keepsBusy, hany, Bool.not_true, Bool.false_or] at hok
    cases e with
    | init failure => cases hok
    | recoverFromError failure =>
      cases Option.some.inj hs
      simpa [recoverFromError, hbusy] using h
    | loadModel path result => cases hok
    | unloadModel => cases Option.some.inj hs; exact h.of_sublist (List.Sublist.refl _) rfl rfl
    | generate prompt => cases hok
    | generateWithMaxTokens prompt maxTokens => cases hok
    | stopGeneration =>
      cases Option.some.inj hs
      refine .of_idle ?_
      simpa [stopGeneration] using idle_of_cancel h (by simpa using hok)
    | release =>
      cases Option.some.inj hs
      refine .of_idle ?_
      simpa [release, stopGeneration] using idle_of_cancel h (by simpa using hok)
    | setSystemPrompt prompt =>
      cases Option.some.inj hs
      exact h.of_sublist (List.Sublist.refl _) rfl rfl
    | addToHistory role content =>
      cases Option.some.inj hs
      exact h.of_sublist (List.Sublist.refl _) rfl rfl
    | clearContext acquired =>
      cases Option.some.inj hs
      exact h.of_sublist (List.Sublist.refl _) rfl rfl
    | start i =>
      obtain ⟨job, hi, hs⟩ := Option.bind_eq_some_iff.mp hs
      split at hs
      next hpoint =>
        split at hs
        next => cases Option.some.inj hs; exact h.of_sublist (List.eraseIdx_sublist _ _) rfl rfl
        next hcancelled =>
          cases Option.some.inj hs
          exact h.setPoint hi (by simp [GenerationJob.isActive, hcancelled]) nofun
      next => cases hs
    | buildPrompt i =>
      obtain ⟨job, hi, hs⟩ := Option.bind_eq_some_iff.mp hs
      split at hs
      next hpoint =>
        obtain ⟨native, -, rfl⟩ := Option.map_eq_some_iff.mp hs
        have hnative : Exclusion { s with native := native } :=
          h.of_sublist (List.Sublist.refl _) rfl rfl
        refine hnative.setPoint hi ?_ nofun
        simp [GenerationJob.isActive, GenerationJob.inNative, hpoint]
      next => cases hs
    | finish i =>
      obtain ⟨job, hi, hs⟩ := Option.bind_eq_some_iff.mp hs
      split at hs
      next => cases hs
      next hpoint =>
        cases Option.some.inj hs
        refine .of_idle ?_
        rw [updateState_jobs]
        refine h.idle_of_erase hi (inNative_isActive ?_)
        simpa [GenerationJob.inNative] using hpoint

/-- A call made over an active job takes the bridge out of its busy state. -/
theorem step_breaks {e : Event} (h : Exclusion s) (hok : s.keepsBusy e ≠ true)
    (hs : s.step e = some t) : ¬ Exclusive t := by
  rintro ⟨hkept, -⟩
  have hbroken : s.keepsBusy e = false := eq_false_of_ne_true hok
  obtain ⟨hidle, hevent⟩ := Bool.or_eq_false_iff.mp hbroken
  have hany : s.jobs.any (·.isActive) = true := by simpa using hidle
  have hbusy := busy_of_any h hany
  -- the active jobs are still there, so the state must be busy
  have hleft (hjobs : t.jobs = s.jobs) (hstate : t.currentState ≠ .busy) : False := by
    rw [hjobs] at hkept
    exact hstate (hkept hany).1
  have hstopped (hnative : s.jobs.any (·.inNative) = true)
      (hjobs : t.jobs = s.cancelGenerationJob.jobs) (hstate : t.currentState ≠ .busy) : False := by
    refine hstate (hkept ?_).1
    obtain ⟨job, hjob, hin⟩ := List.any_eq_true.mp hnative
    rw [hjobs, List.any_eq_true]
    refine ⟨_, List.mem_map_of_mem hjob, ?_⟩
    split
    next => exact inNative_isActive hin
    next => exact inNative_isActive hin
  cases e with
  | init failure =>
    cases Option.some.inj hs
    refine hleft ?_ ?_
    · cases failure <;> simp [init, hbusy]
    · cases failure <;> simp [init, hbusy]
  | loadModel path result =>
    cases Option.some.inj hs
    exact hleft (by simp [loadModel, hbusy]) (by simp [loadModel, hbusy])
  | generate prompt =>
    cases Option.some.inj hs
    exact hleft (by simp [generate, launchGeneration, notReady, hbusy])
      (by simp [generate, launchGeneration, notReady, hbusy])
  | generateWithMaxTokens prompt maxTokens =>
    cases Option.some.inj hs
    exact hleft (by simp [generateWithMaxTokens, launchGeneration, notReady, hbusy])
      (by simp [generateWithMaxTokens, launchGeneration, notReady, hbusy])
  | stopGeneration =>
    cases Option.some.inj hs
    exact hstopped (by simpa using hevent) (by simp [stopGeneration]) (by simp [stopGeneration])
  | release =>
    cases Option.some.inj hs
    exact hstopped (by simpa using hevent) (by simp [release, stopGeneration]) (by simp [release])
  | _ => cases hevent

/-- Along a run of a new bridge its generations exclude each other, and the bridge says so, exactly
when no call changes its state over an active job and none stops a job in `nativeGenerateStream`. -/
theorem exclusive_iff {es : List Event} {s : LlamaBridge} (hr : run step new es = some s) :
    Always step Exclusive new es ↔ Meets step (fun s e => s.keepsBusy e = true) new es := by
  refine always_iff_meets (I := Exclusion) (fun s h => h.exclusive) ?_ ?_ (.of_idle nofun) hr
  · intro s e t h hok hs
    exact step_exclusion h hok hs
  · intro s e t h hok hs
    exact step_breaks h hok hs

/-- Two generations one after the other; the first is stopped before it starts. -/
def oneAfterTheOther : List Event :=
  [.init none, .loadModel "model.gguf".toList .loaded, .generate (ascii "a"), .stopGeneration,
    .generateWithMaxTokens (ascii "b") 64, .start 0, .start 0, .buildPrompt 0, .finish 0]

theorem exclusive_oneAfterTheOther : Always step Exclusive new oneAfterTheOther := by
  obtain ⟨s, hs⟩ : ∃ s, run step new oneAfterTheOther = some s := ⟨_, rfl⟩
  exact (exclusive_iff hs).mpr (by decide +kernel)

/-- A generation is stopped in the native call, and the next one enters it too. -/
def stoppedInside : List Event :=
  [.init none, .loadModel "model.gguf".toList .loaded, .generate (ascii "a"), .start 0,
    .stopGeneration, .generate (ascii "b"), .start 1]

theorem two_generations_inside : ¬ Always step Exclusive new stoppedInside := by
  intro h
  obtain ⟨s, hs, hexclusive⟩ : ∃ s, run step new stoppedInside = some s ∧ ¬ Exclusive s :=
    ⟨_, rfl, by decide +kernel⟩
  exact hexclusive (always_run h hs)

end HeyNilo.LlamaBridge

import HeyNilo.GenerationHandle
import HeyNilo.Machine
import HeyNilo.VoiceCore
import HeyNilo.VoiceJobs

namespace HeyNilo

open VoicePipeline

namespace VoicePipeline

/-- The kind of a job at its launch. -/
def Task.kind : Task → Option JobKind
  | .record => some .recorder
  | .stt .transcribe => some .stt
  | .provider .start | .legacy .start => some .llm
  | .tts .start => some .tts
  | .completionWait => some .wait
  | _ => none

/-- The last job of a kind among those launched since some id, or else an older one. -/
def newest (since : Nat) (kind : JobKind) (jobs : List Job) (old : Option Nat) : Option Nat :=
  ((jobs.filter fun job => since ≤ job.id && job.task.kind = some kind).getLast?.map Job.id).or old

/-- A launch by what it launches, and no suspension. -/
def Act.isKinded : Act → Bool
  | .launch task => task.kind = none
  | .start kind task => task.kind = some kind
  | .suspend _ _ => false
  | _ => true

/-- The act leaves the jobs of a kind running. -/
def Act.spares (kind : JobKind) : Act → Bool
  | .start other _ | .cancel other | .stop other => other ≠ kind
  | .cancelAll | .suspend _ _ => false
  | _ => true

end VoicePipeline

namespace PipelineCore

def isActive (c : PipelineCore) (handle : Option Nat) : Bool :=
  c.jobs.any fun job => handle = some job.id && !job.cancelled

/-- Ids are not given twice, to jobs or to handles. -/
structure Tidy (c : PipelineCore) : Prop where
  distinct : (c.jobs.map Job.id).Nodup
  given : ∀ id ∈ c.jobs.map Job.id, id < c.nextId
  handles : ∀ kind id, c.handle kind = some id → id < c.nextId
  apart : ∀ kind other id, c.handle kind = some id → c.handle other = some id → kind = other

/-- The job of a kind that was started last, after some acts. -/
def lastStarted (kind : JobKind) : PipelineCore → Option Nat → List Act → Option Nat
  | _, last, [] => last
  | c, last, .start other task :: as =>
    lastStarted kind (c.act (.start other task)) (if other = kind then some c.nextId else last) as
  | c, last, a :: as => lastStarted kind (c.act a) last as

/-- The handle of a kind refers to a job while that job is active. -/
def Owns (c : PipelineCore) (kind : JobKind) (last : Option Nat) : Prop :=
  c.isActive last = true → c.handle kind = last

section

variable {c d : PipelineCore} {kind : JobKind} {last : Option Nat}

theorem isActive_iff (handle : Option Nat) : c.isActive handle = true ↔
    ∃ job ∈ c.jobs, handle = some job.id ∧ job.cancelled = false := by
  simp [isActive]

theorem isActive_of_jobs (h : ∀ job ∈ d.jobs, job.cancelled = false →
      ∃ old ∈ c.jobs, old.id = job.id ∧ old.cancelled = false)
    (hactive : d.isActive last = true) : c.isActive last = true := by
  obtain ⟨job, hmem, hid, hnot⟩ := (isActive_iff last).mp hactive
  obtain ⟨old, hold, holdId, holdNot⟩ := h job hmem hnot
  exact (isActive_iff last).mpr ⟨old, hold, by rw [hid, holdId], holdNot⟩

theorem isActive_launch (task : Task) (hlast : ∀ id, last = some id → id < c.nextId) :
    (c.launch task).isActive last = c.isActive last := by
  unfold isActive launch
  rw [List.any_append]
  have hnew : decide (last = some c.nextId) = false :=
    decide_eq_false fun hid => absurd (hlast c.nextId hid) (Nat.lt_irrefl _)
  simp [hnew]

theorem isActive_enter (newState : PipelineState) :
    (c.enter newState).isActive last = c.isActive last := by
  unfold enter
  split_ifs <;> rfl

theorem handle_enter (newState : PipelineState) : (c.enter newState).handle = c.handle := by
  unfold enter
  split_ifs <;> rfl

theorem nextId_enter (newState : PipelineState) : (c.enter newState).nextId = c.nextId := by
  unfold enter
  split_ifs <;> rfl

theorem jobs_enter (newState : PipelineState) : (c.enter newState).jobs = c.jobs := by
  unfold enter
  split_ifs <;> rfl

theorem isActive_of_cancel (hactive : (c.cancel kind).isActive last = true) :
    c.isActive last = true ∧ c.handle kind ≠ last := by
  obtain ⟨job, hmem, hid, hnot⟩ := (isActive_iff last).mp hactive
  obtain ⟨old, hold, rfl⟩ := List.mem_map.mp hmem
  split at hid
  next hsame =>
    rw [if_pos hsame] at hnot
    cases hnot
  next hother =>
    rw [if_neg hother] at hnot
    exact ⟨(isActive_iff last).mpr ⟨old, hold, hid, hnot⟩, hid ▸ hother⟩

theorem isActive_cancel (hother : c.handle kind ≠ last) (hactive : c.isActive last = true) :
    (c.cancel kind).isActive last = true := by
  obtain ⟨job, hmem, hid, hnot⟩ := (isActive_iff last).mp hactive
  refine (isActive_iff last).mpr ⟨job, List.mem_map.mpr ⟨job, hmem, ?_⟩, hid, hnot⟩
  exact if_neg fun hsame => hother (hsame.trans hid.symm)

theorem isActive_of_suspend {i : Nat} {next : Option Task}
    (hactive : (c.suspend i next).isActive last = true) : c.isActive last = true := by
  refine isActive_of_jobs (fun job hmem hnot => ?_) hactive
  cases next with
  | none => exact ⟨job, List.mem_of_mem_eraseIdx hmem, rfl, hnot⟩
  | some task =>
    obtain ⟨j, hj⟩ := List.mem_iff_getElem?.mp hmem
    have hj : (c.jobs.modify i fun job => { job with task := task })[j]? = some job := hj
    rw [List.getElem?_modify] at hj
    obtain ⟨old, hold, hjob⟩ := Option.map_eq_some_iff.mp hj
    refine ⟨old, List.mem_of_getElem? hold, ?_⟩
    subst hjob
    revert hnot
    split_ifs <;> exact fun hnot => ⟨rfl, hnot⟩

theorem handle_suspend (i : Nat) (next : Option Task) : (c.suspend i next).handle = c.handle := by
  cases next <;> rfl

/-- Acts that do not clear the handle of a kind keep it at the job of that kind started last. -/
theorem Owns.acts {as : List Act} (h : c.Owns kind last)
    (hlast : ∀ id, last = some id → id < c.nextId) (hclear : Act.clear kind ∉ as) :
    (c.acts as).Owns kind (lastStarted kind c last as) := by
  induction as generalizing c last with
  | nil => exact h
  | cons a as ih =>
    have hmore : Act.clear kind ∉ as := fun hmem => hclear (List.mem_cons_of_mem a hmem)
    have hne : a ≠ .clear kind := fun heq => hclear (heq ▸ List.mem_cons_self)
    rw [acts_cons]
    cases a with
    | enter newState =>
      refine ih (fun hactive => ?_) (fun id hid => ?_) hmore
      · have hactive : (c.enter newState).isActive last = true := hactive
        rw [isActive_enter] at hactive
        exact (congrFun (handle_enter newState) kind).trans (h hactive)
      · show id < (c.enter newState).nextId
        rw [nextId_enter]
        exact hlast id hid
    | unguard => exact ih h hlast hmore
    | launch task =>
      refine ih (fun hactive => h ?_) (fun id hid => Nat.lt_succ_of_lt (hlast id hid)) hmore
      exact (isActive_launch task hlast).symm.trans hactive
    | start other task =>
      refine ih (fun hactive => ?_) (fun id hid => ?_) hmore
      · show Function.update c.handle other (some c.nextId) kind = _
        revert hactive
        split
        next hsame =>
          intro _
          rw [hsame, Function.update_self]
        next hother =>
          intro hactive
          rw [Function.update_of_ne (Ne.symm hother)]
          exact h ((isActive_launch task hlast).symm.trans hactive)
      · show id < c.nextId + 1
        split at hid
        next => cases hid; exact Nat.lt_succ_self _
        next => exact Nat.lt_succ_of_lt (hlast id hid)
    | cancel other =>
      refine ih (fun hactive => h ?_) hlast hmore
      exact (isActive_of_cancel hactive).1
    | stop other =>
      refine ih (fun hactive => ?_) hlast hmore
      obtain ⟨hold, hspared⟩ := isActive_of_cancel (c := c) (show (c.cancel other).isActive last = true from hactive)
      have hother : kind ≠ other := fun heq => hspared (heq ▸ h hold)
      show Function.update c.handle other none kind = last
      rw [Function.update_of_ne hother]
      exact h hold
    | clear other =>
      have hother : kind ≠ other := fun heq => hne (heq ▸ rfl)
      refine ih (fun hactive => ?_) hlast hmore
      show Function.update c.handle other none kind = last
      rw [Function.update_of_ne hother]
      exact h hactive
    | cancelAll =>
      refine ih (fun hactive => ?_) hlast hmore
      obtain ⟨job, hmem, hid, hnot⟩ := (isActive_iff last).mp hactive
      obtain ⟨old, -, rfl⟩ := List.mem_map.mp hmem
      cases hnot
    | suspend i next =>
      have hnext : (c.act (.suspend i next)).nextId = c.nextId := by cases next <;> rfl
      refine ih (fun hactive => ?_) (fun id hid => ?_) hmore
      · exact (congrFun (handle_suspend i next) kind).trans (h (isActive_of_suspend hactive))
      · rw [hnext]
        exact hlast id hid

/-- A job that no other handle refers to stays active under acts that spare its kind, while a
cleared handle stays null. -/
theorem lost_acts {as : List Act} (hspares : Only (Act.spares kind) as)
    (hactive : c.isActive last = true) (hlast : ∀ id, last = some id → id < c.nextId)
    (hother : ∀ other, other ≠ kind → c.handle other ≠ last) :
    (c.acts as).isActive last = true ∧
      ((c.handle kind = none ∨ Act.clear kind ∈ as) → (c.acts as).handle kind = none) := by
  induction as generalizing c with
  | nil =>
    refine ⟨hactive, fun h => ?_⟩
    rcases h with h | h
    · exact h
    · cases h
  | cons a as ih =>
    obtain ⟨ha, has⟩ := List.forall_mem_cons.mp hspares
    rw [acts_cons]
    have hgo {d : PipelineCore} (hd : c.act a = d) (hactive : d.isActive last = true)
        (hlast : ∀ id, last = some id → id < d.nextId)
        (hother : ∀ other, other ≠ kind → d.handle other ≠ last)
        (hnull : c.handle kind = none ∨ a = .clear kind → d.handle kind = none) :
        ((c.act a).acts as).isActive last = true ∧
          ((c.handle kind = none ∨ Act.clear kind ∈ a :: as) →
            ((c.act a).acts as).handle kind = none) := by
      rw [hd]
      obtain ⟨hstill, hcleared⟩ := ih has hactive hlast hother
      refine ⟨hstill, fun h => hcleared ?_⟩
      rcases h with h | h
      · exact .inl (hnull (.inl h))
      · rcases List.mem_cons.mp h with h | h
        · exact .inl (hnull (.inr h.symm))
        · exact .inr h
    have hsome : last ≠ none := by
      rintro rfl
      obtain ⟨job, -, hid, -⟩ := (isActive_iff none).mp hactive
      cases hid
    have hupdate {changed : JobKind} {id : Option Nat} (hid : id ≠ last)
        (other : JobKind) (hkind : other ≠ kind) :
        Function.update c.handle changed id other ≠ last := by
      by_cases heq : other = changed
      · rw [heq, Function.update_self]
        exact hid
      · rw [Function.update_of_ne heq]
        exact hother other hkind
    have hkeep {changed : JobKind} {id : Option Nat} (hne : changed ≠ kind)
        (h : c.handle kind = none) : Function.update c.handle changed id kind = none := by
      rw [Function.update_of_ne (Ne.symm hne)]
      exact h
    cases a with
    | enter newState =>
      have hhandle := handle_enter (c := c) newState
      refine hgo rfl ?_ (fun id hid => ?_) (fun other hne => ?_) (fun h => ?_)
      · exact (isActive_enter newState).trans hactive
      · exact (hlast id hid).trans_eq (nextId_enter newState).symm
      · exact fun heq => hother other hne ((congrFun hhandle other).symm.trans heq)
      · exact (congrFun hhandle kind).trans (h.resolve_right fun heq => by cases heq)
    | unguard => exact hgo rfl hactive hlast hother fun h => h.resolve_right fun heq => by cases heq
    | launch task =>
      refine hgo rfl ?_ (fun id hid => Nat.lt_succ_of_lt (hlast id hid)) hother fun h => ?_
      · exact (isActive_launch task hlast).trans hactive
      · exact h.resolve_right fun heq => by cases heq
    | start changed task =>
      have hne : changed ≠ kind := of_decide_eq_true ha
      have hfresh : some c.nextId ≠ last := fun heq => Nat.lt_irrefl _ (hlast c.nextId heq.symm)
      refine hgo rfl ?_ (fun id hid => Nat.lt_succ_of_lt (hlast id hid)) (hupdate hfresh) ?_
      · exact (isActive_launch task hlast).trans hactive
      · exact fun h => hkeep hne (h.resolve_right fun heq => by cases heq)
    | cancel changed =>
      have hne : changed ≠ kind := of_decide_eq_true ha
      refine hgo rfl (isActive_cancel (hother changed hne) hactive) hlast hother fun h => ?_
      exact h.resolve_right fun heq => by cases heq
    | stop changed =>
      have hne : changed ≠ kind := of_decide_eq_true ha
      refine hgo rfl (isActive_cancel (hother changed hne) hactive) hlast (hupdate hsome.symm) ?_
      exact fun h => hkeep hne (h.resolve_right fun heq => by cases heq)
    | clear changed =>
      refine hgo rfl hactive hlast (fun other hne => ?_) (fun h => ?_)
      · exact hupdate hsome.symm other hne
      · show Function.update c.handle changed none kind = none
        by_cases heq : kind = changed
        · rw [heq, Function.update_self]
        · rw [Function.update_of_ne heq]
          exact h.resolve_right fun hclear => heq (Act.clear.inj hclear).symm
    | cancelAll => cases ha
    | suspend i next => cases ha

theorem Tidy.of_sublist (h : c.Tidy) (hids : (d.jobs.map Job.id).Sublist (c.jobs.map Job.id))
    (hnext : d.nextId = c.nextId)
    (hhandle : ∀ kind id, d.handle kind = some id → c.handle kind = some id) : d.Tidy where
  distinct := h.distinct.sublist hids
  given := fun id hid => (h.given id (hids.subset hid)).trans_eq hnext.symm
  handles := fun kind id hid => (h.handles kind id (hhandle kind id hid)).trans_eq hnext.symm
  apart := fun kind other id hkind hother =>
    h.apart kind other id (hhandle kind id hkind) (hhandle other id hother)

theorem Tidy.launch (h : c.Tidy) (task : Task) : (c.launch task).Tidy where
  distinct := by
    show ((c.jobs ++ [(⟨c.nextId, task, c.released⟩ : Job)]).map Job.id).Nodup
    rw [List.map_append, List.nodup_append]
    refine ⟨h.distinct, by simp, fun id hid other hother heq => ?_⟩
    have hnew : other = c.nextId := by simpa using hother
    exact absurd (h.given id hid) (by omega)
  given := fun id hid => by
    have hid : id ∈ (c.jobs ++ [(⟨c.nextId, task, c.released⟩ : Job)]).map Job.id := hid
    rw [List.map_append, List.mem_append] at hid
    show id < c.nextId + 1
    rcases hid with hid | hid
    · exact Nat.lt_succ_of_lt (h.given id hid)
    · have hnew : id = c.nextId := by simpa using hid
      omega
  handles := fun kind id hid => Nat.lt_succ_of_lt (h.handles kind id hid)
  apart := h.apart

theorem Tidy.setHandle_fresh (h : c.Tidy) (task : Task) (kind : JobKind) :
    ((c.launch task).setHandle kind (some c.nextId)).Tidy where
  distinct := (h.launch task).distinct
  given := (h.launch task).given
  handles := fun other id hid => by
    have hid : Function.update c.handle kind (some c.nextId) other = some id := hid
    show id < c.nextId + 1
    by_cases heq : other = kind
    · rw [heq, Function.update_self] at hid
      cases hid
      exact Nat.lt_succ_self _
    · rw [Function.update_of_ne heq] at hid
      exact Nat.lt_succ_of_lt (h.handles other id hid)
  apart := fun first second id hfirst hsecond => by
    have hfirst : Function.update c.handle kind (some c.nextId) first = some id := hfirst
    have hsecond : Function.update c.handle kind (some c.nextId) second = some id := hsecond
    have hold {other : JobKind} (hid : Function.update c.handle kind (some c.nextId) other = some id)
        (hne : other ≠ kind) : c.handle other = some id := by
      rwa [Function.update_of_ne hne] at hid
    have hnew (hid : Function.update c.handle kind (some c.nextId) kind = some id) :
        id = c.nextId := by
      rw [Function.update_self] at hid
      exact (Option.some.inj hid).symm
    by_cases hf : first = kind <;> by_cases hs : second = kind
    · rw [hf, hs]
    · subst hf
      have hlt := h.handles second id (hold hsecond hs)
      exact absurd (hnew hfirst) (by omega)
    · subst hs
      have hlt := h.handles first id (hold hfirst hf)
      exact absurd (hnew hsecond) (by omega)
    · exact h.apart first second id (hold hfirst hf) (hold hsecond hs)

theorem ids_cancel (kind : JobKind) : (c.cancel kind).jobs.map Job.id = c.jobs.map Job.id := by
  show (c.jobs.map _).map Job.id = _
  rw [List.map_map]
  refine List.map_congr_left fun job _ => ?_
  show (if _ then _ else job).id = job.id
  split_ifs <;> rfl

theorem ids_suspend_some (i : Nat) (task : Task) :
    (c.suspend i (some task)).jobs.map Job.id = c.jobs.map Job.id := by
  refine List.ext_getElem? fun j => ?_
  show ((c.jobs.modify i fun job => { job with task := task }).map Job.id)[j]? = _
  rw [List.getElem?_map, List.getElem?_modify, List.getElem?_map]
  cases c.jobs[j]? with
  | none => rfl
  | some job => simp only [Option.map_some]; split_ifs <;> rfl

theorem Tidy.act (h : c.Tidy) (a : Act) : (c.act a).Tidy := by
  have hclear {changed other : JobKind} {id : Nat}
      (hid : Function.update c.handle changed none other = some id) : c.handle other = some id := by
    by_cases heq : other = changed
    · rw [heq, Function.update_self] at hid
      cases hid
    · rwa [Function.update_of_ne heq] at hid
  have hsame (kind : JobKind) (id : Nat) (hid : c.handle kind = some id) : c.handle kind = some id :=
    hid
  cases a with
  | enter newState =>
    refine h.of_sublist (d := c.enter newState) ?_ (nextId_enter newState) fun kind id hid => ?_
    · rw [jobs_enter]
    · rwa [handle_enter] at hid
  | unguard => exact h.of_sublist (d := c.act .unguard) (List.Sublist.refl _) rfl hsame
  | launch task => exact h.launch task
  | start kind task => exact h.setHandle_fresh task kind
  | cancel kind =>
    refine h.of_sublist (d := c.cancel kind) ?_ rfl hsame
    rw [ids_cancel]
  | stop kind =>
    refine h.of_sublist (d := c.act (.stop kind)) ?_ rfl fun _ _ hid => hclear hid
    exact (ids_cancel kind).symm ▸ List.Sublist.refl _
  | clear kind =>
    exact h.of_sublist (d := c.act (.clear kind)) (List.Sublist.refl _) rfl fun _ _ hid => hclear hid
  | cancelAll =>
    refine h.of_sublist (d := c.act .cancelAll) ?_ rfl hsame
    show ((c.jobs.map _).map Job.id).Sublist _
    rw [List.map_map]
    exact List.Sublist.refl _
  | suspend i next =>
    cases next with
    | none =>
      refine h.of_sublist (d := c.suspend i none) ?_ rfl hsame
      exact (List.eraseIdx_sublist c.jobs i).map Job.id
    | some task =>
      refine h.of_sublist (d := c.suspend i (some task)) ?_ rfl hsame
      rw [ids_suspend_some]

theorem Tidy.acts (h : c.Tidy) (as : List Act) : (c.acts as).Tidy := by
  induction as generalizing c with
  | nil => exact h
  | cons a as ih => exact ih (h.act a)

section Newest

variable {since : Nat} {old : Option Nat} {jobs : List Job}

theorem newest_append (job : Job) : newest since kind (jobs ++ [job]) old =
    if since ≤ job.id && job.task.kind = some kind then some job.id
    else newest since kind jobs old := by
  unfold newest
  rw [List.filter_append]
  split
  next hnew => simp [hnew]
  next hnew => simp [hnew]

theorem newest_map {f : Job → Job} (hid : ∀ job, (f job).id = job.id)
    (htask : ∀ job, (f job).task = job.task) :
    newest since kind (jobs.map f) old = newest since kind jobs old := by
  have hsort : ((fun job : Job => decide (since ≤ job.id) && decide (job.task.kind = some kind)) ∘ f) =
      fun job => decide (since ≤ job.id) && decide (job.task.kind = some kind) := by
    funext job
    simp [hid, htask]
  have hids : Job.id ∘ f = Job.id := funext hid
  unfold newest
  rw [List.filter_map, hsort, List.getLast?_map, Option.map_map, hids]

theorem newest_old (h : ∀ job ∈ jobs, job.id < since) : newest since kind jobs old = old := by
  have hnone : (jobs.filter fun job => since ≤ job.id && job.task.kind = some kind) = [] := by
    refine List.filter_eq_nil_iff.mpr fun job hmem hnew => ?_
    have hlt := h job hmem
    simp only [Bool.and_eq_true, decide_eq_true_eq] at hnew
    omega
  unfold newest
  rw [hnone]
  rfl

theorem newest_enter (newState : PipelineState) :
    newest since kind (c.enter newState).jobs old = newest since kind c.jobs old := by
  rw [jobs_enter]

theorem newest_cancel (other : JobKind) :
    newest since kind (c.cancel other).jobs old = newest since kind c.jobs old := by
  refine newest_map (fun job => ?_) (fun job => ?_)
  · split_ifs <;> rfl
  · split_ifs <;> rfl

/-- What some acts start is what a later look at the jobs finds. -/
theorem newest_acts {as : List Act} (hkinds : Only Act.isKinded as) (hsince : since ≤ c.nextId) :
    newest since kind (c.acts as).jobs old =
      lastStarted kind c (newest since kind c.jobs old) as := by
  induction as generalizing c with
  | nil => rfl
  | cons a as ih =>
    obtain ⟨ha, has⟩ := List.forall_mem_cons.mp hkinds
    rw [acts_cons]
    cases a with
    | enter newState =>
      refine (ih (c := c.act (.enter newState)) has ?_).trans ?_
      · exact hsince.trans_eq (nextId_enter newState).symm
      · exact congrArg (lastStarted kind (c.enter newState) · as) (newest_enter newState)
    | unguard => exact ih has hsince
    | launch task =>
      have hkind : task.kind = none := of_decide_eq_true ha
      rw [ih has (Nat.le_succ_of_le hsince)]
      show lastStarted kind (c.launch task) (newest since kind (c.jobs ++ [_]) old) as = _
      rw [newest_append, hkind]
      simp [lastStarted, act]
    | start other task =>
      have hkind : task.kind = some other := of_decide_eq_true ha
      rw [ih has (Nat.le_succ_of_le hsince)]
      show lastStarted kind _ (newest since kind (c.jobs ++ [_]) old) as = _
      rw [newest_append, hkind]
      simp [lastStarted, hsince]
    | cancel other =>
      refine (ih (c := c.cancel other) has hsince).trans ?_
      exact congrArg (lastStarted kind (c.cancel other) · as) (newest_cancel other)
    | stop other =>
      refine (ih (c := c.act (.stop other)) has hsince).trans ?_
      exact congrArg (lastStarted kind (c.act (.stop other)) · as) (newest_cancel other)
    | clear other => exact ih has hsince
    | cancelAll =>
      refine (ih (c := c.act .cancelAll) has hsince).trans ?_
      refine congrArg (lastStarted kind (c.act .cancelAll) · as) ?_
      exact newest_map (fun _ => rfl) (fun _ => rfl)
    | suspend i next => cases ha

theorem ids_acts {as : List Act} (hkinds : Only Act.isKinded as) :
    c.jobs.map Job.id <+: (c.acts as).jobs.map Job.id := by
  induction as generalizing c with
  | nil => exact List.prefix_rfl
  | cons a as ih =>
    obtain ⟨ha, has⟩ := List.forall_mem_cons.mp hkinds
    refine List.IsPrefix.trans ?_ (ih has)
    cases a with
    | enter newState =>
      show _ <+: (c.enter newState).jobs.map Job.id
      rw [jobs_enter]
    | launch task =>
      show _ <+: (c.jobs ++ [_]).map Job.id
      rw [List.map_append]
      exact List.prefix_append _ _
    | start other task =>
      show _ <+: (c.jobs ++ [_]).map Job.id
      rw [List.map_append]
      exact List.prefix_append _ _
    | cancel other =>
      show _ <+: (c.cancel other).jobs.map Job.id
      rw [ids_cancel]
    | stop other =>
      show _ <+: (c.cancel other).jobs.map Job.id
      rw [ids_cancel]
    | cancelAll =>
      show _ <+: (c.jobs.map _).map Job.id
      rw [List.map_map]
      exact List.prefix_rfl
    | unguard => exact List.prefix_rfl
    | clear other => exact List.prefix_rfl
    | suspend i next => cases ha

theorem filter_eraseIdx {α : Type*} {p : α → Bool} {xs : List α} {i : Nat}
    (h : ∀ x, xs[i]? = some x → p x = false) : (xs.eraseIdx i).filter p = xs.filter p := by
  induction xs generalizing i with
  | nil => rfl
  | cons x xs ih =>
    cases i with
    | zero =>
      have hx := h x rfl
      simp [hx]
    | succ i => simp only [List.eraseIdx_cons_succ, List.filter_cons, ih h]

theorem filter_modify {α : Type*} {p : α → Bool} {f : α → α} {xs : List α} {i : Nat}
    (h : ∀ x, xs[i]? = some x → p x = false ∧ p (f x) = false) :
    (xs.modify i f).filter p = xs.filter p := by
  induction xs generalizing i with
  | nil => cases i <;> rfl
  | cons x xs ih =>
    cases i with
    | zero =>
      obtain ⟨hx, hf⟩ := h x rfl
      simp [hx, hf]
    | succ i => simp only [List.modify_succ_cons, List.filter_cons, ih h]

theorem newest_suspend {i : Nat} {next : Option Task}
    (hi : ∀ job, c.jobs[i]? = some job → job.id < since) :
    newest since kind (c.suspend i next).jobs old = newest since kind c.jobs old := by
  have hnot (job : Job) (task : Task) (hjob : c.jobs[i]? = some job) :
      (decide (since ≤ job.id) && decide (task.kind = some kind)) = false := by
    have hlt := hi job hjob
    rw [decide_eq_false (by omega : ¬ since ≤ job.id), Bool.false_and]
  unfold newest
  cases next with
  | none =>
    show (((c.jobs.eraseIdx i).filter _).getLast?.map Job.id).or old = _
    rw [filter_eraseIdx]
    exact fun job hjob => hnot job job.task hjob
  | some task =>
    show (((c.jobs.modify i _).filter _).getLast?.map Job.id).or old = _
    rw [filter_modify]
    exact fun job hjob => ⟨hnot job job.task hjob, hnot job task hjob⟩

end Newest

theorem nextId_acts (as : List Act) : c.nextId ≤ (c.acts as).nextId := by
  induction as generalizing c with
  | nil => exact Nat.le_refl _
  | cons a as ih =>
    refine Nat.le_trans ?_ ih
    cases a with
    | enter newState => exact (nextId_enter newState).ge
    | launch task => exact Nat.le_succ _
    | start kind task => exact Nat.le_succ _
    | suspend i next => cases next <;> exact Nat.le_refl _
    | _ => exact Nat.le_refl _

theorem lastStarted_spared {as : List Act} (h : Only (Act.spares kind) as) :
    lastStarted kind c last as = last := by
  induction as generalizing c with
  | nil => rfl
  | cons a as ih =>
    obtain ⟨ha, has⟩ := List.forall_mem_cons.mp h
    cases a with
    | start other task =>
      show lastStarted kind _ (if other = kind then _ else last) as = last
      rw [if_neg (of_decide_eq_true ha)]
      exact ih has
    | _ => exact ih has

/-- No act makes a job active again. -/
theorem isActive_of_acts {as : List Act} (hlast : ∀ id, last = some id → id < c.nextId)
    (hactive : (c.acts as).isActive last = true) : c.isActive last = true := by
  induction as generalizing c with
  | nil => exact hactive
  | cons a as ih =>
    rw [acts_cons] at hactive
    have hmore (id : Nat) (hid : last = some id) : id < (c.act a).nextId :=
      Nat.lt_of_lt_of_le (hlast id hid) (nextId_acts [a])
    have hone := ih hmore hactive
    cases a with
    | enter newState => exact (isActive_enter newState).symm.trans hone
    | launch task => exact (isActive_launch task hlast).symm.trans hone
    | start kind task => exact (isActive_launch task hlast).symm.trans hone
    | cancel kind => exact (isActive_of_cancel hone).1
    | stop kind => exact (isActive_of_cancel (show (c.cancel kind).isActive _ = true from hone)).1
    | cancelAll =>
      obtain ⟨job, hmem, -, hnot⟩ := (isActive_iff last).mp hone
      obtain ⟨old, -, rfl⟩ := List.mem_map.mp hmem
      cases hnot
    | suspend i next => exact isActive_of_suspend hone
    | unguard => exact hone
    | clear kind => exact hone

theorem isActive_suspend {i : Nat} {next : Option Task}
    (hi : ∀ job, c.jobs[i]? = some job → last ≠ some job.id) (hactive : c.isActive last = true) :
    (c.suspend i next).isActive last = true := by
  obtain ⟨job, hmem, hid, hnot⟩ := (isActive_iff last).mp hactive
  obtain ⟨j, hj⟩ := List.mem_iff_getElem?.mp hmem
  have hne : j ≠ i := fun heq => hi job (heq ▸ hj) hid
  cases next with
  | none =>
    refine (isActive_iff last).mpr ⟨job, ?_, hid, hnot⟩
    exact List.mem_eraseIdx_iff_getElem?.mpr ⟨j, hne, hj⟩
  | some task =>
    refine (isActive_iff last).mpr ⟨job, List.mem_of_getElem? (i := j) ?_, hid, hnot⟩
    show (c.jobs.modify i _)[j]? = some job
    rw [List.getElem?_modify, hj]
    exact congrArg some (if_neg (Ne.symm hne))

theorem not_isActive_erased {i : Nat} {job : Job} (h : c.Tidy) (hjob : c.jobs[i]? = some job) :
    (c.suspend i none).isActive (some job.id) = false := by
  by_contra hactive
  obtain ⟨other, hmem, hid, -⟩ := (isActive_iff _).mp (eq_true_of_ne_false hactive)
  obtain ⟨j, hne, hj⟩ := List.mem_eraseIdx_iff_getElem?.mp hmem
  have hids (k : Nat) : (c.jobs.map Job.id)[k]? = c.jobs[k]?.map Job.id := List.getElem?_map
  have hi := (hids i).trans (congrArg (Option.map Job.id) hjob)
  have hj := (hids j).trans (congrArg (Option.map Job.id) hj)
  have hsame : (c.jobs.map Job.id)[i]? = (c.jobs.map Job.id)[j]? := by
    rw [hi, hj]
    exact hid
  obtain ⟨hlt, -⟩ := List.getElem?_eq_some_iff.mp hi
  exact hne ((List.getElem?_inj hlt h.distinct).mp hsame).symm

end

end PipelineCore

namespace VoicePipeline

open Machine

/-- The jobs of each kind that were started last, and whether the end of a cancelled one has cleared
the flag of a newer one. -/
structure JobHistory where
  latest : JobKind → Option Nat
  flagLost : Bool

/-- A handle refers to an active job that is newer than the one given. -/
def newer (s : VoicePipeline) (job : Job) (handle : Option Nat) : Bool :=
  handle.any (job.id < ·) && s.isActive handle

/-- The step of a cancelled job clears the flag of a newer one. -/
def losesFlag (s t : VoicePipeline) (latest : JobKind → Option Nat) : Event → Bool
  | .run i _ =>
    match s.jobs[i]? with
    | some job =>
      job.cancelled &&
        (s.isStreamingTTSActive && !t.isStreamingTTSActive && t.newer job (latest .tts) ||
          s.isProcessingSTT && !t.isProcessingSTT && t.newer job (latest .stt))
    | none => false
  | _ => false

def JobHistory.next (h : JobHistory) (s : VoicePipeline) (e : Event) : JobHistory :=
  match s.step e with
  | none => h
  | some t =>
    let latest kind := newest s.nextId kind t.jobs (h.latest kind)
    { latest := latest, flagLost := h.flagLost || s.losesFlag t latest e }

/-- The pipeline with the history of its jobs. -/
def watchJobs : VoicePipeline × JobHistory → Event → Option (VoicePipeline × JobHistory) :=
  withHistory step JobHistory.next

/-- The handles of the jobs that transcribe, answer and speak refer to the latest ones while these
are active, and no flag of a newer job was cleared. -/
def HandlesOwned (c : VoicePipeline × JobHistory) : Prop :=
  (∀ kind ∈ [JobKind.stt, .llm, .tts],
    c.1.isActive (c.2.latest kind) = true → c.1.handle kind = c.2.latest kind) ∧
  c.2.flagLost = false

instance (c : VoicePipeline × JobHistory) : Decidable (HandlesOwned c) :=
  inferInstanceAs (Decidable (_ ∧ _))

/-- The `finally` block that comes after a restart which goes through. -/
def restartFinally : AfterRestart → Option JobKind
  | .stt => some .stt
  | .llm .providerNet | .llm .failed => some .llm
  | _ => none

/-- The `finally` block in a step of a coroutine that is not cancelled. -/
def resumeFinally (s : VoicePipeline) : Task → Outcome → Option JobKind
  | .stt .transcribe, .transcription text =>
    if isBlank text && (s.isRestarting || !s.isRunning) then some .stt else none
  | .stt (.transcribed _), .resume _ | .stt .failed, .resume _ => some .stt
  | .provider (.collect _), .ended => if s.isLLMResponseComplete then some .llm else none
  | .provider .net, .resume _ =>
    if isBlank s.finalBubbleText && !(s.isRestarting || !s.isRunning) then none else some .llm
  | .provider .failed, .resume _ => if s.isRestarting || !s.isRunning then some .llm else none
  | .tts .wait, .resume _ => some .tts
  | .tts _, .resume answers =>
    if s.isLLMResponseComplete && !answers.ttsReady then some .tts else none
  | .tts _, .throws => some .tts
  | .recordingDelay (.restart rest), .resume _ => restartFinally rest
  | .restartDelay rest, .resume _ => if s.isRecording then none else restartFinally rest
  | _, _ => none

/-- The `finally` block in the last step of a cancelled coroutine. -/
def cancelledFinally : Task → Outcome → Option JobKind
  | .recordingDelay (.restart rest), _ | .restartDelay rest, _ =>
    match rest with
    | .launched | .llm .legacyNet => none
    | .stt => some .stt
    | .llm _ => some .llm
  | .stt .transcribe, .transcription _ | .stt .transcribe, .throws => some .stt
  | .stt (.transcribed _), _ | .stt .failed, _ => some .stt
  | .provider .start, _ => none
  | .provider _, _ => some .llm
  | .tts .start, _ => none
  | .tts _, _ => some .tts
  | _, _ => none

def finallyOf (s : VoicePipeline) (job : Job) (outcome : Outcome) : Option JobKind :=
  if job.cancelled then cancelledFinally job.task outcome else s.resumeFinally job.task outcome

/-- A `finally` block runs while a newer job of its kind is active, or a cancelled TTS job ends while
a newer segment is processed. -/
def losesJob (s : VoicePipeline) (latest : JobKind → Option Nat) : Event → Bool
  | .run i outcome =>
    match s.jobs[i]? with
    | some job =>
      (s.finallyOf job outcome).any (fun kind =>
        latest kind ≠ some job.id && s.isActive (latest kind)) ||
      (job.cancelled && s.finallyOf job outcome = some .tts && s.isProcessingSTT &&
        s.newer job (latest .stt))
    | none => false
  | _ => false

/-- The kinds whose handles some acts clear. -/
def cleared (as : List Act) : List JobKind :=
  as.filterMap fun
    | .clear kind => some kind
    | _ => none

/-- The acts of calls and frames. -/
def Act.ofCall : Act → Bool
  | .enter _ | .unguard | .stop _ | .clear .recorder | .cancelAll => true
  | .launch task => task.kind = none
  | .start .stt (.stt .transcribe) => true
  | _ => false

section Cleared

variable {s t : VoicePipeline} {kind : JobKind} {as bs : List Act}

theorem mem_cleared : kind ∈ cleared as ↔ Act.clear kind ∈ as := by
  unfold cleared
  rw [List.mem_filterMap]
  constructor
  · rintro ⟨a, hmem, ha⟩
    split at ha
    next => cases ha; exact hmem
    next => cases ha
  · exact fun hmem => ⟨_, hmem, rfl⟩

theorem cleared_append : cleared (as ++ bs) = cleared as ++ cleared bs := List.filterMap_append

theorem cleared_listenActs : cleared s.listenActs = [] := by
  unfold listenActs
  split_ifs <;> rfl

theorem cleared_awaitCompletionActs : cleared s.awaitCompletionActs = [] := by
  unfold awaitCompletionActs
  split_ifs <;> rfl

theorem cleared_afterStreamActs : cleared s.afterStreamActs = [] := by
  unfold afterStreamActs
  split
  next => rfl
  next => exact cleared_awaitCompletionActs

theorem cleared_afterRestartActs (rest : AfterRestart) :
    cleared (s.afterRestartActs rest) = (restartFinally rest).toList := by
  cases rest with
  | launched => rfl
  | stt => rfl
  | llm rest =>
    cases rest with
    | complete isFirstToken => rfl
    | providerNet =>
      show cleared (s.afterStreamActs ++ [.clear .llm]) = _
      rw [cleared_append, cleared_afterStreamActs]
      rfl
    | legacyNet => exact cleared_afterStreamActs
    | failed => rfl

theorem cleared_restartListeningActs (rest : AfterRestart) :
    cleared (s.restartListeningActs rest) =
      if s.isRestarting || !s.isRunning then (restartFinally rest).toList else [] := by
  unfold restartListeningActs
  split
  next => exact cleared_afterRestartActs rest
  next => rfl

theorem cleared_recordNowActs (rest : AfterRecording) : cleared (s.recordNowActs rest) =
    match rest with
    | .restart rest => (restartFinally rest).toList
    | _ => [] := by
  have hrest (u : VoicePipeline) : cleared (u.afterRecordingActs rest) =
      match rest with
      | .restart rest => (restartFinally rest).toList
      | _ => [] := by
    cases rest with
    | launched => rfl
    | restart rest =>
      show cleared (u.listenActs ++ _) = _
      rw [cleared_append, cleared_listenActs, cleared_afterRestartActs]
      rfl
    | newQuestion => rfl
  unfold recordNowActs
  dsimp only
  rw [cleared_append, cleared_listenActs]
  exact hrest _

theorem cleared_startRecordingActs (rest : AfterRecording) : cleared (s.startRecordingActs rest) =
    if s.isRecording then [] else
      match rest with
      | .restart rest => (restartFinally rest).toList
      | _ => [] := by
  unfold startRecordingActs
  split
  next => rfl
  next => exact cleared_recordNowActs rest

theorem cleared_startStreamingTTSActs (ready : Bool) :
    cleared (s.startStreamingTTSActs ready) = [] := by
  unfold startStreamingTTSActs
  split_ifs <;> rfl

theorem cleared_answerActs (ready : Bool) : cleared (s.answerActs ready) = [] := by
  unfold answerActs
  split
  next => exact cleared_startStreamingTTSActs ready
  next => rfl

theorem cleared_startVoiceConversationActs : cleared s.startVoiceConversationActs = [] := by
  unfold startVoiceConversationActs
  split_ifs <;> rfl

theorem cleared_newQuestionGoActs : cleared s.newQuestionGoActs = [] := by
  unfold newQuestionGoActs
  split
  next =>
    rw [cleared_startRecordingActs]
    split_ifs <;> rfl
  next => exact cleared_startVoiceConversationActs

theorem cleared_completeWaitActs : cleared s.completeWaitActs = [] := by
  unfold completeWaitActs
  split
  next => rfl
  next =>
    show cleared (if s.isRecording then [] else _) = []
    split
    next => rfl
    next =>
      rw [cleared_startRecordingActs]
      split_ifs <;> rfl

theorem cleared_safetyNetActs (answers : Answers) (rest : AfterBlank) :
    cleared (s.safetyNetActs answers rest) =
      if isBlank s.finalBubbleText && !(s.isRestarting || !s.isRunning) then []
      else (restartFinally (.llm rest)).toList := by
  unfold safetyNetActs
  split
  next hblank =>
    rw [cleared_restartListeningActs, hblank, Bool.true_and]
    cases s.isRestarting || !s.isRunning <;> rfl
  next hblank =>
    dsimp only
    rw [cleared_append, cleared_answerActs, cleared_afterRestartActs, eq_false_of_ne_true hblank]
    rfl

theorem cleared_providerResponseActs (isFirstToken : Bool) (r : LLMResponse) (answers : Answers) :
    cleared (s.providerResponseActs isFirstToken r answers) = [] := by
  unfold providerResponseActs
  split
  next => rfl
  split
  next => rfl
  split
  next =>
    show cleared (if _ then _ else _) = []
    split
    next =>
      rw [cleared_restartListeningActs]
      split_ifs <;> rfl
    next => exact cleared_answerActs _
  split
  next =>
    show cleared (if _ then _ else _) = []
    split
    next => exact cleared_answerActs _
    next => rfl
  next => rfl

theorem cleared_resumeSTTActs (point : SttPoint) (outcome : Outcome) :
    cleared (s.resumeSTTActs point outcome) = (s.resumeFinally (.stt point) outcome).toList := by
  cases point with
  | transcribe =>
    cases outcome with
    | transcription text =>
      show cleared (if isBlank text then _ else _) = Option.toList (if isBlank text && _ then _ else _)
      split
      next hblank =>
        rw [cleared_restartListeningActs, hblank, Bool.true_and]
        split <;> rfl
      next hblank => rw [eq_false_of_ne_true hblank]; rfl
    | _ => rfl
  | transcribed text =>
    cases outcome with
    | resume answers =>
      show cleared (if s.hasQueue then _ else _) = _
      split
      next =>
        show cleared (s.processWithLLMActs answers.available ++ [.clear .stt]) = _
        have hllm : cleared (s.processWithLLMActs answers.available) = [] := by
          unfold processWithLLMActs
          split_ifs <;> rfl
        rw [cleared_append, hllm]
        rfl
      next => rfl
    | _ => rfl
  | failed => cases outcome <;> rfl

theorem cleared_resumeProviderActs (point : ProviderPoint) (outcome : Outcome) :
    cleared (s.resumeProviderActs point outcome) =
      (s.resumeFinally (.provider point) outcome).toList := by
  cases point with
  | collect isFirstToken =>
    cases outcome with
    | response r answers => exact cleared_providerResponseActs isFirstToken r answers
    | ended =>
      show cleared (if s.isLLMResponseComplete then _ else _) =
        Option.toList (if s.isLLMResponseComplete then _ else _)
      split
      next => rw [cleared_append, cleared_afterStreamActs]; rfl
      next => rfl
    | _ => rfl
  | net =>
    cases outcome with
    | resume answers =>
      refine (cleared_safetyNetActs (s := s.onResponseUpdate s.finalBubbleText true) answers _).trans ?_
      show (if isBlank s.finalBubbleText && !(s.isRestarting || !s.isRunning) then [] else _) =
        Option.toList (if _ then _ else _)
      split <;> rfl
    | _ => rfl
  | failed =>
    cases outcome with
    | resume answers =>
      refine (cleared_restartListeningActs _).trans ?_
      show _ = Option.toList (if _ then _ else _)
      split <;> rfl
    | _ => rfl
  | _ => cases outcome <;> rfl

theorem cleared_resumeLegacyActs (point : LegacyPoint) (outcome : Outcome) :
    cleared (s.resumeLegacyActs point outcome) = [] := by
  unfold resumeLegacyActs
  split
  next =>
    unfold legacyResponseActs
    split_ifs <;> rfl
  next =>
    split
    next => exact cleared_afterStreamActs
    next => rfl
  next =>
    split
    next => exact cleared_answerActs _
    next => rfl
  next =>
    show cleared (if _ then _ else _) = []
    split
    next => rfl
    next => exact cleared_answerActs _
  next =>
    rw [cleared_safetyNetActs]
    split <;> rfl
  next =>
    rw [cleared_restartListeningActs]
    split_ifs <;> rfl
  next => rfl
  next => rfl
  next => rfl
  next => rfl

theorem cleared_resumeTTSActs (point : TtsPoint) (outcome : Outcome) :
    cleared (s.resumeTTSActs point outcome) = (s.resumeFinally (.tts point) outcome).toList := by
  have hloop (ready : Bool) :
      cleared (if s.isLLMResponseComplete && !ready then ttsFinallyActs else []) =
        Option.toList (if s.isLLMResponseComplete && !ready then some .tts else none) := by
    split <;> rfl
  cases point with
  | wait => cases outcome <;> rfl
  | start =>
    cases outcome with
    | resume answers => exact hloop _
    | _ => rfl
  | loop =>
    cases outcome with
    | resume answers => exact hloop _
    | _ => rfl

/-- A step of a coroutine clears the handle of its `finally` block, and no other. -/
theorem cleared_resumeActs (task : Task) (outcome : Outcome) :
    cleared (s.resumeActs task outcome) = (s.resumeFinally task outcome).toList := by
  cases task with
  | stt point => exact cleared_resumeSTTActs point outcome
  | provider point => exact cleared_resumeProviderActs point outcome
  | legacy point => exact cleared_resumeLegacyActs point outcome
  | tts point => exact cleared_resumeTTSActs point outcome
  | startRecording =>
    cases outcome with
    | resume answers =>
      refine (cleared_startRecordingActs _).trans ?_
      split_ifs <;> rfl
    | _ => rfl
  | recordingDelay rest =>
    cases outcome with
    | resume answers =>
      refine (cleared_recordNowActs rest).trans ?_
      cases rest <;> rfl
    | _ => cases rest <;> rfl
  | restartListening =>
    cases outcome with
    | resume answers =>
      refine (cleared_restartListeningActs _).trans ?_
      split_ifs <;> rfl
    | _ => rfl
  | restartDelay rest =>
    cases outcome with
    | resume answers =>
      refine (cleared_startRecordingActs _).trans ?_
      show _ = Option.toList (if s.isRecording then none else restartFinally rest)
      split <;> rfl
    | _ => rfl
  | newQuestion =>
    cases outcome with
    | resume answers =>
      show cleared (if s.isRecording then [] else s.newQuestionGoActs) = []
      split
      next => rfl
      next => exact cleared_newQuestionGoActs
    | _ => rfl
  | newQuestionDelay =>
    cases outcome with
    | resume answers => exact cleared_newQuestionGoActs
    | _ => rfl
  | reinitTTS =>
    cases outcome with
    | resume answers =>
      show cleared (if answers.reinitSuccess then _ else []) = []
      split
      next => exact cleared_startStreamingTTSActs _
      next => rfl
    | _ => rfl
  | awaitCompletion =>
    cases outcome with
    | resume answers => exact cleared_awaitCompletionActs
    | _ => rfl
  | completionWait =>
    cases outcome with
    | resume answers =>
      show cleared (s.resumeCompletionWaitActs answers) = []
      unfold resumeCompletionWaitActs
      split
      next => exact cleared_completeWaitActs
      next => rfl
    | _ => rfl
  | record => cases outcome <;> rfl

theorem cleared_endCancelledActs (task : Task) (outcome : Outcome) :
    cleared (s.endCancelledActs task outcome) = (cancelledFinally task outcome).toList := by
  have hrestart (rest : AfterRestart) : cleared (restartCancelledActs rest) =
      (cancelledFinally (.restartDelay rest) outcome).toList := by
    cases rest with
    | llm rest => cases rest <;> rfl
    | _ => rfl
  cases task with
  | restartDelay rest => exact hrestart rest
  | recordingDelay rest =>
    cases rest with
    | restart rest => exact hrestart rest
    | _ => rfl
  | stt point =>
    cases point with
    | transcribe =>
      cases outcome with
      | transcription text =>
        show cleared (if isBlank text then if _ then _ else _ else _) = [JobKind.stt]
        split
        next =>
          split
          next => rfl
          next hgo =>
            rw [cleared_append, cleared_restartListeningActs, if_neg hgo]
            rfl
        next => rfl
      | _ => rfl
    | _ => cases outcome <;> rfl
  | provider point => cases point <;> rfl
  | legacy point => cases point <;> rfl
  | tts point => cases point <;> rfl
  | _ => rfl

end Cleared

section Spared

variable {s t : VoicePipeline} {kind : JobKind} {as : List Act}

theorem kinded_of_answer (h : Only Act.isAnswer as) : Only Act.isKinded as := by
  refine h.mono fun a ha => ?_
  unfold Act.isAnswer at ha
  split at ha
  next => rfl
  next => rfl
  next => rfl
  next => rfl
  next => rfl
  next => rfl
  next => rfl
  next =>
    unfold Act.isQuiet at ha
    split at ha <;> first | rfl | cases ha

theorem kinded_of_call (h : Only Act.ofCall as) : Only Act.isKinded as := by
  refine h.mono fun a ha => ?_
  unfold Act.ofCall at ha
  split at ha
  next => rfl
  next => rfl
  next => rfl
  next => rfl
  next => rfl
  next => exact ha
  next => rfl
  next => cases ha

theorem spares_of_quiet (hkind : kind = .stt ∨ kind = .llm) (h : Only Act.isQuiet as) :
    Only (Act.spares kind) as := by
  refine h.mono fun a ha => ?_
  unfold Act.isQuiet at ha
  rcases hkind with rfl | rfl
  · split at ha <;> first | rfl | cases ha
  · split at ha <;> first | rfl | cases ha

theorem spares_of_answer (h : Only Act.isAnswer as) : Only (Act.spares .stt) as := by
  refine h.mono fun a ha => ?_
  unfold Act.isAnswer at ha
  split at ha
  next => rfl
  next => rfl
  next => rfl
  next => rfl
  next => rfl
  next => rfl
  next => rfl
  next =>
    unfold Act.isQuiet at ha
    split at ha <;> first | rfl | cases ha

theorem quiet_spared_startStreamingTTSActs (ready : Bool) :
    Only (Act.spares .llm) (s.startStreamingTTSActs ready) :=
  .ite .nil (.ite (.of_all rfl) (.ite .nil (.of_all rfl)))

/-- A step of the provider job neither launches an LLM job nor cancels one. -/
theorem spares_resumeProviderActs (point : ProviderPoint) (outcome : Outcome) :
    Only (Act.spares .llm) (s.resumeProviderActs point outcome) := by
  have hquiet {as : List Act} (h : Only Act.isQuiet as) : Only (Act.spares .llm) as :=
    spares_of_quiet (.inr rfl) h
  have hanswer (u : VoicePipeline) (ready : Bool) : Only (Act.spares .llm) (u.answerActs ready) :=
    .ite (quiet_spared_startStreamingTTSActs ready) .nil
  unfold resumeProviderActs
  split
  next =>
    unfold providerResponseActs
    refine .ite .nil (.ite (.of_all rfl) (.ite ?_ (.ite ?_ .nil)))
    · exact .cons rfl (.ite (hquiet (quiet_restartListeningActs _)) (hanswer _ _))
    · exact .cons rfl (.ite (hanswer _ _) .nil)
  next => exact .ite (hquiet (quiet_afterStreamActs.append (.of_all rfl))) .nil
  next =>
    exact .ite (hquiet (quiet_restartListeningActs _))
      ((hanswer _ _).append (hquiet (quiet_afterRestartActs _)))
  next => exact hquiet (quiet_restartListeningActs _)
  next => exact .nil
  next => exact .nil
  next => exact .of_all rfl
  next => exact .nil

theorem restartFinally_kind {rest : AfterRestart} (h : restartFinally rest = some kind) :
    kind = .stt ∨ kind = .llm := by
  unfold restartFinally at h
  split at h <;> cases h <;> simp

theorem resumeFinally_kind {task : Task} {outcome : Outcome}
    (h : s.resumeFinally task outcome = some kind) :
    kind = .stt ∨ kind = .llm ∧ task.answers = false ∨
      kind = .llm ∧ (∃ point, task = .provider point) ∨ kind = .tts ∧ ∃ point, task = .tts point := by
  have hrestart {rest : AfterRestart} {task : Task} (htask : task.answers = false)
      (h : restartFinally rest = some kind) : kind = .stt ∨ kind = .llm ∧ task.answers = false ∨
        kind = .llm ∧ (∃ point, task = .provider point) ∨ kind = .tts ∧ ∃ point, task = .tts point := by
    rcases restartFinally_kind h with hkind | hkind
    · exact .inl hkind
    · exact .inr (.inl ⟨hkind, htask⟩)
  unfold resumeFinally at h
  split at h
  next =>
    split at h
    next => cases h; exact .inl rfl
    next => cases h
  next => cases h; exact .inl rfl
  next => cases h; exact .inl rfl
  next =>
    split at h
    next => cases h; exact .inr (.inr (.inl ⟨rfl, _, rfl⟩))
    next => cases h
  next =>
    split at h
    next => cases h
    next => cases h; exact .inr (.inr (.inl ⟨rfl, _, rfl⟩))
  next =>
    split at h
    next => cases h; exact .inr (.inr (.inl ⟨rfl, _, rfl⟩))
    next => cases h
  next => cases h; exact .inr (.inr (.inr ⟨rfl, _, rfl⟩))
  next =>
    split at h
    next => cases h; exact .inr (.inr (.inr ⟨rfl, _, rfl⟩))
    next => cases h
  next => cases h; exact .inr (.inr (.inr ⟨rfl, _, rfl⟩))
  next => exact hrestart rfl h
  next =>
    split at h
    next => cases h
    next => exact hrestart rfl h
  next => cases h

theorem cancelledFinally_kind {task : Task} {outcome : Outcome}
    (h : cancelledFinally task outcome = some kind) :
    (kind = .stt ∨ kind = .llm) ∨ kind = .tts ∧ ∃ point, task = .tts point ∧ point ≠ .start := by
  unfold cancelledFinally at h
  split at h
  next => split at h <;> cases h <;> simp
  next => split at h <;> cases h <;> simp
  next => cases h; simp
  next => cases h; simp
  next => cases h; simp
  next => cases h; simp
  next => cases h
  next => cases h; simp
  next => cases h
  next point hstart => cases h; exact .inr ⟨rfl, point, rfl, fun heq => hstart heq⟩
  next => cases h

/-- The step whose `finally` block clears a handle spares the jobs of that kind. -/
theorem spares_resumeActs {task : Task} {outcome : Outcome}
    (h : s.resumeFinally task outcome = some kind) :
    Only (Act.spares kind) (s.resumeActs task outcome) := by
  rcases resumeFinally_kind h with rfl | ⟨rfl, htask⟩ | ⟨rfl, point, rfl⟩ | ⟨rfl, point, rfl⟩
  · exact spares_of_answer (answer_resumeActs task outcome)
  · have hnot : task.answers = false := htask
    exact spares_of_quiet (.inr rfl) (quiet_resumeActs outcome hnot)
  · exact spares_resumeProviderActs point outcome
  · show Only (Act.spares .tts) (s.resumeTTSActs point outcome)
    unfold resumeTTSActs
    split
    next => exact .of_all rfl
    next => exact .ite (.of_all rfl) .nil
    next => exact .of_all rfl
    next => exact .nil

theorem spares_endCancelledActs {task : Task} {outcome : Outcome}
    (h : cancelledFinally task outcome = some kind) :
    Only (Act.spares kind) (s.endCancelledActs task outcome) := by
  rcases cancelledFinally_kind h with hkind | ⟨rfl, point, rfl, -⟩
  · exact spares_of_quiet hkind (quiet_endCancelledActs task outcome)
  · cases point <;> exact .of_all rfl

theorem resumeTTS_done {point : TtsPoint} {answers : Answers} {resumed : Resumed}
    (hr : s.resumeTTS point (.resume answers) = some resumed)
    (h : (if s.isLLMResponseComplete && !answers.ttsReady then some JobKind.tts else none) =
      some kind) : resumed.2 = none := by
  split at h
  next hdone =>
    obtain ⟨hcomplete, hready⟩ := Bool.and_eq_true_iff.mp hdone
    have hready : answers.ttsReady = false := by simpa using hready
    have hloop (hr : (if s.isLLMResponseComplete then
          if answers.ttsReady then some (s, some (Task.tts .wait)) else some (s.ttsFinally, none)
        else some (s, some (.tts .loop))) = some resumed) : resumed.2 = none := by
      rw [if_pos hcomplete, hready] at hr
      cases Option.some.inj hr
      rfl
    cases point with
    | start => exact hloop hr
    | loop => exact hloop hr
    | wait => cases Option.some.inj hr; rfl
  next => cases h

/-- After its `finally` block a coroutine is done. -/
theorem done_of_finally {task : Task} {outcome : Outcome} {resumed : Resumed}
    (hr : s.resume task outcome = some resumed) (h : s.resumeFinally task outcome = some kind) :
    resumed.2 = none := by
  have hafter (u : VoicePipeline) {rest : AfterRestart} (h : restartFinally rest = some kind) :
      (u.afterRestart rest).2 = none := by
    cases rest with
    | llm rest => cases rest <;> first | rfl | cases h
    | _ => rfl
  have hrestart {u : VoicePipeline} {rest : AfterRestart} (hnow : (u.isRestarting || !u.isRunning) = true)
      (h : restartFinally rest = some kind) : (u.restartListening rest).2 = none := by
    unfold restartListening
    split
    next => exact hafter u h
    next hgoing =>
      rw [eq_false_of_ne_true hgoing, Bool.false_or] at hnow
      rw [if_pos hnow]
      exact hafter u h
  unfold resumeFinally at h
  split at h
  next text =>
    split at h
    next hnow =>
      obtain ⟨hblank, hnow⟩ := Bool.and_eq_true_iff.mp hnow
      have hr : (if isBlank text then some (s.restartListening .stt) else _) = some resumed := hr
      rw [if_pos hblank] at hr
      cases Option.some.inj hr
      exact hrestart hnow h
    next => cases h
  next =>
    have hr : (if s.hasQueue then _ else _) = some resumed := hr
    split at hr <;> cases Option.some.inj hr <;> rfl
  next => cases Option.some.inj hr; rfl
  next =>
    split at h
    next hcomplete =>
      have hr : (if s.isLLMResponseComplete then _ else _) = some resumed := hr
      rw [if_pos hcomplete] at hr
      cases Option.some.inj hr
      rfl
    next => cases h
  next answers =>
    split at h
    next => cases h
    next hnow =>
      cases Option.some.inj hr
      have h : restartFinally (.llm .providerNet) = some kind := h
      let u := s.onResponseUpdate s.finalBubbleText true
      show (u.safetyNet answers .providerNet).2 = none
      unfold safetyNet
      split
      next hblank =>
        have hblank : isBlank s.finalBubbleText = true := hblank
        have hgoing : (u.isRestarting || !u.isRunning) = true := by
          show (s.isRestarting || !s.isRunning) = true
          rw [hblank, Bool.true_and, Bool.not_eq_true, Bool.not_eq_false'] at hnow
          exact hnow
        exact hrestart hgoing h
      next => exact hafter _ h
  next =>
    split at h
    next hnow =>
      cases Option.some.inj hr
      exact hrestart hnow h
    next => cases h
  next => cases Option.some.inj hr; rfl
  next => exact resumeTTS_done hr h
  next point =>
    have hr : s.resumeTTS point .throws = some resumed := hr
    cases point <;> cases Option.some.inj hr <;> rfl
  next rest answers =>
    cases Option.some.inj hr
    exact hafter _ h
  next rest answers =>
    split at h
    next => cases h
    next hidle =>
      have hr : some (s.startRecording (.restart rest)) = some resumed := hr
      unfold startRecording at hr
      rw [if_neg hidle] at hr
      cases Option.some.inj hr
      exact hafter _ h
  next => cases h

end Spared

section Calls

variable {s t : VoicePipeline}

theorem calls_submitActs : Only Act.ofCall s.submitActs := .ite .nil (.of_all rfl)

theorem calls_listenActs : Only Act.ofCall s.listenActs := .ite (.of_all rfl) .nil

theorem calls_processSpeechSegmentActs : Only Act.ofCall s.processSpeechSegmentActs :=
  .ite .nil calls_submitActs

theorem calls_endSegmentActs (longEnough : Bool) (speechBuffer : Nat) :
    Only Act.ofCall (s.endSegmentActs longEnough speechBuffer) :=
  .ite calls_submitActs calls_listenActs

theorem calls_stopConversationActs : Only Act.ofCall s.stopConversationActs := by
  refine .ite .nil (.cons rfl (Only.append ?_ (.of_all rfl)))
  exact .ite calls_processSpeechSegmentActs .nil

theorem calls_frameActs (frame : Frame) : Only Act.ofCall (s.frameActs frame) := by
  refine .ite ?_ (.ite (.of_all rfl) .nil)
  unfold vadActs
  split
  next => exact .ite (.of_all rfl) .nil
  next => exact .ite (calls_endSegmentActs _ _) .nil
  next => exact .ite (Only.append (.ite calls_submitActs .nil) calls_listenActs) .nil
  next => exact .ite (calls_endSegmentActs _ _) .nil

theorem calls_stepActs {e : Event} (he : ∀ i outcome, e ≠ .run i outcome) :
    Only Act.ofCall (s.stepActs e) := by
  cases e with
  | startVoiceConversation => exact .ite .nil (.of_all rfl)
  | stopConversation => exact calls_stopConversationActs
  | forceStopAndProcess longEnough =>
    refine .ite ?_ (.ite calls_submitActs calls_stopConversationActs)
    exact .ite .nil (calls_endSegmentActs _ _)
  | frame frame => exact calls_frameActs frame
  | run i outcome => exact absurd rfl (he i outcome)
  | initialized => exact .nil
  | clearResponse => exact .nil
  | _ => exact .of_all rfl

end Calls

section Flags

variable {s t : VoicePipeline}

/-- A flag that is cleared is that of a job whose handle is null after it. -/
structure KeepsFlags (s t : VoicePipeline) : Prop where
  speaking : t.isStreamingTTSActive = s.isStreamingTTSActive ∨ t.streamingTTSJob = none
  processing : t.isProcessingSTT = s.isProcessingSTT ∨ t.sttJob = none

theorem keepsFlags_transitionToState (newState : PipelineState) :
    KeepsFlags s (s.transitionToState newState) := by
  unfold transitionToState setCurrentState
  split_ifs <;> exact ⟨.inl rfl, .inl rfl⟩

theorem streamingTTSJob_transitionToState (newState : PipelineState) :
    (s.transitionToState newState).streamingTTSJob = s.streamingTTSJob := by
  unfold transitionToState setCurrentState
  split_ifs <;> rfl

theorem keepsFlags_sttError : KeepsFlags s (s.transitionToState .error).sttFinally :=
  ⟨(keepsFlags_transitionToState .error).speaking, .inr rfl⟩

theorem keepsFlags_providerCancelled : KeepsFlags s s.providerCancelled := by
  unfold providerCancelled
  split <;> exact ⟨.inl rfl, .inl rfl⟩

theorem keepsFlags_restartCancelled (rest : AfterRestart) :
    KeepsFlags s ({ s with isRestarting := false }.restartCancelled rest) := by
  let u := { s with isRestarting := false }
  have hu {t : VoicePipeline} (h : KeepsFlags u t) : KeepsFlags s t := ⟨h.speaking, h.processing⟩
  cases rest with
  | launched => exact ⟨.inl rfl, .inl rfl⟩
  | stt => exact hu keepsFlags_sttError
  | llm rest =>
    cases rest with
    | complete isFirstToken => exact hu keepsFlags_providerCancelled
    | providerNet => exact hu keepsFlags_providerCancelled
    | legacyNet => exact hu (keepsFlags_transitionToState .error)
    | failed => exact ⟨.inl rfl, .inl rfl⟩

theorem keepsFlags_endSTT (point : SttPoint) (outcome : Outcome) :
    KeepsFlags s (s.endSTT point outcome) := by
  unfold endSTT
  split
  next =>
    split
    next =>
      unfold restartListening
      split_ifs
      · exact ⟨.inl rfl, .inr rfl⟩
      · exact ⟨.inl rfl, .inr rfl⟩
      · let u := { s.resetForRestart with isRestarting := false }
        have hnull : (u.transitionToState .error).streamingTTSJob = none :=
          streamingTTSJob_transitionToState .error
        exact ⟨.inr hnull, .inr rfl⟩
    next => exact keepsFlags_sttError
  next => exact keepsFlags_sttError
  next => exact keepsFlags_sttError
  next => exact ⟨.inl rfl, .inr rfl⟩
  next => exact ⟨.inl rfl, .inl rfl⟩

theorem keepsFlags_endCancelled (task : Task) (outcome : Outcome)
    (h : cancelledFinally task outcome ≠ some .tts) : KeepsFlags s (s.endCancelled task outcome) := by
  unfold endCancelled
  split
  next => exact keepsFlags_restartCancelled _
  next => exact keepsFlags_restartCancelled _
  next => exact keepsFlags_endSTT _ _
  next => exact ⟨.inl rfl, .inl rfl⟩
  next => exact ⟨.inl rfl, .inl rfl⟩
  next => exact keepsFlags_providerCancelled
  next => exact ⟨.inl rfl, .inl rfl⟩
  next => exact ⟨.inl rfl, .inl rfl⟩
  next => exact keepsFlags_transitionToState .error
  next => exact ⟨.inl rfl, .inl rfl⟩
  next point hstart =>
    cases point with
    | start => exact absurd rfl hstart
    | loop => exact absurd rfl h
    | wait => exact absurd rfl h
  next => exact ⟨.inl rfl, .inl rfl⟩

theorem endCancelled_tts {task : Task} {outcome : Outcome}
    (h : cancelledFinally task outcome = some .tts) :
    s.endCancelled task outcome = s.ttsFinally := by
  rcases cancelledFinally_kind h with hkind | ⟨-, point, rfl, hpoint⟩
  · rcases hkind with hkind | hkind <;> cases hkind
  · cases point with
    | start => exact absurd rfl hpoint
    | loop => rfl
    | wait => rfl

end Flags

/-- What the proof keeps in every state. -/
structure Handled (c : VoicePipeline × JobHistory) : Prop where
  tidy : c.1.core.Tidy
  latest : ∀ kind id, c.2.latest kind = some id → id < c.1.nextId
  owned : HandlesOwned c

section Steps

open PipelineCore

variable {s t : VoicePipeline} {h : JobHistory}

theorem newest_of_acts {kind : JobKind} {as : List Act} (hs : Handled (s, h))
    (hkinds : Only Act.isKinded as) :
    newest s.nextId kind (s.core.acts as).jobs (h.latest kind) =
      lastStarted kind s.core (h.latest kind) as := by
  rw [newest_acts hkinds (Nat.le_refl s.nextId), newest_old]
  intro job hmem
  exact hs.tidy.given job.id (List.mem_map_of_mem hmem)

theorem newest_lt {kind : JobKind} {id : Nat} (hs : Handled (s, h)) (htidy : t.core.Tidy)
    (hnext : s.nextId ≤ t.nextId) (hid : newest s.nextId kind t.jobs (h.latest kind) = some id) :
    id < t.nextId := by
  unfold newest at hid
  rcases Option.or_eq_some_iff.mp hid with hnew | ⟨-, hold⟩
  · obtain ⟨job, hlast, rfl⟩ := Option.map_eq_some_iff.mp hnew
    have hmem := (List.mem_filter.mp (List.mem_of_getLast? hlast)).1
    exact htidy.given job.id (List.mem_map_of_mem hmem)
  · exact Nat.lt_of_lt_of_le (hs.latest kind id hold) hnext

theorem owns_iff {kind : JobKind} {last : Option Nat} :
    s.core.Owns kind last ↔ (s.isActive last = true → s.handle kind = last) := Iff.rfl

theorem next_history {e : Event} (hstep : s.step e = some t) :
    h.next s e = ⟨fun kind => newest s.nextId kind t.jobs (h.latest kind),
      h.flagLost || s.losesFlag t (fun kind => newest s.nextId kind t.jobs (h.latest kind)) e⟩ := by
  unfold JobHistory.next
  rw [hstep]

/-- A step of a call or a frame keeps the handles. -/
theorem handled_call {e : Event} (hs : Handled (s, h)) (he : ∀ i outcome, e ≠ .run i outcome)
    (hstep : s.step e = some t) : Handled (t, h.next s e) := by
  have hcore := core_step hstep
  have hcalls := calls_stepActs (s := s) he
  have htidy : t.core.Tidy := hcore ▸ hs.tidy.acts _
  have hnext : s.nextId ≤ t.nextId := by
    show s.core.nextId ≤ t.core.nextId
    rw [hcore]
    exact PipelineCore.nextId_acts _
  rw [next_history hstep]
  refine ⟨htidy, fun kind id hid => newest_lt hs htidy hnext hid, fun kind hkind => ?_, ?_⟩
  · have hclear : Act.clear kind ∉ s.stepActs e := by
      intro hmem
      have hcall := hcalls _ hmem
      simp only [List.mem_cons, List.not_mem_nil, or_false] at hkind
      rcases hkind with rfl | rfl | rfl <;> cases hcall
    have howns := (owns_iff.mpr (hs.owned.1 kind hkind)).acts (hs.latest kind) hclear
    rw [← newest_of_acts hs (kinded_of_call hcalls), ← hcore] at howns
    exact howns
  · show (h.flagLost || _) = false
    rw [hs.owned.2, Bool.false_or]
    cases e with
    | run i outcome => exact absurd rfl (he i outcome)
    | _ => rfl

/-- What a step of a coroutine does to the jobs and their handles. -/
structure RunActs (s t : VoicePipeline) (i : Nat) (job : Job) (outcome : Outcome) (as : List Act)
    (next : Option Task) : Prop where
  core : t.core = (s.core.acts as).suspend i next
  kinded : Only Act.isKinded as
  cleared : cleared as = (s.finallyOf job outcome).toList
  spares : ∀ kind, s.finallyOf job outcome = some kind → Only (Act.spares kind) as
  done : ∀ kind, s.finallyOf job outcome = some kind → next = none
  quiet : job.cancelled = true → Only Act.isQuiet as

theorem run_acts {i : Nat} {job : Job} {outcome : Outcome} (hjob : s.jobs[i]? = some job)
    (hr : s.run i outcome = some t) : ∃ as next, RunActs s t i job outcome as next := by
  have hcore := core_run hr
  have hruns : s.runActs i outcome =
      if job.cancelled then s.endCancelledActs job.task outcome ++ [.suspend i none]
      else
        s.resumeActs job.task outcome ++
          [.suspend i ((s.resume job.task outcome).bind (·.2))] := by
    unfold runActs
    rw [hjob]
  rw [hruns] at hcore
  by_cases hcancelled : job.cancelled = true
  · have hfinally : s.finallyOf job outcome = cancelledFinally job.task outcome :=
      if_pos hcancelled
    rw [if_pos hcancelled, acts_append] at hcore
    refine ⟨s.endCancelledActs job.task outcome, none, hcore, ?_, ?_, ?_, fun _ _ => rfl, fun _ => ?_⟩
    · exact kinded_of_answer (quiet_endCancelledActs _ _).answer
    · rw [hfinally]
      exact cleared_endCancelledActs job.task outcome
    · rw [hfinally]
      exact fun kind hkind => spares_endCancelledActs hkind
    · exact quiet_endCancelledActs _ _
  · have hfinally : s.finallyOf job outcome = s.resumeFinally job.task outcome :=
      if_neg hcancelled
    rw [if_neg hcancelled, acts_append] at hcore
    obtain ⟨other, hother, hr⟩ := Option.bind_eq_some_iff.mp hr
    cases Option.some.inj (hjob.symm.trans hother)
    rw [if_neg hcancelled] at hr
    obtain ⟨resumed, hresume, -⟩ := Option.map_eq_some_iff.mp hr
    refine ⟨s.resumeActs job.task outcome, _, hcore, ?_, ?_, ?_, ?_, fun h => absurd h hcancelled⟩
    · exact kinded_of_answer (answer_resumeActs _ _)
    · rw [hfinally]
      exact cleared_resumeActs job.task outcome
    · rw [hfinally]
      exact fun kind hkind => spares_resumeActs hkind
    · rw [hfinally]
      intro kind hkind
      rw [hresume]
      exact done_of_finally hresume hkind

section Run

variable {i : Nat} {job : Job} {outcome : Outcome} {as : List Act} {next : Option Task}
  {kind : JobKind}

/-- The acts of the step leave the job at its place. -/
theorem RunActs.place (hrun : RunActs s t i job outcome as next) (hjob : s.jobs[i]? = some job) :
    ∃ moved, (s.core.acts as).jobs[i]? = some moved ∧ moved.id = job.id := by
  have hids : (s.core.jobs.map Job.id)[i]? = some job.id := by
    rw [List.getElem?_map]
    exact congrArg (Option.map Job.id) hjob
  have hkept := getElem?_kept (ids_acts hrun.kinded) hids
  rw [List.getElem?_map] at hkept
  exact Option.map_eq_some_iff.mp hkept

theorem RunActs.latest (hs : Handled (s, h)) (hrun : RunActs s t i job outcome as next)
    (hjob : s.jobs[i]? = some job) : newest s.nextId kind t.jobs (h.latest kind) =
      lastStarted kind s.core (h.latest kind) as := by
  obtain ⟨moved, hmoved, hid⟩ := hrun.place hjob
  have hold : job.id < s.nextId :=
    hs.tidy.given job.id (List.mem_map_of_mem (List.mem_of_getElem? hjob))
  show newest s.nextId kind t.core.jobs (h.latest kind) = _
  rw [hrun.core, newest_suspend, newest_of_acts hs hrun.kinded]
  intro other hother
  cases Option.some.inj (hmoved.symm.trans hother)
  rw [hid]
  exact hold

/-- A job of a kind that a `finally` block loses runs on. -/
theorem RunActs.active (hs : Handled (s, h)) (hrun : RunActs s t i job outcome as next)
    (hjob : s.jobs[i]? = some job) (hspares : Only (Act.spares kind) as)
    (hkind : kind ∈ [JobKind.stt, .llm, .tts]) (hactive : s.isActive (h.latest kind) = true)
    (hother : h.latest kind ≠ some job.id) :
    t.isActive (h.latest kind) = true ∧ (Act.clear kind ∈ as → t.handle kind = none) := by
  have howns := hs.owned.1 kind hkind hactive
  obtain ⟨last, -, hlast, -⟩ := (isActive_iff (c := s.core) (h.latest kind)).mp hactive
  have happart (other : JobKind) (hne : other ≠ kind) : s.core.handle other ≠ h.latest kind := by
    intro heq
    exact hne (hs.tidy.apart other kind last.id (heq.trans hlast) (howns.trans hlast))
  obtain ⟨hstill, hcleared⟩ := lost_acts (c := s.core) hspares hactive (hs.latest kind) happart
  obtain ⟨moved, hmoved, hid⟩ := hrun.place hjob
  constructor
  · show t.core.isActive (h.latest kind) = true
    rw [hrun.core]
    refine isActive_suspend (fun other hplace => ?_) hstill
    cases Option.some.inj (hmoved.symm.trans hplace)
    rw [hid]
    exact hother
  · intro hclear
    show t.core.handle kind = none
    rw [hrun.core, handle_suspend]
    exact hcleared (.inr hclear)

theorem RunActs.owns (hs : Handled (s, h)) (hrun : RunActs s t i job outcome as next)
    (hjob : s.jobs[i]? = some job) (hkind : kind ∈ [JobKind.stt, .llm, .tts])
    (hok : s.finallyOf job outcome = some kind →
      h.latest kind = some job.id ∨ s.isActive (h.latest kind) = false) :
    t.isActive (newest s.nextId kind t.jobs (h.latest kind)) = true →
      t.handle kind = newest s.nextId kind t.jobs (h.latest kind) := by
  rw [hrun.latest hs hjob]
  by_cases hfinally : s.finallyOf job outcome = some kind
  · rw [lastStarted_spared (hrun.spares kind hfinally)]
    intro hactive
    have hcore : t.core = (s.core.acts as).suspend i none := hrun.done kind hfinally ▸ hrun.core
    have hactive : ((s.core.acts as).suspend i none).isActive (h.latest kind) = true :=
      hcore ▸ hactive
    rcases hok hfinally with hlast | hidle
    · obtain ⟨moved, hmoved, hid⟩ := hrun.place hjob
      rw [hlast, ← hid, not_isActive_erased (hs.tidy.acts as) hmoved] at hactive
      cases hactive
    · have hold := isActive_of_acts (hs.latest kind) (isActive_of_suspend hactive)
      exact Bool.noConfusion (hidle.symm.trans hold)
  · have hclear : Act.clear kind ∉ as := by
      rw [← mem_cleared, hrun.cleared]
      exact fun hmem => hfinally (Option.mem_toList.mp hmem)
    intro hactive
    have howns := (owns_iff.mpr (hs.owned.1 kind hkind)).acts (hs.latest kind) hclear
    show t.core.handle kind = _
    rw [hrun.core, handle_suspend]
    change t.core.isActive _ = true at hactive
    rw [hrun.core] at hactive
    exact howns (isActive_of_suspend hactive)

theorem finallyOf_kind (h : s.finallyOf job outcome = some kind) :
    kind ∈ [JobKind.stt, .llm, .tts] := by
  unfold finallyOf at h
  split at h
  next =>
    rcases cancelledFinally_kind h with hkind | ⟨hkind, -⟩
    · rcases hkind with rfl | rfl <;> decide
    · rw [hkind]
      decide
  next =>
    rcases resumeFinally_kind h with hkind | ⟨hkind, -⟩ | ⟨hkind, -⟩ | ⟨hkind, -⟩ <;> rw [hkind] <;>
      decide

theorem run_flags (hjob : s.jobs[i]? = some job) (hcancelled : job.cancelled = true)
    (hr : s.run i outcome = some t) :
    (s.finallyOf job outcome = some .tts → t.isProcessingSTT = false) ∧
      (s.finallyOf job outcome ≠ some .tts → KeepsFlags s t) := by
  obtain ⟨other, hother, hr⟩ := Option.bind_eq_some_iff.mp hr
  cases Option.some.inj (hjob.symm.trans hother)
  rw [if_pos hcancelled] at hr
  cases Option.some.inj hr
  have hfinally : s.finallyOf job outcome = cancelledFinally job.task outcome := if_pos hcancelled
  rw [hfinally]
  constructor
  · intro htts
    show (s.endCancelled job.task outcome).isProcessingSTT = false
    rw [endCancelled_tts htts]
    rfl
  · intro htts
    obtain ⟨hspeaking, hprocessing⟩ := keepsFlags_endCancelled (s := s) job.task outcome htts
    exact ⟨hspeaking, hprocessing⟩

theorem newer_iff {handle : Option Nat} : s.newer job handle = true ↔
    ∃ id, handle = some id ∧ job.id < id ∧ s.isActive handle = true := by
  unfold newer
  cases handle with
  | none => simp
  | some id => simp

/-- What is newer after the step was so before it. -/
theorem RunActs.newer (hs : Handled (s, h)) (hrun : RunActs s t i job outcome as next)
    (hjob : s.jobs[i]? = some job) (hspares : Only (Act.spares kind) as)
    (hnewer : t.newer job (newest s.nextId kind t.jobs (h.latest kind)) = true) :
    s.newer job (h.latest kind) = true := by
  rw [hrun.latest hs hjob, lastStarted_spared hspares] at hnewer
  obtain ⟨id, hid, hlt, hactive⟩ := newer_iff.mp hnewer
  have hactive : t.core.isActive (h.latest kind) = true := hactive
  rw [hrun.core] at hactive
  have hold := isActive_of_acts (hs.latest kind) (isActive_of_suspend hactive)
  exact newer_iff.mpr ⟨id, hid, hlt, hold⟩

/-- The end of a cancelled job that loses no handle clears no flag of a newer job either. -/
theorem RunActs.keepsFlag {latest : JobKind → Option Nat} (hs : Handled (s, h))
    (hrun : RunActs s t i job outcome as next) (hjob : s.jobs[i]? = some job)
    (hlatest : latest = fun kind => newest s.nextId kind t.jobs (h.latest kind))
    (howned : ∀ kind ∈ [JobKind.stt, .llm, .tts],
      t.isActive (latest kind) = true → t.handle kind = latest kind)
    (hok : s.losesJob h.latest (.run i outcome) = false) (hr : s.run i outcome = some t) :
    s.losesFlag t latest (.run i outcome) = false := by
  unfold losesFlag
  dsimp only
  rw [hjob]
  dsimp only
  by_cases hcancelled : job.cancelled = true
  · obtain ⟨-, hkeeps⟩ := run_flags hjob hcancelled hr
    subst hlatest
    by_contra hlost
    have hlost := eq_true_of_ne_false hlost
    simp only [hcancelled, Bool.true_and, Bool.or_eq_true, Bool.and_eq_true,
      Bool.not_eq_true'] at hlost
    -- a TTS job that ends clears both flags; the others leave the handle of a cleared flag null
    by_cases htts : s.finallyOf job outcome = some .tts
    · have hbad : s.losesJob h.latest (.run i outcome) = true := by
        unfold losesJob
        dsimp only
        rw [hjob]
        dsimp only
        rw [htts]
        rcases hlost with ⟨-, hnewer⟩ | ⟨⟨hbusy, -⟩, hnewer⟩
        · have hold := hrun.newer hs hjob (hrun.spares .tts htts) hnewer
          obtain ⟨id, hid, hlt, hactive⟩ := newer_iff.mp hold
          have hne : h.latest .tts ≠ some job.id := by
            rw [hid]
            exact fun heq => Nat.lt_irrefl id (Option.some.inj heq ▸ hlt)
          simp [hne, hactive]
        · have hspares := spares_of_quiet (.inl rfl) (hrun.quiet hcancelled)
          have hold := hrun.newer hs hjob hspares hnewer
          simp [hcancelled, hbusy, hold]
      rw [hok] at hbad
      cases hbad
    · obtain ⟨hspeaking, hprocessing⟩ := hkeeps htts
      rcases hlost with ⟨⟨hactive, hlost⟩, hnewer⟩ | ⟨⟨hactive, hlost⟩, hnewer⟩
      · obtain ⟨id, hid, -, hruns⟩ := newer_iff.mp hnewer
        rcases hspeaking with hsame | hnull
        · rw [hsame, hactive] at hlost
          cases hlost
        · have hhandle := howned .tts (by decide) hruns
          exact Option.some_ne_none id (hid.symm.trans (hhandle.symm.trans hnull))
      · obtain ⟨id, hid, -, hruns⟩ := newer_iff.mp hnewer
        rcases hprocessing with hsame | hnull
        · rw [hsame, hactive] at hlost
          cases hlost
        · have hhandle := howned .stt (by decide) hruns
          exact Option.some_ne_none id (hid.symm.trans (hhandle.symm.trans hnull))
  · rw [eq_false_of_ne_true hcancelled, Bool.false_and]

end Run

/-- A step of a coroutine keeps the handles unless its `finally` block loses a job. -/
theorem handled_run {i : Nat} {outcome : Outcome} (hs : Handled (s, h))
    (hok : s.losesJob h.latest (.run i outcome) = false) (hr : s.run i outcome = some t) :
    Handled (t, h.next s (.run i outcome)) := by
  have hcore := core_run hr
  have htidy : t.core.Tidy := hcore ▸ hs.tidy.acts _
  have hnext : s.nextId ≤ t.nextId := by
    show s.core.nextId ≤ t.core.nextId
    rw [hcore]
    exact PipelineCore.nextId_acts _
  obtain ⟨job, hjob, -⟩ := Option.bind_eq_some_iff.mp hr
  obtain ⟨as, next, hrun⟩ := run_acts hjob hr
  rw [next_history (e := .run i outcome) hr]
  have howned (kind : JobKind) (hkind : kind ∈ [JobKind.stt, .llm, .tts]) :
      t.isActive (newest s.nextId kind t.jobs (h.latest kind)) = true →
        t.handle kind = newest s.nextId kind t.jobs (h.latest kind) := by
    refine hrun.owns hs hjob hkind fun hfinally => ?_
    by_contra hnot
    obtain ⟨hne, hactive⟩ := not_or.mp hnot
    have hbad : s.losesJob h.latest (.run i outcome) = true := by
      unfold losesJob
      dsimp only
      rw [hjob]
      dsimp only
      rw [hfinally]
      simp [hne, eq_true_of_ne_false hactive]
    rw [hok] at hbad
    cases hbad
  refine ⟨htidy, fun kind id hid => newest_lt hs htidy hnext hid, howned, ?_⟩
  show (h.flagLost || _) = false
  rw [hs.owned.2, Bool.false_or]
  exact hrun.keepsFlag hs hjob rfl howned hok hr

theorem not_owned_run {i : Nat} {outcome : Outcome} (hs : Handled (s, h))
    (hbad : ¬ s.losesJob h.latest (.run i outcome) = false) (hr : s.run i outcome = some t) :
    ¬ HandlesOwned (t, h.next s (.run i outcome)) := by
  obtain ⟨job, hjob, -⟩ := Option.bind_eq_some_iff.mp hr
  obtain ⟨as, next, hrun⟩ := run_acts hjob hr
  have hbad := eq_true_of_ne_false hbad
  unfold losesJob at hbad
  dsimp only at hbad
  rw [hjob] at hbad
  dsimp only at hbad
  rw [next_history (e := .run i outcome) hr]
  intro howned
  rcases Bool.or_eq_true_iff.mp hbad with hlost | hlost
  · cases hfinally : s.finallyOf job outcome with
    | none =>
      rw [hfinally] at hlost
      cases hlost
    | some kind =>
      rw [hfinally] at hlost
      have hlost : (h.latest kind ≠ some job.id && s.isActive (h.latest kind)) = true := hlost
      obtain ⟨hne, hactive⟩ := Bool.and_eq_true_iff.mp hlost
      have hspares := hrun.spares kind hfinally
      have hkind := finallyOf_kind hfinally
      obtain ⟨hstill, hnull⟩ :=
        hrun.active hs hjob hspares hkind hactive (of_decide_eq_true hne)
      have hclear : Act.clear kind ∈ as := by
        rw [← mem_cleared, hrun.cleared, hfinally]
        exact List.mem_singleton_self kind
      have hlatest : newest s.nextId kind t.jobs (h.latest kind) = h.latest kind := by
        rw [hrun.latest hs hjob, lastStarted_spared hspares]
      have hhandle := howned.1 kind hkind
      dsimp only at hhandle
      rw [hlatest] at hhandle
      have hnone := (hhandle hstill).symm.trans (hnull hclear)
      rw [hnone] at hstill
      obtain ⟨last, -, hlast, -⟩ := (isActive_iff (c := t.core) none).mp hstill
      cases hlast
  · simp only [Bool.and_eq_true, decide_eq_true_eq] at hlost
    obtain ⟨⟨⟨hcancelled, hfinally⟩, hbusy⟩, hnewer⟩ := hlost
    have hspares : Only (Act.spares .stt) as := spares_of_quiet (.inl rfl) (hrun.quiet hcancelled)
    obtain ⟨hlt, hactive⟩ := Bool.and_eq_true_iff.mp hnewer
    have hne : h.latest .stt ≠ some job.id := by
      intro heq
      rw [heq] at hlt
      exact Nat.lt_irrefl job.id (of_decide_eq_true hlt)
    obtain ⟨hstill, -⟩ := hrun.active hs hjob hspares (by decide) hactive hne
    have hlatest : newest s.nextId .stt t.jobs (h.latest .stt) = h.latest .stt := by
      rw [hrun.latest hs hjob, lastStarted_spared hspares]
    have hcleared : t.isProcessingSTT = false :=
      (run_flags hjob hcancelled hr).1 hfinally
    have hflag : (h.flagLost || s.losesFlag t
        (fun kind => newest s.nextId kind t.jobs (h.latest kind)) (.run i outcome)) = false :=
      howned.2
    rw [hs.owned.2, Bool.false_or] at hflag
    unfold losesFlag at hflag
    dsimp only at hflag
    rw [hjob] at hflag
    dsimp only at hflag
    rw [hcancelled, hbusy, hcleared, hlatest] at hflag
    unfold newer at hflag
    rw [hlt, hstill] at hflag
    simp at hflag

end Steps

/-- The handles of the pipeline refer to their latest jobs while these are active, and no flag of a
newer job is cleared, exactly in the runs in which no `finally` block loses a job; and
`currentGenerationJob` does in those in which no flow ends while its latest job is active. -/
theorem handles_owned_iff {hasProvider hasQueue : Bool} {es : List Event}
    {t : VoicePipeline × JobHistory} {gs : List GenerationEvent} {g : GenerationJobs}
    (hr : Machine.run watchJobs (start hasProvider hasQueue, ⟨fun _ => none, false⟩) es = some t)
    (hg : Machine.run GenerationJobs.step .start gs = some g) :
    (Always watchJobs HandlesOwned (start hasProvider hasQueue, ⟨fun _ => none, false⟩) es ↔
      Meets watchJobs (fun c e => c.1.losesJob c.2.latest e = false)
        (start hasProvider hasQueue, ⟨fun _ => none, false⟩) es) ∧
    (Always GenerationJobs.step GenerationJobs.Owned .start gs ↔
      Meets GenerationJobs.step (fun g e => g.losesHandle e = false) .start gs) := by
  refine ⟨?_, GenerationJobs.always_owned_iff hg⟩
  refine always_iff_meets (I := Handled) (fun c hc => hc.owned) ?_ ?_ ?_ hr
  · rintro ⟨s, h⟩ e ⟨u, h'⟩ hs hok hnext
    obtain ⟨hstep, rfl⟩ := withHistory_iff.mp hnext
    cases e with
    | run i outcome => exact handled_run hs hok hstep
    | _ => exact handled_call hs (fun _ _ heq => by cases heq) hstep
  · rintro ⟨s, h⟩ e ⟨u, h'⟩ hs hbad hnext
    obtain ⟨hstep, rfl⟩ := withHistory_iff.mp hnext
    cases e with
    | run i outcome => exact not_owned_run hs hbad hstep
    | _ => exact absurd rfl hbad
  · refine ⟨⟨List.nodup_nil, fun id hid => ?_, fun kind id hid => ?_, fun kind other id hid => ?_⟩,
      fun kind id hid => ?_, fun kind hkind hactive => ?_, rfl⟩
    · cases hid
    · cases kind <;> cases hid
    · cases kind <;> cases hid
    · cases hid
    · cases hactive

/-- An answer that comes to its end, and a generation that ends before its flow. -/
theorem handles_owned_answer :
    Always watchJobs HandlesOwned (start true true, ⟨fun _ => none, false⟩)
      [.initialized, .startVoiceConversation,
        .frame ⟨512, .speechStart, false, true, false, false⟩,
        .frame ⟨512, .speechEnd, false, true, false, false⟩,
        .run 1 (.transcription ['a']), .run 1 (.resume { available := true }),
        .run 1 (.resume {}), .run 1 (.response (.streaming ['b']) {}),
        .run 1 (.response (.streaming ['b']) {}), .run 1 (.resume {}),
        .run 1 (.response (.completed ['b']) { ttsReady := true }),
        .run 1 (.resume {}), .run 1 .ended] ∧
    Always GenerationJobs.step GenerationJobs.Owned .start
      [.stream, .launch 0, .jobEnds 0, .finish 0] :=
  have howned := handles_owned_iff rfl rfl
  ⟨howned.1.mpr (by decide), howned.2.mpr (by decide)⟩

/-- A new question cancels the provider job of the old one, whose `finally` block comes when the new
job runs: no handle refers to that one any more. -/
theorem new_answer_lost : ∃ s t,
    Machine.run watchJobs (start true true, ⟨fun _ => none, false⟩)
      [.initialized, .startVoiceConversation,
        .frame ⟨512, .speechStart, false, true, false, false⟩,
        .frame ⟨512, .speechEnd, false, true, false, false⟩,
        .run 1 (.transcription ['a']), .run 1 (.resume { available := true }), .run 1 (.resume {}),
        .restartForNewQuestion, .run 2 (.resume {}),
        .frame ⟨512, .speechStart, false, true, false, false⟩,
        .frame ⟨512, .speechEnd, false, true, false, false⟩,
        .run 3 (.transcription ['b']), .run 3 (.resume { available := true })] = some s ∧
    watchJobs s (.run 1 .throws) = some t ∧
    t.1.isActive (t.2.latest .llm) = true ∧ t.1.llmProviderJob = none ∧ ¬ HandlesOwned t :=
  ⟨_, _, rfl, rfl, rfl, rfl, by decide⟩

end VoicePipeline

end HeyNilo

import HeyNilo.KotlinText
import HeyNilo.Machine
import Mathlib.Logic.Function.Basic

namespace HeyNilo

/-- Where a job stands: its download goes on, it has been cancelled before its handler ran, it has
removed the entry after a success and is about to report it, or it runs nothing more that matters. -/
inductive JobPhase where
  | downloading
  | cancelled
  | reporting
  | done
deriving DecidableEq, Repr

structure DownloadJob where
  model : Text
  phase : JobPhase
deriving DecidableEq, Repr

/-- What the main thread is in the middle of: `startDownload` between the launch of the job and its
registration, or `cancelDownload` between the cancellation and the removal. -/
inductive MainThread where
  | idle
  | starting (model : Text) (job : Nat)
  | cancelling (model : Text)
deriving DecidableEq, Repr

/-- The jobs that were launched, and `activeDownloads`. -/
structure ActiveDownloads where
  jobs : List DownloadJob
  activeDownloads : Text → Option Nat
  mainThread : MainThread

namespace ActiveDownloads

def start : ActiveDownloads := ⟨[], fun _ => none, .idle⟩

inductive Event where
  /-- `startDownload` up to the launch, and its last line. -/
  | launch (model : Text)
  | register
  /-- The first two lines of `cancelDownload`. -/
  | cancel (model : Text)
  | remove
  /-- The download has ended well, and the entry is removed. -/
  | complete (job : Nat)
  /-- An exception; its handler removes the entry. -/
  | fail (job : Nat)
  /-- The handler of a cancelled job, or of one whose report throws, removes the entry. -/
  | handle (job : Nat)
  /-- The job ends without a handler: it has reported, or was cancelled before it ran. -/
  | finish (job : Nat)
deriving DecidableEq, Repr

def setPhase (s : ActiveDownloads) (job : Nat) (phase : JobPhase) : ActiveDownloads :=
  { s with jobs := s.jobs.modify job fun j => { j with phase } }

/-- `activeDownloads[model.id] = job` -/
def putEntry (s : ActiveDownloads) (model : Text) (job : Nat) : ActiveDownloads :=
  { s with activeDownloads := Function.update s.activeDownloads model (some job) }

/-- `activeDownloads.remove(modelId)` -/
def removeEntry (s : ActiveDownloads) (model : Text) : ActiveDownloads :=
  { s with activeDownloads := Function.update s.activeDownloads model none }

/-- `Job.cancel` -/
def cancelJob (s : ActiveDownloads) (job : Nat) : ActiveDownloads :=
  match s.jobs[job]? with
  | some ⟨_, .downloading⟩ => s.setPhase job .cancelled
  | _ => s

def step (s : ActiveDownloads) : Event → Option ActiveDownloads
  | .launch model =>
    match s.mainThread with
    | .idle =>
      some { s with
        jobs := s.jobs ++ [⟨model, .downloading⟩]
        mainThread := .starting model s.jobs.length }
    | _ => none
  | .register =>
    match s.mainThread with
    | .starting model job => some { s.putEntry model job with mainThread := .idle }
    | _ => none
  | .cancel model =>
    match s.mainThread with
    | .idle =>
      let cancelled :=
        match s.activeDownloads model with
        | some job => s.cancelJob job
        | none => s
      some { cancelled with mainThread := .cancelling model }
    | _ => none
  | .remove =>
    match s.mainThread with
    | .cancelling model => some { s.removeEntry model with mainThread := .idle }
    | _ => none
  | .complete job =>
    match s.jobs[job]? with
    | some ⟨model, .downloading⟩ | some ⟨model, .cancelled⟩ =>
      some ((s.setPhase job .reporting).removeEntry model)
    | _ => none
  | .fail job =>
    match s.jobs[job]? with
    | some ⟨model, .downloading⟩ | some ⟨model, .cancelled⟩ =>
      some ((s.setPhase job .done).removeEntry model)
    | _ => none
  | .handle job =>
    match s.jobs[job]? with
    | some ⟨model, .cancelled⟩ | some ⟨model, .reporting⟩ =>
      some ((s.setPhase job .done).removeEntry model)
    | _ => none
  | .finish job =>
    match s.jobs[job]? with
    | some ⟨_, .cancelled⟩ | some ⟨_, .reporting⟩ => some (s.setPhase job .done)
    | _ => none

def modelOf (s : ActiveDownloads) (job : Nat) : Option Text := s.jobs[job]?.map (·.model)

/-- The job's download goes on. -/
def isActive (s : ActiveDownloads) (job : Nat) : Bool :=
  s.jobs[job]?.any fun j => j.phase == .downloading

/-- The job is the most recently started one for the model. -/
def IsLatest (s : ActiveDownloads) (model : Text) (job : Nat) : Prop :=
  s.modelOf job = some model ∧ ∀ later, job < later → s.modelOf later ≠ some model

/-- The main thread is starting or cancelling a download of the model. -/
def isBusy (s : ActiveDownloads) (model : Text) : Bool :=
  match s.mainThread with
  | .idle => false
  | .starting started _ => started == model
  | .cancelling cancelled => cancelled == model

structure Tracks (s : ActiveDownloads) (model : Text) : Prop where
  latest : ∀ job, s.IsLatest model job → s.isActive job = true → s.activeDownloads model = some job
  ended : (∀ job, s.modelOf job = some model → s.isActive job = false) →
    s.activeDownloads model = none

/-- The map has the most recently started job of each model if it is active, and nothing for a model
without active jobs. -/
def Cancellable (s : ActiveDownloads) : Prop :=
  ∀ model, s.isBusy model = false → s.Tracks model

/-- A job is registered while a download of its model goes on, and a handler removes no entry of
another job that is the latest and active. -/
def Timely (s : ActiveDownloads) : Event → Prop
  | .register => ∀ model job, s.mainThread = .starting model job →
    ∃ other, s.modelOf other = some model ∧ s.isActive other = true
  | .complete job | .fail job | .handle job => ∀ model, s.modelOf job = some model →
    s.isBusy model = true ∨ ∀ latest, s.IsLatest model latest → s.isActive latest = true →
      latest = job
  | _ => True

variable {s t : ActiveDownloads} {e : Event} {model other : Text} {job : Nat} {phase : JobPhase}

@[simp] theorem modelOf_setPhase (k : Nat) : (s.setPhase job phase).modelOf k = s.modelOf k := by
  unfold modelOf setPhase
  rw [List.getElem?_modify, Option.map_eq_map, Option.map_map]
  congr 1
  funext j
  dsimp only [Function.comp_apply]
  split <;> rfl

theorem isActive_setPhase (hphase : phase ≠ .downloading) (k : Nat) :
    (s.setPhase job phase).isActive k = true ↔ s.isActive k = true ∧ k ≠ job := by
  unfold isActive setPhase
  rw [List.getElem?_modify]
  cases s.jobs[k]? with
  | none => simp
  | some j =>
    by_cases hk : job = k
    · simp [hk, hphase]
    · simp [hk, Ne.symm hk]

theorem isActive_setPhase_of_ne (hphase : phase ≠ .downloading) {k : Nat} (hk : k ≠ job) :
    (s.setPhase job phase).isActive k = s.isActive k := by
  rw [Bool.eq_iff_iff, isActive_setPhase hphase]
  exact and_iff_left hk

theorem modelOf_append (k : Nat) {j : DownloadJob} {thread : MainThread} :
    modelOf { s with jobs := s.jobs ++ [j], mainThread := thread } k =
      if k = s.jobs.length then some j.model else s.modelOf k := by
  unfold modelOf
  split <;> rename_i hk
  · simp [hk]
  · simp only [List.getElem?_append]
    grind

theorem isActive_append {j : DownloadJob} {thread : MainThread} {k : Nat}
    (hk : k ≠ s.jobs.length) :
    isActive { s with jobs := s.jobs ++ [j], mainThread := thread } k = s.isActive k := by
  simp only [isActive, List.getElem?_append]
  grind

/-- A model is tracked as before when its jobs, their activity and its entry are. -/
theorem Tracks.congr (h : s.Tracks model)
    (hmodel : ∀ k, t.modelOf k = some model ↔ s.modelOf k = some model)
    (hactive : ∀ k, s.modelOf k = some model → t.isActive k = s.isActive k)
    (hentry : t.activeDownloads model = s.activeDownloads model) : t.Tracks model where
  latest k hlatest hk := by
    have hown := (hmodel k).mp hlatest.1
    rw [hactive k hown] at hk
    rw [hentry]
    have hlast : s.IsLatest model k :=
      ⟨hown, fun later hlater hnewer => hlatest.2 later hlater ((hmodel later).mpr hnewer)⟩
    exact h.latest k hlast hk
  ended hended := by
    rw [hentry]
    refine h.ended fun k hk => ?_
    rw [← hactive k hk]
    exact hended k ((hmodel k).mpr hk)

theorem IsLatest.unique {k : Nat} (hjob : s.IsLatest model job) (hk : s.IsLatest model k) :
    k = job := by
  rcases Nat.lt_trichotomy k job with hlt | heq | hlt
  · exact absurd hjob.1 (hk.2 job hlt)
  · exact heq
  · exact absurd hk.1 (hjob.2 k hlt)

theorem modelOf_fresh {k : Nat} (h : s.jobs.length ≤ k) : s.modelOf k = none := by
  simp [modelOf, h]

theorem isLatest_last (hjob : s.modelOf job = some model) (hlast : s.jobs.length ≤ job + 1) :
    s.IsLatest model job := by
  refine ⟨hjob, fun later hlater => ?_⟩
  rw [modelOf_fresh (by omega)]
  nofun

/-- The job of an event whose step removes the entry of the job's model. -/
def Event.removes : Event → Option Nat
  | .complete job | .fail job | .handle job => some job
  | _ => none

/-- Whoever ends a download or handles its end removes the entry by the model's id. -/
theorem step_removes (he : e.removes = some job) (ht : step s e = some t) :
    ∃ model phase, s.modelOf job = some model ∧ phase ≠ .downloading ∧
      t = (s.setPhase job phase).removeEntry model := by
  cases e with
  | complete k | fail k | handle k =>
    cases Option.some.inj he
    simp only [step] at ht
    split at ht
    · rename_i model hjob
      obtain rfl := Option.some.inj ht
      exact ⟨model, _, by simp [modelOf, hjob], by decide, rfl⟩
    · rename_i model hjob
      obtain rfl := Option.some.inj ht
      exact ⟨model, _, by simp [modelOf, hjob], by decide, rfl⟩
    · cases ht
  | launch | register | cancel | remove | finish => cases he

theorem timely_removes (he : e.removes = some job) (hmodel : s.modelOf job = some model) :
    s.Timely e ↔ s.isBusy model = true ∨
      ∀ latest, s.IsLatest model latest → s.isActive latest = true → latest = job := by
  cases e with
  | complete k | fail k | handle k =>
    cases Option.some.inj he
    simp only [Timely, hmodel, Option.some.injEq, forall_eq']
  | launch | register | cancel | remove | finish => cases he

/-- What holds as long as each step is timely: the map is right for the models that are left alone,
its entries are of the model's own jobs, and the main thread has the latest job in hand. -/
structure Invariant (s : ActiveDownloads) : Prop where
  cancellable : s.Cancellable
  own : ∀ model job, s.activeDownloads model = some job → s.modelOf job = some model
  starting : ∀ model job, s.mainThread = .starting model job → s.IsLatest model job
  cancelling : ∀ model, s.mainThread = .cancelling model →
    ∀ job, s.IsLatest model job → s.isActive job = false

theorem invariant_start : start.Invariant where
  cancellable _ _ := ⟨nofun, fun _ => rfl⟩
  own := nofun
  starting := nofun
  cancelling := nofun

@[simp] theorem removeEntry_self : (s.removeEntry model).activeDownloads model = none :=
  Function.update_self ..

@[simp] theorem putEntry_self : (s.putEntry model job).activeDownloads model = some job :=
  Function.update_self ..

theorem putEntry_of_ne (h : other ≠ model) :
    (s.putEntry model job).activeDownloads other = s.activeDownloads other :=
  Function.update_of_ne h ..

theorem removeEntry_of_ne (h : other ≠ model) :
    (s.removeEntry model).activeDownloads other = s.activeDownloads other :=
  Function.update_of_ne h ..

theorem removeEntry_eq_some (h : (s.removeEntry model).activeDownloads other = some job) :
    other ≠ model ∧ s.activeDownloads other = some job := by
  by_cases hother : other = model
  · rw [hother, removeEntry_self] at h
    cases h
  · rw [removeEntry_of_ne hother] at h
    exact ⟨hother, h⟩

@[simp] theorem modelOf_removeEntry (k : Nat) : (s.removeEntry model).modelOf k = s.modelOf k := rfl

theorem isLatest_congr (h : ∀ k, t.modelOf k = s.modelOf k) :
    t.IsLatest model job ↔ s.IsLatest model job := by
  simp only [IsLatest, h]

/-- A step that only ends downloads and removes entries keeps what is known of the main thread. -/
theorem Invariant.of_ended (hs : s.Invariant) (hmodel : ∀ k, t.modelOf k = s.modelOf k)
    (hactive : ∀ k, t.isActive k = true → s.isActive k = true)
    (hentry : ∀ m k, t.activeDownloads m = some k → s.activeDownloads m = some k)
    (hthread : t.mainThread = s.mainThread) (hcancellable : t.Cancellable) : t.Invariant where
  cancellable := hcancellable
  own m k h := by
    rw [hmodel]
    exact hs.own m k (hentry m k h)
  starting m k h := by
    rw [hthread] at h
    exact (isLatest_congr hmodel).mpr (hs.starting m k h)
  cancelling m h k hk := by
    rw [hthread] at h
    have hended := hs.cancelling m h k ((isLatest_congr hmodel).mp hk)
    by_contra hgoes
    exact Bool.eq_false_iff.mp hended (hactive k (Bool.of_not_eq_false hgoes))

theorem invariant_removes (hs : s.Invariant) (he : e.removes = some job) (hok : s.Timely e)
    (ht : step s e = some t) : t.Invariant := by
  obtain ⟨model, phase, hjob, hphase, rfl⟩ := step_removes he ht
  have hmodel (k : Nat) : ((s.setPhase job phase).removeEntry model).modelOf k = s.modelOf k := by
    simp
  have hactive (k : Nat) : (s.setPhase job phase).isActive k = true → s.isActive k = true ∧ k ≠ job :=
    (isActive_setPhase hphase k).mp
  refine hs.of_ended hmodel (fun k h => (hactive k h).1) (fun _ _ h => (removeEntry_eq_some h).2) rfl ?_
  intro m hm
  by_cases hne : m = model
  · subst hne
    have hbusy : s.isBusy m ≠ true := Bool.eq_false_iff.mp hm
    have hlast := ((timely_removes he hjob).mp hok).resolve_left hbusy
    refine ⟨fun k hk hgoes => ?_, fun _ => removeEntry_self⟩
    have hbefore := hactive k hgoes
    exact absurd (hlast k ((isLatest_congr hmodel).mp hk) hbefore.1) hbefore.2
  · refine (hs.cancellable m hm).congr (fun k => by rw [hmodel]) (fun k hk => ?_)
      (removeEntry_of_ne hne)
    refine isActive_setPhase_of_ne hphase fun hkj => hne ?_
    rw [hkj, hjob] at hk
    exact (Option.some.inj hk).symm

theorem setPhase_inactive (hphase : phase ≠ .downloading) (hjob : s.isActive job = false) (k : Nat) :
    (s.setPhase job phase).isActive k = s.isActive k := by
  by_cases hk : k = job
  · subst hk
    rw [hjob]
    by_contra hgoes
    exact ((isActive_setPhase hphase k).mp (Bool.of_not_eq_false hgoes)).2 rfl
  · exact isActive_setPhase_of_ne hphase hk

theorem invariant_finish (hs : s.Invariant) (ht : step s (.finish job) = some t) : t.Invariant := by
  simp only [step] at ht
  have hjob : s.isActive job = false ∧ t = s.setPhase job .done := by
    split at ht
    · rename_i hjob
      exact ⟨by simp [isActive, hjob], (Option.some.inj ht).symm⟩
    · rename_i hjob
      exact ⟨by simp [isActive, hjob], (Option.some.inj ht).symm⟩
    · cases ht
  obtain ⟨hended, rfl⟩ := hjob
  have hactive : ∀ k, (s.setPhase job .done).isActive k = s.isActive k :=
    setPhase_inactive nofun hended
  refine hs.of_ended modelOf_setPhase (fun k h => hactive k ▸ h) (fun _ _ h => h) rfl ?_
  intro m hm
  exact (hs.cancellable m hm).congr (fun k => by rw [modelOf_setPhase]) (fun k _ => hactive k) rfl

theorem invariant_launch (hs : s.Invariant) (ht : step s (.launch model) = some t) :
    t.Invariant := by
  simp only [step] at ht
  split at ht
  case h_2 => cases ht
  case h_1 hidle =>
  obtain rfl := Option.some.inj ht
  constructor
  · intro m hm
    have hne : model ≠ m := by simpa [isBusy] using hm
    have hidle : s.isBusy m = false := by simp [isBusy, hidle]
    refine (hs.cancellable m hidle).congr (fun k => ?_) (fun k hk => isActive_append ?_) rfl
    · rw [modelOf_append]
      split
      · rename_i hk
        simp [hk, hne, modelOf_fresh]
      · rfl
    · rintro rfl
      rw [modelOf_fresh le_rfl] at hk
      cases hk
  · intro m k hk
    rw [modelOf_append]
    have hown := hs.own m k hk
    split
    · rename_i hlen
      rw [hlen, modelOf_fresh le_rfl] at hown
      cases hown
    · exact hown
  · intro m k hk
    cases hk
    exact isLatest_last (by rw [modelOf_append, if_pos rfl]) (by simp)
  · nofun

theorem invariant_register (hs : s.Invariant) (hok : s.Timely .register)
    (ht : step s .register = some t) : t.Invariant := by
  simp only [step] at ht
  split at ht
  case h_2 => cases ht
  case h_1 model job hthread =>
  obtain rfl := Option.some.inj ht
  have hlatest := hs.starting model job hthread
  constructor
  · intro m _
    by_cases hm : m = model
    · subst hm
      refine ⟨fun k hk _ => ?_, fun hended => ?_⟩
      · rw [IsLatest.unique hlatest hk]
        exact putEntry_self
      · obtain ⟨k, hk, hgoes⟩ := hok m job hthread
        exact absurd hgoes (Bool.eq_false_iff.mp (hended k hk))
    · have hidle : s.isBusy m = false := by simp [isBusy, hthread, Ne.symm hm]
      have hsame : (s.putEntry model job).activeDownloads m = s.activeDownloads m :=
        putEntry_of_ne hm
      exact (hs.cancellable m hidle).congr (fun _ => Iff.rfl) (fun _ _ => rfl) hsame
  · intro m k hk
    by_cases hm : m = model
    · subst hm
      have hjob : some job = some k := putEntry_self.symm.trans hk
      exact Option.some.inj hjob ▸ hlatest.1
    · exact hs.own m k ((putEntry_of_ne hm).symm.trans hk)
  · nofun
  · nofun

theorem isActive_cancelJob (k : Nat) :
    (s.cancelJob job).isActive k = true ↔ s.isActive k = true ∧ k ≠ job := by
  unfold cancelJob
  split
  · exact isActive_setPhase (by decide) k
  · rename_i hjob
    refine ⟨fun h => ⟨h, ?_⟩, And.left⟩
    rintro rfl
    simp only [isActive, Option.any_eq_true, beq_iff_eq] at h
    obtain ⟨⟨m, phase⟩, hk, rfl⟩ := h
    exact hjob m hk

theorem modelOf_cancelJob (k : Nat) : (s.cancelJob job).modelOf k = s.modelOf k := by
  unfold cancelJob
  split
  · exact modelOf_setPhase k
  · rfl

theorem activeDownloads_cancelJob : (s.cancelJob job).activeDownloads = s.activeDownloads := by
  unfold cancelJob
  split <;> rfl

theorem invariant_cancel (hs : s.Invariant) (ht : step s (.cancel model) = some t) :
    t.Invariant := by
  simp only [step] at ht
  split at ht
  case h_2 => cases ht
  case h_1 hidle =>
  have hleft (m : Text) : s.Tracks m := hs.cancellable m (by simp [isBusy, hidle])
  obtain ⟨c, hc, rfl⟩ : ∃ c : ActiveDownloads, ((∀ k, c.modelOf k = s.modelOf k) ∧
      (∀ k, c.isActive k = true ↔ s.isActive k = true ∧ s.activeDownloads model ≠ some k) ∧
      c.activeDownloads = s.activeDownloads) ∧ t = { c with mainThread := .cancelling model } := by
    refine ⟨_, ?_, (Option.some.inj ht).symm⟩
    split
    · rename_i job hjob
      rw [hjob]
      refine ⟨modelOf_cancelJob, fun k => ?_, activeDownloads_cancelJob⟩
      rw [isActive_cancelJob, ne_comm, ne_eq, ne_eq, Option.some.injEq]
    · rename_i hnone
      rw [hnone]
      exact ⟨fun _ => rfl, fun k => ⟨fun h => ⟨h, nofun⟩, And.left⟩, rfl⟩
  obtain ⟨hmodel, hactive, hentry⟩ := hc
  constructor
  · intro m hm
    have hne : model ≠ m := by simpa [isBusy] using hm
    refine (hleft m).congr (fun k => by rw [← hmodel k]; rfl) (fun k hk => ?_) (congrFun hentry m)
    -- The cancelled job is one of `model`.
    refine Bool.eq_iff_iff.mpr ((hactive k).trans (and_iff_left fun hjob => hne ?_))
    have hown := hs.own model k hjob
    rw [hk] at hown
    exact (Option.some.inj hown).symm
  · intro m k hk
    exact (hmodel k).trans (hs.own m k (congrFun hentry m ▸ hk))
  · nofun
  · intro m hm k hk
    cases hm
    have hlatest : s.IsLatest model k := (isLatest_congr hmodel).mp hk
    refine Bool.eq_false_iff.mpr fun hgoes => ?_
    have hbefore := (hactive k).mp hgoes
    exact hbefore.2 ((hleft model).latest k hlatest hbefore.1)

theorem invariant_remove (hs : s.Invariant) (ht : step s .remove = some t) : t.Invariant := by
  simp only [step] at ht
  split at ht
  case h_2 => cases ht
  case h_1 model hthread =>
  obtain rfl := Option.some.inj ht
  constructor
  · intro m _
    by_cases hm : m = model
    · subst hm
      refine ⟨fun k hk hgoes => ?_, fun _ => removeEntry_self⟩
      exact absurd hgoes (Bool.eq_false_iff.mp (hs.cancelling m hthread k hk))
    · have hleft : s.isBusy m = false := by simp [isBusy, hthread, Ne.symm hm]
      exact (hs.cancellable m hleft).congr (fun _ => Iff.rfl) (fun _ _ => rfl)
        (removeEntry_of_ne hm)
  · exact fun m k hk => hs.own m k (removeEntry_eq_some hk).2
  · nofun
  · nofun

theorem invariant_step (hs : s.Invariant) (hok : s.Timely e) (ht : step s e = some t) :
    t.Invariant := by
  cases e with
  | launch model => exact invariant_launch hs ht
  | register => exact invariant_register hs hok ht
  | cancel model => exact invariant_cancel hs ht
  | remove => exact invariant_remove hs ht
  | complete job | fail job | handle job => exact invariant_removes hs rfl hok ht
  | finish job => exact invariant_finish hs ht

/-- A job registered after the last download of its model has ended leaves a dead entry. -/
theorem dead_entry (hok : ¬s.Timely .register) (ht : step s .register = some t) :
    ¬t.Cancellable := by
  simp only [Timely, not_forall, not_exists, not_and, Bool.not_eq_true] at hok
  obtain ⟨model, job, hthread, hended⟩ := hok
  simp only [step, hthread, Option.some.injEq] at ht
  subst ht
  intro hall
  have hnone := (hall model rfl).ended hended
  cases (putEntry_self.symm.trans hnone : some job = none)

/-- A handler that removes the entry of its successor leaves an active download without one. -/
theorem lost_entry (he : e.removes = some job) (hok : ¬s.Timely e) (ht : step s e = some t) :
    ¬t.Cancellable := by
  obtain ⟨model, phase, hjob, hphase, rfl⟩ := step_removes he ht
  rw [timely_removes he hjob] at hok
  simp only [not_or, Bool.not_eq_true, not_forall] at hok
  obtain ⟨hleft, latest, hlatest, hgoes, hne⟩ := hok
  intro hall
  have htracks : ((s.setPhase job phase).removeEntry model).Tracks model := hall model hleft
  have hstill : ((s.setPhase job phase).removeEntry model).IsLatest model latest :=
    (isLatest_congr fun k => by simp).mpr hlatest
  have hentry := htracks.latest latest hstill ((isActive_setPhase hphase latest).mpr ⟨hgoes, hne⟩)
  cases removeEntry_self.symm.trans hentry

theorem untimely_breaks (hok : ¬s.Timely e) (ht : step s e = some t) : ¬t.Cancellable := by
  cases e with
  | launch model => exact absurd trivial hok
  | register => exact dead_entry hok ht
  | cancel model => exact absurd trivial hok
  | remove => exact absurd trivial hok
  | complete job | fail job | handle job => exact lost_entry rfl hok ht
  | finish job => exact absurd trivial hok

/-- The downloads of a run can be cancelled all along exactly when each of its steps is timely. -/
theorem cancellable_iff_timely {u : ActiveDownloads} {es : List Event}
    (h : Machine.run step start es = some u) :
    Machine.Always step Cancellable start es ↔ Machine.Meets step Timely start es :=
  Machine.always_iff_meets (fun _ hs => hs.cancellable)
    (fun _ _ _ hs hok ht => invariant_step hs hok ht)
    (fun _ _ _ _ hok ht => untimely_breaks hok ht) invariant_start h

/-- A download that is registered while it goes on, and ends well. -/
def downloaded (model : Text) : List Event := [.launch model, .register, .complete 0, .finish 0]

theorem cancellable_downloaded :
    Machine.Always step Cancellable start (downloaded "gemma".toList) := by
  refine (cancellable_iff_timely rfl).mpr ⟨trivial, fun t ht => ?_⟩
  cases ht
  constructor
  · rintro model job h
    cases h
    exact ⟨0, rfl, rfl⟩
  intro t ht
  cases ht
  refine ⟨fun model _ => .inr fun latest hlatest _ => ?_, fun _ _ => ⟨trivial, fun _ _ => trivial⟩⟩
  cases latest with
  | zero => rfl
  | succ k => cases hlatest.1

/-- A download is cancelled and started again before the handler of the cancelled job runs. -/
def restarted (model : Text) : List Event :=
  [.launch model, .register, .cancel model, .remove, .launch model, .register, .handle 0]

/-- The handler removes the entry of the second download, which goes on. -/
theorem restarted_not_cancellable :
    ¬Machine.Always step Cancellable start (restarted "gemma".toList) := by
  intro h
  have hall := Machine.always_run h rfl
  have hentry := (hall "gemma".toList rfl).latest 1 (isLatest_last rfl le_rfl) rfl
  cases hentry

end ActiveDownloads

end HeyNilo

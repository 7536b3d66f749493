import HeyNilo.MemoryRecords
import HeyNilo.ReadModifyWrite
import Mathlib.Algebra.Order.Ring.Nat
import Mathlib.Data.List.Permutation

namespace HeyNilo

open Machine ReadModifyWrite

/-- `Int` addition of Kotlin. -/
def plusInt (a b : Int) : Int := (a + b).bmod (2 ^ 32)

/-- `Long` addition of Kotlin. -/
def plusLong (a b : Int) : Int := (a + b).bmod (2 ^ 64)

/-- The calls that change the cached profile. -/
inductive ProfileJob where
  | updateProfileField (now field : String) (value : FieldValue)
  | addFact (now fact : String)
deriving DecidableEq

/-- The calls that change the cached statistics. -/
inductive StatsJob where
  | updateStats (stats : MemoryStats)
  | updateExtractionStats (now : String) (facts relationships reminders : Int)
  | updateCompactionStats (now date next : String) (filesArchived bytesFreed : Int)
deriving DecidableEq

namespace ProfileJob

/-- The call on its own. A refused call changes nothing. -/
def run : ProfileJob → UserProfile → UserProfile
  | updateProfileField now field value, p => (p.withField now field value).getD p
  | addFact now fact, p => (p.withFact now fact).getD p

/-- The call takes steps at all: the field is known, the fact is not blank. -/
def accepted : ProfileJob → Bool
  | updateProfileField now field value => ((({} : UserProfile)).withField now field value).isSome
  | addFact _ fact => !isBlank fact.toList

/-- The steps of an accepted call. The facts are one list that all copies of the profile share, so
`addFact` changes it in place before it copies the profile; what is saved is the cached profile as
it is by then. -/
def call : ProfileJob → Call UserProfile (List String)
  | updateProfileField now field value =>
    { touch := none
      update := .modify fun p => (p.withField now field value).getD p
      writesOwn := false }
  | addFact now fact =>
    { touch := some fun facts => facts ++ [fact]
      update := .modify fun p => { p with lastUpdated := now }
      writesOwn := false }

end ProfileJob

namespace StatsJob

def updateExtraction (now : String) (facts relationships reminders : Int) (m : MemoryStats) :
    MemoryStats :=
  { m with
    extractionStats :=
      { m.extractionStats with
        totalFactsExtracted := plusInt m.extractionStats.totalFactsExtracted facts
        totalRelationshipsExtracted :=
          plusInt m.extractionStats.totalRelationshipsExtracted relationships
        totalRemindersExtracted := plusInt m.extractionStats.totalRemindersExtracted reminders
        lastExtractionAt := some now } }

def updateCompaction (now date next : String) (filesArchived bytesFreed : Int) (m : MemoryStats) :
    MemoryStats :=
  { m with
    lastUpdated := now
    compaction :=
      { lastCompactionDate := some date
        filesCompacted := plusInt m.compaction.filesCompacted filesArchived
        bytesSaved := plusLong m.compaction.bytesSaved bytesFreed
        nextScheduled := some next } }

def update : StatsJob → Update MemoryStats
  | updateStats stats => .replace stats
  | updateExtractionStats now facts relationships reminders =>
    .modify (updateExtraction now facts relationships reminders)
  | updateCompactionStats now date next filesArchived bytesFreed =>
    .modify (updateCompaction now date next filesArchived bytesFreed)

def run (j : StatsJob) (m : MemoryStats) : MemoryStats := j.update.apply m

/-- `updateStats` writes the object it was given. -/
def call (j : StatsJob) : Call MemoryStats Unit where
  touch := none
  update := j.update
  writesOwn := true

end StatsJob

/-- The two cached objects that calls race for, each with its file. -/
structure MemoryRace where
  profile : State UserProfile (List String)
  stats : State MemoryStats Unit

structure RaceLedger where
  profile : Ledger
  stats : Ledger

/-- The call that takes its next step, by its number among the accepted calls on its object. -/
inductive RaceEvent where
  | profile (i : Nat)
  | stats (i : Nat)
deriving DecidableEq

namespace MemoryRace

def profileCalls (jobs : List ProfileJob) : List (Call UserProfile (List String)) :=
  (jobs.filter ProfileJob.accepted).map ProfileJob.call

def statsCalls (jobs : List StatsJob) : List (Call MemoryStats Unit) := jobs.map StatsJob.call

def start (p : UserProfile) (m : MemoryStats) : MemoryRace :=
  ⟨.start (p, p.facts), .start (m, ())⟩

def step (profileJobs : List ProfileJob) (statsJobs : List StatsJob) (s : MemoryRace) :
    RaceEvent → Option MemoryRace
  | .profile i =>
    (s.profile.step (profileCalls profileJobs) i).map fun t => { s with profile := t }
  | .stats i => (s.stats.step (statsCalls statsJobs) i).map fun t => { s with stats := t }

def next (profileJobs : List ProfileJob) (statsJobs : List StatsJob) (g : RaceLedger)
    (s : MemoryRace) : RaceEvent → RaceLedger
  | .profile i => { g with profile := g.profile.next (profileCalls profileJobs) s.profile i }
  | .stats i => { g with stats := g.stats.next (statsCalls statsJobs) s.stats i }

/-- A call starts only while no other on the same object is between its first step and its
assignment, and writes only a copy that is not older than the file. -/
def keepsOrder (profileJobs : List ProfileJob) (statsJobs : List StatsJob)
    (s : MemoryRace × RaceLedger) : RaceEvent → Bool
  | .profile i =>
    ReadModifyWrite.keepsOrder (profileCalls profileJobs) (s.1.profile, s.2.profile) i
  | .stats i => ReadModifyWrite.keepsOrder (statsCalls statsJobs) (s.1.stats, s.2.stats) i

/-- The profile in the cache, its facts being the shared list. -/
def cachedProfile (s : MemoryRace) : UserProfile :=
  { s.profile.cell with facts := s.profile.shared }

def storedProfile (s : MemoryRace) : UserProfile :=
  { s.profile.file.1 with facts := s.profile.file.2 }

/-- Every accepted call has returned. -/
def AllReturned (profileJobs : List ProfileJob) (statsJobs : List StatsJob) (s : MemoryRace) :
    Prop :=
  (∀ i < (profileCalls profileJobs).length, s.profile.phase i = .returned) ∧
    ∀ i < (statsCalls statsJobs).length, s.stats.phase i = .returned

instance (profileJobs : List ProfileJob) (statsJobs : List StatsJob) (s : MemoryRace) :
    Decidable (AllReturned profileJobs statsJobs s) :=
  inferInstanceAs (Decidable (_ ∧ _))

/-- Cache and file show the calls made one after another in some order. -/
def Serial (profileJobs : List ProfileJob) (statsJobs : List StatsJob) (p : UserProfile)
    (m : MemoryStats) (s : MemoryRace) : Prop :=
  (∃ order : List ProfileJob, order.Perm profileJobs ∧
    s.cachedProfile = order.foldl (fun p j => j.run p) p ∧ s.storedProfile = s.cachedProfile) ∧
  ∃ order : List StatsJob, order.Perm statsJobs ∧
    s.stats.cell = order.foldl (fun m j => j.run m) m ∧ s.stats.file.1 = s.stats.cell

/-- The profile with the shared facts as its own. -/
def withFacts (x : UserProfile × List String) : UserProfile := { x.1 with facts := x.2 }

theorem call_apply {j : ProfileJob} (h : j.accepted = true) (x : UserProfile × List String) :
    withFacts (j.call.apply x) = j.run (withFacts x) := by
  cases j with
  | updateProfileField now field value =>
    simp only [ProfileJob.call, ProfileJob.run, Call.apply, Call.touched, Update.apply, withFacts,
      UserProfile.withField, Option.map_none, Option.getD_none]
    split <;> rfl
  | addFact now fact =>
    have hblank : isBlank fact.toList = false := by simpa [ProfileJob.accepted] using h
    simp [ProfileJob.call, ProfileJob.run, Call.apply, Call.touched, Update.apply, withFacts,
      UserProfile.withFact, hblank]

theorem withField_isSome (p q : UserProfile) (now field : String) (value : FieldValue) :
    (p.withField now field value).isSome = (q.withField now field value).isSome := by
  simp only [UserProfile.withField]
  split <;> rfl

theorem run_refused {j : ProfileJob} (h : j.accepted = false) (p : UserProfile) : j.run p = p := by
  cases j with
  | updateProfileField now field value =>
    have hnone : (p.withField now field value).isSome = false :=
      (withField_isSome p {} now field value).trans h
    have hget : p.withField now field value = none := by simpa using hnone
    simp [ProfileJob.run, hget]
  | addFact now fact =>
    have hblank : isBlank fact.toList = true := by simpa [ProfileJob.accepted] using h
    simp [ProfileJob.run, UserProfile.withFact, hblank]

theorem foldl_call_apply {order : List ProfileJob} (h : ∀ j ∈ order, j.accepted = true)
    (x : UserProfile × List String) :
    withFacts (order.foldl (fun x j => j.call.apply x) x) =
      order.foldl (fun p j => j.run p) (withFacts x) := by
  induction order generalizing x with
  | nil => rfl
  | cons j order ih =>
    rw [List.foldl_cons, List.foldl_cons, ih fun k hk => h k (List.mem_cons_of_mem j hk),
      call_apply (h j List.mem_cons_self)]

theorem foldl_run_refused {order : List ProfileJob} (h : ∀ j ∈ order, j.accepted = false)
    (p : UserProfile) : order.foldl (fun p j => j.run p) p = p := by
  induction order with
  | nil => rfl
  | cons j order ih =>
    rw [List.foldl_cons, run_refused (h j List.mem_cons_self),
      ih fun k hk => h k (List.mem_cons_of_mem j hk)]

theorem stats_foldl (order : List StatsJob) (m : MemoryStats) :
    order.foldl (fun x j => j.call.apply x) (m, ()) = (order.foldl (fun m j => j.run m) m, ()) := by
  induction order generalizing m with
  | nil => rfl
  | cons j order ih => exact ih (j.run m)

theorem invariants {profileJobs : List ProfileJob} {statsJobs : List StatsJob} {p : UserProfile}
    {m : MemoryStats} {es : List RaceEvent} {s : MemoryRace} {g : RaceLedger}
    (hok : Meets (withHistory (step profileJobs statsJobs) (next profileJobs statsJobs))
      (keepsOrder profileJobs statsJobs · ·) (start p m, ⟨.start, .start⟩) es)
    (hr : Machine.run (withHistory (step profileJobs statsJobs) (next profileJobs statsJobs))
      (start p m, ⟨.start, .start⟩) es = some (s, g)) :
    Inv (profileCalls profileJobs) (p, p.facts) s.profile g.profile ∧
      Inv (statsCalls statsJobs) (m, ()) s.stats g.stats := by
  refine run_invariant (I := fun x => Inv (profileCalls profileJobs) (p, p.facts) x.1.profile
    x.2.profile ∧ Inv (statsCalls statsJobs) (m, ()) x.1.stats x.2.stats) ?_
    ⟨Inv.start _ _, Inv.start _ _⟩ hok hr
  rintro ⟨s, g⟩ e ⟨t, g'⟩ ⟨hp, hs⟩ hok ht
  obtain ⟨hstep, rfl⟩ := withHistory_iff.mp ht
  cases e with
  | profile i =>
    obtain ⟨u, hu, rfl⟩ := Option.map_eq_some_iff.mp hstep
    exact ⟨hp.step hok hu, hs⟩
  | stats i =>
    obtain ⟨u, hu, rfl⟩ := Option.map_eq_some_iff.mp hstep
    exact ⟨hp, hs.step hok hu⟩

/-- In a run that keeps the order no call is lost: once all have returned, cache and files are those
of a sequential execution. -/
theorem mutators_serial {profileJobs : List ProfileJob} {statsJobs : List StatsJob}
    {p : UserProfile} {m : MemoryStats} {es : List RaceEvent} {s : MemoryRace} {g : RaceLedger}
    (hok : Meets (withHistory (step profileJobs statsJobs) (next profileJobs statsJobs))
      (keepsOrder profileJobs statsJobs · ·) (start p m, ⟨.start, .start⟩) es)
    (hr : Machine.run (withHistory (step profileJobs statsJobs) (next profileJobs statsJobs))
      (start p m, ⟨.start, .start⟩) es = some (s, g))
    (hall : AllReturned profileJobs statsJobs s) : Serial profileJobs statsJobs p m s := by
  obtain ⟨hp, hs⟩ := invariants hok hr
  obtain ⟨order, hperm, hcell, hfile⟩ := hp.serialJobs hall.1
  obtain ⟨statsOrder, hstatsPerm, hstatsCell, hstatsFile⟩ := hs.serialJobs hall.2
  have haccepted (j : ProfileJob) (hj : j ∈ order) : j.accepted = true :=
    (List.mem_filter.mp (hperm.mem_iff.mp hj)).2
  refine ⟨⟨order ++ profileJobs.filter fun j => !j.accepted, ?_, ?_, ?_⟩, statsOrder, hstatsPerm,
    ?_, ?_⟩
  · exact (hperm.append_right _).trans (List.filter_append_perm _ _)
  · have hnone (j : ProfileJob) (hj : j ∈ profileJobs.filter fun j => !j.accepted) :
        j.accepted = false := by
      simpa using (List.mem_filter.mp hj).2
    rw [List.foldl_append, foldl_run_refused hnone]
    exact (congrArg withFacts hcell).trans (foldl_call_apply haccepted (p, p.facts))
  · exact congrArg withFacts hfile
  · exact congrArg Prod.fst (hstatsCell.trans (stats_foldl statsOrder m))
  · exact congrArg Prod.fst hstatsFile

def nameJob : ProfileJob := .updateProfileField "t1" "name" (.string "Kali")

def cityJob : ProfileJob := .updateProfileField "t2" "city" (.string "Pune")

/-- Two profile calls and two statistics calls that overlap after their assignments. -/
theorem mutators_serial_overlapping :
    ∃ s g, Machine.run (withHistory
        (step [nameJob, .addFact "t2" "likes tea"]
          [.updateExtractionStats "t1" 1 0 0, .updateStats {}])
        (next [nameJob, .addFact "t2" "likes tea"]
          [.updateExtractionStats "t1" 1 0 0, .updateStats {}]))
      (start {} {}, ⟨.start, .start⟩)
      [.profile 0, .profile 0, .profile 1, .profile 1, .profile 1, .profile 0, .profile 1,
        .profile 1, .profile 0, .stats 0, .stats 0, .stats 1, .stats 0, .stats 0, .stats 1,
        .stats 1] = some (s, g) ∧
      Serial [nameJob, .addFact "t2" "likes tea"]
        [.updateExtractionStats "t1" 1 0 0, .updateStats {}] {} {} s := by
  have hrun : (Machine.run (withHistory
        (step [nameJob, .addFact "t2" "likes tea"]
          [.updateExtractionStats "t1" 1 0 0, .updateStats {}])
        (next [nameJob, .addFact "t2" "likes tea"]
          [.updateExtractionStats "t1" 1 0 0, .updateStats {}]))
      (start {} {}, ⟨.start, .start⟩)
      [.profile 0, .profile 0, .profile 1, .profile 1, .profile 1, .profile 0, .profile 1,
        .profile 1, .profile 0, .stats 0, .stats 0, .stats 1, .stats 0, .stats 0, .stats 1,
        .stats 1]).map
      (fun x => decide (AllReturned [nameJob, .addFact "t2" "likes tea"]
        [.updateExtractionStats "t1" 1 0 0, .updateStats {}] x.1)) = some true := by decide
  obtain ⟨⟨s, g⟩, hr, hall⟩ := Option.map_eq_some_iff.mp hrun
  exact ⟨s, g, hr, mutators_serial (by decide) hr (of_decide_eq_true hall)⟩

/-- Both calls copy the profile before either assigns its copy: the name is lost. -/
theorem interleaved_updates_lose_name :
    ∃ s, Machine.run (step [nameJob, cityJob] []) (start {} {})
        [.profile 0, .profile 1, .profile 0, .profile 1, .profile 0, .profile 1, .profile 0,
          .profile 1] = some s ∧
      AllReturned [nameJob, cityJob] [] s ∧ ¬ Serial [nameJob, cityJob] [] {} {} s := by
  have hrun : (Machine.run (step [nameJob, cityJob] []) (start {} {})
      [.profile 0, .profile 1, .profile 0, .profile 1, .profile 0, .profile 1, .profile 0,
        .profile 1]).map
      (fun s => (decide (AllReturned [nameJob, cityJob] [] s), s.cachedProfile.identity.name)) =
      some (true, none) := by decide
  obtain ⟨s, hr, hs⟩ := Option.map_eq_some_iff.mp hrun
  obtain ⟨hall, hname⟩ := Prod.mk.inj hs
  refine ⟨s, hr, of_decide_eq_true hall, ?_⟩
  rintro ⟨⟨order, hperm, hcached, _⟩, _⟩
  -- in either order the name is set and stays
  have horder : order = [nameJob, cityJob] ∨ order = [cityJob, nameJob] :=
    List.perm_pair.mp hperm
  have hkept : (order.foldl (fun p j => j.run p) ({} : UserProfile)).identity.name =
      some "Kali" := by
    rcases horder with rfl | rfl <;> decide
  rw [hcached, hkept] at hname
  cases hname

end MemoryRace

end HeyNilo

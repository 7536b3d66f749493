import HeyNilo.GsonText
import HeyNilo.MemoryCompaction
import HeyNilo.MemoryExtraction

namespace HeyNilo

open JsonFile

namespace MemoryCompaction

def storageWarningBytes : Int := 300 * 1024 * 1024

def storageCriticalBytes : Int := 400 * 1024 * 1024

/-- What a pass of `performCompaction` meets: the time at its two searches, the files that cannot be
read, how the saving of each quarter's summary ends, which files can be deleted in step 3 and in
step 4, the texts of its three dates, and how the write of the statistics ends. -/
structure Pass where
  now : Int
  later : Int
  unreadable : List Text
  save : Text → SaveOutcome
  deletes : Text → Bool
  cleans : Text → Bool
  timestamp : String
  date : String
  nextScheduled : String
  outcome : WriteOutcome

def deleteFiles (deletes : Text → Bool) (counts : Nat) (s : MemoryCompaction)
    (files : List Text) : MemoryCompaction :=
  files.foldl (fun s path => if deletes path then s.deleteFile path counts else s) s

def archiveQuarter (calendar : Calendar) (pass : Pass) (s : MemoryCompaction)
    (quarter : Text × List Text) : MemoryCompaction :=
  let saved := s.summarise calendar pass.unreadable (pass.save quarter.1) quarter.1 quarter.2 []
  match pass.save quarter.1 with
  | .saved => saved.deleteFiles pass.deletes 1 quarter.2
  | .failed _ _ => saved

/-- Steps 1 to 4, without interruption. -/
def performCompaction (calendar : Calendar) (pass : Pass) (s : MemoryCompaction) :
    MemoryCompaction :=
  let oldConversations := findConversationsOlderThan s.conversations retentionDays pass.now
  let s := (byQuarter calendar oldConversations).foldl (archiveQuarter calendar pass)
    { s with result := ⟨true, 0, 0, [], []⟩ }
  let veryOldFiles := findConversationsOlderThan s.conversations archiveCutoffDays pass.later
  { s.deleteFiles pass.cleans 0 (veryOldFiles.map (·.path)) with phase := .idle }

/-- The files whose quarter is saved in a pass. -/
def archivedIn (calendar : Calendar) (pass : Pass) (s : MemoryCompaction) :
    List ConversationFile :=
  (findConversationsOlderThan s.conversations retentionDays pass.now).filter fun file =>
    pass.save (getQuarter calendar file.lastModified) = .saved

end MemoryCompaction

open MemoryCompaction

/-- The conversations with their archive, and the manager with its statistics. -/
structure CompactedMemory where
  compaction : MemoryCompaction
  manager : MemoryManager

namespace CompactedMemory

def files (d : CompactedMemory) : List ConversationFile := d.compaction.conversations.files

def updateCompactionStats (gson : Gson) (pass : Pass) (result : CompactionResult)
    (manager : MemoryManager) : MemoryManager :=
  (manager.updateStats gson
    (StatsJob.updateCompaction pass.timestamp pass.date pass.nextScheduled result.filesArchived
      result.bytesFreed manager.memoryStats)
    pass.outcome).2

/-- `performCompaction` with step 5, which is also all that `forceCompact` does. -/
def forceCompact (gson : Gson) (calendar : Calendar) (pass : Pass) (d : CompactedMemory) :
    CompactedMemory :=
  let compaction := d.compaction.performCompaction calendar pass
  { compaction
    manager := updateCompactionStats gson pass compaction.result d.manager }

/-- The triggers that `runIfNeeded` checks at the time `now`. -/
def needsCompaction (now : Int) (d : CompactedMemory) : Bool :=
  let totalBytes := d.manager.memoryStats.storage.totalBytes
  let oldFiles := findConversationsOlderThan d.compaction.conversations retentionDays now
  if totalBytes > storageCriticalBytes then true
  else if totalBytes > storageWarningBytes then !oldFiles.isEmpty
  else !oldFiles.isEmpty

section Call

variable (gson : Gson) (calendar : Calendar) (now : Int) (first second : Pass) (d : CompactedMemory)

def runIfNeeded : Bool × CompactedMemory :=
  if d.needsCompaction now then
    let d := d.forceCompact gson calendar first
    (d.compaction.result.success && decide (0 < d.compaction.result.filesArchived), d)
  else (false, d)

def runCompactionIfNeeded : CompactionResult × CompactedMemory :=
  let (shouldCompact, d) := d.runIfNeeded gson calendar now first
  if shouldCompact then
    let d := d.forceCompact gson calendar second
    (d.compaction.result, d)
  else (⟨true, 0, 0, [], []⟩, d)

/-- The files that the call archives, in its first pass and in its second. -/
def archivedFiles : List ConversationFile :=
  let (shouldCompact, e) := d.runIfNeeded gson calendar now first
  (if d.needsCompaction now then d.compaction.archivedIn calendar first else []) ++
    if shouldCompact then e.compaction.archivedIn calendar second else []

def removedFiles : List ConversationFile :=
  let e := (d.runCompactionIfNeeded gson calendar now first second).2
  d.files.filter fun file => file ∉ e.files

/-- The counters in the file of the statistics. -/
def counters (manager : MemoryManager) : Int × Int :=
  let stats := load gson.memoryStats {} manager.files.memoryStats
  (stats.compaction.filesCompacted, stats.compaction.bytesSaved)

/-- The result says what the call did, and the counters in the file grow by that. -/
structure ReportsDone : Prop where
  filesArchived : (d.runCompactionIfNeeded gson calendar now first second).1.filesArchived =
    ((d.removedFiles gson calendar now first second).filter
      (· ∈ d.archivedFiles gson calendar now first second)).length
  bytesFreed : (d.runCompactionIfNeeded gson calendar now first second).1.bytesFreed =
    ((d.removedFiles gson calendar now first second).map (·.length)).sum
  counters : counters gson (d.runCompactionIfNeeded gson calendar now first second).2.manager =
    ((counters gson d.manager).1 +
        (d.runCompactionIfNeeded gson calendar now first second).1.filesArchived,
      (counters gson d.manager).2 +
        (d.runCompactionIfNeeded gson calendar now first second).1.bytesFreed)

/-- Writing the manager's counters, nothing added, leaves those in the file: they are the same, the
write does not begin, or it is cut short and those in the file are zero. -/
def KeepsCounters : Prop :=
  let stats := StatsJob.updateCompaction first.timestamp first.date first.nextScheduled 0 0
    d.manager.memoryStats
  let same := counters gson d.manager = (stats.compaction.filesCompacted, stats.compaction.bytesSaved)
  match first.outcome with
  | .ok => same
  | .failed none => True
  | .failed (some kept) =>
    if kept < (gson.memoryStats.toJson stats).length then counters gson d.manager = (0, 0) else same

/-- The first pass can delete no file that it archives, and no other one but empty ones. -/
structure RemovesNothing : Prop where
  archived : ∀ file ∈ d.compaction.archivedIn calendar first, first.deletes file.path = false
  cleaned : ∀ file ∈ findConversationsOlderThan d.compaction.conversations archiveCutoffDays
    first.later, first.cleans file.path = true →
      file ∉ d.compaction.archivedIn calendar first ∧ file.length = 0

end Call

end CompactedMemory

namespace MemoryCompaction

variable {calendar : Calendar} {pass : Pass} {s t u : MemoryCompaction} {counts : Nat}
  {gone gone' : ConversationFile → Bool} {path : Text} {paths : List Text}

/-- The files that are gone, how many they are counted as, and their bytes. -/
structure Removes (s t : MemoryCompaction) (gone : ConversationFile → Bool) (counts : Nat) :
    Prop where
  files : t.conversations.files = s.conversations.files.filter fun file => !gone file
  archived : t.result.filesArchived =
    s.result.filesArchived + counts * (s.conversations.files.filter gone).length
  freed : t.result.bytesFreed =
    s.result.bytesFreed + ((s.conversations.files.filter gone).map (·.length)).sum
  success : t.result.success = s.result.success

theorem Removes.congr (h : Removes s t gone counts)
    (heq : ∀ file ∈ s.conversations.files, gone file = gone' file) : Removes s t gone' counts := by
  have hgone : s.conversations.files.filter gone = s.conversations.files.filter gone' :=
    List.filter_congr heq
  constructor
  · rw [h.files]
    exact List.filter_congr fun file hfile => by rw [heq file hfile]
  · rw [h.archived, hgone]
  · rw [h.freed, hgone]
  · exact h.success

theorem Removes.refl (s : MemoryCompaction) : Removes s s (fun _ => false) counts := by
  constructor
  · simp
  · simp
  · simp
  · rfl

theorem length_filter_or {α : Type*} (l : List α) (p q : α → Bool) :
    (l.filter fun x => p x || q x).length =
      (l.filter p).length + ((l.filter fun x => !p x).filter q).length := by
  induction l with
  | nil => rfl
  | cons x l ih => cases hp : p x <;> cases hq : q x <;> simp [hp, hq, ih] <;> omega

theorem sum_filter_or {α : Type*} (l : List α) (p q : α → Bool) (f : α → Nat) :
    ((l.filter fun x => p x || q x).map f).sum =
      ((l.filter p).map f).sum + (((l.filter fun x => !p x).filter q).map f).sum := by
  induction l with
  | nil => rfl
  | cons x l ih => cases hp : p x <;> cases hq : q x <;> simp [hp, hq, ih] <;> omega

theorem Removes.trans (h : Removes s t gone counts) (h' : Removes t u gone' counts) :
    Removes s u (fun file => gone file || gone' file) counts := by
  constructor
  · rw [h'.files, h.files, List.filter_filter]
    exact List.filter_congr fun file _ => by rw [Bool.not_or, Bool.and_comm]
  · rw [h'.archived, h.archived, h.files, length_filter_or, Nat.mul_add, Nat.add_assoc]
  · rw [h'.freed, h.freed, h.files, sum_filter_or, Nat.add_assoc]
  · rw [h'.success, h.success]

theorem filter_path_eq {files : List ConversationFile} (h : (files.map (·.path)).Nodup)
    (path : Text) :
    files.filter (·.path = path) = (files.find? (·.path = path)).toList := by
  induction files with
  | nil => rfl
  | cons file files ih =>
    rw [List.map_cons, List.nodup_cons] at h
    obtain ⟨hnot, hnodup⟩ := h
    by_cases hpath : file.path = path
    · have hnone : files.filter (·.path = path) = [] := by
        rw [List.filter_eq_nil_iff]
        intro other hother heq
        have heq := of_decide_eq_true heq
        exact hnot (List.mem_map.mpr ⟨other, hother, heq.trans hpath.symm⟩)
      simp [hpath, hnone]
    · simp [hpath, ih hnodup]

theorem deleteFile_removes : Removes s (s.deleteFile path counts) (·.path = path) counts := by
  have hfilter := filter_path_eq s.conversations.distinct path
  unfold deleteFile
  cases hlookup : s.conversations.lookup path with
  | none =>
    rw [ConversationDir.lookup] at hlookup
    rw [hlookup] at hfilter
    refine (Removes.refl s).congr fun file hfile => ?_
    have hne := List.filter_eq_nil_iff.mp hfilter file hfile
    simpa using hne
  | some file =>
    rw [ConversationDir.lookup] at hlookup
    rw [hlookup] at hfilter
    constructor
    · simp [ConversationDir.delete]
    · simp [hfilter]
    · simp [hfilter]
    · rfl

theorem deleteFiles_removes {deletes : Text → Bool} : Removes s (s.deleteFiles deletes counts paths)
    (fun file => decide (file.path ∈ paths) && deletes file.path) counts := by
  induction paths generalizing s with
  | nil => exact (Removes.refl s).congr fun _ _ => by simp
  | cons path paths ih =>
    have hstep : Removes s (if deletes path then s.deleteFile path counts else s)
        (fun file => decide (file.path = path) && deletes path) counts := by
      cases deletes path with
      | true => exact deleteFile_removes.congr fun _ _ => by simp
      | false => exact (Removes.refl s).congr fun _ _ => by simp
    refine (hstep.trans ih).congr fun file _ => ?_
    by_cases hpath : file.path = path
    · simp [hpath]
    · simp [hpath]

theorem archiveQuarter_removes {quarter : Text × List Text} :
    Removes s (archiveQuarter calendar pass s quarter)
      (fun file => decide (pass.save quarter.1 = .saved) &&
        (decide (file.path ∈ quarter.2) && pass.deletes file.path)) 1 := by
  unfold archiveQuarter
  have hsame : Removes s
      (s.summarise calendar pass.unreadable (pass.save quarter.1) quarter.1 quarter.2 [])
      (fun _ => false) 1 := by
    have hrefl : Removes s s (fun _ => false) 1 := Removes.refl s
    unfold summarise
    cases pass.save quarter.1 with
    | saved => exact ⟨hrefl.files, hrefl.archived, hrefl.freed, hrefl.success⟩
    | failed => exact ⟨hrefl.files, hrefl.archived, hrefl.freed, hrefl.success⟩
  cases hsave : pass.save quarter.1 with
  | saved =>
    rw [hsave] at hsame
    exact (hsame.trans deleteFiles_removes).congr fun _ _ => by simp
  | failed written message =>
    rw [hsave] at hsame
    exact hsame.congr fun _ _ => by simp

theorem archiveQuarters_removes {quarters : List (Text × List Text)} :
    Removes s (quarters.foldl (archiveQuarter calendar pass) s)
      (fun file => quarters.any fun quarter => decide (pass.save quarter.1 = .saved) &&
        (decide (file.path ∈ quarter.2) && pass.deletes file.path)) 1 := by
  induction quarters generalizing s with
  | nil => exact Removes.refl s
  | cons quarter quarters ih => exact archiveQuarter_removes.trans ih

section Runs

variable {todo : List (Text × List Text)}

def inPhase (phase : Phase) (s : MemoryCompaction) : MemoryCompaction := { s with phase }

theorem deleteFile_inPhase {phase : Phase} :
    (s.inPhase phase).deleteFile path counts = (s.deleteFile path counts).inPhase phase := by
  unfold deleteFile inPhase
  simp only
  split <;> rfl

theorem deleteFiles_cons {deletes : Text → Bool} : s.deleteFiles deletes counts (path :: paths) =
    (if deletes path then s.deleteFile path counts else s).deleteFiles deletes counts paths := rfl

theorem deleteFiles_run {deletes : Text → Bool} :
    Machine.run (step calendar) (s.inPhase (.deleting paths todo))
        (paths.map (fun path => .delete (deletes path)) ++ [.delete false]) =
      some ((s.deleteFiles deletes 1 paths).inPhase (.processing todo)) := by
  induction paths generalizing s with
  | nil => rfl
  | cons path paths ih =>
    have hstep : step calendar (s.inPhase (.deleting (path :: paths) todo))
        (.delete (deletes path)) =
          some ((if deletes path then s.deleteFile path 1 else s).inPhase
            (.deleting paths todo)) := by
      cases deletes path with
      | true =>
        change some ((deleteFile (s.inPhase (.deleting (path :: paths) todo)) path 1).inPhase
          (.deleting paths todo)) = _
        rw [deleteFile_inPhase]
        rfl
      | false => rfl
    rw [List.map_cons, List.cons_append, Machine.run, hstep, Option.bind_some, ih, deleteFiles_cons]

theorem cleanFiles_run {deletes : Text → Bool} :
    Machine.run (step calendar) (s.inPhase (.cleaning paths))
        (paths.map (fun path => .clean (deletes path)) ++ [.finish]) =
      some ((s.deleteFiles deletes 0 paths).inPhase .idle) := by
  induction paths generalizing s with
  | nil => rfl
  | cons path paths ih =>
    have hstep : step calendar (s.inPhase (.cleaning (path :: paths))) (.clean (deletes path)) =
        some ((if deletes path then s.deleteFile path 0 else s).inPhase (.cleaning paths)) := by
      cases deletes path with
      | true =>
        change some ((deleteFile (s.inPhase (.cleaning (path :: paths))) path 0).inPhase
          (.cleaning paths)) = _
        rw [deleteFile_inPhase]
        rfl
      | false => rfl
    rw [List.map_cons, List.cons_append, Machine.run, hstep, Option.bind_some, ih, deleteFiles_cons]

/-- The steps of a quarter. -/
def quarterEvents (pass : Pass) (quarter : Text × List Text) : List Event :=
  .summarise pass.unreadable (pass.save quarter.1) ::
    match pass.save quarter.1 with
    | .saved => quarter.2.map (fun path => .delete (pass.deletes path)) ++ [.delete false]
    | .failed _ _ => []

theorem archiveQuarter_run {quarter : Text × List Text} :
    Machine.run (step calendar) (s.inPhase (.processing (quarter :: todo)))
        (quarterEvents pass quarter) =
      some ((archiveQuarter calendar pass s quarter).inPhase (.processing todo)) := by
  rw [quarterEvents, Machine.run, archiveQuarter]
  cases hsave : pass.save quarter.1 with
  | saved =>
    exact deleteFiles_run
      (s := s.summarise calendar pass.unreadable .saved quarter.1 quarter.2 [])
  | failed written message => rfl

theorem archiveQuarters_run {quarters : List (Text × List Text)} :
    Machine.run (step calendar) (s.inPhase (.processing quarters))
        (quarters.flatMap (quarterEvents pass)) =
      some ((quarters.foldl (archiveQuarter calendar pass) s).inPhase (.processing [])) := by
  induction quarters generalizing s with
  | nil => rfl
  | cons quarter quarters ih =>
    rw [List.flatMap_cons, Machine.run_append, archiveQuarter_run, Option.bind_some, ih]
    rfl

/-- A pass is a run of compaction's steps that no write of a conversation interrupts. -/
theorem performCompaction_run (calendar : Calendar) (pass : Pass) (s : MemoryCompaction) :
    ∃ es, Machine.run (step calendar) (s.inPhase .idle) es =
      some (performCompaction calendar pass s) ∧ ∀ e ∈ es, ∀ file, e ≠ .write file := by
  let quarters := byQuarter calendar
    (findConversationsOlderThan s.conversations retentionDays pass.now)
  let middle := quarters.foldl (archiveQuarter calendar pass)
    { s with result := ⟨true, 0, 0, [], []⟩ }
  let veryOldFiles := (findConversationsOlderThan middle.conversations archiveCutoffDays
    pass.later).map (·.path)
  refine ⟨.start pass.now :: (quarters.flatMap (quarterEvents pass) ++ .cleanUp pass.later ::
    (veryOldFiles.map (fun path => .clean (pass.cleans path)) ++ [.finish])), ?_, ?_⟩
  · have hquarters : Machine.run (step calendar)
        (inPhase (.processing quarters) { s with result := ⟨true, 0, 0, [], []⟩ })
        (quarters.flatMap (quarterEvents pass)) = some (middle.inPhase (.processing [])) :=
      archiveQuarters_run
    have hclean : Machine.run (step calendar) (middle.inPhase (.cleaning veryOldFiles))
        (veryOldFiles.map (fun path => .clean (pass.cleans path)) ++ [.finish]) =
          some ((middle.deleteFiles pass.cleans 0 veryOldFiles).inPhase .idle) := cleanFiles_run
    rw [Machine.run]
    change Machine.run (step calendar)
      (inPhase (.processing quarters) { s with result := ⟨true, 0, 0, [], []⟩ }) _ = _
    rw [Machine.run_append, hquarters, Option.bind_some, Machine.run]
    exact hclean
  · intro e he file
    rw [List.mem_cons, List.mem_append, List.mem_cons, List.mem_append, List.mem_flatMap,
      List.mem_map] at he
    rintro rfl
    rcases he with he | ⟨quarter, -, hquarter⟩ | he | ⟨path, -, he⟩ | hfinish
    · cases he
    · rw [quarterEvents, List.mem_cons] at hquarter
      rcases hquarter with he | hdelete
      · cases he
      · split at hdelete
        next =>
          rw [List.mem_append, List.mem_map] at hdelete
          rcases hdelete with ⟨path, -, he⟩ | hlast
          · cases he
          · cases List.mem_singleton.mp hlast
        next => cases hdelete
    · cases he
    · cases he
    · cases List.mem_singleton.mp hfinish

end Runs

/-- A file is archived and deleted in step 3. -/
def archives (calendar : Calendar) (pass : Pass) (s : MemoryCompaction)
    (file : ConversationFile) : Bool :=
  decide (file ∈ s.archivedIn calendar pass) && pass.deletes file.path

/-- A file is deleted in step 4. -/
def cleans (pass : Pass) (s : MemoryCompaction) (file : ConversationFile) : Bool :=
  decide (file ∈ findConversationsOlderThan s.conversations archiveCutoffDays pass.later) &&
    pass.cleans file.path

theorem mem_older {dir : ConversationDir} {days now : Int} {file : ConversationFile}
    (h : file ∈ findConversationsOlderThan dir days now) : file ∈ dir.files :=
  (List.mem_filter.mp h).1

theorem older_iff {dir dir' : ConversationDir} {days now : Int} {file : ConversationFile}
    (h : file ∈ dir.files) (h' : file ∈ dir'.files) :
    file ∈ findConversationsOlderThan dir days now ↔
      file ∈ findConversationsOlderThan dir' days now := by
  unfold findConversationsOlderThan
  rw [List.mem_filter, List.mem_filter]
  simp only [h, h', true_and]

/-- The paths of a directory tell its files apart. -/
theorem path_inj {dir : ConversationDir} {file other : ConversationFile} (h : file ∈ dir.files)
    (h' : other ∈ dir.files) (hpath : file.path = other.path) : file = other :=
  List.inj_on_of_nodup_map dir.distinct h h' hpath

theorem mem_paths {dir : ConversationDir} {files : List ConversationFile} {file : ConversationFile}
    (hsub : ∀ other ∈ files, other ∈ dir.files) (h : file ∈ dir.files) :
    file.path ∈ files.map (·.path) ↔ file ∈ files := by
  rw [List.mem_map]
  constructor
  · rintro ⟨other, hother, hpath⟩
    rwa [← path_inj (hsub other hother) h hpath]
  · intro hfile
    exact ⟨file, hfile, rfl⟩

theorem any_byQuarter {file : ConversationFile} (h : file ∈ s.conversations.files) :
    ((byQuarter calendar
      (findConversationsOlderThan s.conversations retentionDays pass.now)).any fun quarter =>
        decide (pass.save quarter.1 = .saved) &&
          (decide (file.path ∈ quarter.2) && pass.deletes file.path)) =
      archives calendar pass s file := by
  have hpaths : ∀ quarter, file.path ∈
      ((findConversationsOlderThan s.conversations retentionDays pass.now).filter fun other =>
        getQuarter calendar other.lastModified = quarter).map (·.path) ↔
      file ∈ findConversationsOlderThan s.conversations retentionDays pass.now ∧
        getQuarter calendar file.lastModified = quarter := by
    intro quarter
    rw [mem_paths (fun other hother => mem_older (List.mem_filter.mp hother).1) h, List.mem_filter,
      decide_eq_true_eq]
  rw [Bool.eq_iff_iff, List.any_eq_true, archives, Bool.and_eq_true, decide_eq_true_eq, archivedIn,
    List.mem_filter, decide_eq_true_eq]
  constructor
  · rintro ⟨quarter, hquarter, hany⟩
    obtain ⟨q, -, rfl⟩ := List.mem_map.mp hquarter
    simp only [Bool.and_eq_true, decide_eq_true_eq] at hany
    obtain ⟨hsave, hpath, hdeletes⟩ := hany
    obtain ⟨hold, rfl⟩ := (hpaths q).mp hpath
    exact ⟨⟨hold, hsave⟩, hdeletes⟩
  · rintro ⟨⟨hold, hsave⟩, hdeletes⟩
    refine ⟨_, List.mem_map.mpr ⟨getQuarter calendar file.lastModified, ?_, rfl⟩, ?_⟩
    · rw [List.mem_eraseDups]
      exact List.mem_map.mpr ⟨file, hold, rfl⟩
    · simp only [Bool.and_eq_true, decide_eq_true_eq]
      exact ⟨hsave, (hpaths _).mpr ⟨hold, rfl⟩, hdeletes⟩

/-- What a pass removes, and what of it its result says. -/
theorem performCompaction_spec (calendar : Calendar) (pass : Pass) (s : MemoryCompaction) :
    (performCompaction calendar pass s).conversations.files =
        s.conversations.files.filter (fun file => !(archives calendar pass s file ||
          cleans pass s file)) ∧
      (performCompaction calendar pass s).result.filesArchived =
        (s.conversations.files.filter (archives calendar pass s)).length ∧
      (performCompaction calendar pass s).result.bytesFreed =
        ((s.conversations.files.filter fun file => archives calendar pass s file ||
          cleans pass s file).map (·.length)).sum ∧
      (performCompaction calendar pass s).result.success = true := by
  let fresh : MemoryCompaction := { s with result := ⟨true, 0, 0, [], []⟩ }
  let middle := (byQuarter calendar (findConversationsOlderThan s.conversations retentionDays
    pass.now)).foldl (archiveQuarter calendar pass) fresh
  let paths := (findConversationsOlderThan middle.conversations archiveCutoffDays pass.later).map
    (·.path)
  have hfirst : Removes fresh middle (archives calendar pass s) 1 :=
    archiveQuarters_removes.congr fun file hfile => any_byQuarter (s := fresh) hfile
  have hsecond : Removes middle (middle.deleteFiles pass.cleans 0 paths) (cleans pass s) 0 := by
    refine deleteFiles_removes.congr fun file hfile => ?_
    have hfile' : file ∈ s.conversations.files := by
      rw [hfirst.files] at hfile
      exact (List.mem_filter.mp hfile).1
    rw [cleans]
    congr 1
    rw [decide_eq_decide, mem_paths (fun other => mem_older) hfile]
    exact older_iff hfile hfile'
  refine ⟨?_, ?_, ?_, ?_⟩
  · have hfiles := hsecond.files
    rw [hfirst.files, List.filter_filter] at hfiles
    refine hfiles.trans (List.filter_congr fun file _ => ?_)
    rw [Bool.not_or, Bool.and_comm]
  · have harchived := hsecond.archived
    rw [hfirst.archived, Nat.zero_mul, Nat.add_zero, Nat.one_mul] at harchived
    exact harchived.trans (Nat.zero_add _)
  · have hfreed := hsecond.freed
    rw [hfirst.freed, hfirst.files, Nat.add_assoc, ← sum_filter_or] at hfreed
    exact hfreed.trans (Nat.zero_add _)
  · exact hsecond.success.trans hfirst.success

end MemoryCompaction

namespace CompactedMemory

variable {gson : Gson} {calendar : Calendar} {now : Int} {first second pass : Pass}
  {d e : CompactedMemory}

theorem files_forceCompact : (d.forceCompact gson calendar pass).files =
    d.files.filter fun file => !(archives calendar pass d.compaction file ||
      cleans pass d.compaction file) :=
  (performCompaction_spec calendar pass d.compaction).1

theorem filesArchived_forceCompact :
    (d.forceCompact gson calendar pass).compaction.result.filesArchived =
      (d.files.filter (archives calendar pass d.compaction)).length :=
  (performCompaction_spec calendar pass d.compaction).2.1

theorem runCompactionIfNeeded_of_not (h : d.needsCompaction now = false) :
    d.runCompactionIfNeeded gson calendar now first second = (⟨true, 0, 0, [], []⟩, d) := by
  simp [runCompactionIfNeeded, runIfNeeded, h]

theorem runIfNeeded_of_needs (h : d.needsCompaction now = true) :
    d.runIfNeeded gson calendar now first =
      (decide (0 < (d.forceCompact gson calendar first).compaction.result.filesArchived),
        d.forceCompact gson calendar first) := by
  have hsuccess : (d.forceCompact gson calendar first).compaction.result.success = true :=
    (performCompaction_spec calendar first d.compaction).2.2.2
  rw [runIfNeeded, if_pos h]
  simp only [hsuccess, Bool.true_and]

/-- Both passes run if the first one counts a file. -/
theorem runIfNeeded_of_counts (hneeds : d.needsCompaction now = true)
    (hpos : 0 < (d.files.filter (archives calendar first d.compaction)).length) :
    d.runIfNeeded gson calendar now first = (true, d.forceCompact gson calendar first) := by
  rw [runIfNeeded_of_needs hneeds, filesArchived_forceCompact, decide_eq_true hpos]

theorem runCompactionIfNeeded_of_counts (h : d.runIfNeeded gson calendar now first = (true, e)) :
    d.runCompactionIfNeeded gson calendar now first second =
      ((e.forceCompact gson calendar second).compaction.result,
        e.forceCompact gson calendar second) := by
  simp only [runCompactionIfNeeded, h, if_true]

theorem archivedFiles_of_counts (hneeds : d.needsCompaction now = true)
    (h : d.runIfNeeded gson calendar now first = (true, e)) :
    d.archivedFiles gson calendar now first second =
      d.compaction.archivedIn calendar first ++ e.compaction.archivedIn calendar second := by
  simp only [archivedFiles, h, hneeds, if_true]

/-- What the first pass archives and deletes is not in the result, which is that of the second. -/
theorem not_reportsDone (hneeds : d.needsCompaction now = true)
    (hpos : 0 < (d.files.filter (archives calendar first d.compaction)).length) :
    ¬ReportsDone gson calendar now first second d := by
  intro h
  have hrun : d.runIfNeeded gson calendar now first = (true, d.forceCompact gson calendar first) :=
    runIfNeeded_of_counts hneeds hpos
  have he := @files_forceCompact gson calendar first d
  generalize d.forceCompact gson calendar first = e at hrun he
  have hf := @files_forceCompact gson calendar second e
  have hsecond := @filesArchived_forceCompact gson calendar second e
  have hcount := h.filesArchived
  rw [archivedFiles_of_counts hneeds hrun, removedFiles, runCompactionIfNeeded_of_counts hrun,
    List.filter_filter] at hcount
  simp only at hcount
  generalize e.forceCompact gson calendar second = f at hf hsecond hcount
  -- the files archived and deleted in step 3 of the two passes
  have hboth : (d.files.filter fun file => archives calendar first d.compaction file ||
      (decide (file ∈ e.files) && archives calendar second e.compaction file)).length =
        (d.files.filter (archives calendar first d.compaction)).length +
          f.compaction.result.filesArchived := by
    rw [length_filter_or, hsecond, he, List.filter_filter, List.filter_filter]
    congr 2
    refine List.filter_congr fun file hfile => ?_
    simp only [List.mem_filter, hfile, true_and]
    cases archives calendar first d.compaction file <;>
      cases cleans first d.compaction file <;> simp
  have hle := (List.monotone_filter_right d.files (p := fun file =>
      archives calendar first d.compaction file ||
        (decide (file ∈ e.files) && archives calendar second e.compaction file))
    (q := fun file => decide (file ∈ d.compaction.archivedIn calendar first ++
      e.compaction.archivedIn calendar second) && decide (file ∉ f.files)) (by
        intro file hfile
        rw [Bool.or_eq_true, Bool.and_eq_true, decide_eq_true_eq] at hfile
        rw [Bool.and_eq_true, decide_eq_true_eq, decide_eq_true_eq, List.mem_append, hf,
          List.mem_filter, he, List.mem_filter]
        rcases hfile with hfirst | ⟨-, hsecond⟩
        · have hmem := (Bool.and_eq_true_iff.mp hfirst).1
          exact ⟨Or.inl (of_decide_eq_true hmem), by simp [hfirst]⟩
        · have hmem := (Bool.and_eq_true_iff.mp hsecond).1
          exact ⟨Or.inr (of_decide_eq_true hmem), by simp [hsecond]⟩)).length_le
  omega

theorem archives_eq_false_iff : (d.files.filter (archives calendar first d.compaction)).length = 0 ↔
    ∀ file ∈ d.compaction.archivedIn calendar first, first.deletes file.path = false := by
  rw [List.length_eq_zero_iff, List.filter_eq_nil_iff]
  constructor
  · intro h file hfile
    have hmem : file ∈ d.files := mem_older (List.mem_filter.mp hfile).1
    have hnot := h file hmem
    rw [archives, decide_eq_true hfile, Bool.true_and, Bool.not_eq_true] at hnot
    exact hnot
  · intro h file _ harchives
    obtain ⟨hmem, hdeletes⟩ := Bool.and_eq_true_iff.mp harchives
    rw [h file (of_decide_eq_true hmem)] at hdeletes
    cases hdeletes

/-- Writing the statistics with nothing added. -/
theorem counters_updateCompactionStats {result : CompactionResult}
    (hexact : gson.memoryStats.Exact (StatsJob.updateCompaction first.timestamp first.date
      first.nextScheduled 0 0 d.manager.memoryStats))
    (hfiles : result.filesArchived = 0) (hbytes : result.bytesFreed = 0) :
    counters gson (updateCompactionStats gson first result d.manager) =
        ((counters gson d.manager).1 + (0 : Nat), (counters gson d.manager).2 + (0 : Nat)) ↔
      d.KeepsCounters gson first := by
  simp only [Int.natCast_zero, Int.add_zero, Prod.mk.eta]
  unfold updateCompactionStats MemoryManager.updateStats KeepsCounters
  rw [hfiles, hbytes]
  cases houtcome : first.outcome with
  | ok =>
    simp only [write, counters, Int.natCast_zero, load_toJson hexact]
    exact eq_comm
  | failed kept =>
    simp only [write, counters, Int.natCast_zero, load_interrupted hexact]
    cases kept with
    | none => simp
    | some kept =>
      simp only
      split
      next => exact eq_comm
      next => exact eq_comm

theorem removedFiles_of_none (hneeds : d.needsCompaction now = true)
    (hzero : (d.files.filter (archives calendar first d.compaction)).length = 0) :
    d.runCompactionIfNeeded gson calendar now first second =
        (⟨true, 0, 0, [], []⟩, d.forceCompact gson calendar first) ∧
      d.archivedFiles gson calendar now first second = d.compaction.archivedIn calendar first ∧
        d.removedFiles gson calendar now first second =
          d.files.filter (cleans first d.compaction) := by
  have hrun := @runIfNeeded_of_needs gson calendar now first d hneeds
  rw [filesArchived_forceCompact, hzero, decide_eq_false (by omega)] at hrun
  have hcall : d.runCompactionIfNeeded gson calendar now first second =
      (⟨true, 0, 0, [], []⟩, d.forceCompact gson calendar first) := by
    simp [runCompactionIfNeeded, hrun]
  refine ⟨hcall, ?_, ?_⟩
  · simp [archivedFiles, hrun, hneeds]
  · have hnone := List.filter_eq_nil_iff.mp (List.length_eq_zero_iff.mp hzero)
    rw [removedFiles, hcall]
    refine List.filter_congr fun file hfile => ?_
    have hfalse := hnone file hfile
    rw [Bool.not_eq_true] at hfalse
    simp [files_forceCompact, hfile, hfalse]

theorem reportsDone_of_none_iff (hneeds : d.needsCompaction now = true)
    (hzero : (d.files.filter (archives calendar first d.compaction)).length = 0)
    (hexact : gson.memoryStats.Exact (StatsJob.updateCompaction first.timestamp first.date
      first.nextScheduled 0 0 d.manager.memoryStats)) :
    ReportsDone gson calendar now first second d ↔
      (∀ file ∈ findConversationsOlderThan d.compaction.conversations archiveCutoffDays first.later,
        first.cleans file.path = true →
          file ∉ d.compaction.archivedIn calendar first ∧ file.length = 0) ∧
        d.KeepsCounters gson first := by
  obtain ⟨hcall, harchived, hremoved⟩ :=
    @removedFiles_of_none gson calendar now first second d hneeds hzero
  have hmem (file : ConversationFile) : file ∈ d.files.filter (cleans first d.compaction) ↔
      file ∈ findConversationsOlderThan d.compaction.conversations archiveCutoffDays first.later ∧
        first.cleans file.path = true := by
    rw [List.mem_filter, cleans, Bool.and_eq_true, decide_eq_true_eq]
    exact and_iff_right_of_imp fun h => mem_older h.1
  have hcount : 0 = ((d.files.filter (cleans first d.compaction)).filter
      (· ∈ d.compaction.archivedIn calendar first)).length ↔
      ∀ file ∈ d.files.filter (cleans first d.compaction),
        file ∉ d.compaction.archivedIn calendar first := by
    rw [eq_comm, List.length_eq_zero_iff, List.filter_eq_nil_iff]
    simp only [decide_eq_true_eq]
  have hbytes : 0 = ((d.files.filter (cleans first d.compaction)).map (·.length)).sum ↔
      ∀ file ∈ d.files.filter (cleans first d.compaction), file.length = 0 := by
    rw [eq_comm, List.sum_eq_zero_iff_forall_eq_nat, List.forall_mem_map]
  have hcounters (h : ∀ file ∈ d.files.filter (cleans first d.compaction), file.length = 0) :=
    @counters_updateCompactionStats gson first d
      (d.compaction.performCompaction calendar first).result hexact
      ((performCompaction_spec calendar first d.compaction).2.1.trans hzero) (by
        rw [(performCompaction_spec calendar first d.compaction).2.2.1, List.sum_eq_zero_iff_forall_eq_nat,
          List.forall_mem_map]
        intro file hfile
        obtain ⟨hin, hor⟩ := List.mem_filter.mp hfile
        have hnone := List.filter_eq_nil_iff.mp (List.length_eq_zero_iff.mp hzero) file hin
        rw [Bool.not_eq_true] at hnone
        rw [hnone, Bool.false_or] at hor
        exact h file (List.mem_filter.mpr ⟨hin, hor⟩))
  constructor
  · intro h
    have hfiles := h.filesArchived
    have hfreed := h.bytesFreed
    have hstats := h.counters
    rw [hcall, harchived, hremoved] at hfiles
    rw [hcall, hremoved] at hfreed
    rw [hcall] at hstats
    have hempty := hbytes.mp hfreed
    refine ⟨fun file hold hcleans => ?_, (hcounters hempty).mp hstats⟩
    have hgone := (hmem file).mpr ⟨hold, hcleans⟩
    exact ⟨hcount.mp hfiles file hgone, hempty file hgone⟩
  · rintro ⟨hcleaned, hkeeps⟩
    have hempty : ∀ file ∈ d.files.filter (cleans first d.compaction), file.length = 0 := by
      intro file hfile
      obtain ⟨hold, hcleans⟩ := (hmem file).mp hfile
      exact (hcleaned file hold hcleans).2
    constructor
    · rw [hcall, harchived, hremoved]
      refine hcount.mpr fun file hfile => ?_
      obtain ⟨hold, hcleans⟩ := (hmem file).mp hfile
      exact (hcleaned file hold hcleans).1
    · rw [hcall, hremoved]
      exact hbytes.mpr hempty
    · rw [hcall]
      exact (hcounters hempty).mpr hkeeps

/-- The result says what was done, and the counters grow by it, exactly if compaction is not needed
or its first pass removes nothing that had to be counted. -/
theorem reportsDone_iff
    (hexact : gson.memoryStats.Exact (StatsJob.updateCompaction first.timestamp first.date
      first.nextScheduled 0 0 d.manager.memoryStats)) :
    ReportsDone gson calendar now first second d ↔
      (d.needsCompaction now = true →
        d.RemovesNothing calendar first ∧ d.KeepsCounters gson first) := by
  cases hneeds : d.needsCompaction now with
  | false =>
    refine iff_of_true ?_ nofun
    have hcall := @runCompactionIfNeeded_of_not gson calendar now first second d hneeds
    have hremoved : d.removedFiles gson calendar now first second = [] := by
      simp [removedFiles, hcall]
    constructor
    · rw [hcall, hremoved]
      rfl
    · rw [hcall, hremoved]
      rfl
    · rw [hcall]
      simp
  | true =>
    by_cases hzero : (d.files.filter (archives calendar first d.compaction)).length = 0
    · rw [reportsDone_of_none_iff hneeds hzero hexact]
      constructor
      · rintro ⟨hcleaned, hkeeps⟩ -
        exact ⟨⟨archives_eq_false_iff.mp hzero, hcleaned⟩, hkeeps⟩
      · intro h
        obtain ⟨hremoves, hkeeps⟩ := h rfl
        exact ⟨hremoves.cleaned, hkeeps⟩
    · refine iff_of_false (not_reportsDone hneeds (Nat.pos_of_ne_zero hzero)) fun h => ?_
      exact hzero (archives_eq_false_iff.mpr (h rfl).1.archived)

/-- A calendar for the first quarter of 1970. -/
def newYear : Calendar where
  year := fun _ => 1970
  month := fun _ => 0
  formatDate := fun _ => "1970-01-01".toList

def newYearLog : ConversationFile :=
  ⟨"1970/01/1970-01-01.md".toList, 0, "**User:** hi".toList, 12⟩

/-- A pass a year later in which all is saved. -/
def yearlyPass (deletes : Bool) : Pass where
  now := 31536000001
  later := 31536000001
  unreadable := []
  save := fun _ => .saved
  deletes := fun _ => deletes
  cleans := fun _ => deletes
  timestamp := "1971-01-01T00:00:00Z"
  date := "1971-01-01T00:00:00Z"
  nextScheduled := "1971-04-01"
  outcome := .ok

def yearlyStats : MemoryStats where
  lastUpdated := "1971-01-01T00:00:00Z"
  compaction :=
    { lastCompactionDate := some "1971-01-01T00:00:00Z"
      nextScheduled := some "1971-04-01" }

def yearlyGson : Gson :=
  { sampleGson [] [] with memoryStats := sampleCodec MemoryStats.json [yearlyStats] }

/-- One conversation of a year ago and no files of the manager. -/
def oldMemory : CompactedMemory where
  compaction := .start ⟨[newYearLog], by decide⟩
  manager := .initializeFrom yearlyGson ⟨none, none, none, none⟩

theorem reportsDone_undeleted : ReportsDone yearlyGson newYear 31536000001 (yearlyPass false)
    (yearlyPass false) oldMemory :=
  (reportsDone_iff (sampleCodec_exact (List.mem_singleton_self yearlyStats)
    fun _ hb _ => List.mem_singleton.mp hb)).mpr fun _ =>
      ⟨⟨fun _ _ => rfl, fun _ _ => nofun⟩, rfl⟩

/-- The first pass archives the conversation; the second finds nothing, and its result is returned. -/
theorem second_pass_reported : ¬ReportsDone yearlyGson newYear 31536000001 (yearlyPass true)
    (yearlyPass true) oldMemory :=
  not_reportsDone (by decide) (by decide)

end CompactedMemory

end HeyNilo

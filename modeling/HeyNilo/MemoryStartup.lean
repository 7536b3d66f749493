import HeyNilo.GsonText
import HeyNilo.MemoryManager
import HeyNilo.Simulation
import Mathlib.Data.List.Find

namespace HeyNilo

open JsonFile Machine

/-- The directories of the memory store. -/
inductive MemoryDir where
  | memory
  | core
  | conversations
  | work
  | workActive
  | workArchive
  | system
deriving DecidableEq, Repr

/-- A directory with those above it inside the store, outermost first. -/
def MemoryDir.path : MemoryDir → List MemoryDir
  | memory => [memory]
  | core => [memory, core]
  | conversations => [memory, conversations]
  | work => [memory, work]
  | workActive => [memory, work, workActive]
  | workArchive => [memory, work, workArchive]
  | system => [memory, system]

/-- The files that exist after the first start, in the order in which they are made. -/
inductive DefaultFile where
  | userProfile
  | relationships
  | reminders
  | medical
  | goals
  | projects
  | memoryStats
  | compactionLog
deriving DecidableEq, Repr

def DefaultFile.dir : DefaultFile → MemoryDir
  | userProfile | relationships | medical => .core
  | reminders | goals | projects => .workActive
  | memoryStats | compactionLog => .system

/-- A text of the form `yyyy-MM-dd'T'HH:mm:ss'Z'`. -/
structure Timestamp where
  text : Text
  length_eq : text.length = 20

structure MemoryDisk where
  dirs : MemoryDir → Bool
  files : DefaultFile → Option Text

namespace FileSystemManager

def directories : List MemoryDir :=
  [.memory, .core, .conversations, .work, .workActive, .workArchive, .system]

def defaultFiles : List DefaultFile :=
  [.userProfile, .relationships, .reminders, .medical, .goals, .projects, .memoryStats,
    .compactionLog]

/-- `mkdirs`, which makes `made` of the missing directories and reports whether these are all. -/
def mkdirs (dirs : MemoryDir → Bool) (dir : MemoryDir) (made : Nat) :
    Bool × (MemoryDir → Bool) :=
  let missing := dir.path.filter fun d => !dirs d
  (missing.length ≤ made, fun d => dirs d || (missing.take made).contains d)

def createDirectoryStructure (made : MemoryDir → Nat) (dirs : MemoryDir → Bool) :
    List MemoryDir → Bool × (MemoryDir → Bool)
  | [] => (true, dirs)
  | dir :: rest =>
    let (created, next) := if dirs dir then (true, dirs) else mkdirs dirs dir (made dir)
    let (allCreated, last) := createDirectoryStructure made next rest
    (created && allCreated, last)

def joinLines (lines : List String) : Text := List.intercalate ['\n'] (lines.map String.toList)

def encryptedPlaceholder (now : Text) : Text :=
  joinLines ["\x7b", "  \"encrypted\": true,",
    "  \"note\": \"This file is encrypted. Use secure decryption to access.\","] ++
  "\n  \"created_at\": \"".toList ++ now ++ "\"\n\x7d".toList

def defaultGoals : Text :=
  joinLines ["# Goals", "", "## Professional", "- [ ] Set your professional goals here", "",
    "## Personal", "- [ ] Set your personal goals here", "", "---",
    "*This file is automatically managed by AGENT SMITH*", ""]

def defaultProjects (now : Text) : Text :=
  "\x7b\n  \"version\": 1,\n  \"last_updated\": \"".toList ++ now ++
    "\",\n  \"projects\": []\n\x7d".toList

def defaultMemoryStats (now : Text) : Text :=
  "\x7b\n  \"version\": 1,\n  \"last_updated\": \"".toList ++ now ++ "\",\n".toList ++
  joinLines ["  \"storage\": \x7b", "    \"total_bytes\": 0,", "    \"max_bytes\": 367001600,",
    "    \"core_bytes\": 0,", "    \"conversations_bytes\": 0,", "    \"work_bytes\": 0,",
    "    \"system_bytes\": 0", "  \x7d,", "  \"counts\": \x7b", "    \"profile_facts\": 0,",
    "    \"relationships\": 0,", "    \"pending_reminders\": 0,", "    \"completed_reminders\": 0,",
    "    \"conversation_files\": 0,", "    \"archived_files\": 0", "  \x7d,",
    "  \"compaction\": \x7b", "    \"files_compacted\": 0,", "    \"bytes_saved\": 0", "  \x7d",
    "\x7d"]

def defaultCompactionLog : Text :=
  joinLines ["\x7b", "  \"version\": 1,", "  \"compactions\": []", "\x7d"]

/-- What is written into a file that does not exist. -/
def contents (gson : Gson) (now : Text) : DefaultFile → Text
  | .userProfile => gson.userProfile.toJson {}
  | .relationships => gson.relationships.toJson {}
  | .reminders => gson.reminders.toJson {}
  | .medical => encryptedPlaceholder now
  | .goals => defaultGoals
  | .projects => defaultProjects now
  | .memoryStats => defaultMemoryStats now
  | .compactionLog => defaultCompactionLog

/-- What becomes of one call of `initialize()`: how many directories each `mkdirs` makes, the time that
each file is stamped with, and how each write ends. A process that dies leaves what a failure at the
same place would. -/
structure Start where
  made : MemoryDir → Nat
  now : DefaultFile → Timestamp
  outcome : DefaultFile → WriteOutcome

/-- After the first failure the other files are only looked for. -/
def createDefaultFiles (gson : Gson) (start : Start) (allCreated : Bool)
    (files : DefaultFile → Option Text) :
    List DefaultFile → Bool × (DefaultFile → Option Text)
  | [] => (allCreated, files)
  | file :: rest =>
    match files file with
    | some _ => createDefaultFiles gson start allCreated files rest
    | none =>
      if allCreated then
        let (created, content) :=
          write none (contents gson (start.now file).text file) (start.outcome file)
        createDefaultFiles gson start created (Function.update files file content) rest
      else createDefaultFiles gson start false files rest

def initializeFileSystem (gson : Gson) (s : MemoryDisk) (start : Start) : Bool × MemoryDisk :=
  let (dirsCreated, dirs) := createDirectoryStructure start.made s.dirs directories
  if dirsCreated then
    let (filesCreated, files) := createDefaultFiles gson start true s.files defaultFiles
    (filesCreated, ⟨dirs, files⟩)
  else (false, ⟨dirs, s.files⟩)

theorem mkdirs_grows {dirs : MemoryDir → Bool} {d : MemoryDir} (h : dirs d = true) (dir : MemoryDir)
    (made : Nat) : (mkdirs dirs dir made).2 d = true := by
  simp [mkdirs, h]

theorem mkdirs_created {dirs : MemoryDir → Bool} {dir : MemoryDir} {made : Nat}
    (h : (mkdirs dirs dir made).1 = true) : (mkdirs dirs dir made).2 dir = true := by
  have hall : (dir.path.filter fun d => !dirs d).length ≤ made := of_decide_eq_true h
  simp only [mkdirs, List.take_of_length_le hall]
  cases hdir : dirs dir with
  | true => rfl
  | false =>
    have hpath : dir ∈ dir.path := by cases dir <;> decide
    simp [hpath, hdir]

theorem createDirectoryStructure_grows {made : MemoryDir → Nat} {dirs : MemoryDir → Bool}
    {d : MemoryDir} {todo : List MemoryDir} (h : dirs d = true) :
    (createDirectoryStructure made dirs todo).2 d = true := by
  induction todo generalizing dirs with
  | nil => exact h
  | cons dir rest ih =>
    simp only [createDirectoryStructure]
    split
    · exact ih h
    · exact ih (mkdirs_grows h dir (made dir))

theorem createDirectoryStructure_created {made : MemoryDir → Nat} {dirs : MemoryDir → Bool}
    {todo : List MemoryDir} (h : (createDirectoryStructure made dirs todo).1 = true) :
    ∀ dir ∈ todo, (createDirectoryStructure made dirs todo).2 dir = true := by
  induction todo generalizing dirs with
  | nil => exact fun _ h => nomatch h
  | cons dir rest ih =>
    simp only [createDirectoryStructure] at h ⊢
    split at h
    next hdir =>
      rw [if_pos hdir]
      obtain ⟨-, hrest⟩ := Bool.and_eq_true_iff.mp h
      exact List.forall_mem_cons.mpr ⟨createDirectoryStructure_grows hdir, ih hrest⟩
    next hdir =>
      rw [if_neg hdir]
      obtain ⟨hmade, hrest⟩ := Bool.and_eq_true_iff.mp h
      exact List.forall_mem_cons.mpr
        ⟨createDirectoryStructure_grows (mkdirs_created hmade), ih hrest⟩

theorem createDirectoryStructure_of_all {made : MemoryDir → Nat} {dirs : MemoryDir → Bool}
    {todo : List MemoryDir} (h : ∀ dir ∈ todo, dirs dir = true) :
    createDirectoryStructure made dirs todo = (true, dirs) := by
  induction todo with
  | nil => rfl
  | cons dir rest ih =>
    obtain ⟨hdir, hrest⟩ := List.forall_mem_cons.mp h
    simp only [createDirectoryStructure, if_pos hdir, ih hrest, Bool.and_self]

theorem write_none (new : Text) (outcome : WriteOutcome) :
    (write none new outcome).2 = none ∨ ∃ kept, (write none new outcome).2 = some (new.take kept) := by
  match outcome with
  | .ok => exact .inr ⟨new.length, congrArg some List.take_length.symm⟩
  | .failed none => exact .inl rfl
  | .failed (some kept) => exact .inr ⟨kept, rfl⟩

/-- A file that exists stays as it is, and one that is new is a beginning of its default. -/
theorem createDefaultFiles_file {gson : Gson} {start : Start} {allCreated : Bool}
    {files : DefaultFile → Option Text} {todo : List DefaultFile} (file : DefaultFile) :
    (createDefaultFiles gson start allCreated files todo).2 file = files file ∨
      files file = none ∧ ∃ kept, (createDefaultFiles gson start allCreated files todo).2 file =
        some ((contents gson (start.now file).text file).take kept) := by
  induction todo generalizing allCreated files with
  | nil => exact .inl rfl
  | cons next rest ih =>
    simp only [createDefaultFiles]
    split
    · exact ih
    next hnone =>
      split
      · generalize hw : write none (contents gson (start.now next).text next)
          (start.outcome next) = w
        have hmore := @ih w.1 (Function.update files next w.2)
        rcases eq_or_ne file next with rfl | hne
        · rw [Function.update_self] at hmore
          rcases hmore with hmore | ⟨-, hmore⟩
          · rcases write_none (contents gson (start.now file).text file) (start.outcome file) with
              hw' | ⟨kept, hw'⟩
            · exact .inl (hmore.trans ((hw ▸ hw').trans hnone.symm))
            · exact .inr ⟨hnone, kept, hmore.trans (hw ▸ hw')⟩
          · exact .inr ⟨hnone, hmore⟩
        · rwa [Function.update_of_ne hne] at hmore
      · exact ih

theorem createDefaultFiles_of_isSome {gson : Gson} {start : Start} {allCreated : Bool}
    {files : DefaultFile → Option Text} {file : DefaultFile} (h : files file ≠ none)
    (todo : List DefaultFile) :
    (createDefaultFiles gson start allCreated files todo).2 file = files file :=
  (createDefaultFiles_file file).resolve_right fun hnew => h hnew.1

theorem createDefaultFiles_false {gson : Gson} {start : Start} {files : DefaultFile → Option Text}
    {todo : List DefaultFile} : createDefaultFiles gson start false files todo = (false, files) := by
  induction todo with
  | nil => rfl
  | cons next rest ih =>
    simp only [createDefaultFiles, Bool.false_eq_true, if_false, ih]
    split <;> rfl

/-- The first missing file that cannot be written. -/
def unfinished (start : Start) (files : DefaultFile → Option Text) (todo : List DefaultFile) :
    Option DefaultFile :=
  todo.find? fun file => (files file).isNone && start.outcome file != .ok

/-- What the loop over the files leaves: defaults, up to the one that could not be written. -/
structure Created (gson : Gson) (start : Start) (files : DefaultFile → Option Text)
    (todo : List DefaultFile) (r : Bool × (DefaultFile → Option Text)) : Prop where
  answer : r.1 = (unfinished start files todo).isNone
  whole : ∀ file, files file = none → unfinished start files todo ≠ some file →
    r.2 file = none ∨ r.2 file = some (contents gson (start.now file).text file)
  last : ∀ file, unfinished start files todo = some file → r.2 file =
    (write none (contents gson (start.now file).text file) (start.outcome file)).2
  present : unfinished start files todo = none → ∀ file ∈ todo, r.2 file ≠ none

theorem createDefaultFiles_created (gson : Gson) (start : Start)
    (files : DefaultFile → Option Text) {todo : List DefaultFile} (h : todo.Nodup) :
    Created gson start files todo (createDefaultFiles gson start true files todo) := by
  induction todo generalizing files with
  | nil => exact ⟨rfl, fun file hfile _ => .inl hfile, fun _ h => (nomatch h), fun _ _ h => nomatch h⟩
  | cons next rest ih =>
    obtain ⟨hnext, hrest⟩ := List.nodup_cons.mp h
    simp only [createDefaultFiles]
    cases hfile : files next with
    | some content =>
      have hsame : unfinished start files (next :: rest) = unfinished start files rest :=
        List.find?_cons_of_neg (by simp [hfile])
      have hmore := ih files hrest
      refine ⟨hsame ▸ hmore.answer, fun file hf hne => hmore.whole file hf (hsame ▸ hne),
        fun file hf => hmore.last file (hsame ▸ hf), fun hnone => ?_⟩
      have hkept : files next ≠ none := hfile ▸ Option.some_ne_none content
      exact List.forall_mem_cons.mpr
        ⟨createDefaultFiles_of_isSome hkept rest ▸ hkept, hmore.present (hsame ▸ hnone)⟩
    | none =>
      simp only [if_true]
      match houtcome : start.outcome next with
      | .ok =>
        let files' := Function.update files next
          (some (contents gson (start.now next).text next))
        have hother {file : DefaultFile} (hne : file ≠ next) : files' file = files file :=
          Function.update_of_ne hne _ _
        have hwritten : files' next = some (contents gson (start.now next).text next) :=
          Function.update_self ..
        have hsame : unfinished start files (next :: rest) = unfinished start files' rest := by
          refine (List.find?_cons_of_neg (by simp [houtcome])).trans (List.find?_congr ?_)
          intro file hmem
          rw [hother fun heq => hnext (heq ▸ hmem)]
        have hmore := ih files' hrest
        have hkept : files' next ≠ none := hwritten ▸ Option.some_ne_none _
        have hfirst : (createDefaultFiles gson start true files' rest).2 next = files' next :=
          createDefaultFiles_of_isSome hkept rest
        refine ⟨hsame ▸ hmore.answer, fun file hf hne => ?_,
          fun file hf => hmore.last file (hsame ▸ hf), fun hnone => ?_⟩
        · by_cases heq : file = next
          · subst heq
            exact .inr (hfirst.trans hwritten)
          · exact hmore.whole file ((hother heq).trans hf) (hsame ▸ hne)
        · exact List.forall_mem_cons.mpr ⟨hfirst ▸ hkept, hmore.present (hsame ▸ hnone)⟩
      | .failed kept =>
        have hlast : unfinished start files (next :: rest) = some next :=
          List.find?_cons_of_pos (by simp [hfile, houtcome])
        simp only [JsonFile.write, createDefaultFiles_false]
        refine ⟨by rw [hlast]; rfl, fun file hf hne => ?_, fun file hf => ?_, fun hnone => ?_⟩
        · exact .inl ((Function.update_of_ne (fun heq => hne (hlast.trans (congrArg some heq.symm))) ..).trans hf)
        · cases Option.some.inj (hlast.symm.trans hf)
          rw [houtcome]
          exact Function.update_self ..
        · cases hlast.symm.trans hnone

theorem initializeFileSystem_dirs (gson : Gson) (s : MemoryDisk) (start : Start) :
    (initializeFileSystem gson s start).2.dirs =
      (createDirectoryStructure start.made s.dirs directories).2 := by
  simp only [initializeFileSystem]
  split <;> rfl

theorem initializeFileSystem_file (gson : Gson) (s : MemoryDisk) (start : Start)
    (file : DefaultFile) :
    (initializeFileSystem gson s start).2.files file = s.files file ∨
      s.files file = none ∧ ∃ kept, (initializeFileSystem gson s start).2.files file =
        some ((contents gson (start.now file).text file).take kept) := by
  simp only [initializeFileSystem]
  split
  · exact createDefaultFiles_file file
  · exact .inl rfl

theorem initializeFileSystem_of_isSome {gson : Gson} {s : MemoryDisk} {start : Start}
    {file : DefaultFile} (h : s.files file ≠ none) :
    (initializeFileSystem gson s start).2.files file = s.files file :=
  (initializeFileSystem_file gson s start file).resolve_right fun hnew => h hnew.1

/-- Everything that a start makes is there. -/
structure Settled (s : MemoryDisk) : Prop where
  dirs : ∀ dir, s.dirs dir = true
  files : ∀ file, s.files file ≠ none

theorem mem_directories (dir : MemoryDir) : dir ∈ directories := by cases dir <;> decide

theorem mem_defaultFiles (file : DefaultFile) : file ∈ defaultFiles := by cases file <;> decide

theorem defaultFiles_nodup : defaultFiles.Nodup := by decide

theorem settled_of_initialized {gson : Gson} {s : MemoryDisk} {start : Start}
    (h : (initializeFileSystem gson s start).1 = true) :
    Settled (initializeFileSystem gson s start).2 := by
  have hspec := createDefaultFiles_created gson start s.files defaultFiles_nodup
  simp only [initializeFileSystem] at h ⊢
  split at h
  next hdirs =>
    have hnone := Option.isNone_iff_eq_none.mp (hspec.answer.symm.trans h)
    rw [if_pos hdirs]
    exact ⟨fun dir => createDirectoryStructure_created hdirs dir (mem_directories dir),
      fun file => hspec.present hnone file (mem_defaultFiles file)⟩
  next => cases h

theorem initializeFileSystem_of_settled {s : MemoryDisk} (h : Settled s) (gson : Gson)
    (start : Start) : initializeFileSystem gson s start = (true, s) := by
  have hspec := createDefaultFiles_created gson start s.files defaultFiles_nodup
  have hnone : unfinished start s.files defaultFiles = none := by
    refine List.find?_eq_none.mpr fun file _ hmissing => h.files file ?_
    exact Option.isNone_iff_eq_none.mp (Bool.and_eq_true_iff.mp hmissing).1
  have hanswer := hspec.answer.trans (Option.isNone_iff_eq_none.mpr hnone)
  have hfiles : (createDefaultFiles gson start true s.files defaultFiles).2 = s.files :=
    funext fun file => createDefaultFiles_of_isSome (h.files file) defaultFiles
  simp only [initializeFileSystem, createDirectoryStructure_of_all fun dir _ => h.dirs dir, if_true,
    hanswer, hfiles]

end FileSystemManager

open FileSystemManager

namespace MemoryDisk

/-- The files of `MemoryManager`. -/
def memoryFiles (s : MemoryDisk) : MemoryFiles :=
  ⟨s.files .userProfile, s.files .relationships, s.files .reminders, s.files .memoryStats⟩

def setMemoryFiles (s : MemoryDisk) (memory : MemoryFiles) : MemoryDisk :=
  { s with files := fun
      | .userProfile => memory.userProfile
      | .relationships => memory.relationships
      | .reminders => memory.reminders
      | .memoryStats => memory.memoryStats
      | file => s.files file }

/-- A file cannot be opened in a directory that does not exist. -/
def writes (s : MemoryDisk) (file : DefaultFile) (outcome : WriteOutcome) : WriteOutcome :=
  if s.dirs file.dir then outcome else .failed none

end MemoryDisk

def MemoryCall.defaultFile : MemoryCall → DefaultFile
  | updateProfileField .. | addFact _ | removeFact _ => .userProfile
  | addRelationship _ | updateRelationship .. | deleteRelationship _ => .relationships
  | addReminder _ | completeReminder _ | deleteReminder _ => .reminders

/-- The memory system of the app: the disk, the `MemoryManager` that the last start made, and what
the calls to it have answered so far. -/
structure MemoryApp where
  disk : MemoryDisk
  manager : Option MemoryManager := none
  answers : List Bool := []

namespace MemoryApp

inductive Event where
  | start (start : Start)
  | call (now : String) (call : MemoryCall) (outcome : WriteOutcome)

/-- `MainActivity` ignores what `initialize()` of the `FileSystemManager` returns. -/
def start (gson : Gson) (s : MemoryApp) (disk : MemoryDisk) : MemoryApp :=
  { s with disk, manager := some (.initializeFrom gson disk.memoryFiles) }

def call (gson : Gson) (s : MemoryApp) (now : String) (c : MemoryCall) (outcome : WriteOutcome) :
    Option MemoryApp :=
  s.manager.map fun m =>
    let (answer, m) := c.run gson { m with files := s.disk.memoryFiles } now
      (s.disk.writes c.defaultFile outcome)
    ⟨s.disk.setMemoryFiles m.files, some m, s.answers ++ [answer]⟩

def step (gson : Gson) (s : MemoryApp) : Event → Option MemoryApp
  | .start start => some (s.start gson (initializeFileSystem gson s.disk start).2)
  | .call now c outcome => s.call gson now c outcome

/-- The app without default files: a start only makes the directories. -/
def bareStep (gson : Gson) (s : MemoryApp) : Event → Option MemoryApp
  | .start start => some (s.start gson
      { s.disk with dirs := (createDirectoryStructure start.made s.disk.dirs directories).2 })
  | .call now c outcome => s.call gson now c outcome

structure FilesAlike (gson : Gson) (files bare : MemoryFiles) : Prop where
  userProfile : LoadsAlike gson.userProfile {} files.userProfile bare.userProfile
  relationships : LoadsAlike gson.relationships {} files.relationships bare.relationships
  reminders : LoadsAlike gson.reminders {} files.reminders bare.reminders

/-- Two caches that differ at most in the stats, over files that load alike. -/
structure Alike (gson : Gson) (m bare : MemoryManager) : Prop where
  userProfile : m.userProfile = bare.userProfile
  relationships : m.relationships = bare.relationships
  reminders : m.reminders = bare.reminders
  files : FilesAlike gson m.files bare.files

variable {gson : Gson} {m bare : MemoryManager}

/-- The same answer over caches that are alike. -/
def SameResult (gson : Gson) (r bare : Bool × MemoryManager) : Prop :=
  r.1 = bare.1 ∧ Alike gson r.2 bare.2

theorem Alike.mutate {edited edited' : Option MemoryManager}
    {save : MemoryManager → Bool × MemoryManager} (h : Alike gson m bare)
    (hedit : Option.Rel (Alike gson) edited edited')
    (hsave : ∀ t t', Alike gson t t' → SameResult gson (save t) (save t')) :
    SameResult gson (m.mutate edited save) (bare.mutate edited' save) := by
  cases hedit with
  | none => exact ⟨rfl, h⟩
  | some ht => exact hsave _ _ ht

theorem rel_map {α : Type} (o : Option α) {f g : α → MemoryManager}
    (h : ∀ a, Alike gson (f a) (g a)) : Option.Rel (Alike gson) (o.map f) (o.map g) := by
  cases o with
  | none => exact .none
  | some a => exact .some (h a)

theorem Alike.saveUserProfile (h : Alike gson m bare) (outcome : WriteOutcome) :
    SameResult gson (m.saveUserProfile gson outcome) (bare.saveUserProfile gson outcome) := by
  obtain ⟨hanswer, hfile⟩ := h.files.userProfile.write (gson.userProfile.toJson m.userProfile) outcome
  unfold MemoryManager.saveUserProfile
  rw [← h.userProfile]
  exact ⟨hanswer, { h with userProfile := rfl, files := { h.files with userProfile := hfile } }⟩

theorem Alike.saveRelationships (h : Alike gson m bare) (now : String) (outcome : WriteOutcome) :
    SameResult gson (m.saveRelationships gson now outcome)
      (bare.saveRelationships gson now outcome) := by
  obtain ⟨hanswer, hfile⟩ := h.files.relationships.write
    (gson.relationships.toJson (MemoryManager.relationshipsRecord now m.relationships)) outcome
  unfold MemoryManager.saveRelationships
  rw [← h.relationships]
  exact ⟨hanswer, { h with relationships := rfl, files := { h.files with relationships := hfile } }⟩

theorem Alike.saveReminders (h : Alike gson m bare) (outcome : WriteOutcome) :
    SameResult gson (m.saveReminders gson outcome) (bare.saveReminders gson outcome) := by
  obtain ⟨hanswer, hfile⟩ := h.files.reminders.write (gson.reminders.toJson m.reminders) outcome
  unfold MemoryManager.saveReminders
  rw [← h.reminders]
  exact ⟨hanswer, { h with reminders := rfl, files := { h.files with reminders := hfile } }⟩

theorem Alike.run (h : Alike gson m bare) (now : String) (c : MemoryCall) (outcome : WriteOutcome) :
    SameResult gson (c.run gson m now outcome) (c.run gson bare now outcome) := by
  cases c with
  | updateProfileField field value =>
    simp only [MemoryCall.run, MemoryManager.updateProfileField, ← h.userProfile]
    exact h.mutate (rel_map _ fun p => { h with userProfile := rfl })
      fun t t' ht => ht.saveUserProfile outcome
  | addFact fact =>
    simp only [MemoryCall.run, MemoryManager.addFact, ← h.userProfile]
    exact h.mutate (rel_map _ fun p => { h with userProfile := rfl })
      fun t t' ht => ht.saveUserProfile outcome
  | removeFact fact =>
    simp only [MemoryCall.run, MemoryManager.removeFact, ← h.userProfile]
    exact h.mutate (rel_map _ fun p => { h with userProfile := rfl })
      fun t t' ht => ht.saveUserProfile outcome
  | addRelationship relationship =>
    simp only [MemoryCall.run, MemoryManager.addRelationship, ← h.relationships]
    exact h.mutate (.some { h with relationships := rfl })
      fun t t' ht => ht.saveRelationships now outcome
  | updateRelationship id updates =>
    simp only [MemoryCall.run, MemoryManager.updateRelationship, ← h.relationships]
    exact h.mutate (rel_map _ fun rs => { h with relationships := rfl })
      fun t t' ht => ht.saveRelationships now outcome
  | deleteRelationship id =>
    simp only [MemoryCall.run, MemoryManager.deleteRelationship, ← h.relationships]
    exact h.mutate (rel_map _ fun rs => { h with relationships := rfl })
      fun t t' ht => ht.saveRelationships now outcome
  | addReminder reminder =>
    simp only [MemoryCall.run, MemoryManager.addReminder, ← h.reminders]
    exact h.mutate (.some { h with reminders := rfl }) fun t t' ht => ht.saveReminders outcome
  | completeReminder id =>
    simp only [MemoryCall.run, MemoryManager.completeReminder, ← h.reminders]
    exact h.mutate (rel_map _ fun r => { h with reminders := rfl })
      fun t t' ht => ⟨rfl, (ht.saveReminders outcome).2⟩
  | deleteReminder id =>
    simp only [MemoryCall.run, MemoryManager.deleteReminder, ← h.reminders]
    exact h.mutate (rel_map _ fun r => { h with reminders := rfl })
      fun t t' ht => ⟨rfl, (ht.saveReminders outcome).2⟩

/-- The parser takes every default record for itself and takes no beginning of it for a record. -/
structure DefaultsExact (gson : Gson) : Prop where
  userProfile : gson.userProfile.Exact {}
  relationships : gson.relationships.Exact {}
  reminders : gson.reminders.Exact {}

theorem loadsAlike_of_default {α : Type} {c : Codec α} {default : α} (h : c.Exact default)
    {file old bare : Option Text} (hold : LoadsAlike c default old bare)
    (hfile : file = old ∨ old = none ∧ ∃ kept, file = some ((c.toJson default).take kept)) :
    LoadsAlike c default file bare := by
  rcases hfile with rfl | ⟨rfl, kept, rfl⟩
  · exact hold
  · have hbare : bare = none := hold.elim (·.symm) (·.1)
    have hload := @load_interrupted α c default default h none (some kept)
    exact .inr ⟨hbare, hload.trans (ite_self default)⟩

/-- The app beside the one without default files. -/
structure Refines (gson : Gson) (s bare : MemoryApp) : Prop where
  dirs : s.disk.dirs = bare.disk.dirs
  files : FilesAlike gson s.disk.memoryFiles bare.disk.memoryFiles
  managers : Option.Rel (Alike gson) s.manager bare.manager
  answers : s.answers = bare.answers

theorem FilesAlike.refl (gson : Gson) (files : MemoryFiles) : FilesAlike gson files files :=
  ⟨.inl rfl, .inl rfl, .inl rfl⟩

theorem FilesAlike.initializeFrom {files bare : MemoryFiles} (h : FilesAlike gson files bare) :
    Alike gson (.initializeFrom gson files) (.initializeFrom gson bare) :=
  ⟨h.userProfile.load_eq, congrArg Relationships.getAll h.relationships.load_eq,
    h.reminders.load_eq, h⟩

theorem FilesAlike.initializeFileSystem {disk : MemoryDisk} {bare : MemoryFiles}
    (hexact : DefaultsExact gson) (h : FilesAlike gson disk.memoryFiles bare) (start : Start) :
    FilesAlike gson (initializeFileSystem gson disk start).2.memoryFiles bare :=
  have hfile := initializeFileSystem_file gson disk start
  ⟨loadsAlike_of_default hexact.userProfile h.userProfile (hfile .userProfile),
    loadsAlike_of_default hexact.relationships h.relationships (hfile .relationships),
    loadsAlike_of_default hexact.reminders h.reminders (hfile .reminders)⟩

theorem Refines.call {s bare t : MemoryApp} (h : Refines gson s bare) {now : String} {c : MemoryCall}
    {outcome : WriteOutcome} (ht : s.call gson now c outcome = some t) :
    ∃ u, bare.call gson now c outcome = some u ∧ Refines gson t u := by
  obtain ⟨m, hm, rfl⟩ := Option.map_eq_some_iff.mp ht
  have hmanagers := h.managers
  rw [hm] at hmanagers
  generalize hb : bare.manager = b at hmanagers
  cases hmanagers with
  | @some _ m' halike =>
    have hwrites : s.disk.writes c.defaultFile outcome = bare.disk.writes c.defaultFile outcome := by
      simp only [MemoryDisk.writes, h.dirs]
    have hsynced : Alike gson { m with files := s.disk.memoryFiles }
        { m' with files := bare.disk.memoryFiles } := { halike with files := h.files }
    obtain ⟨hanswer, hresult⟩ := hsynced.run now c (bare.disk.writes c.defaultFile outcome)
    rw [← hwrites] at hanswer hresult
    refine ⟨_, Option.map_eq_some_iff.mpr ⟨m', hb, rfl⟩, h.dirs, ?_, .some ?_, ?_⟩
    · exact hwrites ▸ hresult.files
    · exact hwrites ▸ hresult
    · exact congrArg₂ (· ++ [·]) h.answers (hwrites ▸ hanswer)

theorem step_simulated (hexact : DefaultsExact gson) :
    Simulated (step gson) (bareStep gson) (Refines gson) := by
  intro s bare e t h ht
  cases e with
  | start start =>
    cases Option.some.inj ht
    have hfiles := h.files.initializeFileSystem hexact start
    refine ⟨_, rfl, ?_, hfiles, .some hfiles.initializeFrom, h.answers⟩
    rw [MemoryApp.start, initializeFileSystem_dirs, h.dirs]
    rfl
  | call now c outcome => exact h.call ht

/-- What of a manager its callers see. -/
def memories (m : MemoryManager) : UserProfile × List Relationship × Reminders :=
  (m.userProfile, m.relationships, m.reminders)

/-- Whatever the starts and calls of a run meet, even where a default file is cut, the default files
make no difference to what the calls answer and to what the manager holds. -/
theorem answers_without_defaults (hexact : DefaultsExact gson) {disk : MemoryDisk} {es : List Event}
    {t : MemoryApp} (hr : run (step gson) { disk } es = some t) :
    ∃ u, run (bareStep gson) { disk } es = some u ∧ t.answers = u.answers ∧
      t.manager.map memories = u.manager.map memories := by
  have hstart : Refines gson { disk } { disk } := ⟨rfl, .refl gson _, .none, rfl⟩
  obtain ⟨u, hu, hrefines⟩ := (step_simulated hexact).run hstart hr
  refine ⟨u, hu, hrefines.answers, ?_⟩
  have hmanagers := hrefines.managers
  generalize t.manager = m, u.manager = bare at hmanagers
  cases hmanagers with
  | none => rfl
  | some h => simp only [Option.map_some, memories, h.userProfile, h.relationships, h.reminders]

theorem sampleGson_defaultsExact : DefaultsExact (sampleGson [{}] [{}]) :=
  ⟨sampleCodec_exact (by decide) (by decide +kernel), sampleCodec_exact (by decide) (by decide +kernel),
    sampleCodec_exact (by decide) (by decide +kernel)⟩

def sampleTime : Timestamp := ⟨"2025-01-01T00:00:00Z".toList, by decide⟩

/-- A start that makes every directory. -/
def sampleStart (outcome : DefaultFile → WriteOutcome) : Start :=
  ⟨fun _ => 3, fun _ => sampleTime, outcome⟩

def noDisk : MemoryDisk := ⟨fun _ => false, fun _ => none⟩

/-- The profile is cut on the first start, and the fact that is stored next replaces it. -/
theorem answers_after_cut_profile :
    ∃ t u,
      run (step (sampleGson [{}] [{}])) { disk := noDisk }
        [.start (sampleStart fun _ => .failed (some 7)), .call "" (.addFact "I like tea") .ok] =
          some t ∧
      run (bareStep (sampleGson [{}] [{}])) { disk := noDisk }
        [.start (sampleStart fun _ => .failed (some 7)), .call "" (.addFact "I like tea") .ok] =
          some u ∧
      t.answers = u.answers ∧ t.manager.map memories = u.manager.map memories := by
  obtain ⟨t, ht⟩ : ∃ t, run (step (sampleGson [{}] [{}])) { disk := noDisk }
        [.start (sampleStart fun _ => .failed (some 7)), .call "" (.addFact "I like tea") .ok] =
          some t := ⟨_, rfl⟩
  obtain ⟨u, hu, hsame⟩ := answers_without_defaults sampleGson_defaultsExact ht
  exact ⟨t, u, ht, hu, hsame⟩

/-- The files that no call writes. -/
def placeholders : List DefaultFile := [.medical, .goals, .projects, .compactionLog]

theorem call_placeholder {s t : MemoryApp} {now : String} {c : MemoryCall} {outcome : WriteOutcome}
    (h : s.call gson now c outcome = some t) {file : DefaultFile} (hfile : file ∈ placeholders) :
    t.disk.files file = s.disk.files file := by
  obtain ⟨m, -, rfl⟩ := Option.map_eq_some_iff.mp h
  cases file with
  | medical | goals | projects | compactionLog => rfl
  | userProfile | relationships | reminders | memoryStats => exact absurd hfile (by decide)

def cuts (new : Text) : WriteOutcome → Bool
  | .failed (some kept) => kept < new.length
  | _ => false

/-- No start is cut while it writes one of the files that no call writes. -/
def uncut (gson : Gson) (s : MemoryApp) : Event → Prop
  | .start start =>
    (createDirectoryStructure start.made s.disk.dirs directories).1 = true →
      ∀ file ∈ unfinished start s.disk.files defaultFiles, file ∈ placeholders →
        cuts (contents gson (start.now file).text file) (start.outcome file) = false
  | .call .. => True

instance (gson : Gson) (s : MemoryApp) : ∀ e, Decidable (uncut gson s e)
  | .start start => inferInstanceAs (Decidable ((createDirectoryStructure start.made _ _).1 = true →
      ∀ file ∈ unfinished start s.disk.files defaultFiles, file ∈ placeholders → _ = false))
  | .call .. => isTrue trivial

/-- What the starts since `disk` have put into these files is complete. -/
def Intact (gson : Gson) (disk : MemoryDisk) (s : MemoryApp) : Prop :=
  ∀ file ∈ placeholders, disk.files file = none → ∀ content ∈ s.disk.files file,
    ∃ now : Timestamp, content = contents gson now.text file

theorem write_of_not_cuts {new : Text} {outcome : WriteOutcome} (h : cuts new outcome = false) :
    (write none new outcome).2 = none ∨ (write none new outcome).2 = some new := by
  match outcome with
  | .ok => exact .inr rfl
  | .failed none => exact .inl rfl
  | .failed (some kept) =>
    have hkept : new.length ≤ kept := Nat.not_lt.mp (of_decide_eq_false h)
    exact .inr (congrArg some (List.take_of_length_le hkept))

theorem write_of_cuts {new content : Text} {outcome : WriteOutcome} (h : cuts new outcome = true)
    (hwritten : (write none new outcome).2 = some content) : content.length < new.length := by
  match outcome with
  | .ok | .failed none => cases h
  | .failed (some kept) =>
    cases Option.some.inj hwritten
    have hkept : kept < new.length := of_decide_eq_true h
    simpa using hkept

theorem isSome_of_cuts {new : Text} {outcome : WriteOutcome} (h : cuts new outcome = true) :
    ∃ content, (write none new outcome).2 = some content := by
  match outcome with
  | .ok | .failed none => cases h
  | .failed (some kept) => exact ⟨_, rfl⟩

theorem stamped_length (before after : Text) (now now' : Timestamp) :
    (before ++ now.text ++ after).length = (before ++ now'.text ++ after).length := by
  simp [now.length_eq, now'.length_eq]

theorem contents_length {gson : Gson} {file : DefaultFile} (h : file ∈ placeholders)
    (now now' : Timestamp) :
    (contents gson now.text file).length = (contents gson now'.text file).length := by
  cases file with
  | medical => exact stamped_length _ _ now now'
  | projects => exact stamped_length _ _ now now'
  | goals | compactionLog => simp only [contents]
  | userProfile | relationships | reminders | memoryStats => exact absurd h (by decide)

theorem unfinished_missing {start : Start} {files : DefaultFile → Option Text}
    {todo : List DefaultFile} {file : DefaultFile} (h : unfinished start files todo = some file) :
    files file = none := by
  have hfound : ((files file).isNone && start.outcome file != .ok) = true := by
    unfold unfinished at h
    exact List.find?_some (p := fun file => (files file).isNone && start.outcome file != .ok) h
  exact Option.isNone_iff_eq_none.mp (Bool.and_eq_true_iff.mp hfound).1

theorem start_intact {disk : MemoryDisk} {s : MemoryApp} {start : Start} (h : Intact gson disk s)
    (hok : uncut gson s (.start start)) {file : DefaultFile} (hfile : file ∈ placeholders)
    (hdisk : disk.files file = none) {content : Text}
    (hcontent : (initializeFileSystem gson s.disk start).2.files file = some content) :
    ∃ now : Timestamp, content = contents gson now.text file := by
  by_cases hold : s.disk.files file = none
  · have hspec := createDefaultFiles_created gson start s.disk.files defaultFiles_nodup
    refine ⟨start.now file, ?_⟩
    simp only [initializeFileSystem] at hcontent
    split at hcontent
    next hdirs =>
      have hwritten : (createDefaultFiles gson start true s.disk.files defaultFiles).2 file = none ∨
          (createDefaultFiles gson start true s.disk.files defaultFiles).2 file =
            some (contents gson (start.now file).text file) := by
        by_cases hlast : unfinished start s.disk.files defaultFiles = some file
        · rw [hspec.last file hlast]
          exact write_of_not_cuts (hok hdirs file hlast hfile)
        · exact hspec.whole file hold hlast
      rcases hwritten with hnone | hwhole
      · cases hnone.symm.trans hcontent
      · exact Option.some.inj (hcontent.symm.trans hwhole)
    next => cases hold.symm.trans hcontent
  · rw [initializeFileSystem_of_isSome hold] at hcontent
    exact h file hfile hdisk content hcontent

theorem start_not_intact {disk : MemoryDisk} {s : MemoryApp} {start : Start}
    (hsince : ∀ file ∈ placeholders, s.disk.files file = none → disk.files file = none)
    (hcut : ¬ uncut gson s (.start start)) :
    ¬ Intact gson disk (s.start gson (initializeFileSystem gson s.disk start).2) := by
  intro hintact
  simp only [uncut, not_forall, Bool.not_eq_false] at hcut
  obtain ⟨hdirs, file, hlast, hfile, hcuts⟩ := hcut
  have hspec := createDefaultFiles_created gson start s.disk.files defaultFiles_nodup
  obtain ⟨content, hcontent⟩ := isSome_of_cuts hcuts
  have hstored : (initializeFileSystem gson s.disk start).2.files file = some content := by
    simp only [initializeFileSystem, hdirs, if_true]
    exact (hspec.last file hlast).trans hcontent
  obtain ⟨now, hnow⟩ :=
    hintact file hfile (hsince file hfile (unfinished_missing hlast)) content hstored
  have hlength := write_of_cuts hcuts hcontent
  rw [hnow, contents_length hfile now (start.now file)] at hlength
  exact Nat.lt_irrefl _ hlength

/-- A file that no call writes is never repaired: all that the starts of a run have created is
complete exactly if none of them was cut while it wrote one of these files. -/
theorem always_intact_iff {disk : MemoryDisk} {es : List Event} {t : MemoryApp}
    (hr : run (step gson) { disk } es = some t) :
    Always (step gson) (Intact gson disk) { disk } es ↔
      Meets (step gson) (uncut gson) { disk } es := by
  refine always_iff_meets (I := fun s => Intact gson disk s ∧
    ∀ file ∈ placeholders, s.disk.files file = none → disk.files file = none)
    (fun s h => h.1) ?_ ?_ ?_ hr
  · rintro s e u ⟨hintact, hsince⟩ hok hstep
    cases e with
    | start start =>
      cases Option.some.inj hstep
      refine ⟨fun file hfile hdisk content => start_intact hintact hok hfile hdisk,
        fun file hfile hnone => hsince file hfile ?_⟩
      by_contra hold
      exact hold ((initializeFileSystem_of_isSome hold).symm.trans hnone)
    | call now c outcome =>
      have hsame {file : DefaultFile} (hfile : file ∈ placeholders) := call_placeholder hstep hfile
      exact ⟨fun file hfile hdisk content hcontent =>
          hintact file hfile hdisk content ((hsame hfile).symm.trans hcontent),
        fun file hfile hnone => hsince file hfile ((hsame hfile).symm.trans hnone)⟩
  · rintro s e u ⟨-, hsince⟩ hcut hstep
    cases e with
    | start start =>
      cases Option.some.inj hstep
      exact start_not_intact hsince hcut
    | call => exact absurd trivial hcut
  · refine ⟨fun file _ hdisk content hcontent => ?_, fun _ _ h => h⟩
    cases hdisk.symm.trans hcontent

/-- A start that is cut while it writes the profile, and one that goes through. -/
theorem always_intact_after_cut_profile :
    Always (step (sampleGson [{}] [{}])) (Intact (sampleGson [{}] [{}]) noDisk) { disk := noDisk }
      [.start (sampleStart fun _ => .failed (some 7)), .start (sampleStart fun _ => .ok)] := by
  obtain ⟨t, ht⟩ : ∃ t, run (step (sampleGson [{}] [{}])) { disk := noDisk }
      [.start (sampleStart fun _ => .failed (some 7)), .start (sampleStart fun _ => .ok)] =
        some t := ⟨_, rfl⟩
  exact (always_intact_iff ht).mpr (by decide +kernel)

theorem write_some_ne_none {old : Option Text} {new : Text} {outcome : WriteOutcome}
    (h : old ≠ none) : (write old new outcome).2 ≠ none := by
  match outcome with
  | .ok | .failed (some _) => exact Option.some_ne_none _
  | .failed none => exact h

structure Present (files : MemoryFiles) : Prop where
  userProfile : files.userProfile ≠ none
  relationships : files.relationships ≠ none
  reminders : files.reminders ≠ none
  memoryStats : files.memoryStats ≠ none

theorem Present.withFile {c : MemoryCall} {content : Option Text} (h : Present m.files)
    (hcontent : content ≠ none) : Present (c.withFile m content).files := by
  cases c with
  | updateProfileField | addFact | removeFact => exact { h with userProfile := hcontent }
  | addRelationship | updateRelationship | deleteRelationship =>
    exact { h with relationships := hcontent }
  | addReminder | completeReminder | deleteReminder => exact { h with reminders := hcontent }

theorem Present.file {files : MemoryFiles} (h : Present files) (c : MemoryCall) :
    c.file files ≠ none := by
  cases c with
  | updateProfileField | addFact | removeFact => exact h.userProfile
  | addRelationship | updateRelationship | deleteRelationship => exact h.relationships
  | addReminder | completeReminder | deleteReminder => exact h.reminders

theorem Present.run (gson : Gson) (h : Present m.files) (now : String) (c : MemoryCall)
    (outcome : WriteOutcome) : Present (c.run gson m now outcome).2.files := by
  rw [MemoryCall.run_eq]
  cases ht : c.edit m now with
  | none => exact h
  | some t =>
    have hfiles : Present t.files := (MemoryCall.edit_files ht).symm ▸ h
    exact hfiles.withFile (write_some_ne_none (hfiles.file c))

theorem call_settled {s t : MemoryApp} {now : String} {c : MemoryCall} {outcome : WriteOutcome}
    (h : s.call gson now c outcome = some t) (hs : Settled s.disk) : Settled t.disk := by
  obtain ⟨m, -, rfl⟩ := Option.map_eq_some_iff.mp h
  have hpresent : Present s.disk.memoryFiles := ⟨hs.files _, hs.files _, hs.files _, hs.files _⟩
  have hrun := @Present.run { m with files := s.disk.memoryFiles } gson hpresent now c
    (s.disk.writes c.defaultFile outcome)
  refine ⟨hs.dirs, fun file => ?_⟩
  cases file with
  | userProfile => exact hrun.userProfile
  | relationships => exact hrun.relationships
  | reminders => exact hrun.reminders
  | memoryStats => exact hrun.memoryStats
  | medical | goals | projects | compactionLog => exact hs.files _

/-- Once a start has reported success there is nothing left to make, whatever happens next: every
later start reports success and leaves the disk as it is. -/
theorem starts_settle {s t : MemoryApp} {start later : Start} {es : List Event}
    (h : (initializeFileSystem gson s.disk start).1 = true)
    (hr : run (step gson) s (.start start :: es) = some t) :
    initializeFileSystem gson t.disk later = (true, t.disk) := by
  obtain ⟨u, hu, hr⟩ := run_cons_iff.mp hr
  cases Option.some.inj hu
  have hsettled := settled_of_initialized h
  refine initializeFileSystem_of_settled (run_preserves (I := fun s => Settled s.disk) ?_ hsettled hr)
    gson later
  intro s e t hs hstep
  cases e with
  | start start =>
    cases Option.some.inj hstep
    rwa [MemoryApp.start, initializeFileSystem_of_settled hs]
  | call now c outcome => exact call_settled hstep hs

/-- A second start could write nothing, and has nothing to write. -/
theorem starts_settle_at_once :
    ∃ t, run (step (sampleGson [{}] [{}])) { disk := noDisk }
        [.start (sampleStart fun _ => .ok), .call "" (.addFact "I like tea") (.failed none)] = some t ∧
      initializeFileSystem (sampleGson [{}] [{}]) t.disk (sampleStart fun _ => .failed none) =
        (true, t.disk) := by
  obtain ⟨t, ht⟩ : ∃ t, run (step (sampleGson [{}] [{}])) { disk := noDisk }
      [.start (sampleStart fun _ => .ok), .call "" (.addFact "I like tea") (.failed none)] =
        some t := ⟨_, rfl⟩
  exact ⟨t, ht, starts_settle (by decide +kernel) ht⟩

end MemoryApp

end HeyNilo

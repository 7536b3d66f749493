import HeyNilo.JsonFile
import HeyNilo.MemoryRecords

namespace HeyNilo

open JsonFile

/-- Gson on the four kinds of record that `MemoryManager` stores. -/
structure Gson where
  userProfile : Codec UserProfile
  relationships : Codec Relationships
  reminders : Codec Reminders
  memoryStats : Codec MemoryStats

/-- The files, `none` where one does not exist. -/
structure MemoryFiles where
  userProfile : Option Text
  relationships : Option Text
  reminders : Option Text
  memoryStats : Option Text
deriving DecidableEq

/-- The RAM cache of an initialised `MemoryManager` and the files it persists to. -/
structure MemoryManager where
  userProfile : UserProfile
  relationships : List Relationship
  reminders : Reminders
  memoryStats : MemoryStats
  files : MemoryFiles
deriving DecidableEq

namespace MemoryManager

def initializeFrom (gson : Gson) (files : MemoryFiles) : MemoryManager where
  userProfile := load gson.userProfile {} files.userProfile
  relationships := (load gson.relationships {} files.relationships).getAll
  reminders := load gson.reminders {} files.reminders
  memoryStats := load gson.memoryStats {} files.memoryStats
  files := files

/-- The container that `saveRelationships` serialises. -/
def relationshipsRecord (now : String) (relationships : List Relationship) : Relationships where
  lastUpdated := now
  family := relationships.filter fun r => r.category == .family
  friends := relationships.filter fun r => r.category == .friend
  colleagues := relationships.filter fun r => r.category == .colleague
  importantPeople := relationships.filter fun r => r.category == .important

def saveUserProfile (gson : Gson) (s : MemoryManager) (outcome : WriteOutcome) :
    Bool × MemoryManager :=
  let (success, file) := write s.files.userProfile (gson.userProfile.toJson s.userProfile) outcome
  (success, { s with files := { s.files with userProfile := file } })

def saveRelationships (gson : Gson) (s : MemoryManager) (now : String) (outcome : WriteOutcome) :
    Bool × MemoryManager :=
  let (success, file) := write s.files.relationships
    (gson.relationships.toJson (relationshipsRecord now s.relationships)) outcome
  (success, { s with files := { s.files with relationships := file } })

def saveReminders (gson : Gson) (s : MemoryManager) (outcome : WriteOutcome) :
    Bool × MemoryManager :=
  let (success, file) := write s.files.reminders (gson.reminders.toJson s.reminders) outcome
  (success, { s with files := { s.files with reminders := file } })

/-- The shape of every mutator: refuse without touching anything, or update the cache and save. -/
def mutate (s : MemoryManager) (edited : Option MemoryManager)
    (save : MemoryManager → Bool × MemoryManager) : Bool × MemoryManager :=
  match edited with
  | none => (false, s)
  | some t => save t

def updateProfileField (gson : Gson) (s : MemoryManager) (now field : String) (value : FieldValue)
    (outcome : WriteOutcome) : Bool × MemoryManager :=
  s.mutate ((s.userProfile.withField now field value).map fun p => { s with userProfile := p })
    (saveUserProfile gson · outcome)

def addFact (gson : Gson) (s : MemoryManager) (now fact : String) (outcome : WriteOutcome) :
    Bool × MemoryManager :=
  s.mutate ((s.userProfile.withFact now fact).map fun p => { s with userProfile := p })
    (saveUserProfile gson · outcome)

def removeFact (gson : Gson) (s : MemoryManager) (now fact : String) (outcome : WriteOutcome) :
    Bool × MemoryManager :=
  s.mutate ((s.userProfile.withoutFact now fact).map fun p => { s with userProfile := p })
    (saveUserProfile gson · outcome)

def addRelationship (gson : Gson) (s : MemoryManager) (now : String) (relationship : Relationship)
    (outcome : WriteOutcome) : Bool × MemoryManager :=
  s.mutate (some { s with relationships := s.relationships ++ [relationship] })
    (saveRelationships gson · now outcome)

def updateRelationship (gson : Gson) (s : MemoryManager) (now id : String)
    (updates : RelationshipUpdates) (outcome : WriteOutcome) : Bool × MemoryManager :=
  s.mutate
    ((updateFirst (fun r => r.id == id) (fun r => r.updated updates) s.relationships).map
      fun rs => { s with relationships := rs })
    (saveRelationships gson · now outcome)

def deleteRelationship (gson : Gson) (s : MemoryManager) (now id : String)
    (outcome : WriteOutcome) : Bool × MemoryManager :=
  s.mutate
    ((removeAll (fun r => r.id == id) s.relationships).map fun rs =>
      { s with relationships := rs })
    (saveRelationships gson · now outcome)

def addReminder (gson : Gson) (s : MemoryManager) (reminder : Reminder) (outcome : WriteOutcome) :
    Bool × MemoryManager :=
  s.mutate (some { s with reminders := s.reminders.add reminder }) (saveReminders gson · outcome)

/-- The result of the save is dropped. -/
def completeReminder (gson : Gson) (s : MemoryManager) (now id : String) (outcome : WriteOutcome) :
    Bool × MemoryManager :=
  s.mutate ((s.reminders.completeById now id).map fun r => { s with reminders := r })
    fun t => (true, (saveReminders gson t outcome).2)

/-- The result of the save is dropped. -/
def deleteReminder (gson : Gson) (s : MemoryManager) (id : String) (outcome : WriteOutcome) :
    Bool × MemoryManager :=
  s.mutate ((s.reminders.deleteById id).map fun r => { s with reminders := r })
    fun t => (true, (saveReminders gson t outcome).2)

end MemoryManager

/-- A call of one of the nine mutators. -/
inductive MemoryCall where
  | updateProfileField (field : String) (value : FieldValue)
  | addFact (fact : String)
  | removeFact (fact : String)
  | addRelationship (relationship : Relationship)
  | updateRelationship (id : String) (updates : RelationshipUpdates)
  | deleteRelationship (id : String)
  | addReminder (reminder : Reminder)
  | completeReminder (id : String)
  | deleteReminder (id : String)
deriving DecidableEq

namespace MemoryCall

def run (gson : Gson) (s : MemoryManager) (now : String) (outcome : WriteOutcome) :
    MemoryCall → Bool × MemoryManager
  | updateProfileField field value => s.updateProfileField gson now field value outcome
  | addFact fact => s.addFact gson now fact outcome
  | removeFact fact => s.removeFact gson now fact outcome
  | addRelationship relationship => s.addRelationship gson now relationship outcome
  | updateRelationship id updates => s.updateRelationship gson now id updates outcome
  | deleteRelationship id => s.deleteRelationship gson now id outcome
  | addReminder reminder => s.addReminder gson reminder outcome
  | completeReminder id => s.completeReminder gson now id outcome
  | deleteReminder id => s.deleteReminder gson id outcome

/-- What the call makes of the cache, `none` where it refuses. -/
def edit (s : MemoryManager) (now : String) : MemoryCall → Option MemoryManager
  | updateProfileField field value =>
    (s.userProfile.withField now field value).map fun p => { s with userProfile := p }
  | addFact fact => (s.userProfile.withFact now fact).map fun p => { s with userProfile := p }
  | removeFact fact => (s.userProfile.withoutFact now fact).map fun p => { s with userProfile := p }
  | addRelationship relationship =>
    some { s with relationships := s.relationships ++ [relationship] }
  | updateRelationship id updates =>
    (updateFirst (fun r => r.id == id) (fun r => r.updated updates) s.relationships).map
      fun rs => { s with relationships := rs }
  | deleteRelationship id =>
    (removeAll (fun r => r.id == id) s.relationships).map fun rs => { s with relationships := rs }
  | addReminder reminder => some { s with reminders := s.reminders.add reminder }
  | completeReminder id => (s.reminders.completeById now id).map fun r => { s with reminders := r }
  | deleteReminder id => (s.reminders.deleteById id).map fun r => { s with reminders := r }

/-- The file that the call rewrites. -/
def file : MemoryCall → MemoryFiles → Option Text
  | updateProfileField .. | addFact _ | removeFact _ => MemoryFiles.userProfile
  | addRelationship _ | updateRelationship .. | deleteRelationship _ => MemoryFiles.relationships
  | addReminder _ | completeReminder _ | deleteReminder _ => MemoryFiles.reminders

/-- The text it writes there. -/
def json (gson : Gson) (now : String) (t : MemoryManager) : MemoryCall → Text
  | updateProfileField .. | addFact _ | removeFact _ => gson.userProfile.toJson t.userProfile
  | addRelationship _ | updateRelationship .. | deleteRelationship _ =>
    gson.relationships.toJson (MemoryManager.relationshipsRecord now t.relationships)
  | addReminder _ | completeReminder _ | deleteReminder _ => gson.reminders.toJson t.reminders

/-- The cache `t` with the call's file replaced. -/
def withFile (t : MemoryManager) (content : Option Text) : MemoryCall → MemoryManager
  | updateProfileField .. | addFact _ | removeFact _ =>
    { t with files := { t.files with userProfile := content } }
  | addRelationship _ | updateRelationship .. | deleteRelationship _ =>
    { t with files := { t.files with relationships := content } }
  | addReminder _ | completeReminder _ | deleteReminder _ =>
    { t with files := { t.files with reminders := content } }

/-- The two mutators that report success whatever became of the save. -/
def ignoresSave : MemoryCall → Bool
  | completeReminder _ | deleteReminder _ => true
  | _ => false

/-- Every mutator refuses, or updates the cache and rewrites its file. -/
theorem run_eq (gson : Gson) (s : MemoryManager) (now : String) (outcome : WriteOutcome)
    (c : MemoryCall) :
    c.run gson s now outcome =
      match c.edit s now with
      | none => (false, s)
      | some t =>
        let r := write (c.file t.files) (c.json gson now t) outcome
        (c.ignoresSave || r.1, c.withFile t r.2) := by
  cases c <;> rfl

theorem edit_files {s t : MemoryManager} {now : String} {c : MemoryCall}
    (h : c.edit s now = some t) : t.files = s.files := by
  cases c with
  | addRelationship | addReminder => cases h; rfl
  | _ =>
    obtain ⟨_, _, rfl⟩ := Option.map_eq_some_iff.mp h
    rfl

@[simp] theorem file_withFile (c : MemoryCall) (t : MemoryManager) (content : Option Text) :
    c.file (c.withFile t content).files = content := by
  cases c <;> rfl

@[simp] theorem withFile_self (c : MemoryCall) (t : MemoryManager) :
    c.withFile t (c.file t.files) = t := by
  cases c <;> rfl

end MemoryCall

end HeyNilo

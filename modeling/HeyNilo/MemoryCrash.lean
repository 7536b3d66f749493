import HeyNilo.MemoryAtomicity

namespace HeyNilo

open JsonFile

/-- The part of the cache that one of the files is loaded into. -/
inductive Loaded where
  | userProfile (p : UserProfile)
  | relationships (rs : List Relationship)
  | reminders (r : Reminders)
deriving DecidableEq

namespace MemoryManager

/-- Each file loads as it did before or as it does after. -/
structure LoadsOneOf (gson : Gson) (before after files : MemoryFiles) : Prop where
  userProfile : (initializeFrom gson files).userProfile = (initializeFrom gson before).userProfile ∨
    (initializeFrom gson files).userProfile = (initializeFrom gson after).userProfile
  relationships :
    (initializeFrom gson files).relationships = (initializeFrom gson before).relationships ∨
      (initializeFrom gson files).relationships = (initializeFrom gson after).relationships
  reminders : (initializeFrom gson files).reminders = (initializeFrom gson before).reminders ∨
    (initializeFrom gson files).reminders = (initializeFrom gson after).reminders
  memoryStats : (initializeFrom gson files).memoryStats = (initializeFrom gson before).memoryStats ∨
    (initializeFrom gson files).memoryStats = (initializeFrom gson after).memoryStats

/-- What is on disk is loaded back, relationships grouped by category. -/
theorem initializeFrom_onDisk {gson : Gson} {s : MemoryManager} (h : OnDisk gson s)
    (hp : gson.userProfile.Exact s.userProfile)
    (hr : ∀ record, gson.relationships.Exact record)
    (hm : gson.reminders.Exact s.reminders) :
    (initializeFrom gson s.files).userProfile = s.userProfile ∧
      (initializeFrom gson s.files).relationships.Perm s.relationships ∧
      (initializeFrom gson s.files).reminders = s.reminders := by
  obtain ⟨record, hfile, hperm⟩ := h.relationships
  refine ⟨?_, ?_, ?_⟩
  · simp only [initializeFrom, h.userProfile, load_toJson hp]
  · simpa only [initializeFrom, hfile, load_toJson (hr record)] using hperm
  · simp only [initializeFrom, h.reminders, load_toJson hm]

end MemoryManager

namespace MemoryCall

open MemoryManager

def loaded (m : MemoryManager) : MemoryCall → Loaded
  | updateProfileField .. | addFact _ | removeFact _ => .userProfile m.userProfile
  | addRelationship _ | updateRelationship .. | deleteRelationship _ =>
    .relationships m.relationships
  | addReminder _ | completeReminder _ | deleteReminder _ => .reminders m.reminders

/-- The cache that the record being saved stands for. -/
def saved (now : String) (t : MemoryManager) : MemoryCall → Loaded
  | updateProfileField .. | addFact _ | removeFact _ => .userProfile t.userProfile
  | addRelationship _ | updateRelationship .. | deleteRelationship _ =>
    .relationships (relationshipsRecord now t.relationships).getAll
  | addReminder _ | completeReminder _ | deleteReminder _ => .reminders t.reminders

/-- The defaults that stand in for the call's file. -/
def default : MemoryCall → Loaded
  | updateProfileField .. | addFact _ | removeFact _ => .userProfile {}
  | addRelationship _ | updateRelationship .. | deleteRelationship _ => .relationships []
  | addReminder _ | completeReminder _ | deleteReminder _ => .reminders {}

/-- Gson inverts the serialisation of the record being saved. -/
def SavesExactly (gson : Gson) (now : String) (t : MemoryManager) : MemoryCall → Prop
  | updateProfileField .. | addFact _ | removeFact _ => gson.userProfile.Exact t.userProfile
  | addRelationship _ | updateRelationship .. | deleteRelationship _ =>
    gson.relationships.Exact (relationshipsRecord now t.relationships)
  | addReminder _ | completeReminder _ | deleteReminder _ => gson.reminders.Exact t.reminders

/-- The files after the process died in the call's write, which had come as far as `kept` says. -/
def crashed (gson : Gson) (s : MemoryManager) (now : String) (c : MemoryCall)
    (kept : Option Nat) : MemoryFiles :=
  match c.edit s now with
  | none => s.files
  | some t => (c.withFile t (interrupted (c.file t.files) (c.json gson now t) kept)).files

theorem loadsOneOf_withFile_iff {gson : Gson} {c : MemoryCall} {t : MemoryManager}
    {a b : Option Text} :
    LoadsOneOf gson t.files (c.withFile t a).files (c.withFile t b).files ↔
      c.loaded (initializeFrom gson (c.withFile t b).files) =
          c.loaded (initializeFrom gson t.files) ∨
        c.loaded (initializeFrom gson (c.withFile t b).files) =
          c.loaded (initializeFrom gson (c.withFile t a).files) := by
  constructor
  · intro h
    cases c with
    | updateProfileField | addFact | removeFact => simpa [loaded] using h.userProfile
    | addRelationship | updateRelationship | deleteRelationship =>
      simpa [loaded] using h.relationships
    | addReminder | completeReminder | deleteReminder => simpa [loaded] using h.reminders
  · intro h
    cases c with
    | updateProfileField | addFact | removeFact =>
      exact ⟨by simpa [loaded] using h, .inl rfl, .inl rfl, .inl rfl⟩
    | addRelationship | updateRelationship | deleteRelationship =>
      exact ⟨.inl rfl, by simpa [loaded] using h, .inl rfl, .inl rfl⟩
    | addReminder | completeReminder | deleteReminder =>
      exact ⟨.inl rfl, .inl rfl, by simpa [loaded] using h, .inl rfl⟩

theorem loaded_interrupted_iff {gson : Gson} {now : String} {c : MemoryCall} {t : MemoryManager}
    (h : c.SavesExactly gson now t) (kept : Option Nat) :
    (c.loaded (initializeFrom gson
          (c.withFile t (interrupted (c.file t.files) (c.json gson now t) kept)).files) =
        c.loaded (initializeFrom gson t.files) ∨
      c.loaded (initializeFrom gson
          (c.withFile t (interrupted (c.file t.files) (c.json gson now t) kept)).files) =
        c.saved now t) ↔
      (∀ k, kept = some k → (c.json gson now t).length ≤ k) ∨
        c.default = c.loaded (initializeFrom gson t.files) ∨ c.default = c.saved now t := by
  cases c with
  | updateProfileField | addFact | removeFact =>
    exact load_interrupted_iff Loaded.userProfile h t.files.userProfile kept
  | addRelationship | updateRelationship | deleteRelationship =>
    exact load_interrupted_iff (fun r => Loaded.relationships r.getAll) h t.files.relationships kept
  | addReminder | completeReminder | deleteReminder =>
    exact load_interrupted_iff Loaded.reminders h t.files.reminders kept

theorem loaded_written {gson : Gson} {now : String} {c : MemoryCall} {t : MemoryManager}
    (h : c.SavesExactly gson now t) :
    c.loaded (initializeFrom gson (c.withFile t (some (c.json gson now t))).files) =
      c.saved now t := by
  cases c with
  | updateProfileField | addFact | removeFact => exact congrArg Loaded.userProfile (load_toJson h)
  | addRelationship | updateRelationship | deleteRelationship =>
    exact congrArg (fun r => Loaded.relationships r.getAll) (load_toJson h)
  | addReminder | completeReminder | deleteReminder =>
    exact congrArg Loaded.reminders (load_toJson h)

/-- A crash in a mutator's write is harmless exactly if the write had not begun or was complete, or
the file loaded as the default before, or the default is what was being saved. -/
theorem crash_safe_iff {gson : Gson} {s : MemoryManager} {now : String} {c : MemoryCall}
    {kept : Option Nat} (h : ∀ t, c.edit s now = some t → c.SavesExactly gson now t) :
    LoadsOneOf gson s.files (c.run gson s now .ok).2.files (c.crashed gson s now kept) ↔
      ∀ t, c.edit s now = some t →
        (∀ k, kept = some k → (c.json gson now t).length ≤ k) ∨
          c.default = c.loaded (initializeFrom gson s.files) ∨ c.default = c.saved now t := by
  rw [run_eq, crashed]
  cases ht : c.edit s now with
  | none => simpa using ⟨.inl rfl, .inl rfl, .inl rfl, .inl rfl⟩
  | some t =>
    have hexact := h t ht
    have hfiles := edit_files ht
    simp only [JsonFile.write, Option.some.injEq, forall_eq', ← hfiles]
    rw [loadsOneOf_withFile_iff, loaded_written hexact]
    exact loaded_interrupted_iff hexact kept

def callMom : Reminder := { id := "rem_1", type := .call, text := "Call mom" }

def payRent : Reminder := { id := "rem_2", type := .reminder, text := "pay the rent" }

def reminderGson : Gson :=
  sampleGson [{}] [{}, { reminders := [callMom] }, { reminders := [callMom, payRent] }]

/-- A store with one reminder, in the cache and on disk. -/
def reminderStore : MemoryManager :=
  ((addReminder callMom).run reminderGson (freshStore reminderGson) "" .ok).2

/-- Deleting the only reminder is safe even where the file is cut to nothing. -/
theorem crash_safe_deleting_last :
    LoadsOneOf reminderGson reminderStore.files
      ((deleteReminder "rem_1").run reminderGson reminderStore "" .ok).2.files
      ((deleteReminder "rem_1").crashed reminderGson reminderStore "" (some 0)) := by
  have hedit : (deleteReminder "rem_1").edit reminderStore "" =
      some { reminderStore with reminders := {} } := rfl
  refine (crash_safe_iff fun t ht => ?_).mpr fun t ht => ?_
  · cases Option.some.inj (hedit.symm.trans ht)
    exact sampleCodec_exact (by decide) (by decide +kernel)
  · cases Option.some.inj (hedit.symm.trans ht)
    exact .inr (.inr rfl)

/-- The process dies right after the file was truncated: the reminder that was stored is gone and
the new one is not there either. -/
theorem addReminder_crash_loads_default :
    ¬ LoadsOneOf reminderGson reminderStore.files
      ((addReminder payRent).run reminderGson reminderStore "" .ok).2.files
      ((addReminder payRent).crashed reminderGson reminderStore "" (some 0)) := by
  intro h
  rcases h.reminders with he | he
  · exact absurd he (by decide +kernel)
  · exact absurd he (by decide +kernel)

end MemoryCall

end HeyNilo

import HeyNilo.RelationshipReload

namespace HeyNilo

open JsonFile

namespace MemoryManager

/-- The files hold what the cache holds. Relationships are stored by category, so their order may
differ from that of the cache. -/
structure OnDisk (gson : Gson) (s : MemoryManager) : Prop where
  userProfile : s.files.userProfile = some (gson.userProfile.toJson s.userProfile)
  relationships : ∃ record : Relationships,
    s.files.relationships = some (gson.relationships.toJson record) ∧
      record.getAll.Perm s.relationships
  reminders : s.files.reminders = some (gson.reminders.toJson s.reminders)
  memoryStats : s.files.memoryStats = some (gson.memoryStats.toJson s.memoryStats)

/-- The container that is saved lists every relationship once. -/
theorem relationshipsRecord_perm (now : String) (rs : List Relationship) :
    (relationshipsRecord now rs).getAll.Perm rs := by
  rw [relationshipsRecord_getAll]
  exact StableGrouping.group_perm (by decide) fun r _ => RelationshipCategory.mem_order _

/-- The store right after the default files were created and loaded. -/
def freshStore (gson : Gson) : MemoryManager where
  userProfile := {}
  relationships := []
  reminders := {}
  memoryStats := {}
  files :=
    { userProfile := some (gson.userProfile.toJson {})
      relationships := some (gson.relationships.toJson {})
      reminders := some (gson.reminders.toJson {})
      memoryStats := some (gson.memoryStats.toJson {}) }

theorem freshStore_onDisk (gson : Gson) : OnDisk gson (freshStore gson) :=
  ⟨rfl, ⟨{}, rfl, List.Perm.nil⟩, rfl, rfl⟩

/-- The contract of a mutator: success means that the cache holds the new value and the files hold
the cache, failure that cache and files are as before. -/
def AtomicResult (gson : Gson) (s : MemoryManager) (edited : Option MemoryManager)
    (r : Bool × MemoryManager) : Prop :=
  (r.1 = true → (∃ t, edited = some t ∧ r.2 = { t with files := r.2.files }) ∧ OnDisk gson r.2) ∧
    (r.1 = false → r.2 = s)

end MemoryManager

namespace MemoryCall

open MemoryManager

/-- The failing write cannot be told from no call at all or, for the mutators that drop the result
of the save, from a write that succeeded. -/
def Harmless (gson : Gson) (s : MemoryManager) (now : String) (c : MemoryCall)
    (kept : Option Nat) : Prop :=
  ∀ t, c.edit s now = some t →
    if c.ignoresSave then
      interrupted (c.file s.files) (c.json gson now t) kept = some (c.json gson now t)
    else t = s ∧ interrupted (c.file s.files) (c.json gson now t) kept = c.file s.files

theorem withFile_ram (c : MemoryCall) (t : MemoryManager) (content : Option Text) :
    c.withFile t content = { t with files := (c.withFile t content).files } := by
  cases c <;> rfl

theorem onDisk_withFile {gson : Gson} {s t : MemoryManager} {now : String} {c : MemoryCall}
    (h : OnDisk gson s) (ht : c.edit s now = some t) :
    OnDisk gson (c.withFile t (some (c.json gson now t))) := by
  cases c with
  | updateProfileField | addFact | removeFact =>
    obtain ⟨_, _, rfl⟩ := Option.map_eq_some_iff.mp ht
    exact ⟨rfl, h.relationships, h.reminders, h.memoryStats⟩
  | addRelationship =>
    cases ht
    exact ⟨h.userProfile, ⟨_, rfl, relationshipsRecord_perm now _⟩, h.reminders, h.memoryStats⟩
  | updateRelationship | deleteRelationship =>
    obtain ⟨_, _, rfl⟩ := Option.map_eq_some_iff.mp ht
    exact ⟨h.userProfile, ⟨_, rfl, relationshipsRecord_perm now _⟩, h.reminders, h.memoryStats⟩
  | addReminder =>
    cases ht
    exact ⟨h.userProfile, h.relationships, rfl, h.memoryStats⟩
  | completeReminder | deleteReminder =>
    obtain ⟨_, _, rfl⟩ := Option.map_eq_some_iff.mp ht
    exact ⟨h.userProfile, h.relationships, rfl, h.memoryStats⟩

theorem withFile_eq_iff {s t : MemoryManager} {now : String} {c : MemoryCall}
    {content : Option Text} (ht : c.edit s now = some t) :
    c.withFile t content = s ↔ t = s ∧ content = c.file s.files := by
  constructor
  · intro h
    have hfile : content = c.file s.files := by rw [← h, file_withFile]
    refine ⟨?_, hfile⟩
    rwa [hfile, ← edit_files ht, withFile_self] at h
  · rintro ⟨rfl, rfl⟩
    exact withFile_self c t

/-- A mutator that drops the result of the save leaves the reminders on disk exactly if the write
put its text there. -/
theorem onDisk_withFile_iff {gson : Gson} {s t : MemoryManager} {now : String} {c : MemoryCall}
    {content : Option Text} (h : OnDisk gson s) (hc : c.ignoresSave = true)
    (ht : c.edit s now = some t) :
    OnDisk gson (c.withFile t content) ↔ content = some (c.json gson now t) := by
  constructor
  · intro hd
    cases c <;> cases hc <;> exact hd.reminders
  · rintro rfl
    exact onDisk_withFile h ht

/-- A mutator keeps its contract exactly if it refuses, its write succeeds, or the failing write is
harmless. -/
theorem run_atomic_iff {gson : Gson} {s : MemoryManager} {now : String} {c : MemoryCall}
    {outcome : WriteOutcome} (h : OnDisk gson s) :
    AtomicResult gson s (c.edit s now) (c.run gson s now outcome) ↔
      ∀ kept, outcome = .failed kept → c.Harmless gson s now kept := by
  rw [run_eq]
  cases ht : c.edit s now with
  | none => simp [AtomicResult, Harmless, ht]
  | some t =>
    have hram := c.withFile_ram t
    have hfiles := edit_files ht
    cases outcome with
    | ok =>
      have hd := onDisk_withFile h ht
      refine iff_of_true ⟨fun _ => ⟨⟨t, rfl, hram _⟩, hd⟩, ?_⟩ (by simp)
      simp [JsonFile.write]
    | failed kept =>
      have hharm : (∀ k, WriteOutcome.failed kept = .failed k → c.Harmless gson s now k) ↔
          c.Harmless gson s now kept := by simp
      rw [hharm]
      simp only [AtomicResult, Harmless, JsonFile.write, Bool.or_false, ht, Option.some.injEq,
        forall_eq', hfiles]
      by_cases hc : c.ignoresSave = true
      · rw [if_pos hc]
        simp only [hc, forall_const, reduceCtorEq, false_implies, and_true]
        refine Iff.trans ?_ (onDisk_withFile_iff h hc ht)
        exact ⟨fun hr => hr.2, fun hd => ⟨⟨t, rfl, hram _⟩, hd⟩⟩
      · rw [if_neg hc]
        simp only [hc, Bool.false_eq_true, false_implies, true_and, forall_const]
        exact withFile_eq_iff ht

theorem removeAll_ne_self {α : Type*} {p : α → Bool} {xs : List α} :
    removeAll p xs ≠ some xs := by
  unfold removeAll
  split
  next h =>
    intro he
    have hall := List.filter_eq_self.mp (Option.some.inj he)
    obtain ⟨x, hx, hp⟩ := List.any_eq_true.mp h
    have := hall x hx
    simp [hp] at this
  next => simp

/-- Only a profile field or a relationship that already has the value, or a reminder completed
before at the same time, can leave the cache as it was. -/
theorem edit_self {s : MemoryManager} {now : String} {c : MemoryCall} (h : c.edit s now = some s) :
    (∃ field value, c = updateProfileField field value) ∨
      (∃ id updates, c = updateRelationship id updates) ∨ ∃ id, c = completeReminder id := by
  cases c with
  | updateProfileField field value => exact .inl ⟨field, value, rfl⟩
  | updateRelationship id updates => exact .inr (.inl ⟨id, updates, rfl⟩)
  | completeReminder id => exact .inr (.inr ⟨id, rfl⟩)
  | addFact fact =>
    obtain ⟨p, hp, hs⟩ := Option.map_eq_some_iff.mp h
    unfold UserProfile.withFact at hp
    split at hp <;> cases hp
    have := congrArg (fun t => t.userProfile.facts.length) hs
    simp at this
  | removeFact fact =>
    obtain ⟨p, hp, hs⟩ := Option.map_eq_some_iff.mp h
    unfold UserProfile.withoutFact at hp
    split at hp <;> cases hp
    next hmem =>
      have hlen := congrArg (fun t => t.userProfile.facts.length) hs
      have hpos : 0 < s.userProfile.facts.length :=
        List.length_pos_of_mem (List.contains_iff_mem.mp hmem)
      simp only [List.length_erase, if_pos (List.contains_iff_mem.mp hmem)] at hlen
      omega
  | addRelationship relationship =>
    have := congrArg (fun t => t.relationships.length) (Option.some.inj h)
    simp at this
  | deleteRelationship id =>
    obtain ⟨rs, hrs, hs⟩ := Option.map_eq_some_iff.mp h
    have heq : rs = s.relationships := congrArg MemoryManager.relationships hs
    exact absurd (heq ▸ hrs) removeAll_ne_self
  | addReminder reminder =>
    have := congrArg (fun t => t.reminders.reminders.length) (Option.some.inj h)
    simp [Reminders.add] at this
  | deleteReminder id =>
    obtain ⟨r, hr, hs⟩ := Option.map_eq_some_iff.mp h
    have heq : r = s.reminders := congrArg MemoryManager.reminders hs
    obtain ⟨xs, hxs, hr⟩ := Option.map_eq_some_iff.mp hr
    have hlist : xs = s.reminders.reminders := congrArg Reminders.reminders (hr.trans heq)
    exact absurd (hlist ▸ hxs) removeAll_ne_self

theorem run_atomic_iff_saved :
    AtomicResult (sampleGson [{}] [{}]) (freshStore (sampleGson [{}] [{}]))
      ((addReminder ⟨"rem_1", .call, "Call mom", none, none, .normal, .pending, "", none⟩).edit
        (freshStore (sampleGson [{}] [{}])) "2025-01-01T00:00:00Z")
      ((addReminder ⟨"rem_1", .call, "Call mom", none, none, .normal, .pending, "", none⟩).run
        (sampleGson [{}] [{}]) (freshStore (sampleGson [{}] [{}])) "2025-01-01T00:00:00Z" .ok) :=
  (run_atomic_iff (freshStore_onDisk _)).mpr fun _ h => nomatch h

/-- A write that fails before the file is touched: the call reports failure, yet the reminder stays
in the cache. -/
theorem addReminder_failed_keeps_reminder :
    ¬ AtomicResult (sampleGson [{}] [{}]) (freshStore (sampleGson [{}] [{}]))
      ((addReminder ⟨"rem_1", .call, "Call mom", none, none, .normal, .pending, "", none⟩).edit
        (freshStore (sampleGson [{}] [{}])) "2025-01-01T00:00:00Z")
      ((addReminder ⟨"rem_1", .call, "Call mom", none, none, .normal, .pending, "", none⟩).run
        (sampleGson [{}] [{}]) (freshStore (sampleGson [{}] [{}])) "2025-01-01T00:00:00Z"
        (.failed none)) := by
  intro h
  have hsame := h.2 rfl
  have hlen := congrArg (fun t => t.reminders.reminders.length) hsame
  exact absurd hlen (by decide)

end MemoryCall

end HeyNilo

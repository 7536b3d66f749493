import HeyNilo.MemoryExtraction

namespace HeyNilo

open MemoryExtraction MemoryExtractionHelper

namespace MemoryManager

section ForEach

variable {α : Type} {call : MemoryManager → Saving → α → MemoryManager} {savings : Nat → Saving}
  {s : MemoryManager} {items : List α}

/-- Calls that do nothing do nothing together. -/
theorem forEach_unchanged (h : ∀ saving, ∀ x ∈ items, call s saving x = s) :
    forEach call savings s items = s := by
  refine List.foldlRecOn (motive := fun t => t = s) _ _ rfl fun t ht item hitem => ?_
  have hmem : item.1 ∈ items := List.fst_mem_of_mem_zipIdx hitem
  rw [ht]
  exact h _ _ hmem

theorem forEach_frame {β : Type} (field : MemoryManager → β)
    (h : ∀ s saving x, field (call s saving x) = field s) :
    field (forEach call savings s items) = field s := by
  refine List.foldlRecOn (motive := fun t => field t = field s) _ _ rfl fun t ht item _ => ?_
  exact (h t _ _).trans ht

/-- What each call brings about for its item, and no later call undoes, holds of every item. -/
theorem forEach_all {Q : MemoryManager → α → Prop}
    (hmake : ∀ s saving, ∀ x ∈ items, Q (call s saving x) x)
    (hkeep : ∀ s saving x y, Q s y → Q (call s saving x) y) :
    ∀ x ∈ items, Q (forEach call savings s items) x := by
  unfold forEach
  generalize 0 = first
  induction items generalizing s first with
  | nil => exact fun x hx => absurd hx List.not_mem_nil
  | cons y items ih =>
    intro x hx
    rw [List.zipIdx_cons, List.foldl_cons]
    rcases List.mem_cons.mp hx with rfl | hx
    · have hfirst := hmake s (savings first) x List.mem_cons_self
      exact List.foldlRecOn (motive := (Q · x)) _ _ hfirst fun t ht item _ => hkeep t _ _ _ ht
    · exact ih (fun s saving y hy => hmake s saving y (List.mem_cons_of_mem _ hy)) _ x hx

/-- What holds at the start and is kept by every call. -/
theorem forEach_keeps {P : MemoryManager → Prop} (hkeep : ∀ s saving x, P s → P (call s saving x))
    (h : P s) : P (forEach call savings s items) :=
  List.foldlRecOn (motive := P) _ _ h fun t ht _ _ => hkeep t _ _ ht

end ForEach

variable {gson : Gson} {tables : CharacterTables} {s : MemoryManager} {saving : Saving}

/-- A fact that extraction would not store again: it is blank, or similar to a stored one. -/
def KnowsFact (tables : CharacterTables) (s : MemoryManager) (fact : String) : Prop :=
  isBlank fact.toList = true ∨ ∃ g ∈ s.userProfile.facts, similar tables g fact = true

/-- Nothing that the message has to say is new. -/
structure Knows (tables : CharacterTables) (message : Text) (s : MemoryManager) : Prop where
  facts : ∀ fact ∈ extractFactsRuleBased tables message, KnowsFact tables s fact
  relationships : ∀ uuid, ∀ rel ∈ extractRelationshipsRuleBased uuid message,
    s.knowsRelationship tables rel = true
  reminders : ∀ uuid, ∀ rem ∈ extractRemindersRuleBased tables uuid message,
    s.knowsReminder tables rem = true

theorem similar_self (tables : CharacterTables) (fact : String) : similar tables fact fact = true := by
  simp [similar]

theorem saveFact_facts (gson : Gson) (s : MemoryManager) (saving : Saving) (fact : String) :
    (saveFact gson s saving fact).userProfile.facts =
      s.userProfile.facts ++ if isBlank fact.toList then [] else [fact] := by
  unfold saveFact addFact UserProfile.withFact
  split <;> simp [mutate, saveUserProfile]

theorem saveFact_blank {fact : String} (h : isBlank fact.toList = true) :
    saveFact gson s saving fact = s := by
  simp [saveFact, addFact, UserProfile.withFact, h, mutate]

theorem saveRelationship_userProfile (s : MemoryManager) (saving : Saving) (rel : Relationship) :
    (saveRelationship gson tables s saving rel).userProfile = s.userProfile := by
  unfold saveRelationship
  split <;> rfl

theorem saveReminder_userProfile (s : MemoryManager) (saving : Saving) (rem : Reminder) :
    (saveReminder gson tables s saving rem).userProfile = s.userProfile := by
  unfold saveReminder
  split <;> rfl

theorem saveReminder_relationships (s : MemoryManager) (saving : Saving) (rem : Reminder) :
    (saveReminder gson tables s saving rem).relationships = s.relationships := by
  unfold saveReminder
  split <;> rfl

theorem saveRelationship_knows (s : MemoryManager) (saving : Saving) (rel : Relationship) :
    (saveRelationship gson tables s saving rel).knowsRelationship tables rel = true := by
  unfold saveRelationship
  split
  next h => exact h
  next =>
    have hmem : rel ∈ s.relationships ++ [rel] := List.mem_append_right _ (List.mem_singleton_self _)
    exact List.any_eq_true.mpr ⟨rel, hmem, by simp⟩

theorem saveRelationship_keeps (s : MemoryManager) (saving : Saving) (rel other : Relationship)
    (h : s.knowsRelationship tables other = true) :
    (saveRelationship gson tables s saving rel).knowsRelationship tables other = true := by
  unfold saveRelationship
  split
  next => exact h
  next =>
    obtain ⟨r, hr, hsame⟩ := List.any_eq_true.mp h
    exact List.any_eq_true.mpr ⟨r, List.mem_append_left _ hr, hsame⟩

theorem saveReminder_knows {rem : Reminder} (hpending : rem.status = .pending) (s : MemoryManager)
    (saving : Saving) : (saveReminder gson tables s saving rem).knowsReminder tables rem = true := by
  unfold saveReminder
  split
  next h => exact h
  next =>
    have hmem : rem ∈ s.reminders.reminders ++ [rem] :=
      List.mem_append_right _ (List.mem_singleton_self _)
    exact List.any_eq_true.mpr ⟨rem, hmem, by simp [hpending]⟩

theorem saveReminder_keeps (s : MemoryManager) (saving : Saving) (rem other : Reminder)
    (h : s.knowsReminder tables other = true) :
    (saveReminder gson tables s saving rem).knowsReminder tables other = true := by
  unfold saveReminder
  split
  next => exact h
  next =>
    obtain ⟨r, hr, hsame⟩ := List.any_eq_true.mp h
    exact List.any_eq_true.mpr ⟨r, List.mem_append_left _ hr, hsame⟩

theorem saveFact_keeps (s : MemoryManager) (saving : Saving) (fact other : String)
    (h : KnowsFact tables s other) : KnowsFact tables (saveFact gson s saving fact) other := by
  rcases h with hblank | ⟨g, hg, hsimilar⟩
  · exact .inl hblank
  · refine .inr ⟨g, ?_, hsimilar⟩
    rw [saveFact_facts]
    exact List.mem_append_left _ hg

theorem saveFact_knows (s : MemoryManager) (saving : Saving) (fact : String) :
    KnowsFact tables (saveFact gson s saving fact) fact := by
  by_cases hblank : isBlank fact.toList = true
  · exact .inl hblank
  · refine .inr ⟨fact, ?_, similar_self tables fact⟩
    rw [saveFact_facts, if_neg hblank]
    exact List.mem_append_right _ (List.mem_singleton_self _)

/-- The ids aside, the people found are the same whatever UUIDs are drawn. -/
theorem extractRelationships_uuid {u v : Nat → String} {message : Text} {rel : Relationship}
    (h : rel ∈ extractRelationshipsRuleBased u message) :
    ∃ other ∈ extractRelationshipsRuleBased v message,
      other.name = rel.name ∧ other.relation = rel.relation := by
  obtain ⟨i, hi, rfl⟩ := List.mem_mapIdx.mp h
  exact ⟨_, List.mem_mapIdx.mpr ⟨i, hi, rfl⟩, rfl, rfl⟩

/-- `distinctBy` keeps an element of every key. -/
theorem exists_mem_eraseDupsBy {α β : Type} [BEq β] [LawfulBEq β] (key : α → β) {xs : List α} {x : α}
    (h : x ∈ xs) : ∃ y ∈ xs.eraseDupsBy fun a b => key a == key b, key y = key x := by
  induction hn : xs.length using Nat.strong_induction_on generalizing xs with
  | _ n ih =>
    cases xs with
    | nil => exact absurd h List.not_mem_nil
    | cons a xs =>
      rw [List.eraseDupsBy_cons]
      by_cases hkey : key x = key a
      · exact ⟨a, List.mem_cons_self, hkey.symm⟩
      · have hx : x ∈ xs := (List.mem_cons.mp h).resolve_left fun hxa => hkey (hxa ▸ rfl)
        have hkept : x ∈ xs.filter fun b => (key b == key a) = false :=
          List.mem_filter.mpr ⟨hx, by simpa using hkey⟩
        have hlen : (xs.filter fun b => (key b == key a) = false).length < n := by
          have hle := List.length_filter_le (fun b => (key b == key a) = false) xs
          have hcons : (a :: xs).length = xs.length + 1 := rfl
          omega
        obtain ⟨y, hy, hsame⟩ := ih _ hlen hkept rfl
        exact ⟨y, List.mem_cons_of_mem _ hy, hsame⟩

theorem mem_of_mem_eraseDupsBy {α : Type} {r : α → α → Bool} {xs : List α} {x : α}
    (h : x ∈ xs.eraseDupsBy r) : x ∈ xs := by
  induction hn : xs.length using Nat.strong_induction_on generalizing xs with
  | _ n ih =>
    cases xs with
    | nil => exact h
    | cons a xs =>
      rw [List.eraseDupsBy_cons] at h
      rcases List.mem_cons.mp h with rfl | h
      · exact List.mem_cons_self
      · have hlen : (xs.filter fun b => r b a = false).length < n := by
          have hle := List.length_filter_le (fun b => r b a = false) xs
          have hcons : (a :: xs).length = xs.length + 1 := rfl
          omega
        exact List.mem_cons_of_mem _ (List.mem_of_mem_filter (ih _ hlen h rfl))

/-- The ids aside, every task is found again among the reminders, whatever UUIDs are drawn. -/
theorem extractReminders_uuid {u v : Nat → String} {message : Text} {rem : Reminder}
    (h : rem ∈ extractRemindersRuleBased tables u message) :
    ∃ other ∈ extractRemindersRuleBased tables v message,
      tables.lowercase other.text.toList = tables.lowercase rem.text.toList := by
  obtain ⟨i, hi, rfl⟩ := List.mem_mapIdx.mp (mem_of_mem_eraseDupsBy h)
  have hmem : (tasksFound message)[i].reminder (v i) ∈
      (tasksFound message).mapIdx fun i task => task.reminder (v i) :=
    List.mem_mapIdx.mpr ⟨i, hi, rfl⟩
  obtain ⟨other, hother, htext⟩ :=
    exists_mem_eraseDupsBy (fun r : Reminder => tables.lowercase r.text.toList) hmem
  exact ⟨other, hother, htext⟩

theorem extractReminders_pending {uuid : Nat → String} {message : Text} {rem : Reminder}
    (h : rem ∈ extractRemindersRuleBased tables uuid message) : rem.status = .pending := by
  obtain ⟨i, hi, rfl⟩ := List.mem_mapIdx.mp (mem_of_mem_eraseDupsBy h)
  rfl

theorem knowsRelationship_congr {rel other : Relationship} (hname : rel.name = other.name)
    (hrelation : rel.relation = other.relation) :
    s.knowsRelationship tables rel = s.knowsRelationship tables other := by
  rw [knowsRelationship, hname, hrelation]
  rfl

theorem knowsReminder_congr {rem other : Reminder}
    (h : tables.lowercase rem.text.toList = tables.lowercase other.text.toList) :
    s.knowsReminder tables rem = s.knowsReminder tables other := by
  rw [knowsReminder, h]
  rfl

/-- Storing the facts found leaves none of them to be stored. -/
theorem forEach_saveFact_knows (savings : Nat → Saving) {message : Text} :
    ∀ fact ∈ extractFactsRuleBased tables message,
      KnowsFact tables
        (forEach (saveFact gson) savings s
          (deduplicateFacts tables s.userProfile.facts (extractFactsRuleBased tables message)))
        fact := by
  intro fact hfact
  by_cases hnew : s.userProfile.facts.any fun g => similar tables g fact
  · obtain ⟨g, hg, hsimilar⟩ := List.any_eq_true.mp hnew
    have hbefore : KnowsFact tables s fact := .inr ⟨g, hg, hsimilar⟩
    exact forEach_keeps (P := (KnowsFact tables · fact))
      (fun s saving x h => saveFact_keeps s saving x fact h) hbefore
  · have hmem : fact ∈ deduplicateFacts tables s.userProfile.facts
        (extractFactsRuleBased tables message) :=
      List.mem_filter.mpr ⟨hfact, by simpa using hnew⟩
    exact forEach_all (fun s saving x _ => saveFact_knows s saving x) saveFact_keeps fact hmem

/-- One extraction leaves nothing new for the next. -/
theorem extractAndSave_knows {around : Surroundings} {userMessage llmResponse mode : Text}
    (hworth : isWorthExtracting tables userMessage llmResponse = true) :
    Knows tables userMessage
      (s.extractAndSave gson tables around userMessage llmResponse mode) := by
  rw [extractAndSave, if_pos hworth]
  set s₁ := forEach (saveFact gson) around.fact s
    (deduplicateFacts tables s.userProfile.facts (extractFactsRuleBased tables userMessage)) with hs₁
  set s₂ := forEach (saveRelationship gson tables) around.relationship s₁
    (extractRelationshipsRuleBased around.relationshipUuid userMessage) with hs₂
  set s₃ := forEach (saveReminder gson tables) around.reminder s₂
    (extractRemindersRuleBased tables around.reminderUuid userMessage) with hs₃
  have hprofile₂ : s₂.userProfile = s₁.userProfile :=
    forEach_frame MemoryManager.userProfile saveRelationship_userProfile
  have hprofile₃ : s₃.userProfile = s₂.userProfile :=
    forEach_frame MemoryManager.userProfile saveReminder_userProfile
  have hpeople₃ : s₃.relationships = s₂.relationships :=
    forEach_frame MemoryManager.relationships saveReminder_relationships
  refine ⟨fun fact hfact => ?_, fun uuid rel hrel => ?_, fun uuid rem hrem => ?_⟩
  · have hknown : KnowsFact tables s₁ fact := forEach_saveFact_knows around.fact fact hfact
    change isBlank fact.toList = true ∨ ∃ g ∈ s₃.userProfile.facts, similar tables g fact = true
    rw [hprofile₃, hprofile₂]
    exact hknown
  · obtain ⟨other, hother, hname, hrelation⟩ :=
      extractRelationships_uuid (v := around.relationshipUuid) hrel
    have hknown : s₂.knowsRelationship tables other = true :=
      forEach_all (Q := fun s rel => s.knowsRelationship tables rel = true)
        (fun s saving x _ => saveRelationship_knows s saving x) saveRelationship_keeps other hother
    rw [knowsRelationship_congr hname hrelation] at hknown
    change (s₃.relationships.any _) = true
    rw [hpeople₃]
    exact hknown
  · obtain ⟨other, hother, htext⟩ := extractReminders_uuid (v := around.reminderUuid) hrem
    have hknown : s₃.knowsReminder tables other = true :=
      forEach_all (Q := fun s rem => s.knowsReminder tables rem = true)
        (fun s saving x hx => saveReminder_knows (extractReminders_pending hx) s saving)
        saveReminder_keeps other hother
    rw [knowsReminder_congr htext] at hknown
    exact hknown

/-- Where nothing is new, an extraction changes the statistics only. -/
theorem extractAndSave_of_knows {around : Surroundings} {userMessage llmResponse mode : Text}
    (h : Knows tables userMessage s) :
    let t := s.extractAndSave gson tables around userMessage llmResponse mode
    t.userProfile = s.userProfile ∧ t.relationships = s.relationships ∧
      t.reminders = s.reminders := by
  intro t
  by_cases hworth : isWorthExtracting tables userMessage llmResponse = true
  · have hfacts : forEach (saveFact gson) around.fact s
        (deduplicateFacts tables s.userProfile.facts
          (extractFactsRuleBased tables userMessage)) = s := by
      refine forEach_unchanged fun saving fact hfact => ?_
      obtain ⟨hextracted, hnew⟩ := List.mem_filter.mp hfact
      rcases h.facts fact hextracted with hblank | ⟨g, hg, hsimilar⟩
      · exact saveFact_blank hblank
      · have hold : (s.userProfile.facts.any fun g => similar tables g fact) = true :=
          List.any_eq_true.mpr ⟨g, hg, hsimilar⟩
        rw [hold] at hnew
        cases hnew
    have hpeople : forEach (saveRelationship gson tables) around.relationship s
        (extractRelationshipsRuleBased around.relationshipUuid userMessage) = s :=
      forEach_unchanged fun saving rel hrel => if_pos (h.relationships _ rel hrel)
    have hreminders : forEach (saveReminder gson tables) around.reminder s
        (extractRemindersRuleBased tables around.reminderUuid userMessage) = s :=
      forEach_unchanged fun saving rem hrem => if_pos (h.reminders _ rem hrem)
    have ht : t = s.updateExtractionStats gson around.stats
        (deduplicateFacts tables s.userProfile.facts
          (extractFactsRuleBased tables userMessage)).length
        (extractRelationshipsRuleBased around.relationshipUuid userMessage).length
        (extractRemindersRuleBased tables around.reminderUuid userMessage).length := by
      have hrun : t = s.extractAndSave gson tables around userMessage llmResponse mode := rfl
      rw [hrun, extractAndSave, if_pos hworth]
      dsimp only
      rw [hfacts, hpeople, hreminders]
    rw [ht]
    exact ⟨rfl, rfl, rfl⟩
  · have ht : t = s := if_neg hworth
    rw [ht]
    exact ⟨rfl, rfl, rfl⟩

/-- Extracting from one message a second time adds nothing, whatever became of the saves and
whatever the second call's response and mode are. -/
theorem extractAndSave_twice (gson : Gson) (tables : CharacterTables) (first second : Surroundings)
    (s : MemoryManager) (userMessage llmResponse mode llmResponse' mode' : Text) :
    let once := s.extractAndSave gson tables first userMessage llmResponse mode
    let twice := once.extractAndSave gson tables second userMessage llmResponse' mode'
    twice.userProfile = once.userProfile ∧ twice.relationships = once.relationships ∧
      twice.reminders = once.reminders := by
  intro once twice
  by_cases hworth : isWorthExtracting tables userMessage llmResponse = true
  · exact extractAndSave_of_knows (extractAndSave_knows hworth)
  · have honce : twice = once := if_neg hworth
    rw [honce]
    exact ⟨rfl, rfl, rfl⟩

end MemoryManager

end HeyNilo

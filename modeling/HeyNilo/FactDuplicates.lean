import HeyNilo.ExtractionTwice
import HeyNilo.MemoryAtomicity

namespace HeyNilo

open MemoryExtraction MemoryExtractionHelper

/-- The tables as far as ASCII goes. -/
def asciiTables : CharacterTables where
  lowercase := lowercase
  uppercase := fun c => [c.toUpper]
  isWord := fun c => c.isAlphanum || c == '_'
  isDecimal := Char.isDigit

theorem nodup_eraseDups {α : Type*} [BEq α] [LawfulBEq α] (xs : List α) : xs.eraseDups.Nodup := by
  induction hn : xs.length using Nat.strong_induction_on generalizing xs with
  | _ n ih =>
    cases xs with
    | nil => exact List.nodup_nil
    | cons x xs =>
      rw [List.eraseDups_cons]
      have hlen : (xs.filter fun y => !y == x).length < n := by
        have hle := List.length_filter_le (fun y => !y == x) xs
        have hcons : (x :: xs).length = xs.length + 1 := rfl
        omega
      refine List.nodup_cons.mpr ⟨fun hx => ?_, ih _ hlen _ rfl⟩
      have hkept := List.mem_filter.mp (List.mem_eraseDups.mp hx)
      simp at hkept

namespace MemoryExtraction

/-- In lower case and trimmed, one of the facts contains the other. -/
def Duplicate (tables : CharacterTables) (a b : String) : Prop :=
  trim (tables.lowercase a.toList) <:+: trim (tables.lowercase b.toList) ∨
    trim (tables.lowercase b.toList) <:+: trim (tables.lowercase a.toList)

def NoDuplicates (tables : CharacterTables) (facts : List String) : Prop :=
  facts.Pairwise fun a b => ¬ Duplicate tables a b

/-- One of the patterns reads the fact from the message. -/
inductive Reads (tables : CharacterTables) (message : Text) : String → Prop
  | name {p w fact} (hp : p ∈ namePatterns tables) (hw : firstGroup message p = some w)
    (hfact : nameFact w = some fact) : Reads tables message fact
  | age {p w fact} (hp : p ∈ agePatterns tables) (hw : firstGroup message p = some w)
    (hfact : ageFact w = some fact) : Reads tables message fact
  | location {p w fact} (hp : p ∈ locationPatterns) (hw : firstGroup message p = some w)
    (hfact : locationFact w = some fact) : Reads tables message fact
  | job {p w fact} (hp : p ∈ jobPatterns) (hw : firstGroup message p = some w)
    (hfact : jobFact w = some fact) : Reads tables message fact
  | preference {p m fact} (hp : p ∈ preferencePatterns) (hm : CapturePattern.find p message = some m)
    (hfact : preferenceFact tables m.value = some fact) : Reads tables message fact

/-- A fact that is stored if it is read: it is not blank, and no duplicate of a stored one. -/
def New (tables : CharacterTables) (stored : List String) (fact : String) : Prop :=
  isBlank fact.toList = false ∧ ∀ old ∈ stored, ¬ Duplicate tables old fact

/-- Of the new facts in the message no two are duplicates. -/
def SaysNothingTwice (tables : CharacterTables) (stored : List String) (message : Text) : Prop :=
  ∀ a b, Reads tables message a → Reads tables message b → New tables stored a →
    New tables stored b → a ≠ b → ¬ Duplicate tables a b

variable {tables : CharacterTables} {message : Text} {stored : List String} {a b fact : String}

theorem Duplicate.symm (h : Duplicate tables a b) : Duplicate tables b a := Or.symm h

theorem similar_iff : similar tables a b = true ↔ Duplicate tables a b := by
  simp only [similar, containsText, Bool.or_eq_true, beq_iff_eq, decide_eq_true_eq]
  constructor
  · rintro ((heq | h) | h)
    · exact .inl (heq ▸ List.infix_refl _)
    · exact .inr h
    · exact .inl h
  · rintro (h | h)
    · exact .inr h
    · exact .inl (.inr h)

theorem reads_iff : Reads tables message fact ↔ fact ∈ extractFactsRuleBased tables message := by
  have hfirst {ps : List Pattern} {read : Text → Option String} :
      fact ∈ ps.filterMap (fun p => (firstGroup message p).bind read) ↔
        ∃ p ∈ ps, ∃ w, firstGroup message p = some w ∧ read w = some fact := by
    simp only [List.mem_filterMap, Option.bind_eq_some_iff]
  rw [extractFactsRuleBased, List.mem_eraseDups, List.mem_append, List.mem_append, List.mem_append,
    List.mem_append, hfirst, hfirst, hfirst, hfirst]
  simp only [List.mem_filterMap, Option.bind_eq_some_iff]
  constructor
  · intro h
    cases h with
    | name hp hw hfact => exact .inl (.inl (.inl (.inl ⟨_, hp, _, hw, hfact⟩)))
    | age hp hw hfact => exact .inl (.inl (.inl (.inr ⟨_, hp, _, hw, hfact⟩)))
    | location hp hw hfact => exact .inl (.inl (.inr ⟨_, hp, _, hw, hfact⟩))
    | job hp hw hfact => exact .inl (.inr ⟨_, hp, _, hw, hfact⟩)
    | preference hp hm hfact => exact .inr ⟨_, hp, _, hm, hfact⟩
  · rintro ((((⟨p, hp, w, hw, hfact⟩ | ⟨p, hp, w, hw, hfact⟩) | ⟨p, hp, w, hw, hfact⟩) |
      ⟨p, hp, w, hw, hfact⟩) | ⟨p, hp, m, hm, hfact⟩)
    · exact .name hp hw hfact
    · exact .age hp hw hfact
    · exact .location hp hw hfact
    · exact .job hp hw hfact
    · exact .preference hp hm hfact

/-- Facts without duplicates stay so if the new ones are apart from them and from each other. -/
theorem noDuplicates_append_iff {new : List String} (hstored : NoDuplicates tables stored)
    (happart : ∀ old ∈ stored, ∀ a ∈ new, ¬ Duplicate tables old a) (hnodup : new.Nodup) :
    NoDuplicates tables (stored ++ new) ↔
      ∀ a ∈ new, ∀ b ∈ new, a ≠ b → ¬ Duplicate tables a b := by
  have hsymm : Std.Symm fun a b => ¬ Duplicate tables a b := ⟨fun a b h hba => h hba.symm⟩
  constructor
  · intro h a ha b hb hne
    exact (List.pairwise_append.mp h).2.1.forall ha hb hne
  · intro h
    exact List.pairwise_append.mpr ⟨hstored, hnodup.pairwise_of_forall_ne h, happart⟩

end MemoryExtraction

namespace MemoryManager

variable {gson : Gson} {tables : CharacterTables} {s : MemoryManager} {savings : Nat → Saving}

theorem forEach_saveFact_facts (facts : List String) :
    (forEach (saveFact gson) savings s facts).userProfile.facts =
      s.userProfile.facts ++ facts.filter fun fact => !isBlank fact.toList := by
  have hfold (items : List (String × Nat)) (s : MemoryManager) :
      (items.foldl (fun s item => saveFact gson s (savings item.2) item.1) s).userProfile.facts =
        s.userProfile.facts ++ (items.map Prod.fst).filter fun fact => !isBlank fact.toList := by
    induction items generalizing s with
    | nil => simp
    | cons item items ih =>
      rw [List.foldl_cons, ih, saveFact_facts, List.append_assoc, List.map_cons, List.filter_cons]
      cases isBlank item.1.toList <;> rfl
  rw [forEach, hfold]
  simp

theorem extractAndSave_facts {around : Surroundings} {userMessage llmResponse mode : Text}
    (hworth : isWorthExtracting tables userMessage llmResponse = true) :
    (s.extractAndSave gson tables around userMessage llmResponse mode).userProfile.facts =
      s.userProfile.facts ++
        (deduplicateFacts tables s.userProfile.facts
          (extractFactsRuleBased tables userMessage)).filter fun fact => !isBlank fact.toList := by
  rw [extractAndSave, if_pos hworth, ← @forEach_saveFact_facts gson s around.fact]
  set s₁ := forEach (saveFact gson) around.fact s
    (deduplicateFacts tables s.userProfile.facts (extractFactsRuleBased tables userMessage))
  set s₂ := forEach (saveRelationship gson tables) around.relationship s₁
    (extractRelationshipsRuleBased around.relationshipUuid userMessage)
  set s₃ := forEach (saveReminder gson tables) around.reminder s₂
    (extractRemindersRuleBased tables around.reminderUuid userMessage)
  have hprofile₂ : s₂.userProfile = s₁.userProfile :=
    forEach_frame MemoryManager.userProfile saveRelationship_userProfile
  have hprofile₃ : s₃.userProfile = s₂.userProfile :=
    forEach_frame MemoryManager.userProfile saveReminder_userProfile
  change s₃.userProfile.facts = s₁.userProfile.facts
  rw [hprofile₃, hprofile₂]

/-- The facts that an extraction adds. -/
theorem mem_added_iff {message : Text} {fact : String} :
    fact ∈ (deduplicateFacts tables s.userProfile.facts
        (extractFactsRuleBased tables message)).filter (fun fact => !isBlank fact.toList) ↔
      Reads tables message fact ∧ New tables s.userProfile.facts fact := by
  have hnew : (!s.userProfile.facts.any fun old => similar tables old fact) = true ↔
      ∀ old ∈ s.userProfile.facts, ¬ Duplicate tables old fact := by
    simp [← similar_iff]
  rw [List.mem_filter, deduplicateFacts, List.mem_filter, hnew, ← reads_iff, Bool.not_eq_true', New,
    and_assoc, and_comm (b := isBlank fact.toList = false)]

/-- Whatever becomes of the saves. -/
theorem extractAndSave_noDuplicates_iff (gson : Gson) (tables : CharacterTables)
    (around : Surroundings) (s : MemoryManager) (userMessage llmResponse mode : Text)
    (hstored : NoDuplicates tables s.userProfile.facts) :
    NoDuplicates tables
        (s.extractAndSave gson tables around userMessage llmResponse mode).userProfile.facts ↔
      (isWorthExtracting tables userMessage llmResponse = true →
        SaysNothingTwice tables s.userProfile.facts userMessage) := by
  by_cases hworth : isWorthExtracting tables userMessage llmResponse = true
  · have hnodup : ((deduplicateFacts tables s.userProfile.facts
        (extractFactsRuleBased tables userMessage)).filter fun fact =>
          !isBlank fact.toList).Nodup := ((nodup_eraseDups _).filter _).filter _
    rw [extractAndSave_facts hworth, noDuplicates_append_iff hstored _ hnodup]
    · constructor
      · intro h _ a b ha hb hanew hbnew
        exact h a (mem_added_iff.mpr ⟨ha, hanew⟩) b (mem_added_iff.mpr ⟨hb, hbnew⟩)
      · intro h a ha b hb
        obtain ⟨ha, hanew⟩ := mem_added_iff.mp ha
        obtain ⟨hb, hbnew⟩ := mem_added_iff.mp hb
        exact h hworth a b ha hb hanew hbnew
    · intro old hold a ha
      exact (mem_added_iff.mp ha).2.2 old hold
  · have hsame : s.extractAndSave gson tables around userMessage llmResponse mode = s :=
      if_neg hworth
    rw [hsame]
    exact ⟨fun _ h => absurd h hworth, fun _ => hstored⟩

def quiet : Saving where
  now := "2025-01-01T00:00:00Z"
  outcome := .ok

def calm : Surroundings where
  relationshipUuid := fun _ => "4f9c2a10"
  reminderUuid := fun _ => "8b1d7e52"
  fact := fun _ => quiet
  relationship := fun _ => quiet
  reminder := fun _ => quiet
  stats := quiet

theorem extractAndSave_noDuplicates_once :
    NoDuplicates asciiTables ((freshStore (sampleGson [{}] [{}])).extractAndSave
      (sampleGson [{}] [{}]) asciiTables calm "My name is Tom".toList [] []).userProfile.facts := by
  have hempty : NoDuplicates asciiTables (freshStore (sampleGson [{}] [{}])).userProfile.facts :=
    List.Pairwise.nil
  refine (extractAndSave_noDuplicates_iff _ _ calm _ _ [] [] hempty).mpr
    fun _ a b ha hb _ _ hne => absurd ?_ hne
  have hone : extractFactsRuleBased asciiTables "My name is Tom".toList = ["Name is Tom"] := by
    decide +kernel
  rw [reads_iff, hone, List.mem_singleton] at ha hb
  exact ha.trans hb.symm

/-- One name in two spellings is stored twice. -/
theorem name_stored_twice :
    ¬ ∀ gson tables around (s : MemoryManager) userMessage llmResponse mode,
      NoDuplicates tables s.userProfile.facts →
        NoDuplicates tables
          (s.extractAndSave gson tables around userMessage llmResponse mode).userProfile.facts := by
  intro h
  have hempty : NoDuplicates asciiTables (freshStore (sampleGson [{}] [{}])).userProfile.facts :=
    List.Pairwise.nil
  have hafter := h (sampleGson [{}] [{}]) asciiTables calm (freshStore (sampleGson [{}] [{}]))
    "My name is Tom, so call me tom".toList [] [] hempty
  have htwo : extractFactsRuleBased asciiTables "My name is Tom, so call me tom".toList =
      ["Name is Tom", "Name is tom"] := by decide +kernel
  rw [extractAndSave_facts (by decide), htwo] at hafter
  have hpair : ¬ Duplicate asciiTables "Name is Tom" "Name is tom" :=
    (List.pairwise_cons.mp hafter).1 "Name is tom" (List.mem_singleton_self _)
  exact hpair (.inl (by decide))

end MemoryManager

end HeyNilo

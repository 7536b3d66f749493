import HeyNilo.FactDuplicates

namespace HeyNilo

open CapturePattern MemoryExtraction MemoryExtractionHelper

/-- ASCII characters and the Kelvin sign have a lower case of their own, whatever stands around
them. -/
def LowersPlainly (tables : CharacterTables) : Prop :=
  ∀ before w after, (∀ c ∈ w, c.toNat < 128 ∨ c.toNat = 0x212A) →
    lowercase w <:+: tables.lowercase (before ++ w ++ after)

/-- One of the extractors finds something. -/
def Extracts (tables : CharacterTables) (uuid : Nat → String) (message : Text) : Prop :=
  extractFactsRuleBased tables message ≠ [] ∨ extractRelationshipsRuleBased uuid message ≠ [] ∨
    extractRemindersRuleBased tables uuid message ≠ []

/-- One of the patterns finds something that need not hold an indicator: those for an age alone, for
what one likes or prefers, for a need and for a call. -/
inductive FindsBeyond (tables : CharacterTables) (message : Text) : Prop
  | age {p w fact} (hp : p ∈ (agePatterns tables).drop 2) (hw : firstGroup message p = some w)
    (hfact : ageFact w = some fact)
  | preference {p m fact} (hp : p ∈ preferencePatterns.eraseIdx 1) (hm : find p message = some m)
    (hfact : preferenceFact tables m.value = some fact)
  | need {p m task} (hp : p ∈ remindPatterns.drop 3) (hm : m ∈ findAll p message)
    (htask : remindTask m = some task)
  | call {m task} (hm : m ∈ findAll callPattern message) (htask : callTask m = some task)

def HasIndicator (tables : CharacterTables) (message : Text) : Prop :=
  ∃ indicator ∈ personalIndicators, indicator.toList <:+: tables.lowercase message

variable {tables : CharacterTables} {uuid : Nat → String} {message reply s t : Text} {w : Text}
  {r : Reading Char} {m : Match Char} {more : List Pattern}

theorem reading_letter {c : Char}
    (h : r ∈ readings (.item { accepts := fun d => foldCase d == foldCase c }) s) :
    ∃ d, s = d :: r.rest ∧ foldCase d = foldCase c := by
  obtain ⟨k, hk, rfl⟩ := List.mem_map.mp h
  obtain ⟨hleast, hmost⟩ := List.mem_range'_1.mp (List.mem_reverse.mp hk)
  simp only [TextPattern.leading] at hleast hmost
  cases s with
  | nil =>
    rw [List.takeWhile_nil, List.length_nil, Nat.zero_min] at hmost
    omega
  | cons d s =>
    by_cases hd : (foldCase d == foldCase c) = true
    · obtain rfl : k = 1 := by omega
      exact ⟨d, rfl, beq_iff_eq.mp hd⟩
    · rw [List.takeWhile_cons, if_neg hd, List.length_nil, Nat.zero_min] at hmost
      omega

theorem readings_text {words : String} (h : r ∈ readings (text words) s) :
    ∃ u, s = u ++ r.rest ∧ u.map foldCase = words.toList.map foldCase := by
  unfold text TextFilter.letters at h
  generalize words.toList = w at h ⊢
  induction w generalizing s r with
  | nil =>
    obtain rfl := List.mem_singleton.mp h
    exact ⟨[], rfl, rfl⟩
  | cons c w ih =>
    obtain ⟨a, ha, hr⟩ := List.mem_flatMap.mp h
    obtain ⟨b, hb, rfl⟩ := List.mem_map.mp hr
    obtain ⟨d, hd, hfold⟩ := reading_letter ha
    obtain ⟨u, hu, hmap⟩ := ih hb
    exact ⟨d :: u, hd.trans (congrArg (List.cons d) hu), congrArg₂ List.cons hfold hmap⟩

/-- What a pattern begins with is in the text, in some case. -/
theorem begins_with {words : String} (ht : t <:+ message)
    (h : matchFront (inOrder (text words :: more)) t = some m) :
    ∃ u, u <:+: message ∧ u.map foldCase = words.toList.map foldCase := by
  obtain ⟨r, hr, -⟩ := Option.map_eq_some_iff.mp h
  obtain ⟨a, ha, -⟩ := List.mem_flatMap.mp (List.mem_of_head? hr)
  obtain ⟨u, hu, hmap⟩ := readings_text ha
  have hinfix : u <:+: t := hu ▸ (List.prefix_append u a.rest).isInfix
  exact ⟨u, hinfix.trans ht.isInfix, hmap⟩

/-- The characters that only one plain character and its capital are read as. -/
def IsPlain (c : Char) : Prop := c.toNat < 128 ∧ c ≠ 's' ∧ c.toLower = c

instance (c : Char) : Decidable (IsPlain c) := inferInstanceAs (Decidable (_ ∧ _))

theorem lowercase_of_plain {c d : Char} (hc : IsPlain c) (h : foldCase d = foldCase c) :
    (d.toNat < 128 ∨ d.toNat = 0x212A) ∧ lowercaseChar d = c := by
  obtain ⟨hascii, hs, hlow⟩ := hc
  have hself : foldCase c = c := by
    rw [foldCase, if_neg (by omega), if_neg (by omega), hlow]
  rw [hself] at h
  unfold foldCase at h
  split at h
  next hkelvin => exact ⟨.inr hkelvin, by rw [lowercaseChar, if_pos hkelvin, h]⟩
  next hkelvin =>
    split at h
    next => exact absurd h.symm hs
    next =>
      refine ⟨.inl ?_, by rw [lowercaseChar, if_neg hkelvin, h]⟩
      unfold Char.toLower at h
      split at h
      next hupper =>
        have hhigh : d.toNat ≤ 90 := hupper.2
        omega
      next => exact h ▸ hascii

theorem lowercase_plain {v : Text} (hw : ∀ c ∈ w, IsPlain c) (h : v.map foldCase = w.map foldCase) :
    (∀ d ∈ v, d.toNat < 128 ∨ d.toNat = 0x212A) ∧ lowercase v = w := by
  induction v generalizing w with
  | nil =>
    cases w with
    | nil => exact ⟨fun d hd => absurd hd List.not_mem_nil, rfl⟩
    | cons c w => cases h
  | cons d v ih =>
    cases w with
    | nil => cases h
    | cons c w =>
      obtain ⟨hd, hv⟩ := List.cons.inj h
      obtain ⟨hc, hw⟩ := List.forall_mem_cons.mp hw
      obtain ⟨hchar, hlow⟩ := lowercase_of_plain hc hd
      obtain ⟨hall, hmore⟩ := ih hw hv
      exact ⟨List.forall_mem_cons.mpr ⟨hchar, hall⟩, congrArg₂ List.cons hlow hmore⟩

/-- A pattern that begins with an indicator matches only where the filter finds it. -/
theorem hasIndicator_of_match (hlower : LowersPlainly tables) {words : String} (indicator : String)
    (hmem : indicator ∈ personalIndicators) (hbegins : indicator.toList <+: words.toList)
    (hplain : ∀ c ∈ indicator.toList, IsPlain c)
    (h : ∃ t, t <:+ message ∧ matchFront (inOrder (text words :: more)) t = some m) :
    HasIndicator tables message := by
  obtain ⟨t, ht, hmatch⟩ := h
  obtain ⟨u, ⟨before, after, rfl⟩, hmap⟩ := begins_with ht hmatch
  obtain ⟨rest, hrest⟩ := hbegins
  rw [← hrest, List.map_append] at hmap
  obtain ⟨v, v', rfl, hv, -⟩ := List.map_eq_append_iff.mp hmap
  obtain ⟨hchars, hlow⟩ := lowercase_plain hplain hv
  have hinfix := hlower before v (v' ++ after) hchars
  rw [hlow] at hinfix
  exact ⟨indicator, hmem, by simpa using hinfix⟩

theorem front_of_firstGroup {p : Pattern} (h : firstGroup message p = some w) :
    ∃ m t, t <:+ message ∧ matchFront p t = some m := by
  obtain ⟨m, hm, -⟩ := Option.bind_eq_some_iff.mp h
  exact ⟨m, find_front hm⟩

/-- What the patterns find in a message holds an indicator, but for those of `FindsBeyond`. -/
theorem reads_indicator (hlower : LowersPlainly tables) {fact : String}
    (h : Reads tables message fact) : FindsBeyond tables message ∨ HasIndicator tables message := by
  cases h with
  | name hp hw hfact =>
    obtain ⟨m, hm⟩ := front_of_firstGroup hw
    simp only [namePatterns, List.mem_cons, List.not_mem_nil, or_false] at hp
    rcases hp with rfl | rfl | rfl | rfl
    · exact .inr (hasIndicator_of_match hlower "my " (by decide) (by decide) (by decide) hm)
    · exact .inr (hasIndicator_of_match hlower "i am" (by decide) (by decide) (by decide) hm)
    · exact .inr (hasIndicator_of_match hlower "call me" (by decide) (by decide) (by decide) hm)
    · exact .inr (hasIndicator_of_match hlower "i'm" (by decide) (by decide) (by decide) hm)
  | age hp hw hfact =>
    obtain ⟨m, hm⟩ := front_of_firstGroup hw
    simp only [agePatterns, List.mem_cons, List.not_mem_nil, or_false] at hp
    rcases hp with rfl | rfl | rfl
    · exact .inr (hasIndicator_of_match hlower "i am" (by decide) (by decide) (by decide) hm)
    · exact .inr (hasIndicator_of_match hlower "i'm" (by decide) (by decide) (by decide) hm)
    · exact .inl (.age (List.mem_singleton_self _) hw hfact)
  | location hp hw hfact =>
    obtain ⟨m, hm⟩ := front_of_firstGroup hw
    simp only [locationPatterns, List.mem_cons, List.not_mem_nil, or_false] at hp
    rcases hp with rfl | rfl | rfl
    · exact .inr (hasIndicator_of_match hlower "i live" (by decide) (by decide) (by decide) hm)
    · exact .inr (hasIndicator_of_match hlower "i am" (by decide) (by decide) (by decide) hm)
    · exact .inr (hasIndicator_of_match hlower "i'm" (by decide) (by decide) (by decide) hm)
  | job hp hw hfact =>
    obtain ⟨m, hm⟩ := front_of_firstGroup hw
    simp only [jobPatterns, List.mem_cons, List.not_mem_nil, or_false] at hp
    rcases hp with rfl | rfl | rfl | rfl
    · exact .inr (hasIndicator_of_match hlower "i work" (by decide) (by decide) (by decide) hm)
    · exact .inr (hasIndicator_of_match hlower "i am" (by decide) (by decide) (by decide) hm)
    · exact .inr (hasIndicator_of_match hlower "i'm" (by decide) (by decide) (by decide) hm)
    · exact .inr (hasIndicator_of_match hlower "i work" (by decide) (by decide) (by decide) hm)
  | preference hp hm hfact =>
    simp only [preferencePatterns, List.mem_cons, List.not_mem_nil, or_false] at hp
    rcases hp with rfl | rfl | rfl
    · exact .inl (.preference (List.mem_cons_self) hm hfact)
    · exact .inr (hasIndicator_of_match hlower "my " (by decide) (by decide) (by decide)
        (find_front hm))
    · exact .inl (.preference (List.mem_cons_of_mem _ (List.mem_singleton_self _)) hm hfact)

theorem relation_indicator (hlower : LowersPlainly tables) {found : String × Text}
    (h : found ∈ relationsFound message) : HasIndicator tables message := by
  rcases List.mem_append.mp h with hfamily | hfriend
  · obtain ⟨entry, hentry, hmember⟩ := List.mem_filterMap.mp hfamily
    obtain ⟨w, hw, -⟩ := Option.bind_eq_some_iff.mp hmember
    obtain ⟨m, hm⟩ := front_of_firstGroup hw
    have hpattern : ∃ names, entry.1 = relativePattern names := by
      simp only [familyPatterns, List.mem_cons, List.not_mem_nil, or_false] at hentry
      rcases hentry with rfl | rfl | rfl | rfl | rfl | rfl | rfl <;> exact ⟨_, rfl⟩
    obtain ⟨names, hnames⟩ := hpattern
    rw [hnames] at hm
    exact hasIndicator_of_match hlower "my " (by decide) (by decide) (by decide) hm
  · obtain ⟨m, hm, -⟩ := List.mem_filterMap.mp hfriend
    exact hasIndicator_of_match hlower "my " (by decide) (by decide) (by decide) (findAll_front hm)

theorem task_indicator (hlower : LowersPlainly tables) {task : Task} (h : task ∈ tasksFound message) :
    FindsBeyond tables message ∨ HasIndicator tables message := by
  rcases List.mem_append.mp h with hremind | hcall
  · obtain ⟨p, hp, hfound⟩ := List.mem_flatMap.mp hremind
    obtain ⟨m, hm, htask⟩ := List.mem_filterMap.mp hfound
    simp only [remindPatterns, List.map_cons, List.map_nil, List.mem_cons, List.not_mem_nil,
      or_false] at hp
    rcases hp with rfl | rfl | rfl | rfl
    · exact .inr (hasIndicator_of_match hlower "remind me" (by decide) (by decide) (by decide)
        (findAll_front hm))
    · exact .inr (hasIndicator_of_match hlower "don't forget" (by decide) (by decide) (by decide)
        (findAll_front hm))
    · exact .inr (hasIndicator_of_match hlower "remember to" (by decide) (by decide) (by decide)
        (findAll_front hm))
    · exact .inl (.need (List.mem_singleton_self _) hm htask)
  · obtain ⟨m, hm, htask⟩ := List.mem_filterMap.mp hcall
    exact .inl (.call hm htask)

theorem tasksFound_remind {p : Pattern} {task : Task} (hp : p ∈ remindPatterns)
    (hm : m ∈ findAll p message) (htask : remindTask m = some task) : task ∈ tasksFound message :=
  List.mem_append_left _ (List.mem_flatMap.mpr ⟨p, hp, List.mem_filterMap.mpr ⟨m, hm, htask⟩⟩)

theorem tasksFound_call {task : Task} (hm : m ∈ findAll callPattern message)
    (htask : callTask m = some task) : task ∈ tasksFound message :=
  List.mem_append_right _ (List.mem_filterMap.mpr ⟨m, hm, htask⟩)

theorem extractReminders_ne_nil_iff :
    extractRemindersRuleBased tables uuid message ≠ [] ↔ tasksFound message ≠ [] := by
  unfold extractRemindersRuleBased
  cases tasksFound message with
  | nil => simp
  | cons task tasks =>
    rw [List.mapIdx_cons]
    simp [List.eraseDupsBy_cons]

/-- The filter lets a message of ten characters pass exactly if an indicator is in it. -/
theorem isWorthExtracting_iff (hlong : 10 ≤ utf16Length message) :
    isWorthExtracting tables message reply = true ↔ HasIndicator tables message := by
  rw [isWorthExtracting, if_neg (Nat.not_lt.mpr hlong), List.any_eq_true]
  simp only [containsText, decide_eq_true_eq]
  exact Iff.rfl

/-- The filter passes all that something is extracted from exactly if what need not hold an indicator
comes with one. -/
theorem filter_sound_iff (reply : Text) (hlower : LowersPlainly tables)
    (hlong : 10 ≤ utf16Length message) :
    (Extracts tables uuid message → isWorthExtracting tables message reply = true) ↔
      (FindsBeyond tables message → HasIndicator tables message) := by
  rw [isWorthExtracting_iff hlong]
  constructor
  · intro h hbeyond
    apply h
    cases hbeyond with
    | age hp hw hfact =>
      exact .inl (List.ne_nil_of_mem (reads_iff.mp (.age (List.mem_of_mem_drop hp) hw hfact)))
    | preference hp hm hfact =>
      exact .inl (List.ne_nil_of_mem
        (reads_iff.mp (.preference (List.mem_of_mem_eraseIdx hp) hm hfact)))
    | need hp hm htask =>
      have hmem := tasksFound_remind (List.mem_of_mem_drop hp) hm htask
      exact .inr (.inr (extractReminders_ne_nil_iff.mpr (List.ne_nil_of_mem hmem)))
    | call hm htask =>
      have hmem := tasksFound_call hm htask
      exact .inr (.inr (extractReminders_ne_nil_iff.mpr (List.ne_nil_of_mem hmem)))
  · rintro h (hfacts | hrelations | hreminders)
    · obtain ⟨fact, hfact⟩ := List.exists_mem_of_ne_nil _ hfacts
      exact (reads_indicator hlower (reads_iff.mpr hfact)).elim h id
    · have hfound : relationsFound message ≠ [] := fun hnil => hrelations (by
        rw [extractRelationshipsRuleBased, hnil, List.mapIdx_nil])
      obtain ⟨found, hmem⟩ := List.exists_mem_of_ne_nil _ hfound
      exact relation_indicator hlower hmem
    · obtain ⟨task, htask⟩ :=
        List.exists_mem_of_ne_nil _ (extractReminders_ne_nil_iff.mp hreminders)
      exact (task_indicator hlower htask).elim h id

theorem lowersPlainly_ascii : LowersPlainly asciiTables := by
  intro before w after _
  exact ⟨lowercase before, lowercase after, by simp [asciiTables, lowercase]⟩

theorem filter_sound_named : (Extracts asciiTables (fun _ => "4f9c2a10") "My name is Tom".toList →
    isWorthExtracting asciiTables "My name is Tom".toList [] = true) ↔
      (FindsBeyond asciiTables "My name is Tom".toList →
        HasIndicator asciiTables "My name is Tom".toList) :=
  filter_sound_iff [] lowersPlainly_ascii (by decide)

/-- What someone likes is not stored unless something else is said. -/
theorem likes_filtered_out : 10 ≤ utf16Length "I love long walks at night".toList ∧
    ¬ (Extracts asciiTables (fun _ => "4f9c2a10") "I love long walks at night".toList →
      isWorthExtracting asciiTables "I love long walks at night".toList [] = true) := by
  refine ⟨by decide, fun h => ?_⟩
  have hfacts : extractFactsRuleBased asciiTables "I love long walks at night".toList =
      ["Love long walks at night"] := by decide +kernel
  have hworth : isWorthExtracting asciiTables "I love long walks at night".toList [] = false := by
    decide +kernel
  have hpass := h (.inl (by rw [hfacts]; decide))
  rw [hworth] at hpass
  cases hpass

end HeyNilo

import HeyNilo.SpeechFilter

namespace HeyNilo

inductive ResponseLength where
  | short
  | medium
  | long
deriving DecidableEq, Repr

structure ClassificationResult where
  length : ResponseLength
  maxTokens : Nat
  maxSentences : Nat
  maxChars : Nat
deriving DecidableEq, Repr

/-- `lowercase()` of the runtime, and what a word is made of. -/
structure QueryTables where
  lowercase : Text → Text
  isWord : Char → Bool
  lowercase_latin : ∀ s, (∀ c ∈ s, isLatin c = true ∨ c = ' ' ∨ c = '-') → lowercase s = s
  space : isWord ' ' = false

namespace QueryClassifier

def shortIndicators : List String := [
  "hello", "hi", "hey", "good morning", "good afternoon", "good evening",
  "how are you", "how're you", "what's up", "sup",
  "yes", "no", "yeah", "nope", "sure", "okay", "ok",
  "bye", "goodbye", "see you", "later",
  "thanks", "thank you", "appreciate it",
  "who are you", "what is your name", "your name",
  "what time", "what day", "what date", "today",
  "stop", "quit", "exit", "close"]

def longIndicators : List String := [
  "explain in detail", "detailed explanation", "comprehensive",
  "write a story", "tell me a story", "creative writing",
  "essay", "article", "blog post", "write about",
  "compare and contrast", "pros and cons", "advantages and disadvantages",
  "history of", "origin of", "evolution of",
  "step by step", "detailed guide", "tutorial",
  "analyze", "analysis", "in depth", "in-depth",
  "list all", "name all", "all the", "every single",
  "code", "program", "script", "function", "algorithm",
  "recipe", "ingredients", "instructions",
  "biography", "life story", "about himself", "about herself"]

/-- The runs of white space. -/
def countRuns : (inRun : Bool) → Text → Nat
  | _, [] => 0
  | inRun, c :: s =>
    if isPatternSpace c then (if inRun then 0 else 1) + countRuns true s else countRuns false s

/-- `split("\\s+".toRegex()).size` -/
def wordCount (query : Text) : Nat := countRuns false query + 1

def isShortQuery (query : Text) : Bool :=
  shortIndicators.any (fun indicator => containsText indicator.toList query) ||
    wordCount query ≤ 3 ||
    ("who is".toList.isPrefixOf query && wordCount query ≤ 5) ||
    ("what is".toList.isPrefixOf query && wordCount query ≤ 5) ||
    ("where is".toList.isPrefixOf query && wordCount query ≤ 5) ||
    ("when is".toList.isPrefixOf query && wordCount query ≤ 5)

def isLongQuery (query : Text) : Bool :=
  longIndicators.any (fun indicator => containsText indicator.toList query) ||
    2 ≤ query.count '?' || 20 < wordCount query

def normalize (tables : QueryTables) (query : Text) : Text := trim (tables.lowercase query)

/-- The first `when` of `classify`; the medium indicators play no part. -/
def responseLength (normalizedQuery : Text) : ResponseLength :=
  if isShortQuery normalizedQuery then .short
  else if isLongQuery normalizedQuery then .long
  else .medium

def classify (tables : QueryTables) (query : Text) : ClassificationResult :=
  let length := responseLength (normalize tables query)
  match length with
  | .short => { length, maxTokens := 512, maxSentences := 50, maxChars := 2000 }
  | .medium => { length, maxTokens := 1024, maxSentences := 50, maxChars := 4000 }
  | .long => { length, maxTokens := 2048, maxSentences := 100, maxChars := 8000 }

/-- The phrase stands in the text with no part of a word directly before or behind it. -/
def OccursWhole (tables : QueryTables) (phrase text : Text) : Prop :=
  ∃ before after, text = before ++ phrase ++ after ∧
    (∀ c, before.getLast? = some c → tables.isWord c = false) ∧
      ∀ c, after.head? = some c → tables.isWord c = false

instance (tables : QueryTables) (phrase text : Text) : Decidable (OccursWhole tables phrase text) :=
  decidable_of_iff (∃ k ≤ text.length, text = text.take k ++ phrase ++ text.drop (k + phrase.length) ∧
      (text.take k).getLast?.all (fun c => !tables.isWord c) = true ∧
        (text.drop (k + phrase.length)).head?.all (fun c => !tables.isWord c) = true) <| by
    simp only [Option.all_eq_true, Bool.not_eq_true']
    constructor
    · rintro ⟨k, -, htext, hbefore, hafter⟩
      exact ⟨text.take k, text.drop (k + phrase.length), htext, hbefore, hafter⟩
    · rintro ⟨before, after, rfl, hbefore, hafter⟩
      refine ⟨before.length, by simp, ?_, ?_, ?_⟩
      · simp
      · simpa using hbefore
      · simpa using hafter

/-- None of the short indicators occurs as a word or phrase. -/
def NoShortPhrase (tables : QueryTables) (query : Text) : Prop :=
  ∀ indicator ∈ shortIndicators, ¬OccursWhole tables indicator.toList (normalize tables query)

/-- A query of more than five words is classified by words and phrases. -/
def ByWords (tables : QueryTables) (query : Text) : Prop :=
  5 < wordCount (normalize tables query) → NoShortPhrase tables query →
    (classify tables query).length ≠ .short ∧
      ((∃ indicator ∈ longIndicators,
        OccursWhole tables indicator.toList (normalize tables query)) →
          (classify tables query).length = .long)

/-- Some query of more than five words, in which it is a phrase, is classified by this long
indicator. -/
def Reachable (tables : QueryTables) (indicator : String) : Prop :=
  ∃ query, 5 < wordCount (normalize tables query) ∧ NoShortPhrase tables query ∧
    OccursWhole tables indicator.toList (normalize tables query) ∧
      (classify tables query).length = .long

/-- A short indicator stands in a longer word, and none is a word or phrase. -/
def HasFragment (tables : QueryTables) (query : Text) : Prop :=
  NoShortPhrase tables query ∧
    ∃ indicator ∈ shortIndicators, indicator.toList <:+: normalize tables query

variable {tables : QueryTables} {query text phrase : Text} {indicator : String}

theorem length_classify :
    (classify tables query).length = responseLength (normalize tables query) := by
  unfold classify
  cases responseLength (normalize tables query) <;> rfl

theorem OccursWhole.isInfix (h : OccursWhole tables phrase text) : phrase <:+: text := by
  obtain ⟨before, after, htext, -, -⟩ := h
  exact ⟨before, after, htext.symm⟩

theorem any_containsText_iff {indicators : List String} :
    indicators.any (fun indicator => containsText indicator.toList query) = true ↔
      ∃ indicator ∈ indicators, indicator.toList <:+: query := by
  simp only [List.any_eq_true, containsText, decide_eq_true_eq]

/-- For more than five words the indicators alone decide. -/
theorem isShortQuery_iff (h : 5 < wordCount query) : isShortQuery query = true ↔
    ∃ indicator ∈ shortIndicators, indicator.toList <:+: query := by
  rw [← any_containsText_iff]
  have hthree : ¬wordCount query ≤ 3 := by omega
  have hfive : ¬wordCount query ≤ 5 := by omega
  simp only [isShortQuery, hthree, hfive, decide_false, Bool.or_false, Bool.and_false]

theorem isLongQuery_of_phrase (hmem : indicator ∈ longIndicators)
    (h : OccursWhole tables indicator.toList query) : isLongQuery query = true := by
  have hany := any_containsText_iff.mpr ⟨indicator, hmem, h.isInfix⟩
  rw [isLongQuery, hany, Bool.true_or, Bool.true_or]

theorem byWords_iff : ByWords tables query ↔
    (5 < wordCount (normalize tables query) → ¬HasFragment tables query) := by
  refine forall_congr' fun hwords => ?_
  have hshort := isShortQuery_iff hwords
  constructor
  · rintro h ⟨hnone, hfragment⟩
    have hlength := (h hnone).1
    rw [length_classify, responseLength, if_pos (hshort.mpr hfragment)] at hlength
    exact hlength rfl
  · intro h hnone
    have hfalse : ¬isShortQuery (normalize tables query) = true := fun hs =>
      h ⟨hnone, hshort.mp hs⟩
    rw [length_classify, responseLength, if_neg hfalse]
    constructor
    · split <;> nofun
    · rintro ⟨indicator, hmem, hphrase⟩
      rw [if_pos (isLongQuery_of_phrase hmem hphrase)]

/-- The indicator after five words that are none. -/
def padded (indicator : String) : Text := "x x x x x ".toList ++ indicator.toList

theorem normalize_padded (h : indicator ∈ longIndicators) :
    normalize tables (padded indicator) = padded indicator := by
  have hlatin : ∀ indicator ∈ longIndicators,
      ∀ c ∈ padded indicator, isLatin c = true ∨ c = ' ' ∨ c = '-' := by
    decide +kernel
  have htrim : ∀ indicator ∈ longIndicators, trim (padded indicator) = padded indicator := by
    decide +kernel
  rw [normalize, tables.lowercase_latin _ (hlatin indicator h), htrim indicator h]

theorem padded_occursWhole : OccursWhole tables indicator.toList (padded indicator) := by
  refine ⟨"x x x x x ".toList, [], (List.append_nil _).symm, ?_, nofun⟩
  intro c hc
  have hspace : "x x x x x ".toList.getLast? = some ' ' := by decide
  rw [hspace] at hc
  cases hc
  exact tables.space

theorem infix_of_head_not_mem {w before after : Text} {c : Char} (hhead : w.head? = some c)
    (hc : c ∉ before) (h : w <:+: before ++ after) : w <:+: after := by
  induction before with
  | nil => exact h
  | cons d before ih =>
    rw [List.mem_cons, not_or] at hc
    rw [List.cons_append, List.infix_cons_iff] at h
    rcases h with hfront | hrest
    · cases w with
      | nil => cases hhead
      | cons e w =>
        cases hhead
        exact absurd (List.cons_prefix_cons.mp hfront).1 hc.1
    · exact ih hc.2 hrest

/-- The numbers of the characters are compared faster. -/
theorem no_fragment (h : indicator ∈ longIndicators) (hhistory : indicator ≠ "history of")
    (hhimself : indicator ≠ "about himself") :
    ∀ short ∈ shortIndicators, ¬short.toList <:+: indicator.toList := by
  have hcodes : ∀ indicator ∈ longIndicators, indicator ≠ "history of" →
      indicator ≠ "about himself" → ∀ short ∈ shortIndicators,
        ¬short.toList.map Char.toNat <:+: indicator.toList.map Char.toNat := by
    decide +kernel
  exact fun short hshort hin => hcodes indicator h hhistory hhimself short hshort (hin.map _)

theorem no_fragment_padded {short : String} (hshort : short ∈ shortIndicators)
    (h : ¬short.toList <:+: indicator.toList) : ¬short.toList <:+: padded indicator := by
  have hhead : ∀ short ∈ shortIndicators, ∃ c, short.toList.head? = some c ∧
      c ∉ "x x x x x ".toList := by
    have hsome : ∀ short ∈ shortIndicators, (short.toList.head?.any fun c =>
        !("x x x x x ".toList.contains c)) = true := by
      decide +kernel
    intro short hshort
    simpa [Option.any_eq_true] using hsome short hshort
  obtain ⟨c, hc, hnot⟩ := hhead short hshort
  exact fun hin => h (infix_of_head_not_mem hc hnot hin)

/-- The two long indicators that hold a short one are never reached. -/
theorem reachable_iff (h : indicator ∈ longIndicators) :
    Reachable tables indicator ↔ indicator ≠ "history of" ∧ indicator ≠ "about himself" := by
  constructor
  · rintro ⟨query, hwords, -, hphrase, hlong⟩
    have hfree : ¬"hi".toList <:+: indicator.toList := by
      intro hin
      have hs := (isShortQuery_iff hwords).mpr ⟨"hi", by decide, hin.trans hphrase.isInfix⟩
      rw [length_classify, responseLength, if_pos hs] at hlong
      cases hlong
    constructor
    · rintro rfl
      exact hfree (by decide)
    · rintro rfl
      exact hfree (by decide)
  · rintro ⟨hhistory, hhimself⟩
    have hwords : ∀ indicator ∈ longIndicators, 5 < wordCount (padded indicator) := by
      decide +kernel
    have hfree : ∀ short ∈ shortIndicators, ¬short.toList <:+: padded indicator :=
      fun short hshort => no_fragment_padded hshort (no_fragment h hhistory hhimself short hshort)
    have hnormalize := @normalize_padded tables indicator h
    refine ⟨padded indicator, ?_, ?_, ?_, ?_⟩
    · rw [hnormalize]
      exact hwords indicator h
    · intro short hshort hwhole
      rw [hnormalize] at hwhole
      exact hfree short hshort hwhole.isInfix
    · rw [hnormalize]
      exact padded_occursWhole
    · have hnot : ¬isShortQuery (padded indicator) = true := by
        intro hs
        obtain ⟨short, hshort, hin⟩ := (isShortQuery_iff (hwords indicator h)).mp hs
        exact hfree short hshort hin
      rw [length_classify, hnormalize, responseLength, if_neg hnot,
        if_pos (@isLongQuery_of_phrase tables _ _ h padded_occursWhole)]

/-- Queries are classified by words exactly if no short indicator stands in a longer word, and all
long indicators but two can be reached. -/
theorem classified_by_words_iff (tables : QueryTables) :
    (∀ query, ByWords tables query ↔
      (5 < wordCount (normalize tables query) → ¬HasFragment tables query)) ∧
    ∀ indicator ∈ longIndicators,
      (Reachable tables indicator ↔ indicator ≠ "history of" ∧ indicator ≠ "about himself") :=
  ⟨fun _ => byWords_iff, fun _ => reachable_iff⟩

theorem lowercase_latin {s : Text} (h : ∀ c ∈ s, isLatin c = true ∨ c = ' ' ∨ c = '-') :
    lowercase s = s := by
  have hself : ∀ c : Char, isLatin c = true ∨ c = ' ' ∨ c = '-' → lowercaseChar c = c := by
    intro c hc
    rcases hc with hlatin | rfl | rfl
    · simp only [isLatin, Bool.and_eq_true, decide_eq_true_eq] at hlatin
      obtain ⟨hlow, hhigh⟩ := hlatin
      have hlow : 97 ≤ c.toNat := hlow
      have hhigh : c.toNat ≤ 122 := hhigh
      rw [lowercaseChar, if_neg (by omega)]
      unfold Char.toLower
      split
      next hupper =>
        have hupper : c.toNat ≤ 90 := hupper.2
        omega
      next => rfl
    · rfl
    · rfl
  rw [lowercase, List.map_congr_left fun c hc => hself c (h c hc), List.map_id']

def asciiQueryTables : QueryTables where
  lowercase := lowercase
  isWord := Char.isAlphanum
  lowercase_latin := fun _ => lowercase_latin
  space := rfl

/-- The indicator `hi` stands in the word `this`. -/
theorem fragment_short : ¬∀ query, ByWords asciiQueryTables query := by
  intro h
  have hfragment := byWords_iff.mp (h "I see a cat in this".toList)
    (by decide +kernel)
  exact hfragment ⟨by unfold NoShortPhrase; decide +kernel, by decide +kernel⟩

end QueryClassifier

end HeyNilo

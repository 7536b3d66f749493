import HeyNilo.KotlinText
import HeyNilo.PcmSamples
import HeyNilo.StreamingSpeech

namespace HeyNilo

namespace TTSBridge

def padId : Int := 0

def bosId : Int := 1

def eosId : Int := 2

def charOffset : Int := 3

/-- `-1` for a character that is left out. -/
def charToId (char : Char) : Int :=
  if char = ' ' then charOffset
  else if 'a' ≤ char ∧ char ≤ 'z' then charOffset + 1 + (char.toNat - 'a'.toNat : Int)
  else if '0' ≤ char ∧ char ≤ '9' then charOffset + 27 + (char.toNat - '0'.toNat : Int)
  else
    match char with
    | '.' => charOffset + 37
    | ',' => charOffset + 38
    | '!' => charOffset + 39
    | '?' => charOffset + 40
    | '\'' => charOffset + 41
    | '-' => charOffset + 42
    | ':' => charOffset + 43
    | ';' => charOffset + 44
    | '"' => charOffset + 45
    | '(' => charOffset + 46
    | ')' => charOffset + 47
    | _ => -1

/-- `lowercase()` as far as characters with an id go: besides the ASCII capitals the Kelvin sign and
the dotted capital I have an ASCII character in their lower-case form. -/
def lowercaseForm (char : Char) : Text :=
  if char.toNat = 0x212A then ['k']
  else if char.toNat = 0x130 then ['i', Char.ofNat 0x307]
  else [char.toLower]

def textToPhonemeIds (text : Text) : List Int :=
  let cleanText := (trim text).flatMap lowercaseForm
  if cleanText.isEmpty then []
  else
    [bosId, padId] ++
      (cleanText.flatMap fun char => if 0 ≤ charToId char then [charToId char, padId] else []) ++
      [eosId]

def delimiters : List Char := ['.', '!', '?', '\n']

/-- The loop of `splitIntoSentences`, with what is in `current`. -/
def sentenceLoop (current : Text) : Text → List Text
  | [] => if isBlank current then [] else [trim current]
  | char :: rest =>
    let current := current ++ [char]
    if delimiters.contains char && 10 < utf16Length current then trim current :: sentenceLoop [] rest
    else sentenceLoop current rest

def splitIntoSentences (text : Text) : List Text :=
  if utf16Length text < 100 then [text]
  else
    match sentenceLoop [] text with
    | [] => [text]
    | sentences => sentences

/-- The ids that `synthesizeWithONNX` gives the model, sentence after sentence. -/
def synthesizeWithONNX (text : Text) : List (List Int) :=
  ((splitIntoSentences text).filter fun sentence => !isBlank sentence).map textToPhonemeIds

/-- The character that an id stands for. -/
def idToChar (id : Int) : Option Char :=
  (" abcdefghijklmnopqrstuvwxyz0123456789.,!?'-:;\"()".toList).find? fun char => charToId char == id

/-- What of a text has ids. -/
def spoken (text : Text) : Text := (text.flatMap lowercaseForm).filter fun char => 0 ≤ charToId char

theorem toNat_lt_of_charToId {char : Char} (h : 0 ≤ charToId char) : char.toNat < 128 := by
  unfold charToId at h
  split at h
  next hspace => subst hspace; decide
  next =>
    split at h
    next hletter => exact Nat.lt_of_le_of_lt hletter.2 (by decide)
    next =>
      split at h
      next hdigit => exact Nat.lt_of_le_of_lt hdigit.2 (by decide)
      next => split at h <;> first | decide | cases h

theorem ascii_cases {p : Char → Prop} [DecidablePred p]
    (h : (List.range 128).all fun n => p (Char.ofNat n)) {char : Char} (hchar : char.toNat < 128) :
    p char := by
  have hp := List.all_eq_true.mp h char.toNat (List.mem_range.mpr hchar)
  rw [Char.ofNat_toNat] at hp
  exact of_decide_eq_true hp

/-- No two characters share an id. -/
theorem idToChar_charToId {char : Char} (h : 0 ≤ charToId char) :
    idToChar (charToId char) = some char :=
  ascii_cases (p := fun char => 0 ≤ charToId char → idToChar (charToId char) = some char)
    (by decide +kernel) (toNat_lt_of_charToId h) h

theorem filterMap_pairs {chars : Text} (h : ∀ char ∈ chars, 0 ≤ charToId char) :
    (chars.flatMap fun char => [charToId char, padId]).filterMap idToChar = chars := by
  induction chars with
  | nil => rfl
  | cons char rest ih =>
    obtain ⟨hchar, hrest⟩ := List.forall_mem_cons.mp h
    have hpad : idToChar padId = none := by decide +kernel
    simp [idToChar_charToId hchar, hpad, ih hrest]

theorem flatMap_ids (chars : Text) :
    (chars.flatMap fun char => if 0 ≤ charToId char then [charToId char, padId] else []) =
      (chars.filter fun char => 0 ≤ charToId char).flatMap fun char => [charToId char, padId] := by
  induction chars with
  | nil => rfl
  | cons char rest ih =>
    by_cases hchar : 0 ≤ charToId char
    · simp [hchar, ih]
    · simp [hchar, ih]

/-- The ids say what of the trimmed text has ids. -/
theorem filterMap_textToPhonemeIds (text : Text) :
    (textToPhonemeIds text).filterMap idToChar = spoken (trim text) := by
  simp only [textToPhonemeIds, spoken]
  split
  next hempty => simp [List.isEmpty_iff.mp hempty]
  next =>
    have hframe : idToChar bosId = none ∧ idToChar padId = none ∧ idToChar eosId = none := by
      decide +kernel
    rw [List.filterMap_append, List.filterMap_append, flatMap_ids,
      filterMap_pairs fun char hchar => of_decide_eq_true (List.mem_filter.mp hchar).2]
    simp [hframe]

/-- What is spoken, but for the blanks. -/
def letters (text : Text) : Text := (spoken text).filter (· != ' ')

theorem letters_append (a b : Text) : letters (a ++ b) = letters a ++ letters b := by
  simp [letters, spoken]

theorem letters_whitespace {char : Char} (h : isWhitespace char = true) : letters [char] = [] := by
  by_cases hascii : char.toNat < 128
  · exact ascii_cases (p := fun char => isWhitespace char = true → letters [char] = [])
      (by decide +kernel) hascii h
  · have hform : lowercaseForm char = [char] := by
      have hkelvin : char.toNat ≠ 0x212A := by
        intro hc
        simp [isWhitespace, hc] at h
      have hdotted : char.toNat ≠ 0x130 := by
        intro hc
        simp [isWhitespace, hc] at h
      rw [lowercaseForm, if_neg hkelvin, if_neg hdotted]
      unfold Char.toLower
      rw [dif_neg fun hcapital => hascii (Nat.lt_of_le_of_lt hcapital.2 (by decide))]
    have hnone : ¬ 0 ≤ charToId char := fun hid => hascii (toNat_lt_of_charToId hid)
    simp [letters, spoken, hform, hnone]

theorem letters_of_whitespace {text : Text} (h : ∀ char ∈ text, isWhitespace char = true) :
    letters text = [] := by
  induction text with
  | nil => rfl
  | cons char rest ih =>
    obtain ⟨hchar, hrest⟩ := List.forall_mem_cons.mp h
    exact (letters_append [char] rest).trans
      (congrArg₂ (· ++ ·) (letters_whitespace hchar) (ih hrest))

theorem letters_trim (text : Text) : letters (trim text) = letters text := by
  obtain ⟨front, back, htext, hfront, hback⟩ := split_trim text
  conv_rhs => rw [htext]
  rw [letters_append, letters_append, letters_of_whitespace hfront, letters_of_whitespace hback,
    List.nil_append, List.append_nil]

theorem letters_of_isBlank {text : Text} (h : isBlank text = true) : letters text = [] :=
  letters_of_whitespace (List.all_eq_true.mp h)

theorem letters_sentenceLoop (current rest : Text) :
    (sentenceLoop current rest).flatMap letters = letters (current ++ rest) := by
  fun_induction sentenceLoop current rest with
  | case1 current hblank => simp [letters_of_isBlank hblank]
  | case2 current hblank => simp [letters_trim]
  | case3 current char rest joined hend ih =>
    rw [List.flatMap_cons, ih, letters_trim, ← letters_append]
    simp [joined]
  | case4 current char rest joined hend ih => simpa [joined] using ih

theorem letters_splitIntoSentences (text : Text) :
    (splitIntoSentences text).flatMap letters = letters text := by
  unfold splitIntoSentences
  split
  · simp
  · split
    · simp
    · exact letters_sentenceLoop [] text

/-- However a text is cut into sentences: what the model is given, id by id, spells out the text with
all its letters, digits and marks in their order; only blanks and unknown characters are lost. -/
theorem synthesized_letters (text : Text) :
    ((synthesizeWithONNX text).flatMap (·.filterMap idToChar)).filter (· != ' ') = letters text := by
  rw [← letters_splitIntoSentences]
  unfold synthesizeWithONNX
  induction splitIntoSentences text with
  | nil => rfl
  | cons sentence rest ih =>
    cases hblank : isBlank sentence with
    | true => simpa [hblank, letters_of_isBlank hblank] using ih
    | false =>
      simp only [hblank, List.filter_cons, Bool.not_false, if_true, List.map_cons, List.flatMap_cons,
        List.filter_append, filterMap_textToPhonemeIds, ih]
      exact congrArg (· ++ _) (letters_trim sentence)

end TTSBridge

end HeyNilo

import HeyNilo.ProviderTurn
import HeyNilo.TextPattern

namespace HeyNilo

/-- `(?i)` on ASCII letters as Android matches: besides the capitals it takes the Kelvin sign and the
long s. -/
def foldCase (c : Char) : Char :=
  if c.toNat = 0x212A then 'k' else if c.toNat = 0x17F then 's' else c.toLower

def isLatin (c : Char) : Bool := 'a' ≤ c && c ≤ 'z'

/-- What folds to something else is a letter. -/
theorem eq_of_foldCase {c d : Char} (h : foldCase c = d) (hd : isLatin d = false) : c = d := by
  have hlatin : foldCase c = c ∨ isLatin (foldCase c) = true := by
    unfold foldCase
    split
    next => exact .inr (by decide)
    next =>
      split
      next => exact .inr (by decide)
      next =>
        unfold Char.toLower
        split
        next hupper =>
          refine .inr ?_
          have hlow : 65 ≤ c.val.toNat := hupper.1
          have hhigh : c.val.toNat ≤ 90 := hupper.2
          have hstep : ('a'.val - 'A'.val).toNat = 32 := by decide
          simp only [isLatin, Bool.and_eq_true, decide_eq_true_eq, Char.le_def, UInt32.le_iff_toNat_le,
            UInt32.toNat_add, hstep]
          have ha : 'a'.val.toNat = 97 := rfl
          have hz : 'z'.val.toNat = 122 := rfl
          omega
        next => exact .inl rfl
  rcases hlatin with hsame | hlatin
  · exact hsame.symm.trans h
  · rw [h, hd] at hlatin
    cases hlatin

/-- `\s` of Android's regular expressions. -/
def isPatternSpace (c : Char) : Bool :=
  let n := c.toNat
  n == 9 || n == 10 || n == 12 || n == 13 || n == 0x20 || n == 0xA0 || n == 0x1680 ||
    (0x2000 ≤ n && n ≤ 0x200A) || n == 0x2028 || n == 0x2029 || n == 0x202F || n == 0x205F ||
    n == 0x3000

/-- `[\u4e00-\u9fff\u3040-\u309f\u30a0-\u30ff]` -/
def isCjk (c : Char) : Bool :=
  let n := c.toNat
  (0x4E00 ≤ n && n ≤ 0x9FFF) || (0x3040 ≤ n && n ≤ 0x309F) || (0x30A0 ≤ n && n ≤ 0x30FF)

namespace TextFilter

/-- A text as it stands under `(?i)`. -/
def letters (text : String) : List (PatternItem Char) :=
  text.toList.map fun c => { accepts := fun d => foldCase d == foldCase c }

def spaces (least : Nat) : PatternItem Char := { accepts := isPatternSpace, least, most := none }

def optional (c : Char) : PatternItem Char := { accepts := (· == c), least := 0 }

def one (accepts : Char → Bool) : PatternItem Char := { accepts }

def many (accepts : Char → Bool) (least : Nat) : PatternItem Char := { accepts, least, most := none }

/-- One call of `replace`. -/
inductive Rule where
  | literal (old new : String)
  | pattern (p : TextPattern Char) (new : String)
  /-- A regular expression that starts with `^`. -/
  | anchored (p : TextPattern Char) (new : String)
  /-- A class of characters, one by one. -/
  | each (accepts : Char → Bool) (new : String)
  /-- `$1 $2` for one character of each class. -/
  | separate (before after : Char → Bool)

def separate (before after : Char → Bool) : Text → Text
  | c :: d :: text =>
    if before c && after d then c :: ' ' :: d :: separate before after text
    else c :: separate before after (d :: text)
  | text => text

namespace Rule

def apply : Rule → Text → Text
  | literal old new, text => replaceText old.toList new.toList text
  | pattern p new, text => TextPattern.replaceAll p new.toList text
  | anchored p new, text => TextPattern.replaceStart p new.toList text
  | each accepts new, text => TextPattern.replaceAll [[one accepts]] new.toList text
  | separate before after, text => TextFilter.separate before after text

end Rule

def applyAll (rules : List Rule) (text : Text) : Text :=
  rules.foldl (fun text rule => rule.apply text) text

end TextFilter

open TextFilter in
/-- The rules of `filterTTSText` after its first one. -/
def speechRules : List TextFilter.Rule := [
  -- memory-related text
  .pattern [[optional '['] ++ letters "MEMORY" ++ [optional ']']] "",
  .pattern [letters "END" ++ [spaces 0] ++ letters "OF" ++ [spaces 0] ++ letters "MEMORY"] "",
  .pattern [letters "START" ++ [spaces 0] ++ letters "OF" ++ [spaces 0] ++ letters "MEMORY"] "",
  .pattern [letters "<--" ++ [spaces 0] ++ letters "START"] "",
  .pattern [letters "<--" ++ [spaces 0] ++ letters "END"] "",
  .pattern [letters "---" ++ [spaces 0] ++ letters "End" ++ [spaces 0] ++ letters "Context" ++
    [spaces 0] ++ letters "---"] "",
  .pattern [letters "---" ++ [spaces 0] ++ letters "Memory" ++ [spaces 0] ++ letters "Context" ++
    [spaces 0] ++ letters "---"] "",
  .pattern [letters "[/MEMORY]"] "",
  -- template tokens
  .literal "<|im_end|>" "",
  .literal "<|im_start|>" "",
  .literal "|im_end|>" "",
  .literal "|im_start|>" "",
  .literal "|im_end|" "",
  .literal "|im_start|" "",
  .literal "<|im_end" "",
  .literal "<|im_start" "",
  .literal "<|" " ",
  .literal "|>" " ",
  -- role markers on a line of their own
  .anchored [[spaces 0] ++ letters "system" ++ [spaces 0] ++ letters "\n"] "",
  .anchored [[spaces 0] ++ letters "assistant" ++ [spaces 0] ++ letters "\n"] "",
  .anchored [[spaces 0] ++ letters "user" ++ [spaces 0] ++ letters "\n"] "",
  .literal "</s>" "",
  .literal "<s>" "",
  .each isCjk "",
  .literal "..." " ",
  .literal "…" " ",
  .pattern [[one (· == '<'), many (· != '>') 0, one (· == '>')]] " ",
  .pattern [[many (· == '-') 3]] " ",
  .pattern [[spaces 1]] " "]

def filterTTSText (text : Text) : Text :=
  if isBlank text then []
  else trim (TextFilter.applyAll speechRules (removeImEndTokenOnly text))

end HeyNilo

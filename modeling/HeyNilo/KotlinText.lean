import Mathlib.Data.List.Infix
import Mathlib.Data.List.TakeWhile

namespace HeyNilo

/-- A Kotlin `String` where its characters matter. -/
abbrev Text := List Char

/-- Only the characters in question are looked at. -/
instance decidableForallMem (p : Char → Prop) [DecidablePred p] (s : Text) :
    Decidable (∀ c ∈ s, p c) := List.decidableBAll p s

instance decidableForallFound (p : Char → Prop) [DecidablePred p] (found : Option Char) :
    Decidable (∀ c ∈ found, p c) := Option.decidableForallMem found

instance decidableExistsFound (p : Char → Prop) [DecidablePred p] (found : Option Char) :
    Decidable (∃ c ∈ found, p c) := Option.decidableExistsMem found

/-- `Char.isWhitespace` of Kotlin on the JVM. -/
def isWhitespace (c : Char) : Bool :=
  let n := c.toNat
  (9 ≤ n && n ≤ 13) || (28 ≤ n && n ≤ 32) || n == 0xA0 || n == 0x1680 ||
    (0x2000 ≤ n && n ≤ 0x200A) || n == 0x2028 || n == 0x2029 || n == 0x202F || n == 0x205F ||
    n == 0x3000

def isBlank (s : Text) : Bool := s.all isWhitespace

/-- `lowercase()` as far as comparisons with ASCII words go: besides the ASCII capitals only the
Kelvin sign has an ASCII lower-case form. -/
def lowercaseChar (c : Char) : Char := if c.toNat = 0x212A then 'k' else c.toLower

def lowercase (s : Text) : Text := s.map lowercaseChar

/-- The loop of `replaceText`. `skip` counts the characters of a replaced occurrence still to be
passed over. -/
def replaceLoop (old new : Text) : Nat → Text → Text
  | _, [] => []
  | skip + 1, _ :: cs => replaceLoop old new skip cs
  | 0, c :: cs =>
    if old.isPrefixOf (c :: cs) then new ++ replaceLoop old new (old.length - 1) cs
    else c :: replaceLoop old new 0 cs

/-- `String.replace(old, new)` for a nonempty `old`: occurrences from left to right that do not
overlap. -/
def replaceText (old new s : Text) : Text := replaceLoop old new 0 s

/-- The loop of `occurrences`, with `skip` as in `replaceLoop`. -/
def occurrencesLoop (old : Text) : Nat → Text → Nat
  | _, [] => 0
  | skip + 1, _ :: cs => occurrencesLoop old skip cs
  | 0, c :: cs =>
    if old.isPrefixOf (c :: cs) then occurrencesLoop old (old.length - 1) cs + 1
    else occurrencesLoop old 0 cs

/-- `split(old).size - 1` for a nonempty `old`. -/
def occurrences (old s : Text) : Nat := occurrencesLoop old 0 s

def containsText (sub s : Text) : Bool := decide (sub <:+: s)

/-- `substringAfterLast(delimiter, missing)`. -/
def substringAfterLast (delimiter : Char) (missing s : Text) : Text :=
  if delimiter ∈ s then (s.reverse.takeWhile (· != delimiter)).reverse else missing

/-- `trim()`. -/
def trim (s : Text) : Text :=
  ((s.dropWhile isWhitespace).reverse.dropWhile isWhitespace).reverse

theorem split_trim (text : Text) : ∃ front back, text = front ++ trim text ++ back ∧
    (∀ c ∈ front, isWhitespace c = true) ∧ ∀ c ∈ back, isWhitespace c = true := by
  let rest := text.dropWhile isWhitespace
  refine ⟨text.takeWhile isWhitespace, (rest.reverse.takeWhile isWhitespace).reverse, ?_, ?_, ?_⟩
  · have hrest : rest = trim text ++ (rest.reverse.takeWhile isWhitespace).reverse := by
      unfold trim
      rw [← List.reverse_append, List.takeWhile_append_dropWhile, List.reverse_reverse]
    rw [List.append_assoc, ← hrest]
    exact List.takeWhile_append_dropWhile.symm
  · exact fun c hc => List.mem_takeWhile_imp hc
  · exact fun c hc => List.mem_takeWhile_imp (List.mem_reverse.mp hc)

theorem trim_isInfix (text : Text) : trim text <:+: text := by
  obtain ⟨front, back, htext, -, -⟩ := split_trim text
  exact ⟨front, back, htext.symm⟩

end HeyNilo

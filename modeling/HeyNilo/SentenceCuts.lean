import HeyNilo.ProviderTurn
import Mathlib.Data.List.TakeWhile

namespace HeyNilo

variable {old new a b : Text} {c : Char}

theorem isPrefixOf_append_cons (hc : c ∉ old) : old.isPrefixOf (a ++ c :: b) = old.isPrefixOf a := by
  induction old generalizing a with
  | nil => simp
  | cons d old ih =>
    obtain ⟨hd, hold⟩ := not_or.mp fun h => hc (List.mem_cons.mpr h)
    cases a with
    | nil =>
      have hne : (d == c) = false := beq_eq_false_iff_ne.mpr (Ne.symm hd)
      simp [List.isPrefixOf, hne]
    | cons x a => simp [List.isPrefixOf, ih hold]

theorem length_le_of_isPrefixOf (h : old.isPrefixOf a = true) : old.length ≤ a.length :=
  (List.isPrefixOf_iff_prefix.mp h).length_le

/-- A character that is not in the replaced text separates the replacements. -/
theorem replaceLoop_append_cons (hc : c ∉ old) (hold : old ≠ []) {skip : Nat}
    (hskip : skip ≤ a.length) :
    replaceLoop old new skip (a ++ c :: b) =
      replaceLoop old new skip a ++ c :: replaceLoop old new 0 b := by
  induction a generalizing skip with
  | nil =>
    cases Nat.le_zero.mp hskip
    have hno : old.isPrefixOf (c :: b) = false := by
      rw [← List.nil_append (c :: b), isPrefixOf_append_cons hc]
      cases old with
      | nil => exact absurd rfl hold
      | cons d old => rfl
    simp [replaceLoop, hno]
  | cons x a ih =>
    cases skip with
    | succ skip => exact ih (Nat.le_of_succ_le_succ hskip)
    | zero =>
      rw [List.cons_append, replaceLoop, ← List.cons_append, isPrefixOf_append_cons hc, replaceLoop]
      split
      next h =>
        have hlen : old.length - 1 ≤ a.length :=
          Nat.sub_le_of_le_add (length_le_of_isPrefixOf h)
        rw [ih hlen, List.append_assoc]
      next => rw [ih (Nat.zero_le _), List.cons_append]

theorem replaceText_append_cons (hc : c ∉ old) (hold : old ≠ []) :
    replaceText old new (a ++ c :: b) = replaceText old new a ++ c :: replaceText old new b :=
  replaceLoop_append_cons hc hold (Nat.zero_le _)

/-- What is left after removals stands in the text. -/
theorem replaceLoop_nil_sublist (old : Text) (skip : Nat) (s : Text) :
    (replaceLoop old [] skip s).Sublist s := by
  induction s generalizing skip with
  | nil => cases skip <;> exact List.Sublist.refl _
  | cons x s ih =>
    cases skip with
    | succ skip => exact (ih skip).cons x
    | zero =>
      rw [replaceLoop]
      split
      next => exact (ih _).cons x
      next => exact (ih 0).cons_cons x

/-- What ends a sentence for the TTS loop. -/
def isSentenceEnd (c : Char) : Bool := c == '.' || c == '!' || c == '?'

theorem not_mem_marker (hc : isSentenceEnd c = true) : c ∉ "<|im_end|>".toList := by
  intro hmem
  have hmarker : "<|im_end|>".toList.all (fun d => !isSentenceEnd d) = true := by decide
  have hnot := List.all_eq_true.mp hmarker c hmem
  rw [hc] at hnot
  cases hnot

/-- No removed marker has sentence punctuation: the removal distributes over a cut at it. -/
theorem removeImEndTokenOnly_append_cons (hc : isSentenceEnd c = true) :
    removeImEndTokenOnly (a ++ c :: b) =
      removeImEndTokenOnly a ++ c :: removeImEndTokenOnly b := by
  have hmarker := not_mem_marker hc
  have hfirst : c ∉ "|im_end|>".toList := fun h => hmarker (List.mem_cons_of_mem _ h)
  have hpartial : c ∉ "|im_end|".toList := fun h => hfirst (List.mem_append_left ['>'] h)
  have hlast : c ∉ "im_end|".toList := fun h => hpartial (List.mem_cons_of_mem _ h)
  unfold removeImEndTokenOnly
  dsimp only
  rw [replaceText_append_cons hmarker (by decide), replaceText_append_cons hfirst (by decide),
    replaceText_append_cons hpartial (by decide), replaceText_append_cons hlast (by decide)]

theorem removeImEndTokenOnly_sublist (text : Text) : (removeImEndTokenOnly text).Sublist text :=
  (((replaceLoop_nil_sublist _ _ _).trans (replaceLoop_nil_sublist _ _ _)).trans
    (replaceLoop_nil_sublist _ _ _)).trans (replaceLoop_nil_sublist _ _ _)

/-- Where the loop cuts: at the start, or after a sentence end. -/
def IsCut (a : Text) : Prop := a = [] ∨ ∃ front c, a = front ++ [c] ∧ isSentenceEnd c = true

theorem removeImEndTokenOnly_append (h : IsCut a) :
    removeImEndTokenOnly (a ++ b) = removeImEndTokenOnly a ++ removeImEndTokenOnly b := by
  rcases h with rfl | ⟨front, c, rfl, hc⟩
  · rfl
  · have hnil : removeImEndTokenOnly [] = [] := rfl
    rw [List.append_assoc, List.singleton_append, removeImEndTokenOnly_append_cons hc,
      removeImEndTokenOnly_append_cons hc, hnil, List.append_assoc, List.singleton_append]

/-- A sentence that is found in the cleaned text is the cleaned text of a sentence. -/
theorem exists_sentence {b : Text} {k : Nat}
    (h : (removeImEndTokenOnly b).findIdx? isSentenceEnd = some k) :
    ∃ sentence rest, b = sentence ++ rest ∧ IsCut sentence ∧
      (removeImEndTokenOnly b).take (k + 1) = removeImEndTokenOnly sentence ∧
      (removeImEndTokenOnly sentence).length = k + 1 := by
  obtain ⟨front, back, hb, hfront, hback⟩ : ∃ front back, b = front ++ back ∧
      (∀ d ∈ front, isSentenceEnd d = false) ∧ ∀ d ∈ back.head?, isSentenceEnd d = true := by
    refine ⟨b.takeWhile fun d => !isSentenceEnd d, b.dropWhile fun d => !isSentenceEnd d,
      List.takeWhile_append_dropWhile.symm, fun d hd => ?_, fun d hd => ?_⟩
    · simpa using List.mem_takeWhile_imp hd
    · have hhead := List.head?_dropWhile_not (fun d => !isSentenceEnd d) b
      rw [Option.mem_def.mp hd] at hhead
      simpa using hhead
  have hkept : ∀ d ∈ removeImEndTokenOnly front, isSentenceEnd d = false := fun d hd =>
    hfront d ((removeImEndTokenOnly_sublist front).subset hd)
  cases back with
  | nil =>
    rw [List.append_nil] at hb
    rw [hb, List.findIdx?_eq_none_iff.mpr hkept] at h
    cases h
  | cons c back =>
    have hc : isSentenceEnd c = true := hback c rfl
    have hcut : IsCut (front ++ [c]) := .inr ⟨front, c, rfl, hc⟩
    have hsplit : removeImEndTokenOnly b =
        removeImEndTokenOnly front ++ c :: removeImEndTokenOnly back := by
      rw [hb, removeImEndTokenOnly_append_cons hc]
    have hsentence : removeImEndTokenOnly (front ++ [c]) = removeImEndTokenOnly front ++ [c] :=
      removeImEndTokenOnly_append_cons hc
    have hk : k = (removeImEndTokenOnly front).length := by
      rw [hsplit, List.findIdx?_append, List.findIdx?_eq_none_iff.mpr hkept, List.findIdx?_cons,
        hc] at h
      simpa using h.symm
    refine ⟨front ++ [c], back, by rw [hb, List.append_assoc, List.singleton_append], hcut, ?_, ?_⟩
    · rw [hsplit, hsentence, hk, List.take_append, List.take_of_length_le (Nat.le_succ _),
        Nat.add_sub_cancel_left, List.take_succ_cons, List.take_zero]
    · rw [hsentence, List.length_append, List.length_singleton, hk]

end HeyNilo

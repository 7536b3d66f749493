import Mathlib.Data.List.Count
import Mathlib.Data.List.Perm.Basic

namespace LaggingCopy

variable {α : Type*} [DecidableEq α] {a : α} {list copy added added' removed waiting : List α}

/-- The copy has still to append `added` and to take out `removed`. When `waiting` has been taken out
of both, they are the same. -/
structure Lags (list copy added removed waiting : List α) : Prop where
  catchesUp : list.diff waiting = (copy ++ added).diff (removed ++ waiting)
  count : ∀ a, list.count a + removed.count a = (copy ++ added).count a

theorem append_diff (l l' removed : List α) :
    (l ++ l').diff removed = l.diff removed ++ l'.diff (removed.diff l) := by
  induction removed generalizing l l' with
  | nil => simp
  | cons a removed ih =>
    rw [List.diff_cons, List.cons_diff]
    split
    · rename_i ha
      rw [List.erase_append_left _ ha, ih, List.diff_cons]
    · rename_i ha
      rw [List.erase_append_right _ ha, ih, List.diff_cons, List.diff_cons,
        List.erase_of_not_mem ha]

theorem not_mem_diff {l : List α} (h : a ∈ removed.diff l) : a ∉ l.diff removed := by
  intro hl
  have hleft := List.count_pos_iff.mpr h
  have hright := List.count_pos_iff.mpr hl
  rw [List.count_diff] at hleft hright
  omega

/-- Where all that stands before it from the first equal element on is equal, the last element can
be taken out in place of the first. -/
theorem append_erase {l : List α} (h : ∀ b ∈ l.dropWhile (· ≠ a), b = a) : (l ++ [a]).erase a = l := by
  induction l with
  | nil => simp
  | cons b l ih =>
    by_cases hb : b = a
    · subst hb
      have hall (c : α) (hc : c ∈ l) : c = b := h c (by simp [hc])
      rw [List.eq_replicate_of_mem hall, List.cons_append, List.erase_cons_head]
      exact (List.replicate_succ' ..).symm
    · have hrest : ∀ c ∈ l.dropWhile (· ≠ a), c = a := by simpa [hb] using h
      rw [List.cons_append, List.erase_cons_tail (by simpa using hb), ih hrest]

theorem Lags.append (h : Lags list copy added removed waiting) (a : α) :
    Lags (list ++ [a]) copy (added ++ [a]) removed waiting where
  catchesUp := by
    -- what finds nothing to take out is the same on both sides
    have hrest : (waiting.diff list).Perm ((removed ++ waiting).diff (copy ++ added)) := by
      refine List.perm_iff_count.mpr fun b => ?_
      have hb := h.count b
      rw [List.count_diff, List.count_diff, List.count_append]
      omega
    rw [← List.append_assoc, append_diff list, append_diff (copy ++ added), h.catchesUp,
      hrest.diff_left]
  count b := by
    have hb := h.count b
    rw [← List.append_assoc, List.count_append, List.count_append]
    omega

theorem Lags.wait (h : Lags list copy added removed waiting) (a : α) :
    Lags list copy added removed (a :: waiting) where
  catchesUp := by
    rw [List.diff_cons_right, h.catchesUp, ← List.diff_cons_right]
    exact List.perm_middle.symm.diff_left _
  count := h.count

theorem Lags.erase (h : Lags list copy added removed (a :: waiting)) (ha : a ∈ list) :
    Lags (list.erase a) copy added (a :: removed) waiting where
  catchesUp := by
    rw [← List.diff_cons, h.catchesUp]
    exact List.perm_middle.diff_left _
  count b := by
    have hb := h.count b
    have ha := List.count_pos_iff.mpr ha
    rw [List.count_erase, List.count_cons]
    split
    · rename_i hab
      cases beq_iff_eq.mp hab
      omega
    · omega

/-- The copy appends what is still to be added, if all that comes before it is equal to it. -/
theorem Lags.copy_append (h : Lags list copy (added ++ a :: added') removed waiting)
    (hequal : ∀ b ∈ added, b = a) : Lags list (copy ++ [a]) (added ++ added') removed waiting := by
  have hmove : copy ++ [a] ++ (added ++ added') = copy ++ (added ++ a :: added') := by
    rw [List.eq_replicate_of_mem hequal, List.append_assoc, List.append_cons _ a,
      ← List.replicate_succ', List.replicate_succ]
    rfl
  exact ⟨hmove ▸ h.catchesUp, hmove ▸ h.count⟩

omit [DecidableEq α] in
theorem eq_take_cons_drop {l : List α} {i : Nat} (hi : l[i]? = some a) :
    l = l.take i ++ a :: l.drop (i + 1) := by
  obtain ⟨hlt, rfl⟩ := List.getElem?_eq_some_iff.mp hi
  rw [← List.drop_eq_getElem_cons, List.take_append_drop]

theorem diff_eraseIdx {l l' : List α} {i : Nat} (hi : l[i]? = some a)
    (hequal : ∀ b ∈ ((l.take i).diff removed).dropWhile (· ≠ a), b = a) :
    (l.eraseIdx i ++ l').diff removed = (l ++ l').diff (a :: removed) := by
  have hl := eq_take_cons_drop hi
  have hright : (l ++ l').diff (a :: removed) =
      ((l.take i ++ a :: (l.drop (i + 1) ++ l')).diff removed).erase a := by
    rw [List.diff_cons_right, ← List.cons_append, ← List.append_assoc, ← hl]
  rw [hright, List.eraseIdx_eq_take_drop_succ, List.append_assoc, append_diff (l.take i),
    append_diff (l.take i), List.cons_diff]
  split
  · rename_i ha
    rw [List.erase_append_right _ (not_mem_diff ha), ← List.diff_cons_right]
    exact congrArg _ ((List.perm_cons_erase ha).diff_left _)
  · rw [List.append_cons, List.erase_append_left _ (by simp), append_erase hequal]

/-- The copy takes out a place where it has what is still to be removed, if of all that stands before
it and stays, everything from the first equal element on is equal. -/
theorem Lags.copy_eraseIdx {i : Nat} (h : Lags list copy added (a :: removed) waiting)
    (hi : copy[i]? = some a)
    (hequal : ∀ b ∈ ((copy.take i).diff (removed ++ waiting)).dropWhile (· ≠ a), b = a) :
    Lags list (copy.eraseIdx i) added removed waiting where
  catchesUp := by rw [diff_eraseIdx hi hequal, h.catchesUp, List.cons_append]
  count b := by
    have hb := h.count b
    obtain ⟨hlt, rfl⟩ := List.getElem?_eq_some_iff.mp hi
    have hcount := ((List.getElem_cons_eraseIdx_perm hlt).append_right added).count_eq b
    rw [← hcount, List.cons_append, List.count_cons, List.count_cons] at hb
    omega

theorem Lags.perm {removed' waiting' : List α} (h : Lags list copy added removed waiting)
    (hremoved : removed.Perm removed') (hwaiting : waiting.Perm waiting') :
    Lags list copy added removed' waiting' where
  catchesUp := by
    rw [← hwaiting.diff_left, h.catchesUp]
    exact (hremoved.append hwaiting).diff_left _
  count b := hremoved.count_eq b ▸ h.count b

theorem lags_refl : Lags list list [] [] [] := ⟨by simp, by simp⟩

theorem Lags.caught_up (h : Lags list copy [] [] []) : copy = list := by
  simpa using h.catchesUp.symm

end LaggingCopy

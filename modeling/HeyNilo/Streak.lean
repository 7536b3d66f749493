import Mathlib.Data.List.Infix
import Mathlib.Data.List.TakeWhile
import Mathlib.Order.Basic

namespace Streak

variable {α : Type*} {p : α → Bool} {n : Nat} {xs : List α}

/-- How many elements at the end of a history satisfy `p`. -/
def streak (p : α → Bool) (xs : List α) : Nat := (xs.reverse.takeWhile p).length

/-- Element `i` is the first one that completes a streak of `n`. -/
def FirstCompletes (p : α → Bool) (n : Nat) (xs : List α) (i : Nat) : Prop :=
  streak p (xs.take (i + 1)) = n ∧ ∀ j < i, streak p (xs.take (j + 1)) < n

theorem streak_concat (xs : List α) (x : α) :
    streak p (xs ++ [x]) = if p x then streak p xs + 1 else 0 := by
  unfold streak
  rw [List.reverse_append, List.reverse_singleton, List.singleton_append, List.takeWhile_cons]
  split <;> rfl

theorem streak_take_succ {i : Nat} (hi : i < xs.length) :
    streak p (xs.take (i + 1)) = if p xs[i] then streak p (xs.take i) + 1 else 0 := by
  rw [List.take_succ_eq_append_getElem hi, streak_concat]

/-- The elements of a streak are the last ones. -/
theorem streak_suffix (xs : List α) :
    ∃ w, w <:+ xs ∧ w.length = streak p xs ∧ ∀ x ∈ w, p x = true := by
  refine ⟨(xs.reverse.takeWhile p).reverse, ?_, List.length_reverse, fun x hx => ?_⟩
  · have hfront : xs.reverse.takeWhile p <+: xs.reverse := List.takeWhile_prefix p
    rw [← List.reverse_prefix, List.reverse_reverse]
    exact hfront
  · exact List.mem_takeWhile_imp (List.mem_reverse.mp hx)

theorem le_streak {w : List α} (hw : w <:+ xs) (hall : ∀ x ∈ w, p x = true) :
    w.length ≤ streak p xs := by
  obtain ⟨before, rfl⟩ := hw
  have hfront : ∀ x ∈ w.reverse, p x = true := fun x hx => hall x (List.mem_reverse.mp hx)
  rw [streak, List.reverse_append, List.takeWhile_append_of_pos hfront, List.length_append,
    List.length_reverse]
  exact Nat.le_add_right _ _

/-- No streak reaches `n` exactly where no `n` elements in a row satisfy `p`. -/
theorem streaks_lt_iff (hn : 0 < n) : (∀ i < xs.length, streak p (xs.take (i + 1)) < n) ↔
    ∀ w, w <:+: xs → (∀ x ∈ w, p x = true) → w.length < n := by
  constructor
  · rintro h w ⟨before, after, rfl⟩ hall
    by_cases hne : w = []
    · rw [hne]
      exact hn
    have hpos := List.length_pos_iff.mpr hne
    have hlast := h (before.length + w.length - 1)
      (by simp only [List.length_append]; omega)
    have hcut : (before ++ w ++ after).take (before.length + w.length - 1 + 1) = before ++ w := by
      refine List.take_left' ?_
      simp only [List.length_append]
      omega
    rw [hcut] at hlast
    exact Nat.lt_of_le_of_lt (le_streak (List.suffix_append before w) hall) hlast
  · intro h i hi
    obtain ⟨w, hw, hlength, hall⟩ := streak_suffix (p := p) (xs.take (i + 1))
    rw [← hlength]
    exact h w (hw.isInfix.trans (List.take_prefix _ _).isInfix) hall

/-- Where a streak reaches `n`, some element is the first to complete one: a streak grows by at most
one element at a time. -/
theorem exists_firstCompletes (hn : 0 < n) {i : Nat} (hi : i < xs.length)
    (h : n ≤ streak p (xs.take (i + 1))) : ∃ k < xs.length, FirstCompletes p n xs k := by
  induction i using Nat.strong_induction_on with
  | _ i ih =>
    by_cases hearlier : ∃ j < i, n ≤ streak p (xs.take (j + 1))
    · obtain ⟨j, hj, hreached⟩ := hearlier
      exact ih j hj (hj.trans hi) hreached
    · have hbefore : ∀ j < i, streak p (xs.take (j + 1)) < n := fun j hj =>
        Nat.lt_of_not_le fun hreached => hearlier ⟨j, hj, hreached⟩
      refine ⟨i, hi, Nat.le_antisymm ?_ h, hbefore⟩
      rw [streak_take_succ hi]
      have hlast : streak p (xs.take i) < n := by
        cases i with
        | zero => exact hn
        | succ i => exact hbefore i (Nat.lt_succ_self i)
      split
      · exact hlast
      · exact Nat.zero_le n

end Streak

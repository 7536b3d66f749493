import Mathlib.Data.List.Infix
import Mathlib.Data.List.TakeWhile

/-- A piece of a pattern: a class of characters, taken greedily at least `least` and at most `most`
times. -/
structure PatternItem (α : Type*) where
  accepts : α → Bool
  least : Nat := 1
  most : Option Nat := some 1

/-- Alternatives, each a sequence of items. -/
abbrev TextPattern (α : Type*) := List (List (PatternItem α))

namespace TextPattern

variable {α : Type*} {items : List (PatternItem α)} {p : TextPattern α} {s t : List α}

/-- How many elements the item takes at most from the front of the text. -/
def leading (item : PatternItem α) (s : List α) : Nat :=
  let run := (s.takeWhile item.accepts).length
  match item.most with
  | some most => min run most
  | none => run

/-- Try the rest of a pattern after `k` elements, then after fewer ones, down to `least`. -/
def tryDown (least : Nat) (after : List α → Option (List α)) (s : List α) : Nat → Option (List α)
  | 0 => if least = 0 then after s else none
  | k + 1 =>
    if k + 1 < least then none
    else (after (s.drop (k + 1))).or (tryDown least after s k)

/-- The text after a match of the items at its front. -/
def matchItems : List (PatternItem α) → List α → Option (List α)
  | [] => some
  | item :: items => fun s => tryDown item.least (matchItems items) s (leading item s)

/-- The first alternative that matches decides. -/
def matchFront (p : TextPattern α) (s : List α) : Option (List α) :=
  p.findSome? fun items => matchItems items s

/-- The loop of `replaceAll`. `skip` counts the elements of a match still to be passed over; an empty
match is no match. -/
def replaceLoop (p : TextPattern α) (new : List α) : Nat → List α → List α
  | _, [] => []
  | skip + 1, _ :: s => replaceLoop p new skip s
  | 0, c :: s =>
    match matchFront p (c :: s) with
    | some rest =>
      if rest.length ≤ s.length then new ++ replaceLoop p new (s.length - rest.length) s
      else c :: replaceLoop p new 0 s
    | none => c :: replaceLoop p new 0 s

/-- The matches from left to right are replaced. -/
def replaceAll (p : TextPattern α) (new s : List α) : List α := replaceLoop p new 0 s

/-- The match of an anchored pattern is replaced. -/
def replaceStart (p : TextPattern α) (new s : List α) : List α :=
  match matchFront p s with
  | some rest => new ++ rest
  | none => s

/-- What a sequence of items stands for. -/
def Accepts : List (PatternItem α) → List α → Prop
  | [], w => w = []
  | item :: items, w =>
    ∃ u v, w = u ++ v ∧ (∀ x ∈ u, item.accepts x = true) ∧ item.least ≤ u.length ∧
      (∀ most ∈ item.most, u.length ≤ most) ∧ Accepts items v

/-- The pattern is somewhere in the text. -/
def Occurs (p : TextPattern α) (s : List α) : Prop :=
  ∃ items ∈ p, ∃ w, w <:+: s ∧ Accepts items w

theorem Occurs.mono (h : Occurs p s) (hst : s <:+: t) : Occurs p t := by
  obtain ⟨items, hitems, w, hw, haccepts⟩ := h
  exact ⟨items, hitems, w, hw.trans hst, haccepts⟩

theorem leading_le_run (item : PatternItem α) (s : List α) :
    leading item s ≤ (s.takeWhile item.accepts).length := by
  unfold leading
  cases item.most with
  | none => exact le_refl _
  | some most => exact Nat.min_le_left _ _

theorem leading_le_most {item : PatternItem α} {most : Nat} (h : most ∈ item.most) (s : List α) :
    leading item s ≤ most := by
  unfold leading
  rw [Option.mem_def.mp h]
  exact Nat.min_le_right _ _

theorem tryDown_some {least k : Nat} {after : List α → Option (List α)} {rest : List α}
    (h : tryDown least after s k = some rest) :
    ∃ j, j ≤ k ∧ least ≤ j ∧ after (s.drop j) = some rest := by
  induction k with
  | zero =>
    rw [tryDown] at h
    split at h
    next hleast => exact ⟨0, le_refl _, hleast.le, h⟩
    next => cases h
  | succ k ih =>
    rw [tryDown] at h
    split at h
    next => cases h
    next hleast =>
      rcases Option.or_eq_some_iff.mp h with hafter | ⟨-, hfewer⟩
      · exact ⟨k + 1, le_refl _, Nat.le_of_not_lt hleast, hafter⟩
      · obtain ⟨j, hj, hmin, hafter⟩ := ih hfewer
        exact ⟨j, hj.trans (Nat.le_succ k), hmin, hafter⟩

theorem mem_take_takeWhile {q : α → Bool} {k : Nat} {x : α}
    (hk : k ≤ (s.takeWhile q).length) (hx : x ∈ s.take k) : q x = true := by
  have hinitial : s.take k <+: s.takeWhile q := by
    refine List.prefix_of_prefix_length_le (List.take_prefix _ _) (List.takeWhile_prefix _) ?_
    exact (List.length_take_le _ _).trans hk
  exact List.mem_takeWhile_imp (hinitial.mem hx)

/-- A match is a text that the items stand for. -/
theorem matchItems_some {rest : List α} (h : matchItems items s = some rest) :
    ∃ w, s = w ++ rest ∧ Accepts items w := by
  induction items generalizing s with
  | nil => exact ⟨[], (Option.some.inj h), rfl⟩
  | cons item items ih =>
    obtain ⟨j, hj, hleast, hafter⟩ := tryDown_some h
    obtain ⟨v, hv, haccepts⟩ := ih hafter
    have hrun : j ≤ (s.takeWhile item.accepts).length := hj.trans (leading_le_run item s)
    have hlen : (s.take j).length = j :=
      List.length_take_of_le (hrun.trans (List.takeWhile_prefix _).length_le)
    refine ⟨s.take j ++ v, ?_, s.take j, v, rfl, fun x hx => mem_take_takeWhile hrun hx, ?_, ?_,
      haccepts⟩
    · rw [List.append_assoc, ← hv, List.take_append_drop]
    · exact hlen.symm ▸ hleast
    · intro most hmost
      exact hlen.symm ▸ hj.trans (leading_le_most hmost s)

theorem matchFront_some {rest : List α} (h : matchFront p s = some rest) : Occurs p s := by
  obtain ⟨items, hitems, hmatch⟩ := List.exists_of_findSome?_eq_some h
  obtain ⟨w, rfl, haccepts⟩ := matchItems_some hmatch
  exact ⟨items, hitems, w, (List.prefix_append w rest).isInfix, haccepts⟩

theorem tryDown_isSome {least j k : Nat} {after : List α → Option (List α)} (hj : j ≤ k)
    (hleast : least ≤ j) (h : (after (s.drop j)).isSome) : (tryDown least after s k).isSome := by
  induction k with
  | zero =>
    cases Nat.le_zero.mp hj
    rw [tryDown, if_pos (Nat.le_zero.mp hleast)]
    exact h
  | succ k ih =>
    rw [tryDown, if_neg (Nat.not_lt.mpr (hleast.trans hj)), Option.isSome_or, Bool.or_eq_true]
    by_cases hlast : j = k + 1
    · exact .inl (hlast ▸ h)
    · exact .inr (ih (Nat.le_of_lt_succ (Nat.lt_of_le_of_ne hj hlast)))

theorem length_le_leading {item : PatternItem α} {u v : List α}
    (hu : ∀ x ∈ u, item.accepts x = true) (hmost : ∀ most ∈ item.most, u.length ≤ most) :
    u.length ≤ leading item (u ++ v) := by
  have hrun : u.length ≤ ((u ++ v).takeWhile item.accepts).length := by
    rw [List.takeWhile_append_of_pos hu, List.length_append]
    exact Nat.le_add_right _ _
  unfold leading
  cases hlimit : item.most with
  | none => exact hrun
  | some most => exact le_min hrun (hmost most hlimit)

/-- Backtracking finds a match where there is one. -/
theorem matchItems_isSome {w rest : List α} (h : Accepts items w) :
    (matchItems items (w ++ rest)).isSome := by
  induction items generalizing w with
  | nil => exact rfl
  | cons item items ih =>
    obtain ⟨u, v, rfl, hu, hleast, hmost, haccepts⟩ := h
    rw [List.append_assoc]
    refine tryDown_isSome (length_le_leading hu hmost) hleast ?_
    rw [List.drop_left]
    exact ih haccepts

theorem occurs_iff : Occurs p s ↔ ∃ t ∈ s.tails, (matchFront p t).isSome := by
  constructor
  · rintro ⟨items, hitems, w, ⟨before, rest, rfl⟩, haccepts⟩
    refine ⟨w ++ rest, (List.mem_tails _ _).mpr ⟨before, by rw [List.append_assoc]⟩, ?_⟩
    exact List.findSome?_isSome_iff.mpr ⟨items, hitems, matchItems_isSome haccepts⟩
  · rintro ⟨t, ht, hmatch⟩
    obtain ⟨rest, hrest⟩ := Option.isSome_iff_exists.mp hmatch
    exact (matchFront_some hrest).mono ((List.mem_tails _ _).mp ht).isInfix

instance : Decidable (Occurs p s) := decidable_of_iff' _ occurs_iff

theorem replaceLoop_of_not_occurs {new : List α} (h : ¬ Occurs p s) : replaceLoop p new 0 s = s := by
  induction s with
  | nil => rfl
  | cons c s ih =>
    have hrest : ¬ Occurs p s := fun hs => h (hs.mono (List.suffix_cons c s).isInfix)
    have hnone : matchFront p (c :: s) = none := by
      cases hmatch : matchFront p (c :: s) with
      | none => rfl
      | some rest => exact absurd (matchFront_some hmatch) h
    rw [replaceLoop, hnone]
    exact congrArg (List.cons c) (ih hrest)

theorem replaceAll_of_not_occurs {new : List α} (h : ¬ Occurs p s) : replaceAll p new s = s :=
  replaceLoop_of_not_occurs h

theorem replaceStart_of_not_occurs {new : List α} (h : ¬ Occurs p s) :
    replaceStart p new s = s := by
  unfold replaceStart
  cases hmatch : matchFront p s with
  | none => rfl
  | some rest => exact absurd (matchFront_some hmatch) h

end TextPattern

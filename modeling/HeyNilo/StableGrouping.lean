import Mathlib.Data.List.Basic

namespace StableGrouping

variable {α κ : Type*}

section Rank

variable (key : α → κ) (rank : κ → Nat)

/-- The comparison by the rank of the keys. -/
def rankLE (a b : α) : Bool := rank (key a) ≤ rank (key b)

theorem rankLE_trans (a b c : α) (hab : rankLE key rank a b = true)
    (hbc : rankLE key rank b c = true) : rankLE key rank a c = true := by
  simp only [rankLE, decide_eq_true_eq] at *
  omega

theorem rankLE_total (a b : α) : (rankLE key rank a b || rankLE key rank b a) = true := by
  simp only [rankLE, Bool.or_eq_true, decide_eq_true_eq]
  omega

end Rank

variable [DecidableEq κ] {key : α → κ} {r : κ → κ → Prop}

/-- The entries of each key in turn, in the order of `ks`. -/
def group (key : α → κ) (ks : List κ) (xs : List α) : List α :=
  ks.flatMap fun k => xs.filter fun x => key x == k

theorem filter_filter_of_ne {j k : κ} (h : j ≠ k) (xs : List α) :
    ((xs.filter fun x => key x == j).filter fun x => key x == k) = [] := by
  rw [List.filter_filter, List.filter_eq_nil_iff]
  intro x _ hx
  have hboth : key x = k ∧ key x = j := by simpa using hx
  exact h (hboth.2.symm.trans hboth.1)

theorem filter_group_of_notMem {ks : List κ} {k : κ} (h : k ∉ ks) (xs : List α) :
    ((group key ks xs).filter fun x => key x == k) = [] := by
  induction ks with
  | nil => rfl
  | cons j ks ih =>
    rw [List.mem_cons, not_or] at h
    rw [group, List.flatMap_cons, List.filter_append, filter_filter_of_ne (Ne.symm h.1),
      List.nil_append]
    exact ih h.2

/-- The entries of one key keep their order. -/
theorem filter_group {ks : List κ} (hn : ks.Nodup) {k : κ} (h : k ∈ ks) (xs : List α) :
    ((group key ks xs).filter fun x => key x == k) = xs.filter fun x => key x == k := by
  induction ks with
  | nil => cases h
  | cons j ks ih =>
    obtain ⟨hj, hn⟩ := List.nodup_cons.mp hn
    rw [group, List.flatMap_cons, List.filter_append]
    by_cases hkj : j = k
    · subst j
      rw [show ks.flatMap (fun k => xs.filter fun x => key x == k) = group key ks xs from rfl,
        filter_group_of_notMem hj, List.append_nil, List.filter_filter]
      simp
    · rw [filter_filter_of_ne hkj, List.nil_append]
      exact ih hn ((List.mem_cons.mp h).resolve_left (Ne.symm hkj))

/-- The entries of a key that has no group can be left out before. -/
theorem group_filter_ne {ks : List κ} {k : κ} (h : k ∉ ks) (xs : List α) :
    group key ks (xs.filter fun x => !(key x == k)) = group key ks xs := by
  refine List.flatMap_congr fun j hj => ?_
  rw [List.filter_filter]
  refine List.filter_congr fun x _ => ?_
  by_cases hx : key x = j
  · have hne : key x ≠ k := fun hk => h (hk ▸ hx ▸ hj)
    simp [hx, hx ▸ hne]
  · simp [hx]

/-- Nothing is lost or doubled if every key has its group. -/
theorem group_perm {ks : List κ} (hn : ks.Nodup) {xs : List α} (h : ∀ x ∈ xs, key x ∈ ks) :
    (group key ks xs).Perm xs := by
  induction ks generalizing xs with
  | nil =>
    cases xs with
    | nil => exact .nil
    | cons x xs => exact absurd (h x List.mem_cons_self) List.not_mem_nil
  | cons k ks ih =>
    obtain ⟨hk, hn⟩ := List.nodup_cons.mp hn
    have hrest : (group key ks (xs.filter fun x => !(key x == k))).Perm
        (xs.filter fun x => !(key x == k)) := by
      refine ih hn fun x hx => ?_
      obtain ⟨hmem, hne⟩ := List.mem_filter.mp hx
      exact (List.mem_cons.mp (h x hmem)).resolve_left (by simpa using hne)
    rw [group_filter_ne hk] at hrest
    exact (hrest.append_left _).trans (List.filter_append_perm _ xs)

/-- Grouping a second time changes nothing. -/
theorem group_group {ks : List κ} (hn : ks.Nodup) (xs : List α) :
    group key ks (group key ks xs) = group key ks xs :=
  List.flatMap_congr fun _ hk => filter_group hn hk xs

theorem key_of_mem_filter {x : α} {k : κ} {xs : List α} (h : x ∈ xs.filter fun y => key y == k) :
    key x = k := by
  simpa using (List.mem_filter.mp h).2

theorem pairwise_filter {k : κ} (hr : r k k) (xs : List α) :
    (xs.filter fun x => key x == k).Pairwise fun a b => r (key a) (key b) := by
  refine List.Pairwise.imp_of_mem (fun {a b} ha hb (_ : True) => ?_)
    (List.pairwise_of_forall fun _ _ => trivial)
  rw [key_of_mem_filter ha, key_of_mem_filter hb]
  exact hr

theorem group_pairwise {ks : List κ} (hr : ∀ k, r k k) (hks : ks.Pairwise r) (xs : List α) :
    (group key ks xs).Pairwise fun a b => r (key a) (key b) := by
  refine List.pairwise_flatMap.mpr
    ⟨fun k _ => pairwise_filter (hr k) xs, hks.imp fun hjk a ha b hb => ?_⟩
  rw [key_of_mem_filter ha, key_of_mem_filter hb]
  exact hjk

theorem mem_of_filter_eq {x : α} {xs ys : List α} (hmem : x ∈ xs)
    (h : ∀ k, (xs.filter fun x => key x == k) = ys.filter fun x => key x == k) : x ∈ ys := by
  have hx : x ∈ xs.filter fun y => key y == key x := List.mem_filter.mpr ⟨hmem, by simp⟩
  rw [h] at hx
  exact List.mem_of_mem_filter hx

/-- A list in the order of its keys is determined by the entries of each key. -/
theorem eq_of_filter_eq (hrefl : ∀ k, r k k) (hanti : ∀ j k, r j k → r k j → j = k)
    {xs ys : List α} (hx : xs.Pairwise fun a b => r (key a) (key b))
    (hy : ys.Pairwise fun a b => r (key a) (key b))
    (h : ∀ k, (xs.filter fun x => key x == k) = ys.filter fun x => key x == k) : xs = ys := by
  induction xs generalizing ys with
  | nil =>
    cases ys with
    | nil => rfl
    | cons y ys =>
      exact absurd (mem_of_filter_eq List.mem_cons_self fun k => (h k).symm) List.not_mem_nil
  | cons x xs ih =>
    cases ys with
    | nil => exact absurd (mem_of_filter_eq List.mem_cons_self h) List.not_mem_nil
    | cons y ys =>
      obtain ⟨hxs, hxtail⟩ := List.pairwise_cons.mp hx
      obtain ⟨hys, hytail⟩ := List.pairwise_cons.mp hy
      have hyx : r (key y) (key x) := by
        rcases List.mem_cons.mp (mem_of_filter_eq List.mem_cons_self h) with heq | hmem
        · exact heq ▸ hrefl _
        · exact hys x hmem
      have hxy : r (key x) (key y) := by
        rcases List.mem_cons.mp
          (mem_of_filter_eq List.mem_cons_self fun k => (h k).symm) with heq | hmem
        · exact heq ▸ hrefl _
        · exact hxs y hmem
      have hkey : key x = key y := hanti _ _ hxy hyx
      have hhead := h (key y)
      rw [List.filter_cons_of_pos (by simpa using hkey), List.filter_cons_of_pos (by simp)] at hhead
      obtain ⟨rfl, htail⟩ := List.cons.inj hhead
      refine congrArg (x :: ·) (ih hxtail hytail fun k => ?_)
      by_cases hk : key x = k
      · subst k
        exact htail
      · have hrest := h k
        rwa [List.filter_cons_of_neg (by simpa using hk),
          List.filter_cons_of_neg (by simpa using hk)] at hrest

variable {rank : κ → Nat}

theorem mergeSort_filter (k : κ) (xs : List α) :
    ((xs.mergeSort (rankLE key rank)).filter fun x => key x == k) =
      xs.filter fun x => key x == k := by
  have hsorted : (xs.filter fun x => key x == k).Pairwise fun a b => rankLE key rank a b = true :=
    pairwise_filter (r := fun i j => decide (rank i ≤ rank j) = true) (by simp) xs
  have hsub : (xs.filter fun x => key x == k).Sublist (xs.mergeSort (rankLE key rank)) :=
    List.sublist_mergeSort (rankLE_trans key rank) (rankLE_total key rank) hsorted
      List.filter_sublist
  have hfilter := hsub.filter fun x => key x == k
  rw [List.filter_filter, show (fun x => (key x == k) && (key x == k)) = fun x => key x == k from
    funext fun _ => Bool.and_self _] at hfilter
  exact (hfilter.eq_of_length ((List.mergeSort_perm xs _).filter _).length_eq.symm).symm

/-- Grouping in the order of injective ranks is the stable sort by rank. -/
theorem group_eq_mergeSort (hrank : ∀ j k, rank j = rank k → j = k) {ks : List κ} (hn : ks.Nodup)
    (hks : ks.Pairwise fun j k => rank j ≤ rank k) {xs : List α} (h : ∀ x ∈ xs, key x ∈ ks) :
    group key ks xs = xs.mergeSort (rankLE key rank) := by
  have hgroups : (group key ks xs).Pairwise fun a b => rank (key a) ≤ rank (key b) :=
    group_pairwise (r := fun j k => rank j ≤ rank k) (fun _ => Nat.le_refl _) hks xs
  have hsorted := List.pairwise_mergeSort (rankLE_trans key rank) (rankLE_total key rank) xs
  refine eq_of_filter_eq (r := fun j k => rank j ≤ rank k) (fun _ => Nat.le_refl _)
    (fun j k hjk hkj => hrank j k (Nat.le_antisymm hjk hkj)) hgroups
    (hsorted.imp fun hab => of_decide_eq_true hab) fun k => ?_
  rw [mergeSort_filter]
  by_cases hk : k ∈ ks
  · exact filter_group hn hk xs
  · rw [filter_group_of_notMem hk, eq_comm, List.filter_eq_nil_iff]
    intro x hx hxk
    have hkey : key x = k := by simpa using hxk
    exact hk (hkey ▸ h x hx)

end StableGrouping

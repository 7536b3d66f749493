import Mathlib.Data.List.Basic

namespace WordRuns

variable {α β : Type*} {isWord : α → Bool} {a b s t : List α} {c : α}

/-- A run at the front, put with the further runs. -/
def close (runs : List α × List (List α)) : List (List α) :=
  if runs.1.isEmpty then runs.2 else runs.1 :: runs.2

/-- The run at the front of a text, and the further runs. -/
def scan (isWord : α → Bool) : List α → List α × List (List α)
  | [] => ([], [])
  | c :: s =>
    if isWord c then (c :: (scan isWord s).1, (scan isWord s).2)
    else ([], close (scan isWord s))

/-- The maximal runs. -/
def words (isWord : α → Bool) (s : List α) : List (List α) := close (scan isWord s)

/-- A run goes on from the first element to the second. -/
def joins (isWord : α → Bool) (x y : Option α) : Bool := x.any isWord && y.any isWord

theorem close_append (front : List α) (runs more : List (List α)) :
    close (front, runs ++ more) = close (front, runs) ++ more := by
  unfold close
  split <;> rfl

theorem scan_word (hc : isWord c = true) :
    scan isWord (c :: s) = (c :: (scan isWord s).1, (scan isWord s).2) := by
  rw [scan, if_pos hc]

theorem scan_gap (hc : isWord c = false) : scan isWord (c :: s) = ([], words isWord s) := by
  rw [scan, if_neg (ne_true_of_eq_false hc), words]

theorem words_gap (hc : isWord c = false) : words isWord (c :: s) = words isWord s := by
  rw [words, scan_gap hc]
  rfl

theorem words_word (hc : isWord c = true) :
    words isWord (c :: s) = (c :: (scan isWord s).1) :: (scan isWord s).2 := by
  rw [words, scan_word hc]
  rfl

theorem scan_of_head (h : s.head?.any isWord = false) : scan isWord s = ([], words isWord s) := by
  cases s with
  | nil => rfl
  | cons c s =>
    have hc : isWord c = false := h
    rw [words_gap hc, scan_gap hc]

theorem scan_cons_congr (c : α) (h : scan isWord s = scan isWord t) :
    scan isWord (c :: s) = scan isWord (c :: t) := by
  simp only [scan, h]

/-- The run at the front is a beginning of the text. -/
theorem scan_fst_prefix (isWord : α → Bool) (s : List α) : (scan isWord s).1 <+: s := by
  induction s with
  | nil => exact List.prefix_rfl
  | cons c s ih =>
    cases hc : isWord c with
    | true =>
      rw [scan_word hc]
      exact (List.prefix_cons_inj c).mpr ih
    | false =>
      rw [scan_gap hc]
      exact List.nil_prefix

theorem scan_fst_word (s : List α) : ∀ x ∈ (scan isWord s).1, isWord x = true := by
  induction s with
  | nil => exact fun x hx => absurd hx List.not_mem_nil
  | cons c s ih =>
    intro x hx
    cases hc : isWord c with
    | true =>
      rw [scan_word hc] at hx
      rcases List.mem_cons.mp hx with rfl | hx
      · exact hc
      · exact ih x hx
    | false =>
      rw [scan_gap hc] at hx
      cases hx

theorem scan_append (ha : a ≠ []) (h : joins isWord a.getLast? b.head? = false) :
    scan isWord (a ++ b) = ((scan isWord a).1, (scan isWord a).2 ++ words isWord b) := by
  induction a with
  | nil => exact absurd rfl ha
  | cons c a ih =>
    cases a with
    | nil =>
      cases hc : isWord c with
      | true =>
        have hb : b.head?.any isWord = false := by simpa [joins, hc] using h
        rw [List.singleton_append, scan_word hc, scan_word hc, scan_of_head hb]
        rfl
      | false =>
        rw [List.singleton_append, scan_gap hc, scan_gap hc]
        rfl
    | cons d a =>
      have hrest := ih (List.cons_ne_nil d a) (by simpa using h)
      cases hc : isWord c with
      | true => rw [List.cons_append, scan_word hc, scan_word hc, hrest]
      | false =>
        rw [List.cons_append, scan_gap hc, scan_gap hc, words, hrest, close_append]
        rfl

/-- Texts that do not join have their own runs. -/
theorem words_append (h : joins isWord a.getLast? b.head? = false) :
    words isWord (a ++ b) = words isWord a ++ words isWord b := by
  cases a with
  | nil => rfl
  | cons c a =>
    rw [words, scan_append (List.cons_ne_nil c a) h, close_append]
    rfl

theorem words_of_gaps (h : ∀ x ∈ a, isWord x = false) : words isWord a = [] := by
  induction a with
  | nil => rfl
  | cons c a ih =>
    rw [words_gap (h c List.mem_cons_self)]
    exact ih fun x hx => h x (List.mem_cons_of_mem c hx)

theorem words_gaps_append (h : ∀ x ∈ a, isWord x = false) :
    words isWord (a ++ b) = words isWord b := by
  induction a with
  | nil => rfl
  | cons c a ih =>
    rw [List.cons_append, words_gap (h c List.mem_cons_self)]
    exact ih fun x hx => h x (List.mem_cons_of_mem c hx)

theorem words_append_gaps (h : ∀ x ∈ b, isWord x = false) :
    words isWord (a ++ b) = words isWord a := by
  have hhead : b.head?.any isWord = false := by
    cases b with
    | nil => rfl
    | cons c b => exact h c List.mem_cons_self
  rw [words_append (by rw [joins, hhead, Bool.and_false]), words_of_gaps h, List.append_nil]

/-- The second list with some elements taken out: the kept ones meet `K`, the others `L`. -/
inductive Thins (K L : β → Prop) : List β → List β → Prop where
  | nil : Thins K L [] []
  | keep {x : β} {xs ys : List β} : K x → Thins K L xs ys → Thins K L (x :: xs) (x :: ys)
  | drop {x : β} {xs ys : List β} : L x → Thins K L xs ys → Thins K L xs (x :: ys)

namespace Thins

variable {K L : β → Prop} {xs ys zs : List β}

theorem sublist (h : Thins K L xs ys) : xs.Sublist ys := by
  induction h with
  | nil => exact List.Sublist.refl _
  | keep _ _ ih => exact ih.cons_cons _
  | drop _ _ ih => exact ih.cons _

theorem kept (h : Thins K L xs ys) : ∀ x ∈ xs, K x := by
  induction h with
  | nil => exact fun x hx => absurd hx List.not_mem_nil
  | keep hx _ ih => exact List.forall_mem_cons.mpr ⟨hx, ih⟩
  | drop _ _ ih => exact ih

/-- What does not meet `L` is still there. -/
theorem filter_sublist {ok : β → Bool} (h : Thins K L xs ys) (hL : ∀ x, L x → ok x = false) :
    (ys.filter ok).Sublist xs := by
  induction h with
  | nil => exact List.Sublist.refl _
  | @keep x xs ys _ _ ih =>
    rw [List.filter_cons]
    split
    next => exact ih.cons_cons x
    next => exact ih.cons x
  | drop hx _ ih =>
    rw [List.filter_cons_of_neg (ne_true_of_eq_false (hL _ hx))]
    exact ih

theorem drop_append {w : List β} (hw : ∀ x ∈ w, L x) (h : Thins K L xs ys) :
    Thins K L xs (w ++ ys) := by
  induction w with
  | nil => exact h
  | cons x w ih =>
    obtain ⟨hx, hw⟩ := List.forall_mem_cons.mp hw
    exact (ih hw).drop hx

theorem of_keep (h : ∀ x ∈ xs, K x) : Thins K L xs xs := by
  induction xs with
  | nil => exact .nil
  | cons x xs ih =>
    obtain ⟨hx, hxs⟩ := List.forall_mem_cons.mp h
    exact (ih hxs).keep hx

theorem trans (h : Thins K L xs ys) (h' : Thins K L ys zs) : Thins K L xs zs := by
  induction h' generalizing xs with
  | nil => exact h
  | keep hx _ ih =>
    cases h with
    | keep hx h => exact (ih h).keep hx
    | drop hx h => exact (ih h).drop hx
  | drop hx _ ih => exact (ih h).drop hx

end Thins

end WordRuns

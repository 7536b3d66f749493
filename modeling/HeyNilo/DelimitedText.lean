import Mathlib.Data.List.Infix

namespace DelimitedText

variable {α τ : Type*} [DecidableEq α] {mark : τ → List α} {tags : List τ}
  {s rest content : List α} {t : τ}

/-- The tag whose mark stands at the front. -/
def tagAt (mark : τ → List α) (tags : List τ) (s : List α) : Option τ :=
  tags.find? fun t => (mark t).isPrefixOf s

/-- The text up to the first mark, and each mark with the text up to the next one. `skip` counts the
elements of a mark still to be passed over. -/
def splitLoop (mark : τ → List α) (tags : List τ) : Nat → List α → List α × List (τ × List α)
  | _, [] => ([], [])
  | skip + 1, _ :: s => splitLoop mark tags skip s
  | 0, c :: s =>
    match tagAt mark tags (c :: s) with
    | some t =>
      ([], (t, (splitLoop mark tags ((mark t).length - 1) s).1) ::
        (splitLoop mark tags ((mark t).length - 1) s).2)
    | none => (c :: (splitLoop mark tags 0 s).1, (splitLoop mark tags 0 s).2)

def split (mark : τ → List α) (tags : List τ) (s : List α) : List α × List (τ × List α) :=
  splitLoop mark tags 0 s

def joined (mark : τ → List α) (parts : List (τ × List α)) : List α :=
  parts.flatMap fun part => mark part.1 ++ part.2

/-- No mark stands in the text. -/
def Clean (mark : τ → List α) (tags : List τ) (s : List α) : Prop := ∀ t ∈ tags, ¬ mark t <:+: s

/-- Marks are not empty, and what is left of one does not go with the beginning of another. -/
structure Separate (mark : τ → List α) (tags : List τ) : Prop where
  nonempty : ∀ t ∈ tags, mark t ≠ []
  apart : ∀ t ∈ tags, ∀ u ∈ tags, ∀ k, k < (mark t).length →
    (mark t).drop k <+: mark u ∨ mark u <+: (mark t).drop k → k = 0 ∧ t = u

theorem tagAt_some (h : tagAt mark tags s = some t) : t ∈ tags ∧ mark t <+: s := by
  have hfront := List.find?_some h
  exact ⟨List.mem_of_find?_eq_some h, List.isPrefixOf_iff_prefix.mp hfront⟩

theorem tagAt_none (h : tagAt mark tags s = none) (ht : t ∈ tags) : ¬ mark t <+: s := by
  intro hmark
  exact List.find?_eq_none.mp h t ht (List.isPrefixOf_iff_prefix.mpr hmark)

/-- Two marks at one place are the same. -/
theorem Separate.tagAt_mark (h : Separate mark tags) (ht : t ∈ tags) (s : List α) :
    tagAt mark tags (mark t ++ s) = some t := by
  have hpos (u : τ) (hu : u ∈ tags) : 0 < (mark u).length := List.length_pos_iff.mpr (h.nonempty u hu)
  cases hfound : tagAt mark tags (mark t ++ s) with
  | none => exact absurd (List.prefix_append _ _) (tagAt_none hfound ht)
  | some u =>
    obtain ⟨hu, hmark⟩ := tagAt_some hfound
    have hboth : mark u <+: mark t ∨ mark t <+: mark u :=
      List.prefix_or_prefix_of_prefix hmark (List.prefix_append _ _)
    have hsame := (h.apart u hu t ht 0 (hpos u hu) (by simpa using hboth)).2
    rw [hsame]

theorem splitLoop_append (w rest : List α) :
    splitLoop mark tags w.length (w ++ rest) = splitLoop mark tags 0 rest := by
  induction w with
  | nil => rfl
  | cons c w ih => exact ih

theorem split_mark (h : Separate mark tags) (ht : t ∈ tags) (s : List α) :
    split mark tags (mark t ++ s) =
      ([], (t, (split mark tags s).1) :: (split mark tags s).2) := by
  have htag := h.tagAt_mark ht s
  cases hmark : mark t with
  | nil => exact absurd hmark (h.nonempty t ht)
  | cons c w =>
    rw [hmark, List.cons_append] at htag
    rw [List.cons_append, split, splitLoop, htag]
    dsimp only
    rw [hmark, List.length_cons, Nat.add_sub_cancel, splitLoop_append]
    rfl

/-- A clean text before a mark, or at the end, is passed over. -/
theorem split_clean (h : Separate mark tags) (hclean : Clean mark tags content)
    (hrest : rest = [] ∨ ∃ u ∈ tags, mark u <+: rest) :
    split mark tags (content ++ rest) =
      (content ++ (split mark tags rest).1, (split mark tags rest).2) := by
  induction content with
  | nil => rfl
  | cons c content ih =>
    have hmore : Clean mark tags content := fun t ht hmark =>
      hclean t ht (hmark.trans (List.suffix_cons c content).isInfix)
    have hnone : tagAt mark tags (c :: content ++ rest) = none := by
      cases htag : tagAt mark tags (c :: content ++ rest) with
      | none => rfl
      | some t =>
        obtain ⟨ht, hmark⟩ := tagAt_some htag
        exfalso
        rcases Nat.lt_or_ge (c :: content).length (mark t).length with hlong | hshort
        · -- the mark would go beyond the content
          obtain ⟨v, hv⟩ := List.prefix_of_prefix_length_le (List.prefix_append _ rest) hmark hlong.le
          have hdrop : (mark t).drop (c :: content).length = v := by rw [← hv, List.drop_left]
          have hback : v <+: rest := by
            rw [← hv] at hmark
            exact (List.prefix_append_right_inj _).mp hmark
          have hne : v ≠ [] := by
            rintro rfl
            rw [List.append_nil] at hv
            rw [hv] at hlong
            exact Nat.lt_irrefl _ hlong
          rcases hrest with rfl | ⟨u, hu, hmarku⟩
          · exact hne (List.prefix_nil.mp hback)
          · have hboth := List.prefix_or_prefix_of_prefix hback hmarku
            rw [← hdrop] at hboth
            have hzero := (h.apart t ht u hu _ hlong hboth).1
            cases hzero
        · have hinside : mark t <+: c :: content :=
            List.prefix_of_prefix_length_le hmark (List.prefix_append _ rest) hshort
          exact hclean t ht hinside.isInfix
    rw [List.cons_append] at hnone ⊢
    have hih := ih hmore
    rw [split] at hih
    rw [split, splitLoop, hnone]
    dsimp only
    rw [hih]
    rfl

theorem split_joined (h : Separate mark tags) {parts : List (τ × List α)}
    (htags : ∀ part ∈ parts, part.1 ∈ tags) (hclean : ∀ part ∈ parts, Clean mark tags part.2) :
    split mark tags (joined mark parts) = ([], parts) := by
  induction parts with
  | nil => rfl
  | cons part parts ih =>
    obtain ⟨htag, htags⟩ := List.forall_mem_cons.mp htags
    obtain ⟨hpart, hclean⟩ := List.forall_mem_cons.mp hclean
    have hrest : joined mark parts = [] ∨ ∃ u ∈ tags, mark u <+: joined mark parts := by
      cases parts with
      | nil => exact .inl rfl
      | cons next parts =>
        refine .inr ⟨next.1, htags next List.mem_cons_self, ?_⟩
        rw [joined, List.flatMap_cons, List.append_assoc]
        exact List.prefix_append _ _
    have hsplit : joined mark (part :: parts) = mark part.1 ++ (part.2 ++ joined mark parts) := by
      rw [joined, List.flatMap_cons, List.append_assoc]
      rfl
    rw [hsplit, split_mark h htag, split_clean h hpart hrest, ih htags hclean, List.append_nil]

theorem splitLoop_fst_initial (s : List α) : (splitLoop mark tags 0 s).1 <+: s := by
  induction s with
  | nil => exact List.nil_prefix
  | cons c s ih =>
    rw [splitLoop]
    split
    next => exact List.nil_prefix
    next => exact (List.prefix_cons_inj c).mpr ih

/-- The parts of a split text are clean. -/
theorem splitLoop_clean (h : Separate mark tags) (skip : Nat) (s : List α) :
    Clean mark tags (splitLoop mark tags skip s).1 ∧
      ∀ part ∈ (splitLoop mark tags skip s).2, Clean mark tags part.2 := by
  have hnil : Clean mark tags [] := fun t ht hmark => h.nonempty t ht (List.infix_nil.mp hmark)
  induction s generalizing skip with
  | nil => cases skip <;> exact ⟨hnil, fun part hpart => absurd hpart List.not_mem_nil⟩
  | cons c s ih =>
    cases skip with
    | succ skip => exact ih skip
    | zero =>
      rw [splitLoop]
      split
      next t htag =>
        obtain ⟨hfirst, hmore⟩ := ih ((mark t).length - 1)
        exact ⟨hnil, List.forall_mem_cons.mpr ⟨hfirst, hmore⟩⟩
      next hnone =>
        obtain ⟨hfirst, hmore⟩ := ih 0
        refine ⟨fun t ht hmark => ?_, hmore⟩
        rcases List.infix_cons_iff.mp hmark with hfront | hinside
        · refine tagAt_none hnone ht (hfront.trans ?_)
          exact (List.prefix_cons_inj c).mpr (splitLoop_fst_initial s)
        · exact hfirst t ht hinside

/-- Parts are found again exactly when they are clean. -/
theorem split_joined_iff (h : Separate mark tags) {parts : List (τ × List α)}
    (htags : ∀ part ∈ parts, part.1 ∈ tags) :
    split mark tags (joined mark parts) = ([], parts) ↔
      ∀ part ∈ parts, Clean mark tags part.2 := by
  refine ⟨fun hsplit => ?_, split_joined h htags⟩
  have hclean := (splitLoop_clean h 0 (joined mark parts)).2
  rw [← split, hsplit] at hclean
  exact hclean

end DelimitedText

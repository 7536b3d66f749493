import HeyNilo.TextPieces
import HeyNilo.ThinnedText

open TextPieces

namespace TextPattern

variable {α : Type*}

/-- The pieces that `replaceAll` cuts their text into. -/
inductive Cuts (p : TextPattern α) (new : List α) : List (Piece α) → Prop
  | nil : Cuts p new []
  | kept {c : α} {ps : List (Piece α)} (h : ∀ rest, ¬ Eats p (c :: textOf ps) rest)
    (more : Cuts p new ps) : Cuts p new (.kept c :: ps)
  | swapped {w : List α} {ps : List (Piece α)} (h : Eats p (w ++ textOf ps) (textOf ps))
    (more : Cuts p new ps) : Cuts p new (.swapped w new :: ps)

/-- A replacement of all matches, or of the one at the front. -/
structure Replacement (α : Type*) where
  pattern : TextPattern α
  new : List α
  anchored : Bool := false

namespace Replacement

def apply (r : Replacement α) (s : List α) : List α :=
  if r.anchored then replaceStart r.pattern r.new s else replaceAll r.pattern r.new s

def applyAll (rs : List (Replacement α)) (s : List α) : List α := rs.foldl (fun s r => r.apply s) s

/-- The pieces that a replacement cuts their text into. -/
inductive Cuts (r : Replacement α) : List (Piece α) → Prop
  | all {ps : List (Piece α)} (hall : r.anchored = false) (h : TextPattern.Cuts r.pattern r.new ps) :
    Cuts r ps
  | front {w s : List α} (hfront : r.anchored = true)
    (h : matchFront r.pattern (w ++ s) = some s) : Cuts r (.swapped w r.new :: s.map .kept)
  | whole {s : List α} (hfront : r.anchored = true) (h : matchFront r.pattern s = none) :
    Cuts r (s.map .kept)

/-- In the result, `w` stands between `before` and `after`, around a place where a match was. -/
def Splices (r : Replacement α) (s before w after : List α) : Prop :=
  ∃ ps front u back qs, r.Cuts (ps ++ (front ++ .swapped u r.new :: back) ++ qs) ∧
    textOf (ps ++ (front ++ .swapped u r.new :: back) ++ qs) = s ∧ resultOf ps = before ∧
      resultOf qs = after ∧ w = resultOf (front ++ .swapped u r.new :: back) ∧
        resultOf front ≠ [] ∧ resultOf back ≠ []

/-- One of the replacements puts a marker together that survives the later ones. -/
def LeavesSpliced (marker : List α → Prop) : List (Replacement α) → List α → Prop
  | [], _ => False
  | r :: rs, s =>
    (∃ before w after, marker w ∧ r.Splices s before w after ∧
        Survives Cuts rs before w after) ∨
      LeavesSpliced marker rs (r.apply s)

end Replacement

section Pieces

variable {p : TextPattern α} {new s w before after : List α} {ps qs : List (Piece α)} {c : α}

theorem exists_cuts (p : TextPattern α) (new s : List α) :
    ∃ ps, Cuts p new ps ∧ textOf ps = s := by
  induction hlen : s.length using Nat.strong_induction_on generalizing s with
  | h n ih =>
    cases s with
    | nil => exact ⟨[], .nil, rfl⟩
    | cons c s =>
      by_cases heats : ∃ rest, Eats p (c :: s) rest
      · obtain ⟨rest, heats⟩ := heats
        obtain ⟨w, -, hsplit⟩ := heats.split
        obtain ⟨ps, hps, rfl⟩ := ih _ (hlen ▸ heats.2) rest rfl
        rw [hsplit] at heats ⊢
        exact ⟨.swapped w new :: ps, .swapped heats hps, rfl⟩
      · have hshort : s.length < n := by
          rw [← hlen]
          exact Nat.lt_succ_self _
        obtain ⟨ps, hps, rfl⟩ := ih _ hshort s rfl
        exact ⟨.kept c :: ps, .kept (fun rest hrest => heats ⟨rest, hrest⟩) hps, rfl⟩

theorem Cuts.replaceAll_eq (h : Cuts p new ps) : replaceAll p new (textOf ps) = resultOf ps := by
  induction h with
  | nil => rfl
  | @kept c ps h _ ih =>
    change replaceAll p new (c :: textOf ps) = c :: resultOf ps
    rw [replaceAll_kept h, ih]
  | @swapped w ps h _ ih =>
    change replaceAll p new (w ++ textOf ps) = new ++ resultOf ps
    cases w with
    | nil => exact absurd h.2 (Nat.lt_irrefl _)
    | cons c w => rw [replaceAll_eats h, ih]

theorem Cuts.new_eq (h : Cuts p new ps) {u v : List α} (hmem : .swapped u v ∈ ps) : v = new := by
  induction h with
  | nil => cases hmem
  | kept _ _ ih =>
    rcases List.mem_cons.mp hmem with heq | hmem
    · cases heq
    · exact ih hmem
  | swapped _ _ ih =>
    rcases List.mem_cons.mp hmem with heq | hmem
    · cases heq
      rfl
    · exact ih hmem

theorem Cuts.drop (h : Cuts p new (ps ++ qs)) : Cuts p new qs := by
  induction ps with
  | nil => exact h
  | cons piece ps ih =>
    cases h with
    | kept _ more => exact ih more
    | swapped _ more => exact ih more

/-- A pattern has no empty match. -/
def NeverEmpty (p : TextPattern α) : Prop := ∀ items ∈ p, ¬ Accepts items []

/-- Where a word of the pattern stands at the front, a match does. -/
theorem exists_eats {items : List (PatternItem α)} (hp : NeverEmpty p) (hitems : items ∈ p)
    (hw : Accepts items w) (s : List α) : ∃ rest, Eats p (w ++ s) rest := by
  have hsome : (matchFront p (w ++ s)).isSome :=
    List.findSome?_isSome_iff.mpr ⟨items, hitems, matchItems_isSome hw⟩
  obtain ⟨rest, hrest⟩ := Option.isSome_iff_exists.mp hsome
  obtain ⟨other, hother, hmatch⟩ := List.exists_of_findSome?_eq_some hrest
  obtain ⟨u, hsplit, hu⟩ := matchItems_some hmatch
  refine ⟨rest, hrest, ?_⟩
  cases u with
  | nil => exact absurd hu (hp other hother)
  | cons c u =>
    rw [hsplit, List.length_append]
    exact Nat.lt_add_of_pos_left (Nat.succ_pos _)

/-- What is kept has no match. -/
theorem Cuts.not_occurs (hp : NeverEmpty p) (h : Cuts p new (ps ++ w.map .kept ++ qs)) :
    ¬ Occurs p w := by
  rintro ⟨items, hitems, u, ⟨x, y, rfl⟩, hu⟩
  cases u with
  | nil => exact hp items hitems hu
  | cons c u =>
    have hpieces : ps ++ (x ++ c :: u ++ y).map .kept ++ qs =
        (ps ++ x.map .kept) ++ (.kept c :: ((u ++ y).map .kept ++ qs)) := by simp
    rw [hpieces] at h
    cases h.drop with
    | kept hkept _ =>
      have htext : c :: textOf ((u ++ y).map .kept ++ qs) = c :: u ++ (y ++ textOf qs) := by
        rw [textOf_append, textOf_kept]
        simp
      obtain ⟨rest, hrest⟩ := exists_eats hp hitems hu (y ++ textOf qs)
      exact hkept rest (htext ▸ hrest)

end Pieces

section Ends

variable {items : List (PatternItem α)} {w : List α} {c : α}

/-- A text that the items stand for may begin with the element. -/
def canBegin (c : α) : List (PatternItem α) → Bool
  | [] => false
  | item :: items => item.accepts c || (item.least == 0 && canBegin c items)

/-- A text that the items stand for may end with the element. -/
def canEnd (c : α) : List (PatternItem α) → Bool
  | [] => false
  | item :: items => canEnd c items || (item.accepts c && items.all fun item => item.least == 0)

theorem canBegin_of_accepts (h : Accepts items w) (hc : w.head? = some c) :
    canBegin c items = true := by
  induction items generalizing w with
  | nil =>
    cases h
    cases hc
  | cons item items ih =>
    obtain ⟨u, v, rfl, hu, hleast, -, hv⟩ := h
    rw [canBegin, Bool.or_eq_true, Bool.and_eq_true, beq_iff_eq]
    cases u with
    | nil => exact .inr ⟨Nat.le_zero.mp hleast, ih hv hc⟩
    | cons d u =>
      cases Option.some.inj hc
      exact .inl (hu c List.mem_cons_self)

theorem least_of_accepts_nil (h : Accepts items []) :
    items.all (fun item => item.least == 0) = true := by
  induction items with
  | nil => rfl
  | cons item items ih =>
    obtain ⟨u, v, huv, -, hleast, -, hv⟩ := h
    obtain ⟨rfl, rfl⟩ := List.nil_eq_append_iff.mp huv
    rw [List.all_cons, ih hv, Bool.and_true, beq_iff_eq]
    exact Nat.le_zero.mp hleast

theorem canEnd_of_accepts (h : Accepts items w) (hc : w.getLast? = some c) :
    canEnd c items = true := by
  induction items generalizing w with
  | nil =>
    cases h
    cases hc
  | cons item items ih =>
    obtain ⟨u, v, rfl, hu, -, -, hv⟩ := h
    rw [canEnd, Bool.or_eq_true, Bool.and_eq_true]
    cases v with
    | nil =>
      rw [List.append_nil] at hc
      exact .inr ⟨hu c (List.mem_of_getLast? hc), least_of_accepts_nil hv⟩
    | cons d v =>
      rw [List.getLast?_append_of_ne_nil _ (List.cons_ne_nil d v)] at hc
      exact .inl (ih hv hc)

/-- A pattern with an item that has to be there has no empty match. -/
theorem neverEmpty_of_least {p : TextPattern α}
    (h : p.all (fun items => items.any fun item => item.least != 0) = true) : NeverEmpty p := by
  intro items hitems hempty
  obtain ⟨item, hitem, hleast⟩ := List.any_eq_true.mp (List.all_eq_true.mp h items hitems)
  have hzero := List.all_eq_true.mp (least_of_accepts_nil hempty) item hitem
  simp at hleast hzero
  exact hleast hzero

end Ends

namespace Replacement

variable {r : Replacement α} {rs : List (Replacement α)} {s w before after : List α}
  {ps : List (Piece α)} {marker : List α → Prop}

theorem exists_cuts (r : Replacement α) (s : List α) : ∃ ps, r.Cuts ps ∧ textOf ps = s := by
  cases hanchored : r.anchored with
  | false =>
    obtain ⟨ps, hps, htext⟩ := TextPattern.exists_cuts r.pattern r.new s
    exact ⟨ps, .all hanchored hps, htext⟩
  | true =>
    cases hfront : matchFront r.pattern s with
    | none => exact ⟨s.map .kept, .whole hanchored hfront, textOf_kept s⟩
    | some rest =>
      obtain ⟨items, hitems, hmatch⟩ := List.exists_of_findSome?_eq_some hfront
      obtain ⟨w, rfl, -⟩ := matchItems_some hmatch
      refine ⟨.swapped w r.new :: rest.map .kept, .front hanchored hfront, ?_⟩
      change w ++ textOf (rest.map .kept) = w ++ rest
      rw [textOf_kept]

theorem Cuts.apply_eq (h : r.Cuts ps) : r.apply (textOf ps) = resultOf ps := by
  cases h with
  | all hall h => rw [apply, hall, if_neg Bool.false_ne_true, h.replaceAll_eq]
  | @front w s hfront h =>
    have htext : textOf (.swapped w r.new :: s.map .kept) = w ++ s := congrArg (w ++ ·) (textOf_kept s)
    rw [apply, hfront, if_pos rfl, htext, replaceStart, h]
    exact congrArg (r.new ++ ·) (resultOf_kept s).symm
  | whole hfront h =>
    rw [apply, hfront, if_pos rfl, textOf_kept, replaceStart, h, resultOf_kept]

theorem Cuts.not_anchored (h : r.Cuts ps) (hall : r.anchored = false) :
    TextPattern.Cuts r.pattern r.new ps := by
  cases h with
  | all _ h => exact h
  | front hfront _ => exact absurd (hall.symm.trans hfront) Bool.false_ne_true
  | whole hfront _ => exact absurd (hall.symm.trans hfront) Bool.false_ne_true

/-- Every match is swapped for what is put in. -/
theorem Cuts.swapped_eq (h : r.Cuts ps) {u v : List α} (hmem : .swapped u v ∈ ps) : v = r.new := by
  have hkept {s : List α} : ¬ .swapped u v ∈ s.map Piece.kept := by
    intro hmem
    obtain ⟨_, -, heq⟩ := List.mem_map.mp hmem
    cases heq
  cases h with
  | all _ h => exact h.new_eq hmem
  | front _ _ =>
    rcases List.mem_cons.mp hmem with heq | hmem
    · cases heq
      rfl
    · exact absurd hmem hkept
  | whole _ _ => exact absurd hmem hkept

theorem LeavesSpliced.occurs (h : LeavesSpliced marker rs s) :
    ∃ w, marker w ∧ w <:+: applyAll rs s := by
  induction rs generalizing s with
  | nil => cases h
  | cons r rs ih =>
    rcases h with ⟨before, w, after, hmarker, hsplices, hsurvives⟩ | h
    · obtain ⟨ps, front, u, back, qs, hcuts, rfl, rfl, rfl, hw, -, -⟩ := hsplices
      refine ⟨w, hmarker, ?_⟩
      change w <:+: applyAll rs (r.apply _)
      rw [hcuts.apply_eq, resultOf_append, resultOf_append, ← hw]
      exact hsurvives.isInfix fun _ _ hcuts => hcuts.apply_eq
    · exact ih h

/-- The marker neither begins nor ends like something that is put in. -/
def Apart (rs : List (Replacement α)) (w : List α) : Prop :=
  ∀ r ∈ rs, ∀ c ∈ r.new, w.head? ≠ some c ∧ w.getLast? ≠ some c

/-- A text in a result stands around a place where a match was, or it was left as it is. -/
theorem splices_or_kept (hnew : r.new.length ≤ 1) (hne : w ≠ [])
    (hapart : ∀ c ∈ r.new, w.head? ≠ some c ∧ w.getLast? ≠ some c) (hcuts : r.Cuts ps)
    (h : resultOf ps = before ++ w ++ after) :
    r.Splices (textOf ps) before w after ∨
      ∃ front back, ps = front ++ w.map .kept ++ back ∧ resultOf front = before ∧
        resultOf back = after := by
  have hone : ∀ piece ∈ ps, piece.result.length ≤ 1 := by
    intro piece hpiece
    cases piece with
    | kept d => exact le_refl 1
    | swapped u v => exact hcuts.swapped_eq hpiece ▸ hnew
  have hkept {c : α} {piece : Piece α} (hmem : piece ∈ ps) (hpiece : piece.result = [c])
      (hc : w.head? = some c ∨ w.getLast? = some c) : piece = .kept c := by
    cases piece with
    | kept d => cases hpiece; rfl
    | swapped u v =>
      have hv : r.new = [c] := (hcuts.swapped_eq hmem).symm.trans hpiece
      have hmem : c ∈ r.new := hv.symm ▸ List.mem_singleton_self c
      exact hc.elim (fun hc => absurd hc (hapart c hmem).1) (fun hc => absurd hc (hapart c hmem).2)
  cases w with
  | nil => exact absurd rfl hne
  | cons x w =>
    rw [List.append_assoc, List.cons_append] at h
    obtain ⟨front, piece, rest, rfl, hfront, hpiece, hrest⟩ := resultOf_split hone h
    cases hkept (by simp) hpiece (.inl rfl)
    rcases List.eq_nil_or_concat' w with rfl | ⟨mid, z, rfl⟩
    · exact .inr ⟨front, rest, by simp, hfront, hrest⟩
    · rw [List.append_assoc, List.singleton_append] at hrest
      have hrestOne : ∀ piece ∈ rest, piece.result.length ≤ 1 := fun piece hpiece =>
        hone piece (List.mem_append_right _ (List.mem_cons_of_mem _ hpiece))
      obtain ⟨middle, piece, back, rfl, hmiddle, hpiece, hback⟩ := resultOf_split hrestOne hrest
      cases hkept (by simp) hpiece (.inr (by rw [← List.cons_append, List.getLast?_concat]))
      rcases kept_or_swapped middle with ⟨cs, rfl⟩ | ⟨inner, u, v, outer, rfl⟩
      · rw [resultOf_kept] at hmiddle
        subst cs
        exact .inr ⟨front, back, by simp, hfront, hback⟩
      · have hv : v = r.new := hcuts.swapped_eq (u := u) (by simp)
        subst hv
        refine .inl ⟨front, .kept x :: inner, u, outer ++ [.kept z], back, ?_, ?_, hfront, hback, ?_,
          List.cons_ne_nil _ _, ?_⟩
        · simpa using hcuts
        · simp
        · rw [← hmiddle]
          simp [resultOf, Piece.result]
        · rw [resultOf_append]
          exact List.append_ne_nil_of_right_ne_nil _ (List.cons_ne_nil _ _)

theorem apply_of_not_occurs (h : ¬ Occurs r.pattern s) : r.apply s = s := by
  unfold apply
  split
  · exact replaceStart_of_not_occurs h
  · exact replaceAll_of_not_occurs h

/-- Over a place where an element is put in goes no text without that element; over a place where
nothing is put in goes no single element. -/
theorem infix_of_infix_apply {x : α} (hw : w ≠ [])
    (hnew : (r.new = [x] ∧ x ∉ w) ∨ (r.new = [] ∧ w.length = 1)) (h : w <:+: r.apply s) :
    w <:+: s ∧ (r.anchored = false → NeverEmpty r.pattern → ¬ Occurs r.pattern w) := by
  obtain ⟨ps, hcuts, rfl⟩ := r.exists_cuts s
  obtain ⟨before, after, hresult⟩ := h
  rw [hcuts.apply_eq] at hresult
  have hone : r.new.length ≤ 1 := by
    rcases hnew with ⟨hnew, -⟩ | ⟨hnew, -⟩
    · exact hnew ▸ le_refl 1
    · exact hnew ▸ Nat.zero_le 1
  have hapart : ∀ c ∈ r.new, w.head? ≠ some c ∧ w.getLast? ≠ some c := by
    intro c hc
    rcases hnew with ⟨hnew, hx⟩ | ⟨hnew, -⟩
    · rw [hnew, List.mem_singleton] at hc
      subst c
      exact ⟨fun h => hx (List.mem_of_mem_head? h), fun h => hx (List.mem_of_getLast? h)⟩
    · rw [hnew] at hc
      cases hc
  rcases splices_or_kept hone hw hapart hcuts hresult.symm with hsplices | ⟨front, back, rfl, -, -⟩
  · obtain ⟨_, front, u, back, _, -, -, -, -, hspliced, hfront, hback⟩ := hsplices
    have hjoin : w = resultOf front ++ (r.new ++ resultOf back) := by
      rw [hspliced, resultOf_append]
      rfl
    rcases hnew with ⟨hnew, hx⟩ | ⟨hnew, hlen⟩
    · exact absurd (by rw [hjoin, hnew]; simp) hx
    · have hfront := List.length_pos_iff.mpr hfront
      have hback := List.length_pos_iff.mpr hback
      rw [hjoin, List.length_append, List.length_append] at hlen
      omega
  · refine ⟨⟨textOf front, textOf back, ?_⟩, fun hall hp => (hcuts.not_anchored hall).not_occurs hp⟩
    rw [textOf_append, textOf_append, textOf_kept]

theorem infix_of_infix_applyAll {x : α} (hnew : ∀ r ∈ rs, r.new = [x]) (hw : w ≠ []) (hx : x ∉ w)
    (h : w <:+: applyAll rs s) : w <:+: s := by
  induction rs generalizing s with
  | nil => exact h
  | cons r rs ih =>
    obtain ⟨hr, hnew⟩ := List.forall_mem_cons.mp hnew
    exact (infix_of_infix_apply hw (.inl ⟨hr, hx⟩) (ih hnew h)).1

/-- A marker in the result was spliced, or it was in the text and has survived all. -/
theorem spliced_or_survives (hnew : ∀ r ∈ rs, r.new.length ≤ 1) (hne : w ≠ []) (hapart : Apart rs w)
    (hmarker : marker w) (h : applyAll rs s = before ++ w ++ after) :
    LeavesSpliced marker rs s ∨ ∃ front back, s = front ++ w ++ back ∧ Survives Cuts rs front w back := by
  induction rs generalizing s with
  | nil => exact .inr ⟨before, after, h, trivial⟩
  | cons r rs ih =>
    obtain ⟨hone, hnew⟩ := List.forall_mem_cons.mp hnew
    obtain ⟨hends, hapart⟩ := List.forall_mem_cons.mp hapart
    change applyAll rs (r.apply s) = before ++ w ++ after at h
    rcases ih hnew hapart h with hlater | ⟨front, back, happly, hsurvives⟩
    · exact .inl (.inr hlater)
    · obtain ⟨ps, hcuts, rfl⟩ := r.exists_cuts s
      rw [hcuts.apply_eq] at happly
      rcases splices_or_kept hone hne hends hcuts happly with hsplices | ⟨fs, bs, rfl, rfl, rfl⟩
      · exact .inl (.inl ⟨front, w, back, hmarker, hsplices, hsurvives⟩)
      · refine .inr ⟨textOf fs, textOf bs, ?_, fs, bs, hcuts, rfl, rfl, hsurvives⟩
        rw [textOf_append, textOf_append, textOf_kept]

/-- The replacement that looks for a marker does not leave it as it is. -/
theorem not_survives (hr : r ∈ rs) (hall : r.anchored = false) (hp : NeverEmpty r.pattern)
    (hw : Occurs r.pattern w) : ¬ Survives Cuts rs before w after := by
  induction rs generalizing before after with
  | nil => cases hr
  | cons first rs ih =>
    rintro ⟨ps, qs, hcuts, -, -, hmore⟩
    rcases List.mem_cons.mp hr with rfl | hr
    · exact (hcuts.not_anchored hall).not_occurs hp hw
    · exact ih hr hmore

/-- What a marker has to be for its occurrences in the result to come from splices. -/
structure Sought (rs : List (Replacement α)) (w : List α) : Prop where
  ne_nil : w ≠ []
  apart : Apart rs w
  sought : ∃ r ∈ rs, r.anchored = false ∧ NeverEmpty r.pattern ∧ Occurs r.pattern w

/-- The result has a marker exactly when a splice leaves one. -/
theorem occurs_iff_leavesSpliced (hnew : ∀ r ∈ rs, r.new.length ≤ 1)
    (hmarker : ∀ w, marker w → Sought rs w) :
    (∃ w, marker w ∧ w <:+: applyAll rs s) ↔ LeavesSpliced marker rs s := by
  constructor
  · rintro ⟨w, hw, before, after, h⟩
    obtain ⟨hne, hapart, r, hr, hall, hp, hoccurs⟩ := hmarker w hw
    rcases spliced_or_survives hnew hne hapart hw h.symm with hspliced | ⟨_, _, -, hsurvives⟩
    · exact hspliced
    · exact absurd hsurvives (not_survives hr hall hp hoccurs)
  · exact LeavesSpliced.occurs

end Replacement

end TextPattern

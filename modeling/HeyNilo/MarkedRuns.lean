import HeyNilo.MarkedText

open TextPieces

namespace WholeWords

variable {α : Type*}

/-- The word behind `before` has been replaced. -/
def Replaced (P : List (Piece α)) (before w : List α) : Prop :=
  ∃ A new C, P = A ++ .swapped w new :: C ∧ textOf A = before

variable {cl : WholeWords α} {r : Rule α} {S : Rule α → Prop} {before after w u v s new : List α}
  {c : α} {P Q R A B C D : List (Piece α)} {piece : Piece α}

theorem Replaced.cons (h : Replaced P before w) : Replaced (piece :: P) (piece.text ++ before) w := by
  obtain ⟨A, new, C, rfl, rfl⟩ := h
  exact ⟨piece :: A, new, C, rfl, rfl⟩

theorem replaced_cons (h : Replaced (piece :: P) before w) :
    (∃ new, piece = .swapped w new ∧ before = []) ∨
      ∃ rest, before = piece.text ++ rest ∧ Replaced P rest w := by
  obtain ⟨A, new, C, hA, rfl⟩ := h
  cases A with
  | nil =>
    obtain ⟨rfl, -⟩ := List.cons.inj hA
    exact .inl ⟨new, rfl, rfl⟩
  | cons first A =>
    obtain ⟨rfl, rfl⟩ := List.cons.inj hA
    exact .inr ⟨textOf A, rfl, A, new, C, rfl, rfl⟩

theorem replaced_kept_append (h : Replaced (u.map .kept ++ P) before w) :
    ∃ rest, before = u ++ rest ∧ Replaced P rest w := by
  induction u generalizing before with
  | nil => exact ⟨before, rfl, h⟩
  | cons c u ih =>
    rcases replaced_cons h with ⟨new, hpiece, -⟩ | ⟨rest, rfl, hrest⟩
    · cases hpiece
    · obtain ⟨rest, rfl, hmore⟩ := ih hrest
      exact ⟨rest, rfl, hmore⟩

theorem Marked.text_ne_nil (hproper : ∀ r, S r → cl.Proper r) (hP : Marked cl S P) :
    ∀ piece ∈ P, piece.text ≠ [] := by
  intro piece hpiece
  cases piece with
  | kept c => exact List.cons_ne_nil _ _
  | swapped v new =>
    obtain ⟨A, C, rfl⟩ := List.append_of_mem hpiece
    obtain ⟨r, hr, -, hstands⟩ := hP A v new C rfl
    exact hstands.ne_nil (hproper r hr)

theorem Marked.replaced (hP : Marked cl S P) (h : Replaced P before w) :
    ∃ r after, S r ∧ textOf P = before ++ w ++ after ∧ cl.Stands r before w after := by
  obtain ⟨A, new, C, rfl, rfl⟩ := h
  obtain ⟨r, hr, -, hstands⟩ := hP A w new C rfl
  exact ⟨r, textOf C, hr, by rw [textOf_append]; simp [TextPieces.textOf, Piece.text], hstands⟩

/-- Pieces are cut apart in one way only. -/
theorem split_unique (hne : ∀ piece ∈ A ++ C, piece.text ≠ []) (h : A ++ C = B ++ D)
    (htext : textOf A = textOf B) : A = B := by
  have hnil {E : List (Piece α)} (hE : ∀ piece ∈ E, piece.text ≠ []) (hempty : textOf E = []) :
      E = [] := by
    cases E with
    | nil => rfl
    | cons piece E => exact absurd (List.append_eq_nil_iff.mp hempty).1 (hE piece List.mem_cons_self)
  rcases List.append_eq_append_iff.mp h with ⟨E, rfl, rfl⟩ | ⟨E, rfl, rfl⟩
  · rw [textOf_append, List.self_eq_append_right] at htext
    rw [hnil (fun piece hpiece => hne piece (by simp [hpiece])) htext, List.append_nil]
  · rw [textOf_append, List.append_right_eq_self] at htext
    rw [hnil (fun piece hpiece => hne piece (by simp [hpiece])) htext, List.append_nil]

/-- A text can be cut where no word has been replaced around the place. -/
theorem split_at (htext : textOf P = u ++ v)
    (hapart : ∀ x y, Replaced P x y → x.length + y.length ≤ u.length ∨ u.length ≤ x.length) :
    ∃ A C, P = A ++ C ∧ textOf A = u ∧ textOf C = v := by
  induction P generalizing u with
  | nil =>
    obtain ⟨rfl, rfl⟩ := List.append_eq_nil_iff.mp htext.symm
    exact ⟨[], [], rfl, rfl, rfl⟩
  | cons piece P ih =>
    have hcons : textOf (piece :: P) = piece.text ++ textOf P := rfl
    by_cases hu : u = []
    · subst hu
      exact ⟨[], piece :: P, rfl, rfl, htext⟩
    have hpos : 0 < u.length := List.length_pos_iff.mpr hu
    have hlen : piece.text.length ≤ u.length := by
      cases piece with
      | kept c => exact hpos
      | swapped w new =>
        have hfirst : Replaced (.swapped w new :: P) [] w := ⟨[], new, P, rfl, rfl⟩
        rcases hapart [] w hfirst with h | h
        · exact (Nat.zero_add w.length).symm.trans_le h
        · exact absurd h (Nat.not_le.mpr hpos)
    obtain ⟨rest, rfl⟩ : piece.text <+: u :=
      List.prefix_of_prefix_length_le ⟨_, hcons.symm.trans htext⟩ ⟨_, rfl⟩ hlen
    rw [hcons, List.append_assoc, List.append_cancel_left_eq] at htext
    obtain ⟨A, C, rfl, hA, hC⟩ := ih htext fun x y hxy => by
      have h := hapart _ y hxy.cons
      rw [List.length_append, List.length_append] at h
      omega
    exact ⟨piece :: A, C, rfl, congrArg (piece.text ++ ·) hA, hC⟩

theorem Replaced.append_left (h : Replaced P before w) :
    Replaced (A ++ P) (textOf A ++ before) w := by
  obtain ⟨B, new, C, rfl, rfl⟩ := h
  exact ⟨A ++ B, new, C, (List.append_assoc _ _ _).symm, textOf_append _ _⟩

theorem Replaced.append_right (h : Replaced P before w) : Replaced (P ++ C) before w := by
  obtain ⟨B, new, D, rfl, rfl⟩ := h
  exact ⟨B, new, D ++ C, by simp, rfl⟩

/-- A part of the text of which nothing has been replaced is there as it was. -/
theorem split_kept (hne : ∀ piece ∈ P, piece.text ≠ []) (htext : textOf P = before ++ w ++ after)
    (hapart : ∀ x y, Replaced P x y →
      x.length + y.length ≤ before.length ∨ before.length + w.length ≤ x.length) :
    ∃ A C, P = A ++ (w.map .kept ++ C) ∧ textOf A = before ∧ textOf C = after := by
  rw [List.append_assoc] at htext
  obtain ⟨A, P, rfl, rfl, hP⟩ := split_at htext fun x y hxy => (hapart x y hxy).imp_right (by omega)
  obtain ⟨B, C, rfl, rfl, rfl⟩ := split_at hP fun x y hxy => by
    have h := hapart _ y hxy.append_left
    rw [List.length_append] at h
    omega
  rcases kept_or_swapped B with ⟨s, rfl⟩ | ⟨front, y, new, back, rfl⟩
  · exact ⟨A, C, by rw [textOf_kept], rfl, rfl⟩
  · have hy : 0 < y.length := List.length_pos_iff.mpr (hne (.swapped y new) (by simp))
    have hinside : Replaced (front ++ .swapped y new :: back) (textOf front) y :=
      ⟨front, new, back, rfl, rfl⟩
    have h := hapart _ y hinside.append_right.append_left
    rw [List.length_append, textOf_append] at h
    simp only [textOf, List.flatMap_cons, Piece.text, List.length_append] at h
    omega

/-- Kept pieces that have as much text as the pieces at their front are these. -/
theorem kept_eq_append (h : w.map .kept = A ++ C) (hlen : w.length ≤ (textOf A).length) : C = [] := by
  obtain ⟨x, y, rfl, rfl, rfl⟩ := List.map_eq_append_iff.mp h
  rw [textOf_kept, List.length_append] at hlen
  have hy : y.length = 0 := by omega
  rw [List.length_eq_zero_iff.mp hy]
  rfl

theorem not_replaced_kept : ¬ Replaced (s.map .kept) before w := by
  rintro ⟨A, new, C, h, -⟩
  have hmem : Piece.swapped w new ∈ s.map Piece.kept := h ▸ by simp
  obtain ⟨c, -, hc⟩ := List.mem_map.mp hmem
  cases hc

theorem kept_parts (h : s.map .kept = A ++ (B ++ C)) :
    resultOf A = textOf A ∧ resultOf B = textOf B ∧ resultOf C = textOf C := by
  obtain ⟨u, v, rfl, rfl, hv⟩ := List.map_eq_append_iff.mp h
  obtain ⟨x, y, rfl, rfl, rfl⟩ := List.map_eq_append_iff.mp hv
  simp

/-- Words that have been replaced do not overlap. -/
theorem replaced_apart (hv : Replaced P u v) (hw : Replaced P before w) :
    (u = before ∧ v = w) ∨ u.length + v.length ≤ before.length ∨
      before.length + w.length ≤ u.length := by
  obtain ⟨A, new, C, rfl, rfl⟩ := hv
  obtain ⟨B, new', D, hsplit, rfl⟩ := hw
  have hbehind {A B E C D : List (Piece α)} {v w new new' : List α} (hB : B = A ++ E)
      (hE : .swapped v new :: C = E ++ .swapped w new' :: D) : (textOf A = textOf B ∧ v = w) ∨
        (textOf A).length + v.length ≤ (textOf B).length := by
    subst hB
    cases E with
    | nil =>
      obtain ⟨hpiece, -⟩ := List.cons.inj hE
      cases hpiece
      exact .inl ⟨by rw [List.append_nil], rfl⟩
    | cons piece E =>
      obtain ⟨rfl, -⟩ := List.cons.inj hE
      refine .inr ?_
      rw [textOf_append, List.length_append]
      simp only [textOf, List.flatMap_cons, Piece.text, List.length_append]
      omega
  rcases List.append_eq_append_iff.mp hsplit with ⟨E, hB, hE⟩ | ⟨E, hA, hE⟩
  · exact (hbehind hB hE).imp_right .inl
  · rcases hbehind hA hE with ⟨hbefore, rfl⟩ | hlen
    · exact .inl ⟨hbefore.symm, rfl⟩
    · exact .inr (.inr hlen)

variable [DecidableEq α]

theorem Acts.replaced_stays (h : Acts cl r before P Q R) (hP : Replaced P u w) : Replaced Q u w := by
  induction h generalizing u with
  | nil => exact hP
  | kept _ _ ih =>
    rcases replaced_cons hP with ⟨new, hpiece, -⟩ | ⟨rest, rfl, hrest⟩
    · cases hpiece
    · exact (ih hrest).cons
  | @swapped before v new P Q R _ ih =>
    rcases replaced_cons hP with ⟨new, hpiece, rfl⟩ | ⟨rest, rfl, hrest⟩
    · cases hpiece
      exact ⟨[], new, Q, rfl, rfl⟩
    · exact (ih hrest).cons
  | @word before v P Q R _ _ ih =>
    obtain ⟨rest, rfl, hrest⟩ := replaced_kept_append hP
    exact (ih hrest).cons

/-- What has been replaced now was a word of what is shown. -/
theorem Acts.replaced_new (h : Acts cl r before P Q R) (hQ : Replaced Q u w) : Replaced P u w ∨
    ∃ A C, P = A ++ (w.map .kept ++ C) ∧ textOf A = u ∧
      cl.Stands r (before ++ resultOf A) w (resultOf C) := by
  induction h generalizing u with
  | nil => exact .inl hQ
  | @kept before c P Q R _ _ ih =>
    rcases replaced_cons hQ with ⟨new, hpiece, -⟩ | ⟨rest, rfl, hrest⟩
    · cases hpiece
    · rcases ih hrest with hP | ⟨A, C, rfl, rfl, hstands⟩
      · exact .inl hP.cons
      · exact .inr ⟨.kept c :: A, C, rfl, rfl, by rwa [List.append_assoc] at hstands⟩
  | @swapped before v new P Q R _ ih =>
    rcases replaced_cons hQ with ⟨new, hpiece, rfl⟩ | ⟨rest, rfl, hrest⟩
    · cases hpiece
      exact .inl ⟨[], new, P, rfl, rfl⟩
    · rcases ih hrest with hP | ⟨A, C, rfl, rfl, hstands⟩
      · exact .inl hP.cons
      · exact .inr ⟨.swapped v new :: A, C, rfl, rfl, by rwa [List.append_assoc] at hstands⟩
  | @word before v P Q R h _ ih =>
    rcases replaced_cons hQ with ⟨new, hpiece, rfl⟩ | ⟨rest, rfl, hrest⟩
    · cases hpiece
      refine .inr ⟨[], P, rfl, rfl, ?_⟩
      change cl.Stands r (before ++ []) _ _
      rwa [List.append_nil]
    · rcases ih hrest with hP | ⟨A, C, rfl, rfl, hstands⟩
      · have happend := hP.append_left (A := v.map .kept)
        rw [textOf_kept] at happend
        exact .inl happend
      · refine .inr ⟨v.map .kept ++ A, C, by simp, ?_, ?_⟩
        · rw [textOf_append, textOf_kept]
          rfl
        · rwa [resultOf_append, resultOf_kept, ← List.append_assoc]

/-- A word of what is shown is replaced, or one that begins before it and goes into it is. -/
theorem Acts.reaches (h : Acts cl r before P Q R) (hP : P = A ++ (w.map .kept ++ C)) (hw : w ≠ [])
    (hstands : cl.Stands r (before ++ resultOf A) w (resultOf C)) :
    Replaced Q (textOf A) w ∨ ∃ x y, Replaced Q x y ∧ x.length < (textOf A).length ∧
      (textOf A).length < x.length + y.length := by
  induction h generalizing A with
  | nil =>
    obtain ⟨-, hkept⟩ := List.append_eq_nil_iff.mp hP.symm
    exact absurd (List.map_eq_nil_iff.mp (List.append_eq_nil_iff.mp hkept).1) hw
  | @kept before c P Q R hnone _ ih =>
    cases A with
    | nil =>
      obtain ⟨d, v, rfl⟩ := List.exists_cons_of_ne_nil hw
      obtain ⟨hpiece, hrest⟩ := List.cons.inj hP
      cases hpiece
      have hshown : resultOf P = v ++ resultOf C := by
        rw [hrest]
        change resultOf (v.map .kept ++ C) = _
        rw [resultOf_append, resultOf_kept]
      have hsome := hstands.matchAt hw
      change (cl.rewrite r).matchAt (before ++ []) _ = _ at hsome
      rw [List.append_nil, List.cons_append, ← hshown] at hsome
      cases hnone.symm.trans hsome
    | cons piece A =>
      obtain ⟨rfl, rfl⟩ := List.cons.inj hP
      rcases ih rfl (by rw [List.append_assoc]; exact hstands) with hQ | ⟨x, y, hQ, hx, hy⟩
      · exact .inl hQ.cons
      · refine .inr ⟨_, y, hQ.cons, ?_, ?_⟩
        · exact Nat.succ_lt_succ hx
        · change (textOf A).length + 1 < x.length + 1 + y.length
          omega
  | @swapped before v new P Q R _ ih =>
    cases A with
    | nil =>
      obtain ⟨d, w, rfl⟩ := List.exists_cons_of_ne_nil hw
      cases (List.cons.inj hP).1
    | cons piece A =>
      obtain ⟨rfl, rfl⟩ := List.cons.inj hP
      have hcons : textOf (.swapped v new :: A) = v ++ textOf A := rfl
      rcases ih rfl (by rw [List.append_assoc]; exact hstands) with hQ | ⟨x, y, hQ, hx, hy⟩
      · exact .inl hQ.cons
      · refine .inr ⟨_, y, hQ.cons, ?_, ?_⟩
        · rw [hcons, List.length_append, List.length_append]
          exact Nat.add_lt_add_left hx _
        · rw [hcons, List.length_append, List.length_append]
          change v.length + _ < v.length + x.length + _
          omega
  | @word before v P Q R hv _ ih =>
    have hfirst : Replaced (.swapped v r.new :: Q) [] v := ⟨[], r.new, Q, rfl, rfl⟩
    have hlonger {B : List (Piece α)} (hA : A = v.map .kept ++ B)
        (hrest : P = B ++ (w.map .kept ++ C)) :
        Replaced (.swapped v r.new :: Q) (textOf A) w ∨
          ∃ x y, Replaced (.swapped v r.new :: Q) x y ∧ x.length < (textOf A).length ∧
            (textOf A).length < x.length + y.length := by
      subst hA
      rw [resultOf_append, resultOf_kept, ← List.append_assoc] at hstands
      rw [textOf_append, textOf_kept]
      rcases ih hrest hstands with hQ | ⟨x, y, hQ, hx, hy⟩
      · exact .inl hQ.cons
      · refine .inr ⟨_, y, hQ.cons, ?_, ?_⟩
        · rw [List.length_append, List.length_append]
          exact Nat.add_lt_add_left hx _
        · rw [List.length_append, List.length_append]
          change v.length + _ < v.length + x.length + _
          omega
    rcases List.append_eq_append_iff.mp hP with ⟨B, hA, hrest⟩ | ⟨B, hA, hrest⟩
    · exact hlonger hA hrest
    · cases A with
      | nil =>
        change cl.Stands r (before ++ []) w _ at hstands
        have hlen : v.length = w.length := by rw [hv.length_eq, hstands.length_eq]
        rw [List.nil_append] at hA
        subst hA
        have hvw : v.map Piece.kept = w.map .kept :=
          (List.append_inj hrest (by rw [List.length_map, List.length_map, hlen])).1.symm
        have hinj : Function.Injective (Piece.kept : α → Piece α) := fun _ _ h => Piece.kept.inj h
        rw [← hinj.list_map hvw]
        exact .inl hfirst
      | cons piece A =>
        obtain ⟨x, y, rfl, hx, rfl⟩ := List.map_eq_append_iff.mp hA
        cases y with
        | nil =>
          have hall : piece :: A = (x ++ []).map .kept ++ [] := by
            rw [List.append_nil, List.append_nil, hx]
          exact hlonger hall hrest.symm
        | cons d y =>
          refine .inr ⟨[], x ++ d :: y, hfirst, ?_, ?_⟩
          · rw [← hx, textOf_kept]
            have hlength := congrArg List.length hx
            rw [List.length_map, List.length_cons] at hlength
            rw [hlength]
            exact Nat.succ_pos _
          · rw [← hx, textOf_kept, List.length_append, List.length_nil, List.length_cons]
            omega

theorem Acts.shown_ne_nil (h : Acts cl r before P Q R) (hr : cl.Proper r) :
    ∀ piece ∈ R, piece.text ≠ [] := by
  induction h with
  | nil => exact fun _ hpiece => absurd hpiece List.not_mem_nil
  | kept _ _ ih => exact List.forall_mem_cons.mpr ⟨List.cons_ne_nil _ _, ih⟩
  | swapped _ ih =>
    intro piece hpiece
    rcases List.mem_append.mp hpiece with hpiece | hpiece
    · obtain ⟨c, -, rfl⟩ := List.mem_map.mp hpiece
      exact List.cons_ne_nil _ _
    · exact ih piece hpiece
  | word h _ ih => exact List.forall_mem_cons.mpr ⟨h.ne_nil hr, ih⟩

theorem Acts.split_nil {R₁ R₂ : List (Piece α)} (h : Acts cl r before P Q R) (hr : cl.Proper r)
    (hR : R = R₁ ++ R₂) (htext : textOf R₁ = []) :
    ∃ Q₁ Q₂, Q = Q₁ ++ Q₂ ∧ textOf Q₁ = [] ∧ resultOf Q₁ = resultOf R₁ ∧
      Acts cl r (before ++ []) P Q₂ R₂ := by
  subst hR
  cases R₁ with
  | nil =>
    refine ⟨[], Q, rfl, rfl, rfl, ?_⟩
    rwa [List.append_nil]
  | cons piece R₁ =>
    exact absurd (List.append_eq_nil_iff.mp htext).1 (h.shown_ne_nil hr piece List.mem_cons_self)

/-- A part of what is shown that the rule cuts off is a part of what it makes of the text. -/
theorem Acts.split {R₁ R₂ : List (Piece α)} (h : Acts cl r before P Q R) (hr : cl.Proper r)
    (hP : P = A ++ C) (hR : R = R₁ ++ R₂) (htext : textOf R₁ = resultOf A) :
    ∃ Q₁ Q₂, Q = Q₁ ++ Q₂ ∧ textOf Q₁ = textOf A ∧ resultOf Q₁ = resultOf R₁ ∧
      Acts cl r (before ++ resultOf A) C Q₂ R₂ := by
  induction h generalizing A R₁ with
  | nil =>
    obtain ⟨rfl, rfl⟩ := List.append_eq_nil_iff.mp hP.symm
    exact Acts.nil.split_nil hr hR htext
  | @kept before c P Q R hnone more ih =>
    cases A with
    | nil =>
      rw [List.nil_append] at hP
      exact hP ▸ (Acts.kept hnone more).split_nil hr hR htext
    | cons piece A =>
      obtain ⟨rfl, rfl⟩ := List.cons.inj hP
      cases R₁ with
      | nil => cases htext
      | cons piece R₁ =>
        obtain ⟨rfl, rfl⟩ := List.cons.inj hR
        obtain ⟨Q₁, Q₂, rfl, hQ, hresult, hmore⟩ := ih rfl rfl (List.cons.inj htext).2
        rw [List.append_assoc] at hmore
        exact ⟨.kept c :: Q₁, Q₂, rfl, congrArg (List.cons c) hQ, congrArg (List.cons c) hresult, hmore⟩
  | @swapped before v new P Q R more ih =>
    cases A with
    | nil =>
      rw [List.nil_append] at hP
      exact hP ▸ (Acts.swapped more).split_nil hr hR htext
    | cons piece A =>
      obtain ⟨rfl, rfl⟩ := List.cons.inj hP
      have hshown : textOf R₁ = new ++ resultOf A := htext
      obtain ⟨E, rfl, rfl⟩ : ∃ E, R₁ = new.map .kept ++ E ∧ R = E ++ R₂ := by
        rcases List.append_eq_append_iff.mp hR with ⟨E, hE, hR⟩ | ⟨E, hE, hR⟩
        · exact ⟨E, hE, hR⟩
        · have hnil : E = [] := kept_eq_append hE (by rw [hshown, List.length_append]; omega)
          subst hnil
          rw [List.append_nil] at hE
          exact ⟨[], by rw [hE, List.append_nil], hR.symm⟩
      rw [textOf_append, textOf_kept, List.append_cancel_left_eq] at hshown
      obtain ⟨Q₁, Q₂, rfl, hQ, hresult, hmore⟩ := ih rfl rfl hshown
      rw [List.append_assoc] at hmore
      refine ⟨.swapped v new :: Q₁, Q₂, rfl, congrArg (v ++ ·) hQ, ?_, hmore⟩
      rw [resultOf_append, resultOf_kept, ← hresult]
      rfl
  | @word before w P Q R hw more ih =>
    cases A with
    | nil =>
      rw [List.nil_append] at hP
      exact hP ▸ (Acts.word hw more).split_nil hr hR htext
    | cons piece A =>
      cases R₁ with
      | nil =>
        exfalso
        rcases List.append_eq_append_iff.mp hP with ⟨E, hA, -⟩ | ⟨E, hA, -⟩
        · rw [hA, resultOf_append, resultOf_kept] at htext
          exact hw.ne_nil hr (List.append_eq_nil_iff.mp htext.symm).1
        · obtain ⟨x, y, -, hx, -⟩ := List.map_eq_append_iff.mp hA
          rw [← hx, resultOf_kept] at htext
          cases x with
          | nil => cases hx
          | cons d x => cases htext
      | cons first R₁ =>
        obtain ⟨rfl, rfl⟩ := List.cons.inj hR
        have hshown : w ++ textOf R₁ = resultOf (piece :: A) := htext
        obtain ⟨E, hA, rfl⟩ : ∃ E, piece :: A = w.map .kept ++ E ∧ P = E ++ C := by
          rcases List.append_eq_append_iff.mp hP with ⟨E, hE, hrest⟩ | ⟨E, hE, hrest⟩
          · exact ⟨E, hE, hrest⟩
          · obtain ⟨x, y, rfl, hx, hy⟩ := List.map_eq_append_iff.mp hE
            have hlength := congrArg List.length hshown
            rw [← hx, resultOf_kept, List.length_append, List.length_append] at hlength
            have hnil : y = [] := List.length_eq_zero_iff.mp (by omega)
            subst hnil
            rw [← hy, List.map_nil, List.nil_append] at hrest
            exact ⟨[], by rw [List.append_nil, List.append_nil, hx], hrest.symm⟩
        rw [hA, resultOf_append, resultOf_kept] at hshown
        obtain ⟨Q₁, Q₂, rfl, hQ, hresult, hmore⟩ :=
          ih rfl rfl (List.append_cancel_left_eq w _ _ ▸ hshown)
        rw [List.append_assoc] at hmore
        refine ⟨.swapped w r.new :: Q₁, Q₂, rfl, ?_, congrArg (r.new ++ ·) hresult, ?_⟩
        · rw [hA, textOf_append, textOf_kept, ← hQ]
          rfl
        · rwa [hA, resultOf_append, resultOf_kept]

/-- The rules make `F` of the text, one after the other. -/
def Runs (cl : WholeWords α) : List (Rule α) → (P F : List (Piece α)) → Prop
  | [], P, F => P = F
  | r :: rs, P, F => ∃ Q R, Acts cl r [] P Q R ∧ Runs cl rs Q F

/-- Rules of which none finds anything in what an earlier one has put in. -/
structure Compatible (cl : WholeWords α) (rules : List (Rule α)) : Prop where
  proper : ∀ r ∈ rules, cl.Proper r
  ignores : rules.Pairwise fun earlier later => cl.Ignores later earlier.new
  nodup : (rules.map (·.old)).Nodup

variable {rs rules front back : List (Rule α)} {F : List (Piece α)}

theorem runs_append : Runs cl (front ++ back) P F ↔ ∃ Q, Runs cl front P Q ∧ Runs cl back Q F := by
  induction front generalizing P with
  | nil => exact ⟨fun h => ⟨P, rfl, h⟩, fun ⟨_, hQ, h⟩ => hQ ▸ h⟩
  | cons r front ih =>
    constructor
    · rintro ⟨Q, R, hacts, hruns⟩
      obtain ⟨Q', hfront, hback⟩ := ih.mp hruns
      exact ⟨Q', ⟨Q, R, hacts, hfront⟩, hback⟩
    · rintro ⟨Q', ⟨Q, R, hacts, hfront⟩, hback⟩
      exact ⟨Q, R, hacts, ih.mpr ⟨Q', hfront, hback⟩⟩

theorem Runs.textOf_eq (h : Runs cl rs P F) : textOf F = textOf P := by
  induction rs generalizing P with
  | nil => exact congrArg textOf (Eq.symm h)
  | cons r rs ih =>
    obtain ⟨Q, R, hacts, hruns⟩ := h
    rw [ih hruns, hacts.textOf_eq]

theorem Runs.replaced_stays (h : Runs cl rs P F) (hP : Replaced P u w) : Replaced F u w := by
  induction rs generalizing P with
  | nil =>
    have heq : P = F := h
    exact heq ▸ hP
  | cons r rs ih =>
    obtain ⟨Q, R, hacts, hruns⟩ := h
    exact ih hruns (hacts.replaced_stays hP)

theorem Runs.replaced_new (h : Runs cl rs P F) (hF : Replaced F u w) :
    Replaced P u w ∨ w.map cl.fold ∈ rs.map (·.old) := by
  induction rs generalizing P with
  | nil =>
    have heq : P = F := h
    exact .inl (heq ▸ hF)
  | cons r rs ih =>
    obtain ⟨Q, R, hacts, hruns⟩ := h
    rcases ih hruns with hQ | hold
    · rcases hacts.replaced_new hQ with hP | ⟨A, C, -, -, hstands⟩
      · exact .inl hP
      · exact .inr (hstands.text ▸ List.mem_cons_self)
    · exact .inr (List.mem_cons_of_mem _ hold)

theorem Compatible.of_append (h : Compatible cl (front ++ back)) : Compatible cl front :=
  ⟨fun r hr => h.proper r (List.mem_append_left _ hr), (List.pairwise_append.mp h.ignores).1,
    (List.nodup_append.mp (List.map_append ▸ h.nodup)).1⟩

/-- The rules can be applied one after the other. -/
theorem exists_runs (h : Compatible cl (front ++ rs)) (hP : Marked cl (· ∈ front) P) :
    ∃ F, Runs cl rs P F := by
  induction rs generalizing front P with
  | nil => exact ⟨P, rfl⟩
  | cons r rs ih =>
    have hr : cl.Proper r := h.proper r (by simp)
    have hfront : ∀ r' ∈ front, cl.Proper r' := fun r' hr' => h.proper r' (by simp [hr'])
    have hignores : ∀ r' ∈ front, cl.Ignores r r'.new := fun r' hr' =>
      (List.pairwise_append.mp h.ignores).2.2 r' hr' r List.mem_cons_self
    obtain ⟨Q, R, hacts⟩ := exists_acts (A := []) hfront hr hignores hP
    have hQ : Marked cl (· ∈ front ++ [r]) Q := (hacts.marked hfront hr hP).mono fun r' hr' => by
      simpa using hr'
    obtain ⟨F, hF⟩ := ih (by simpa using h) hQ
    exact ⟨F, Q, R, hacts, hF⟩

theorem exists_runs_kept (h : Compatible cl rs) (s : List α) : ∃ F, Runs cl rs (s.map .kept) F :=
  exists_runs (show Compatible cl ([] ++ rs) from h) (marked_kept s)

theorem Runs.marked (h : Runs cl rs P F) (hrules : Compatible cl (front ++ rs))
    (hP : Marked cl (· ∈ front) P) : Marked cl (· ∈ front ++ rs) F := by
  induction rs generalizing front P with
  | nil =>
    have heq : P = F := h
    rw [List.append_nil]
    exact heq ▸ hP
  | cons r rs ih =>
    obtain ⟨Q, R, hacts, hruns⟩ := h
    have hQ : Marked cl (· ∈ front ++ [r]) Q := (hacts.marked
      (fun r' hr' => hrules.proper r' (by simp [hr'])) (hrules.proper r (by simp)) hP).mono
        fun r' hr' => by simpa using hr'
    have hF := ih hruns (by simpa using hrules) hQ
    simpa using hF

theorem Runs.marked_kept (h : Runs cl rs (s.map .kept) F) (hrules : Compatible cl rs) :
    Marked cl (· ∈ rs) F :=
  h.marked (show Compatible cl ([] ++ rs) from hrules) (WholeWords.marked_kept s)

/-- Where what a rule makes of a text is cut apart, the text is too. -/
theorem Acts.unsplit {Q₁ Q₂ : List (Piece α)} (h : Acts cl r before P Q R) (hQ : Q = Q₁ ++ Q₂) :
    ∃ A C R₁ R₂, P = A ++ C ∧ R = R₁ ++ R₂ ∧ textOf A = textOf Q₁ ∧ textOf R₁ = resultOf A ∧
      resultOf R₁ = resultOf Q₁ ∧ Acts cl r (before ++ resultOf A) C Q₂ R₂ := by
  induction h generalizing Q₁ with
  | nil =>
    obtain ⟨rfl, rfl⟩ := List.append_eq_nil_iff.mp hQ.symm
    exact ⟨[], [], [], [], rfl, rfl, rfl, rfl, rfl, .nil⟩
  | @kept before c P Q R hnone more ih =>
    cases Q₁ with
    | nil =>
      subst hQ
      refine ⟨[], _, [], _, rfl, rfl, rfl, rfl, rfl, ?_⟩
      change Acts cl r (before ++ []) _ _ _
      rw [List.append_nil]
      exact .kept hnone more
    | cons piece Q₁ =>
      obtain ⟨rfl, rfl⟩ := List.cons.inj hQ
      obtain ⟨A, C, R₁, R₂, rfl, rfl, hA, hR, hresult, hmore⟩ := ih rfl
      rw [List.append_assoc] at hmore
      exact ⟨.kept c :: A, C, .kept c :: R₁, R₂, rfl, rfl, congrArg (List.cons c) hA,
        congrArg (List.cons c) hR, congrArg (List.cons c) hresult, hmore⟩
  | @swapped before v new P Q R more ih =>
    cases Q₁ with
    | nil =>
      subst hQ
      refine ⟨[], _, [], _, rfl, rfl, rfl, rfl, rfl, ?_⟩
      change Acts cl r (before ++ []) _ _ _
      rw [List.append_nil]
      exact .swapped more
    | cons piece Q₁ =>
      obtain ⟨rfl, rfl⟩ := List.cons.inj hQ
      obtain ⟨A, C, R₁, R₂, rfl, rfl, hA, hR, hresult, hmore⟩ := ih rfl
      rw [List.append_assoc] at hmore
      refine ⟨.swapped v new :: A, C, new.map .kept ++ R₁, R₂, rfl, by rw [List.append_assoc],
        congrArg (v ++ ·) hA, ?_, ?_, hmore⟩
      · rw [textOf_append, textOf_kept, hR]
        rfl
      · rw [resultOf_append, resultOf_kept, hresult]
        rfl
  | @word before w P Q R hw more ih =>
    cases Q₁ with
    | nil =>
      subst hQ
      refine ⟨[], _, [], _, rfl, rfl, rfl, rfl, rfl, ?_⟩
      change Acts cl r (before ++ []) _ _ _
      rw [List.append_nil]
      exact .word hw more
    | cons piece Q₁ =>
      obtain ⟨rfl, rfl⟩ := List.cons.inj hQ
      obtain ⟨A, C, R₁, R₂, rfl, rfl, hA, hR, hresult, hmore⟩ := ih rfl
      rw [List.append_assoc] at hmore
      refine ⟨w.map .kept ++ A, C, .swapped w r.new :: R₁, R₂, by rw [List.append_assoc], rfl, ?_, ?_,
        congrArg (r.new ++ ·) hresult, ?_⟩
      · rw [textOf_append, textOf_kept, hA]
        rfl
      · rw [resultOf_append, resultOf_kept, ← hR]
        rfl
      · rwa [resultOf_append, resultOf_kept]

/-- What is kept was there before. -/
theorem Acts.unkept (h : Acts cl r before P (w.map .kept ++ Q) R) : ∃ P' R',
    P = w.map .kept ++ P' ∧ R = w.map .kept ++ R' ∧ Acts cl r (before ++ w) P' Q R' := by
  induction w generalizing before P R with
  | nil =>
    refine ⟨P, R, rfl, rfl, ?_⟩
    rwa [List.append_nil]
  | cons c w ih =>
    cases h with
    | kept hnone more =>
      obtain ⟨P', R', rfl, rfl, hmore⟩ := ih more
      exact ⟨P', R', rfl, rfl, by rwa [List.append_assoc] at hmore⟩

/-- The rule is applied to a text of which earlier rules have replaced words. -/
theorem Compatible.acts_cut (hrules : Compatible cl (front ++ r :: rs))
    (hP : Marked cl (· ∈ front) P) (h : Acts cl r [] P Q R) :
    (cl.rewrite r).cut (resultOf P) = R := by
  refine h.cut_eq (hrules.proper r (by simp)) fun v new hmem => ?_
  obtain ⟨A, C, rfl⟩ := List.append_of_mem hmem
  obtain ⟨r', hr', rfl, -⟩ := hP A v new C rfl
  exact (List.pairwise_append.mp hrules.ignores).2.2 r' hr' r List.mem_cons_self

theorem Compatible.acts_marked (hrules : Compatible cl (front ++ r :: rs))
    (hP : Marked cl (· ∈ front) P) (h : Acts cl r [] P Q R) : Marked cl (· ∈ front ++ [r]) Q :=
  (h.marked (fun r' hr' => hrules.proper r' (by simp [hr'])) (hrules.proper r (by simp)) hP).mono
    fun r' hr' => by simpa using hr'

/-- What the rules make of a part of the text shows in the pieces. -/
theorem Runs.of_becomes {p : List α → List α → List α → Prop} (h : Runs cl rs P F)
    (hrules : Compatible cl (front ++ rs)) (hP : Marked cl (· ∈ front) P) (hsplit : P = A ++ (B ++ C))
    (hbecomes : Becomes Rewrite.Cuts p (rs.map cl.rewrite) (resultOf A) (resultOf B) (resultOf C)) :
    ∃ A' B' C', F = A' ++ (B' ++ C') ∧ textOf A' = textOf A ∧ textOf B' = textOf B ∧
      textOf C' = textOf C ∧ p (resultOf A') (resultOf B') (resultOf C') := by
  induction rs generalizing front P A B C with
  | nil =>
    have heq : P = F := h
    exact ⟨A, B, C, heq ▸ hsplit, rfl, rfl, rfl, hbecomes⟩
  | cons r rs ih =>
    obtain ⟨Q, R, hacts, hruns⟩ := h
    obtain ⟨ps, ms, qs, hcuts, hps, hms, hqs, hmore⟩ := hbecomes
    have hr : cl.Proper r := hrules.proper r (by simp)
    have hR : R = ps ++ (ms ++ qs) := by
      rw [← hrules.acts_cut hP hacts, hsplit, resultOf_append, resultOf_append, ← hps, ← hms, ← hqs,
        ← textOf_append, ← textOf_append, ← List.append_assoc]
      exact hcuts
    have hQ := hrules.acts_marked hP hacts
    obtain ⟨A', Q', rfl, hA, hresultA, htail⟩ := hacts.split hr hsplit hR hps
    obtain ⟨B', C', rfl, hB, hresultB, hlast⟩ := htail.split hr rfl rfl hms
    rw [hresultA.symm, hresultB.symm, ← hlast.resultOf_eq.symm] at hmore
    obtain ⟨A'', B'', C'', hF, hA', hB', hC', hp⟩ := ih hruns (by simpa using hrules) hQ rfl hmore
    exact ⟨A'', B'', C'', hF, hA'.trans hA, hB'.trans hB, hC'.trans hlast.textOf_eq, hp⟩

/-- A part of the pieces shows what the rules make of a part of the text. -/
theorem Runs.becomes {p : List α → List α → List α → Prop} {A' B' C' : List (Piece α)}
    (h : Runs cl rs P F) (hrules : Compatible cl (front ++ rs)) (hP : Marked cl (· ∈ front) P)
    (hF : F = A' ++ (B' ++ C')) (hp : p (resultOf A') (resultOf B') (resultOf C')) :
    ∃ A B C, P = A ++ (B ++ C) ∧ textOf A = textOf A' ∧ textOf B = textOf B' ∧
      textOf C = textOf C' ∧
        Becomes Rewrite.Cuts p (rs.map cl.rewrite) (resultOf A) (resultOf B) (resultOf C) := by
  induction rs generalizing front P with
  | nil =>
    have heq : P = F := h
    exact ⟨A', B', C', heq.trans hF, rfl, rfl, rfl, hp⟩
  | cons r rs ih =>
    obtain ⟨Q, R, hacts, hruns⟩ := h
    have hQ := hrules.acts_marked hP hacts
    obtain ⟨A₁, B₁, C₁, hsplit, hA₁, hB₁, hC₁, hbecomes⟩ := ih hruns (by simpa using hrules) hQ
    have hcut := hrules.acts_cut hP hacts
    obtain ⟨A, P', ps, R', rfl, rfl, hA, hps, hresultA, htail⟩ := hacts.unsplit hsplit
    obtain ⟨B, C, ms, qs, rfl, rfl, hB, hms, hresultB, hlast⟩ := htail.unsplit rfl
    refine ⟨A, B, C, rfl, hA.trans hA₁, hB.trans hB₁, hlast.textOf_eq.symm.trans hC₁, ps, ms, qs, ?_,
      hps, hms, hlast.textOf_shown, ?_⟩
    · have htext : textOf (ps ++ ms ++ qs) = resultOf (A ++ (B ++ C)) := by
        rw [textOf_append, textOf_append, hps, hms, hlast.textOf_shown, resultOf_append,
          resultOf_append, List.append_assoc]
      rw [Rewrite.Cuts, htext, hcut, List.append_assoc]
    · rw [hresultA, hresultB, hlast.resultOf_eq]
      exact hbecomes

/-- What is kept in the end has survived. -/
theorem Runs.survives {A' C' : List (Piece α)} (h : Runs cl rs P F)
    (hrules : Compatible cl (front ++ rs)) (hP : Marked cl (· ∈ front) P)
    (hF : F = A' ++ (w.map .kept ++ C')) :
    ∃ A C, P = A ++ (w.map .kept ++ C) ∧ textOf A = textOf A' ∧ textOf C = textOf C' ∧
      Survives Rewrite.Cuts (rs.map cl.rewrite) (resultOf A) w (resultOf C) := by
  induction rs generalizing front P with
  | nil =>
    have heq : P = F := h
    exact ⟨A', C', heq.trans hF, rfl, rfl, trivial⟩
  | cons r rs ih =>
    obtain ⟨Q, R, hacts, hruns⟩ := h
    have hQ := hrules.acts_marked hP hacts
    obtain ⟨A₁, C₁, hsplit, hA₁, hC₁, hsurvives⟩ := ih hruns (by simpa using hrules) hQ
    have hcut := hrules.acts_cut hP hacts
    obtain ⟨A, P', ps, R', rfl, rfl, hA, hps, hresultA, htail⟩ := hacts.unsplit hsplit
    obtain ⟨C, qs, rfl, rfl, hlast⟩ := htail.unkept
    refine ⟨A, C, rfl, hA.trans hA₁, hlast.textOf_eq.symm.trans hC₁, ps, qs, ?_, hps,
      hlast.textOf_shown, ?_⟩
    · have htext : textOf (ps ++ w.map .kept ++ qs) = resultOf (A ++ (w.map .kept ++ C)) := by
        rw [textOf_append, textOf_append, hps, hlast.textOf_shown, textOf_kept, resultOf_append,
          resultOf_append, resultOf_kept, List.append_assoc]
      rw [Rewrite.Cuts, htext, hcut, List.append_assoc]
    · rw [hresultA, hlast.resultOf_eq]
      exact hsurvives

section Kept

variable {p : List α → List α → List α → Prop}

theorem Runs.pieces_of_becomes (h : Runs cl rs ((before ++ w ++ after).map .kept) F)
    (hrules : Compatible cl rs)
    (hbecomes : Becomes Rewrite.Cuts p (rs.map cl.rewrite) before w after) :
    ∃ A B C, F = A ++ (B ++ C) ∧ textOf A = before ∧ textOf B = w ∧ textOf C = after ∧
      p (resultOf A) (resultOf B) (resultOf C) := by
  have hsplit : (before ++ w ++ after).map Piece.kept =
      before.map .kept ++ (w.map .kept ++ after.map .kept) := by
    simp
  obtain ⟨A, B, C, hF, hA, hB, hC, hp⟩ :=
    h.of_becomes (show Compatible cl ([] ++ rs) from hrules) (WholeWords.marked_kept _) hsplit
      (by rwa [resultOf_kept, resultOf_kept, resultOf_kept])
  rw [textOf_kept] at hA hB hC
  exact ⟨A, B, C, hF, hA, hB, hC, hp⟩

theorem Runs.becomes_of_pieces (h : Runs cl rs (s.map .kept) F) (hrules : Compatible cl rs)
    (hF : F = A ++ (B ++ C)) (hp : p (resultOf A) (resultOf B) (resultOf C)) :
    Becomes Rewrite.Cuts p (rs.map cl.rewrite) (textOf A) (textOf B) (textOf C) := by
  obtain ⟨A', B', C', hsplit, hA, hB, hC, hbecomes⟩ :=
    h.becomes (show Compatible cl ([] ++ rs) from hrules) (WholeWords.marked_kept s) hF hp
  obtain ⟨hA', hB', hC'⟩ := kept_parts hsplit
  rwa [hA', hB', hC', hA, hB, hC] at hbecomes

theorem Runs.survives_of_pieces (h : Runs cl rs (s.map .kept) F) (hrules : Compatible cl rs)
    (hF : F = A ++ (w.map .kept ++ C)) :
    Survives Rewrite.Cuts (rs.map cl.rewrite) (textOf A) w (textOf C) := by
  obtain ⟨A', C', hsplit, hA, hC, hsurvives⟩ :=
    h.survives (show Compatible cl ([] ++ rs) from hrules) (WholeWords.marked_kept s) hF
  obtain ⟨hA', -, hC'⟩ := kept_parts hsplit
  rwa [hA', hC', hA, hC] at hsurvives

end Kept

/-- Only the rule that looks for a word replaces it. -/
theorem Compatible.old_notMem (h : Compatible cl (front ++ r :: back)) :
    r.old ∉ front.map (·.old) ∧ r.old ∉ back.map (·.old) := by
  have hnodup := h.nodup
  rw [List.map_append, List.map_cons] at hnodup
  obtain ⟨-, hback, hapart⟩ := List.nodup_append.mp hnodup
  exact ⟨fun hmem => hapart _ hmem _ List.mem_cons_self rfl, (List.nodup_cons.mp hback).1⟩

/-- A word has been replaced that stood there and before which no earlier rule has replaced one. -/
theorem Runs.stands_of_replaced (hrules : Compatible cl (front ++ r :: back))
    (h : Runs cl (front ++ r :: back) (s.map .kept) F) (hold : w.map cl.fold = r.old)
    (hF : Replaced F before w) (hs : s = before ++ w ++ after) :
    cl.Stands r before w after ∧
      ∀ x y, before = x ++ y → y.map cl.fold ∈ front.map (·.old) → ¬ Replaced F x y := by
  obtain ⟨P, hfront, Q, R, hacts, hback⟩ := runs_append.mp h
  have hproper : ∀ r' ∈ front, cl.Proper r' := hrules.of_append.proper
  have hr : cl.Proper r := hrules.proper r (by simp)
  have hP : Marked cl (· ∈ front) P :=
    hfront.marked_kept hrules.of_append
  obtain ⟨hnotFront, hnotBack⟩ := hrules.old_notMem
  have hQ : Replaced Q before w :=
    (hback.replaced_new hF).resolve_right fun hmem => hnotBack (hold ▸ hmem)
  have hnew := (hacts.replaced_new hQ).resolve_left fun hP =>
    (hfront.replaced_new hP).elim not_replaced_kept fun hmem => hnotFront (hold ▸ hmem)
  obtain ⟨A, C, rfl, rfl, hstands⟩ := hnew
  rw [List.nil_append] at hstands
  have htext := hfront.textOf_eq
  rw [textOf_append, textOf_append, textOf_kept, textOf_kept, hs, List.append_assoc,
    List.append_cancel_left_eq, List.append_cancel_left_eq] at htext
  refine ⟨htext ▸ hstands.textOf hproper hr hP, fun x y hxy hmem hF => ?_⟩
  have hQ : Replaced Q x y := (hback.replaced_new hF).resolve_right fun hback => by
    have hnodup := hrules.nodup
    rw [List.map_append, List.map_cons] at hnodup
    exact (List.nodup_append.mp hnodup).2.2 _ hmem _ (List.mem_cons_of_mem _ hback) rfl
  rcases hacts.replaced_new hQ with hP' | ⟨_, _, -, -, hy⟩
  · obtain ⟨B, new, D, hB, rfl⟩ := hP'
    have hsplit : A ++ (w.map .kept ++ C) = B ++ [.swapped y new] ++ D := by rw [hB]; simp
    have hAB : A = B ++ [.swapped y new] := by
      refine split_unique (hP.text_ne_nil hproper) hsplit ?_
      rw [textOf_append, hxy]
      exact congrArg (textOf B ++ ·) (List.append_nil y).symm
    have hends := endsInWord_replaced hproper
      (show Marked cl _ (B ++ .swapped y new :: D) by rwa [← hB])
    rw [← hAB, hstands.not_endsInWord hr] at hends
    cases hends
  · exact hnotFront (hy.text ▸ hmem)

/-- A word that stands there is replaced unless an earlier rule replaces one directly before it. -/
theorem Runs.replaced_of_stands (hrules : Compatible cl (front ++ r :: back))
    (h : Runs cl (front ++ r :: back) (s.map .kept) F) (hs : s = before ++ w ++ after)
    (hstands : cl.Stands r before w after)
    (hapart : ∀ r' ∈ front ++ [r], ∀ x y z, s = x ++ y ++ z → cl.Stands r' x y z →
      r' = r ∧ x = before ∨ x.length + y.length ≤ before.length ∨
        before.length + w.length ≤ x.length)
    (hfree : ∀ x y, before = x ++ y → y.map cl.fold ∈ front.map (·.old) → ¬ Replaced F x y) :
    Replaced F before w := by
  obtain ⟨P, hfront, Q, R, hacts, hback⟩ := runs_append.mp h
  have hproper : ∀ r' ∈ front, cl.Proper r' := hrules.of_append.proper
  have hr : cl.Proper r := hrules.proper r (by simp)
  have hw : w ≠ [] := hstands.ne_nil hr
  have hP : Marked cl (· ∈ front) P :=
    hfront.marked_kept hrules.of_append
  have htext : textOf P = s := by rw [hfront.textOf_eq, textOf_kept]
  obtain ⟨A, C, rfl, rfl, rfl⟩ := split_kept (hP.text_ne_nil hproper) (htext.trans hs)
    fun x y hxy => by
      obtain ⟨r', z, hr', hsplit, hx⟩ := hP.replaced hxy
      refine (hapart r' (List.mem_append_left _ hr') x y z (htext.symm.trans hsplit) hx).resolve_left ?_
      rintro ⟨rfl, -⟩
      exact hrules.old_notMem.1 (List.mem_map_of_mem hr')
  have hlast : ∀ B v new, A ≠ B ++ [.swapped v new] := by
    rintro B v new rfl
    have hreplaced : Replaced (B ++ [.swapped v new] ++ (w.map .kept ++ C)) (textOf B) v :=
      ⟨B, new, w.map .kept ++ C, by simp, rfl⟩
    obtain ⟨r', z, hr', -, hv⟩ := hP.replaced hreplaced
    refine hfree (textOf B) v ?_ (hv.text ▸ List.mem_map_of_mem hr') ?_
    · rw [textOf_append]
      simp [TextPieces.textOf, Piece.text]
    · exact hback.replaced_stays (hacts.replaced_stays hreplaced)
  have hshown := hstands.resultOf hproper hr hP hlast
  rcases hacts.reaches rfl hw hshown with hQ | ⟨x, y, hQ, hx, hy⟩
  · exact hback.replaced_stays hQ
  · -- a match of the same rule that goes into the word would have stood in the text
    have hQ' : Marked cl (· ∈ front ++ [r]) Q := hrules.acts_marked hP hacts
    obtain ⟨r', z, hr', hsplit, hstands'⟩ := hQ'.replaced hQ
    rw [hacts.textOf_eq, htext] at hsplit
    have hpos : 0 < w.length := List.length_pos_iff.mpr hw
    rcases hapart r' hr' x y z hsplit hstands' with ⟨-, rfl⟩ | hafter
    · exact absurd hx (Nat.lt_irrefl _)
    · omega

end WholeWords

import HeyNilo.StandingWords

open TextPieces

namespace WholeWords

variable {α : Type*}

/-- The text is one of which words have been replaced: each of them stood in it as it was at first, for
one of these rules. -/
def Marked (cl : WholeWords α) (S : Rule α → Prop) (P : List (Piece α)) : Prop :=
  ∀ A v new C, P = A ++ .swapped v new :: C →
    ∃ r, S r ∧ new = r.new ∧ cl.Stands r (textOf A) v (textOf C)

variable {cl : WholeWords α} {r : Rule α} {S : Rule α → Prop} {before after w u v s new : List α}
  {c : α} {P Q R A A' C : List (Piece α)}

theorem endsInWord_replaced (hproper : ∀ r, S r → cl.Proper r)
    (hP : Marked cl S (A ++ .swapped v new :: C)) :
    cl.endsInWord (resultOf (A ++ [.swapped v new])) = true := by
  obtain ⟨r, hr, rfl, -⟩ := hP A v new C rfl
  obtain ⟨cs, c, hnew, hword, hmark⟩ := (hproper r hr).newLast
  have hshown : resultOf [Piece.swapped v r.new] = cs ++ [c] := by
    rw [← hnew]
    exact List.append_nil _
  rw [resultOf_append, hshown, ← List.append_assoc, endsInWord_of_last hmark, hword]

/-- What is shown ends in a word element if the text does. -/
theorem endsInWord_textOf (hproper : ∀ r, S r → cl.Proper r) (hP : Marked cl S (A ++ C))
    (h : cl.endsInWord (resultOf A) = false) : cl.endsInWord (textOf A) = false := by
  induction A using List.reverseRecOn generalizing C with
  | nil => exact h
  | append_singleton A piece ih =>
    cases piece with
    | kept c =>
      rw [resultOf_append] at h
      rw [textOf_append]
      change cl.endsInWord (_ ++ [c]) = false at h
      change cl.endsInWord (_ ++ [c]) = false
      rw [endsInWord_concat] at h ⊢
      split at h
      next hmark =>
        rw [if_pos hmark]
        exact ih (C := .kept c :: C) (by simpa using hP) h
      next hmark => rwa [if_neg hmark]
    | swapped v new =>
      have hP' : Marked cl S (A ++ .swapped v new :: C) := by simpa using hP
      cases h.symm.trans (endsInWord_replaced hproper hP')

/-- The other way round, where no word has just been replaced. -/
theorem endsInWord_resultOf (hP : Marked cl S (A ++ C))
    (hlast : ∀ B v new, A ≠ B ++ [.swapped v new]) (h : cl.endsInWord (textOf A) = false) :
    cl.endsInWord (resultOf A) = false := by
  induction A using List.reverseRecOn generalizing C with
  | nil => exact h
  | append_singleton A piece ih =>
    rw [textOf_append] at h
    rw [resultOf_append]
    cases piece with
    | kept c =>
      change cl.endsInWord (_ ++ [c]) = false at h
      change cl.endsInWord (_ ++ [c]) = false
      rw [endsInWord_concat] at h ⊢
      split at h
      next hmark =>
        rw [if_pos hmark]
        refine ih (C := .kept c :: C) (by simpa using hP) ?_ h
        rintro B v new rfl
        -- after a word that stands there comes no mark
        obtain ⟨r, -, -, hstands⟩ := hP B v new (.kept c :: C) (by simp)
        have hright := hstands.right
        change (!cl.isMark c && _) = true at hright
        rw [hmark] at hright
        cases hright
      next hmark => rwa [if_neg hmark]
    | swapped v new => exact absurd rfl (hlast A v new)

/-- What comes next is of the same kind in the text and in what is shown. -/
theorem head_resultOf (hproper : ∀ r, S r → cl.Proper r) (hP : Marked cl S (A ++ P)) :
    (resultOf P).head?.map (fun c => (cl.isMark c, cl.isWord c)) =
      (textOf P).head?.map fun c => (cl.isMark c, cl.isWord c) := by
  cases P with
  | nil => rfl
  | cons piece P =>
    cases piece with
    | kept c => rfl
    | swapped v new =>
      obtain ⟨r, hr, rfl, hstands⟩ := hP A v new P rfl
      obtain ⟨c, cs, hnew, hword, hmark⟩ := (hproper r hr).newFirst
      obtain ⟨d, ds, hv, hdword, hdmark⟩ := hstands.head (hproper r hr)
      change ((r.new ++ resultOf P).head?).map _ = ((v ++ textOf P).head?).map _
      rw [hnew, hv]
      simp [hword, hmark, hdword, hdmark]

/-- A word that stands in what is shown stood in the text. -/
theorem Stands.textOf (hproper : ∀ r, S r → cl.Proper r) (hr : cl.Proper r)
    (hP : Marked cl S (A ++ (w.map .kept ++ P))) (h : cl.Stands r (resultOf A) w (resultOf P)) :
    cl.Stands r (TextPieces.textOf A) w (TextPieces.textOf P) := by
  have hends := endsInWord_textOf hproper hP (h.not_endsInWord hr)
  obtain ⟨c, cs, hw, hword, hmark⟩ := h.head hr
  refine ⟨h.text, ?_, ?_⟩
  · rw [hw, List.cons_append, boundary_word hword hmark, hends]
    rfl
  · have hP' : Marked cl S (A ++ w.map .kept ++ P) := by rwa [List.append_assoc]
    have hhead := head_resultOf hproper hP'
    rw [← boundary_congr (endsInWord_of_nonmark (h.ne_nil hr) fun c => h.nonmark hr) hhead]
    exact h.right

/-- The other way round, where no word before it has just been replaced. -/
theorem Stands.resultOf (hproper : ∀ r, S r → cl.Proper r) (hr : cl.Proper r)
    (hP : Marked cl S (A ++ (w.map .kept ++ P))) (hlast : ∀ B v new, A ≠ B ++ [.swapped v new])
    (h : cl.Stands r (TextPieces.textOf A) w (TextPieces.textOf P)) :
    cl.Stands r (TextPieces.resultOf A) w (TextPieces.resultOf P) := by
  have hends := endsInWord_resultOf hP hlast (h.not_endsInWord hr)
  obtain ⟨c, cs, hw, hword, hmark⟩ := h.head hr
  refine ⟨h.text, ?_, ?_⟩
  · rw [hw, List.cons_append, boundary_word hword hmark, hends]
    rfl
  · have hP' : Marked cl S (A ++ w.map .kept ++ P) := by rwa [List.append_assoc]
    have hhead := head_resultOf hproper hP'
    rw [boundary_congr (endsInWord_of_nonmark (h.ne_nil hr) fun c => h.nonmark hr) hhead]
    exact h.right

theorem marked_kept (s : List α) : Marked cl S (s.map .kept) := by
  intro A v new C h
  have hmem : Piece.swapped v new ∈ s.map Piece.kept := h ▸ by simp
  obtain ⟨c, -, hc⟩ := List.mem_map.mp hmem
  cases hc

theorem Marked.mono {S' : Rule α → Prop} (hP : Marked cl S P) (hS : ∀ r, S r → S' r) :
    Marked cl S' P := by
  intro A v new C h
  obtain ⟨r, hr, hnew, hstands⟩ := hP A v new C h
  exact ⟨r, hS r hr, hnew, hstands⟩

/-- One more word is replaced. -/
theorem Marked.replace (hP : Marked cl S (A ++ (w.map .kept ++ P))) (hr : S r)
    (h : cl.Stands r (textOf A) w (textOf P)) : Marked cl S (A ++ .swapped w r.new :: P) := by
  intro B v new C hB
  rcases List.append_eq_append_iff.mp hB with ⟨D, rfl, hD⟩ | ⟨D, rfl, hD⟩
  · cases D with
    | nil =>
      obtain ⟨hpiece, rfl⟩ := List.cons.inj hD
      cases hpiece
      rw [List.append_nil]
      exact ⟨r, hr, rfl, h⟩
    | cons piece D =>
      obtain ⟨rfl, rfl⟩ := List.cons.inj hD
      obtain ⟨r', hr', hnew, hstands⟩ := hP (A ++ (w.map .kept ++ D)) v new C (by simp)
      refine ⟨r', hr', hnew, ?_⟩
      rw [textOf_append, textOf_append, textOf_kept] at hstands
      rw [textOf_append]
      exact hstands
  · cases D with
    | nil =>
      obtain ⟨hpiece, rfl⟩ := List.cons.inj hD
      cases hpiece
      rw [List.append_nil] at h
      exact ⟨r, hr, rfl, h⟩
    | cons piece D =>
      obtain ⟨rfl, rfl⟩ := List.cons.inj hD
      obtain ⟨r', hr', hnew, hstands⟩ := hP B v new (D ++ (w.map .kept ++ P)) (by simp)
      refine ⟨r', hr', hnew, ?_⟩
      rw [textOf_append, textOf_append, textOf_kept] at hstands
      change cl.Stands r' (textOf B) v (textOf (D ++ .swapped w r.new :: P))
      rw [textOf_append]
      exact hstands

variable [DecidableEq α]

/-- Applied to what is shown of `P` behind `before`, the rule makes `Q` of it; `R` are the pieces of what
is shown. -/
inductive Acts (cl : WholeWords α) (r : Rule α) :
    List α → (P Q R : List (Piece α)) → Prop
  | nil {before : List α} : Acts cl r before [] [] []
  | kept {before : List α} {c : α} {P Q R : List (Piece α)}
    (h : (cl.rewrite r).matchAt before (c :: resultOf P) = none)
    (more : Acts cl r (before ++ [c]) P Q R) :
    Acts cl r before (.kept c :: P) (.kept c :: Q) (.kept c :: R)
  | swapped {before v new : List α} {P Q R : List (Piece α)}
    (more : Acts cl r (before ++ new) P Q R) :
    Acts cl r before (.swapped v new :: P) (.swapped v new :: Q) (new.map .kept ++ R)
  | word {before w : List α} {P Q R : List (Piece α)}
    (h : cl.Stands r before w (resultOf P)) (more : Acts cl r (before ++ w) P Q R) :
    Acts cl r before (w.map .kept ++ P) (.swapped w r.new :: Q) (.swapped w r.new :: R)

theorem Acts.textOf_eq (h : Acts cl r before P Q R) : textOf Q = textOf P := by
  induction h with
  | nil => rfl
  | kept _ _ ih => exact congrArg (List.cons _) ih
  | swapped _ ih => exact congrArg (_ ++ ·) ih
  | @word before w P Q R h more ih =>
    rw [textOf_append, textOf_kept]
    exact congrArg (w ++ ·) ih

theorem Acts.textOf_shown (h : Acts cl r before P Q R) : textOf R = resultOf P := by
  induction h with
  | nil => rfl
  | kept _ _ ih => exact congrArg (List.cons _) ih
  | swapped _ ih =>
    rw [textOf_append, textOf_kept, ih]
    rfl
  | @word before w P Q R h more ih =>
    rw [resultOf_append, resultOf_kept]
    exact congrArg (w ++ ·) ih

theorem Acts.resultOf_eq (h : Acts cl r before P Q R) : resultOf R = resultOf Q := by
  induction h with
  | nil => rfl
  | kept _ _ ih => exact congrArg (List.cons _) ih
  | swapped _ ih =>
    rw [resultOf_append, resultOf_kept, ih]
    rfl
  | word _ _ ih => exact congrArg (r.new ++ ·) ih

theorem cutFrom_none (h : ∀ p v, u = p ++ v → v ≠ [] →
    (cl.rewrite r).matchAt (before ++ p) (v ++ s) = none) :
    (cl.rewrite r).cutFrom before 0 (u ++ s) =
      u.map .kept ++ (cl.rewrite r).cutFrom (before ++ u) 0 s := by
  induction u generalizing before with
  | nil => rw [List.nil_append, List.append_nil, List.map_nil, List.nil_append]
  | cons c u ih =>
    have hfirst := h [] (c :: u) rfl (List.cons_ne_nil _ _)
    rw [List.append_nil] at hfirst
    have hmore := @ih (before ++ [c]) fun p v hpv hne => by
      have hv := h (c :: p) v (by rw [hpv]; rfl) hne
      rwa [← List.singleton_append, ← List.append_assoc] at hv
    rw [List.cons_append] at hfirst ⊢
    rw [Rewrite.cutFrom_kept hfirst, hmore]
    simp

/-- What a rule does to the text that is shown. -/
theorem Acts.cut_eq (h : Acts cl r before P Q R) (hr : cl.Proper r)
    (hignores : ∀ v new, .swapped v new ∈ P → cl.Ignores r new) :
    (cl.rewrite r).cutFrom before 0 (resultOf P) = R := by
  induction h with
  | nil => rfl
  | @kept before c P Q R h more ih =>
    change (cl.rewrite r).cutFrom before 0 (c :: resultOf P) = _
    rw [Rewrite.cutFrom_kept h, ih fun v new hmem => hignores v new (List.mem_cons_of_mem _ hmem)]
  | @swapped before v new P Q R more ih =>
    change (cl.rewrite r).cutFrom before 0 (new ++ resultOf P) = _
    rw [cutFrom_none fun p z hpz hne =>
        (hignores v new List.mem_cons_self).inside before p z (resultOf P) hpz hne,
      ih fun v new hmem => hignores v new (List.mem_cons_of_mem _ hmem)]
  | @word before w P Q R h more ih =>
    have htext : textOf [Piece.swapped w r.new] = w := List.append_nil _
    have hmatch := h.matchAt (h.ne_nil hr)
    rw [resultOf_append, resultOf_kept]
    have hcut := @Rewrite.cutFrom_match _ (cl.rewrite r) before (resultOf P) [.swapped w r.new]
    rw [htext] at hcut
    rw [hcut hmatch, ih fun v new hmem => hignores v new (List.mem_append_right _ hmem)]
    rfl

/-- A word that is shown from a kept element on is kept whole: it cannot go into a text that has been
put in. -/
theorem kept_word (hproper : ∀ r, S r → cl.Proper r) (hr : cl.Proper r)
    (hignores : ∀ r', S r' → cl.Ignores r r'.new) (hu : u ≠ [])
    (hP : Marked cl S (A ++ (u.map .kept ++ P))) (hshown : u ++ resultOf P = w ++ after)
    (hlen : u.length ≤ w.length) (hw : w.map cl.fold = r.old) :
    ∃ P' v, w = u ++ v ∧ P = v.map .kept ++ P' ∧ after = resultOf P' := by
  induction hd : w.length - u.length generalizing u P with
  | zero =>
    obtain ⟨rfl, rfl⟩ := List.append_inj hshown (by omega)
    exact ⟨P, [], (List.append_nil _).symm, rfl, rfl⟩
  | succ n ih =>
    cases P with
    | nil =>
      have hlength := congrArg List.length hshown
      rw [List.length_append, List.length_append] at hlength
      change _ + 0 = _ at hlength
      omega
    | cons piece P =>
      cases piece with
      | kept d =>
        have hconcat : (u ++ [d]).length = u.length + 1 := List.length_append
        obtain ⟨P', v, rfl, rfl, rfl⟩ := @ih (u ++ [d]) P (by simp) (by simpa using hP)
          (by rw [← hshown, List.append_assoc]; rfl) (by omega) (by omega)
        exact ⟨P', d :: v, by simp, rfl, rfl⟩
      | swapped x new =>
        obtain ⟨r', hr', rfl, hstands⟩ := hP (A ++ u.map .kept) x new P (by simp)
        obtain ⟨front, c, rfl⟩ := (List.eq_nil_or_concat' u).resolve_left hu
        have hfront : front ++ [c] <+: w :=
          List.prefix_of_prefix_length_le ⟨_, hshown⟩ ⟨_, rfl⟩ hlen
        have hmark : cl.isMark c = false :=
          hr.nonmark c (hw ▸ List.mem_map_of_mem (hfront.subset (by simp)))
        have hends := hstands.not_endsInWord (hproper r' hr')
        rw [textOf_append, textOf_kept, ← List.append_assoc, endsInWord_of_last hmark] at hends
        refine absurd hw ((hignores r' hr').into front c (resultOf P) w after hends ?_ (by omega))
        rw [← hshown, List.append_assoc, List.append_assoc, List.append_assoc]
        rfl

/-- A rule can always be applied. -/
theorem exists_acts (hproper : ∀ r, S r → cl.Proper r) (hr : cl.Proper r)
    (hignores : ∀ r', S r' → cl.Ignores r r'.new) (hP : Marked cl S (A ++ P)) :
    ∃ Q R, Acts cl r (resultOf A) P Q R := by
  induction hlen : P.length using Nat.strong_induction_on generalizing A P with
  | h n ih =>
    cases P with
    | nil => exact ⟨[], [], .nil⟩
    | cons piece P =>
      have hshort : P.length < n := hlen ▸ Nat.lt_succ_self _
      cases piece with
      | swapped v new =>
        obtain ⟨Q, R, hacts⟩ := ih _ hshort (A := A ++ [.swapped v new]) (P := P) (by simpa using hP) rfl
        rw [resultOf_append] at hacts
        exact ⟨_, _, .swapped (by simpa [resultOf, Piece.result] using hacts)⟩
      | kept c =>
        cases hmatch : (cl.rewrite r).matchAt (resultOf A) (c :: resultOf P) with
        | none =>
          obtain ⟨Q, R, hacts⟩ := ih _ hshort (A := A ++ [.kept c]) (P := P) (by simpa using hP) rfl
          rw [resultOf_append] at hacts
          exact ⟨_, _, .kept hmatch hacts⟩
        | some ms =>
          obtain ⟨w, after, hsplit, hne, -, hstands⟩ := matchAt_some hmatch
          have hlength : [c].length ≤ w.length := List.length_pos_iff.mpr hne
          obtain ⟨P', v, rfl, rfl, rfl⟩ := @kept_word _ cl r S after w [c] P A _ hproper hr hignores
            (List.cons_ne_nil _ _) hP hsplit hlength hstands.text
          have hless : P'.length < n := by
            rw [← hlen, List.length_cons, List.length_append]
            omega
          obtain ⟨Q, R, hacts⟩ := ih _ hless (A := A ++ ([c] ++ v).map .kept) (P := P') (by simpa using hP) rfl
          rw [resultOf_append, resultOf_kept] at hacts
          exact ⟨_, _, .word hstands hacts⟩

theorem Acts.marked_behind (h : Acts cl r before P Q R) (hproper : ∀ r, S r → cl.Proper r)
    (hr : cl.Proper r) (hbefore : before = resultOf A) (htext : textOf A' = textOf A)
    (hP : Marked cl S (A ++ P)) (hP' : Marked cl (fun r' => S r' ∨ r' = r) (A' ++ P)) :
    Marked cl (fun r' => S r' ∨ r' = r) (A' ++ Q) := by
  induction h generalizing A A' with
  | nil => exact hP'
  | @kept before c P Q R h more ih =>
    have hmore := @ih (A ++ [.kept c]) (A' ++ [.kept c]) (by rw [hbefore, resultOf_append]; rfl)
      (by rw [textOf_append, textOf_append, htext]) (by simpa using hP) (by simpa using hP')
    simpa using hmore
  | @swapped before v new P Q R more ih =>
    have hmore := @ih (A ++ [.swapped v new]) (A' ++ [.swapped v new])
      (by rw [hbefore, resultOf_append]; simp [TextPieces.resultOf, Piece.result])
      (by rw [textOf_append, textOf_append, htext]) (by simpa using hP) (by simpa using hP')
    simpa using hmore
  | @word before w P Q R h more ih =>
    rw [hbefore] at h
    have hstands := h.textOf hproper hr hP
    rw [← htext] at hstands
    have hmore := @ih (A ++ w.map .kept) (A' ++ [.swapped w r.new])
      (by rw [hbefore, resultOf_append, resultOf_kept])
      (by rw [textOf_append, textOf_append, htext, textOf_kept]; simp [TextPieces.textOf, Piece.text])
      (by simpa using hP) (by simpa using hP'.replace (.inr rfl) hstands)
    simpa using hmore

/-- What a rule replaces stood in the text as well. -/
theorem Acts.marked (h : Acts cl r [] P Q R) (hproper : ∀ r, S r → cl.Proper r)
    (hr : cl.Proper r) (hP : Marked cl S P) : Marked cl (fun r' => S r' ∨ r' = r) Q := by
  have hP' : Marked cl (fun r' => S r' ∨ r' = r) ([] ++ P) := hP.mono fun _ => .inl
  exact h.marked_behind (A := []) hproper hr rfl rfl hP hP'

end WholeWords

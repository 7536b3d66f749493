import HeyNilo.TextPieces

namespace TextPieces

variable {α : Type*}

/-- A rule that looks for a match at each place of a text. What stands before the place and the rest
of the text give the pieces of the match, whose text is at the front of the rest. -/
structure Rewrite (α : Type*) where
  matchAt : (before rest : List α) → Option (List (Piece α))
  matched : ∀ {before rest ms}, matchAt before rest = some ms → textOf ms ≠ [] ∧ textOf ms <+: rest

namespace Rewrite

/-- The matches that `found` gives. -/
def checked [DecidableEq α] (found : (before rest : List α) → Option (List (Piece α))) :
    Rewrite α where
  matchAt before rest :=
    (found before rest).filter fun ms => decide (textOf ms ≠ [] ∧ textOf ms <+: rest)
  matched h := of_decide_eq_true (Option.filter_eq_some_iff.mp h).2

theorem of_checked [DecidableEq α] {found : (before rest : List α) → Option (List (Piece α))}
    {before rest : List α} {ms : List (Piece α)} (h : (checked found).matchAt before rest = some ms) :
    found before rest = some ms :=
  (Option.filter_eq_some_iff.mp h).1

/-- `skip` counts the elements of a match still to be passed over. -/
def cutFrom (r : Rewrite α) : List α → Nat → List α → List (Piece α)
  | _, _, [] => []
  | before, skip + 1, c :: s => r.cutFrom (before ++ [c]) skip s
  | before, 0, c :: s =>
    match r.matchAt before (c :: s) with
    | some ms => ms ++ r.cutFrom (before ++ [c]) ((textOf ms).length - 1) s
    | none => .kept c :: r.cutFrom (before ++ [c]) 0 s

/-- The matches from left to right, none of them overlapping another one. -/
def cut (r : Rewrite α) (s : List α) : List (Piece α) := r.cutFrom [] 0 s

def apply (r : Rewrite α) (s : List α) : List α := resultOf (r.cut s)

def applyAll (rs : List (Rewrite α)) (s : List α) : List α := rs.foldl (fun s r => r.apply s) s

def Cuts (r : Rewrite α) (ps : List (Piece α)) : Prop := r.cut (textOf ps) = ps

variable {r : Rewrite α} {before s u : List α} {ms : List (Piece α)} {c : α}

theorem cutFrom_skip (u : List α) :
    r.cutFrom before u.length (u ++ s) = r.cutFrom (before ++ u) 0 s := by
  induction u generalizing before with
  | nil => rw [List.append_nil, List.nil_append, List.length_nil]
  | cons c u ih =>
    rw [List.length_cons, List.cons_append, cutFrom, ih, List.append_assoc, List.singleton_append]

theorem cutFrom_kept (h : r.matchAt before (c :: s) = none) :
    r.cutFrom before 0 (c :: s) = .kept c :: r.cutFrom (before ++ [c]) 0 s := by
  rw [cutFrom, h]

theorem cutFrom_match (h : r.matchAt before (textOf ms ++ s) = some ms) :
    r.cutFrom before 0 (textOf ms ++ s) = ms ++ r.cutFrom (before ++ textOf ms) 0 s := by
  obtain ⟨c, u, htext⟩ := List.exists_cons_of_ne_nil (r.matched h).1
  have hskip := @cutFrom_skip _ r (before ++ [c]) s u
  rw [List.append_assoc, List.singleton_append, ← htext] at hskip
  rw [htext, List.cons_append] at h ⊢
  rw [cutFrom, h]
  change ms ++ r.cutFrom (before ++ [c]) ((textOf ms).length - 1) (u ++ s) = _
  rw [htext, List.length_cons, Nat.add_sub_cancel, hskip, htext]

theorem textOf_cutFrom (before s : List α) : textOf (r.cutFrom before 0 s) = s := by
  induction hlen : s.length using Nat.strong_induction_on generalizing before s with
  | h n ih =>
    cases s with
    | nil => rfl
    | cons c s =>
      cases hmatch : r.matchAt before (c :: s) with
      | none =>
        rw [cutFrom_kept hmatch]
        exact congrArg (List.cons c) (ih _ (hlen ▸ Nat.lt_succ_self _) _ s rfl)
      | some ms =>
        obtain ⟨hne, rest, hrest⟩ := r.matched hmatch
        rw [← hrest] at hmatch ⊢
        have hshort : rest.length < n := by
          rw [← hlen, ← hrest, List.length_append]
          exact Nat.lt_add_of_pos_left (List.length_pos_iff.mpr hne)
        rw [cutFrom_match hmatch, textOf_append, ih _ hshort _ rest rfl]

theorem textOf_cut (r : Rewrite α) (s : List α) : textOf (r.cut s) = s := textOf_cutFrom [] s

theorem Cuts.apply_eq {ps : List (Piece α)} (h : r.Cuts ps) : r.apply (textOf ps) = resultOf ps :=
  congrArg resultOf h

/-- A rule leaves `w` whole if its matches in `w` keep what they take, and one from before `w` ends
before it or keeps what it takes of it. -/
structure Spares (r : Rewrite α) (before w after : List α) : Prop where
  inside : ∀ p v ms, w = p ++ v → v ≠ [] → r.matchAt (before ++ p) (v ++ after) = some ms →
    ∃ u v', v = u ++ v' ∧ ms = u.map .kept
  across : ∀ x y ms, before = x ++ y → y ≠ [] → r.matchAt x (y ++ w ++ after) = some ms →
    (∃ y', y = textOf ms ++ y') ∨
      ∃ front u v, w = u ++ v ∧ ms = front ++ u.map .kept ∧ textOf front = y

/-- No match begins in the part, and its first element is not one that a match goes on with. -/
theorem Spares.of_tail {w after : List α}
    (hinside : ∀ p v, c :: w = p ++ v → v ≠ [] → r.matchAt (before ++ p) (v ++ after) = none)
    (htail : ∀ x y ms, before = x ++ y → r.matchAt x (y ++ c :: w ++ after) = some ms →
      c ∉ (textOf ms).tail) : r.Spares before (c :: w) after := by
  constructor
  · intro p v ms hw hv hmatch
    rw [hinside p v hw hv] at hmatch
    cases hmatch
  · intro x y ms hbefore hy hmatch
    obtain ⟨-, rest, hrest⟩ := r.matched hmatch
    rw [List.append_assoc] at hrest
    rcases List.append_eq_append_iff.mp hrest with ⟨y', hy', -⟩ | ⟨u, hu, hw⟩
    · exact .inl ⟨y', hy'⟩
    · cases u with
      | nil => exact .inl ⟨[], by rw [hu, List.append_nil, List.append_nil]⟩
      | cons d u =>
        obtain ⟨e, y, rfl⟩ := List.exists_cons_of_ne_nil hy
        obtain ⟨rfl, -⟩ := List.cons.inj hw
        exact absurd (by rw [hu]; simp) (htail x _ ms hbefore hmatch)

/-- From a place within `w`. -/
theorem Spares.cut_inside {w after : List α} (h : r.Spares before w after) {p v : List α}
    (hw : w = p ++ v) : ∃ qs, textOf qs = after ∧
      r.cutFrom (before ++ p) 0 (v ++ after) = v.map .kept ++ qs := by
  induction hlen : v.length using Nat.strong_induction_on generalizing p v with
  | h n ih =>
    cases v with
    | nil => exact ⟨r.cutFrom (before ++ p) 0 after, textOf_cutFrom _ _, rfl⟩
    | cons c v =>
      cases hmatch : r.matchAt (before ++ p) (c :: v ++ after) with
      | none =>
        have hshort : v.length < n := hlen ▸ Nat.lt_succ_self _
        obtain ⟨qs, hqs, hcut⟩ := ih _ hshort (p := p ++ [c]) (by rw [hw]; simp) rfl
        refine ⟨qs, hqs, ?_⟩
        rw [← List.append_assoc] at hcut
        rw [List.cons_append] at hmatch ⊢
        rw [cutFrom_kept hmatch, hcut]
        rfl
      | some ms =>
        obtain ⟨u, v', hv, rfl⟩ := h.inside p (c :: v) ms hw (List.cons_ne_nil _ _) hmatch
        have hne := (r.matched hmatch).1
        rw [textOf_kept] at hne
        have hshort : v'.length < n := by
          rw [← hlen, hv, List.length_append]
          exact Nat.lt_add_of_pos_left (List.length_pos_iff.mpr hne)
        obtain ⟨qs, hqs, hcut⟩ := ih _ hshort (p := p ++ u) (by rw [hw, hv]; simp) rfl
        refine ⟨qs, hqs, ?_⟩
        rw [hv, List.append_assoc] at hmatch ⊢
        have htext : u ++ (v' ++ after) = textOf (u.map .kept) ++ (v' ++ after) := by
          rw [textOf_kept]
        rw [htext] at hmatch ⊢
        rw [← List.append_assoc] at hcut
        rw [cutFrom_match hmatch, textOf_kept, hcut, List.map_append, List.append_assoc]

theorem Spares.cut_before {w after : List α} (h : r.Spares before w after) {x y : List α}
    (hbefore : before = x ++ y) : ∃ ps qs, textOf ps = y ∧ textOf qs = after ∧
      r.cutFrom x 0 (y ++ w ++ after) = ps ++ w.map .kept ++ qs := by
  induction hlen : y.length using Nat.strong_induction_on generalizing x y with
  | h n ih =>
    cases y with
    | nil =>
      rw [List.append_nil] at hbefore
      subst hbefore
      obtain ⟨qs, hqs, hcut⟩ := h.cut_inside (p := []) rfl
      rw [List.append_nil] at hcut
      exact ⟨[], qs, rfl, hqs, hcut⟩
    | cons c y =>
      cases hmatch : r.matchAt x (c :: y ++ w ++ after) with
      | none =>
        have hshort : y.length < n := hlen ▸ Nat.lt_succ_self _
        obtain ⟨ps, qs, hps, hqs, hcut⟩ := ih _ hshort (x := x ++ [c]) (by rw [hbefore]; simp) rfl
        refine ⟨.kept c :: ps, qs, congrArg (List.cons c) hps, hqs, ?_⟩
        rw [List.cons_append, List.cons_append] at hmatch ⊢
        rw [cutFrom_kept hmatch, hcut]
        rfl
      | some ms =>
        rcases h.across x (c :: y) ms hbefore (List.cons_ne_nil _ _) hmatch with
          ⟨y', hy⟩ | ⟨front, u, v, hw, rfl, hfront⟩
        · have hne := (r.matched hmatch).1
          have hshort : y'.length < n := by
            rw [← hlen, hy, List.length_append]
            exact Nat.lt_add_of_pos_left (List.length_pos_iff.mpr hne)
          obtain ⟨ps, qs, hps, hqs, hcut⟩ :=
            ih _ hshort (x := x ++ textOf ms) (by rw [hbefore, hy]; simp) rfl
          refine ⟨ms ++ ps, qs, by rw [textOf_append, hps, hy], hqs, ?_⟩
          rw [hy, List.append_assoc, List.append_assoc] at hmatch ⊢
          rw [List.append_assoc] at hcut
          rw [cutFrom_match hmatch, hcut]
          simp
        · obtain ⟨qs, hqs, hcut⟩ := h.cut_inside hw
          refine ⟨front, qs, hfront, hqs, ?_⟩
          have htext : c :: y ++ w ++ after = textOf (front ++ u.map .kept) ++ (v ++ after) := by
            rw [textOf_append, textOf_kept, hfront, hw]
            simp
          rw [htext] at hmatch ⊢
          rw [hbefore, ← hfront, List.append_assoc] at hcut
          rw [cutFrom_match hmatch, textOf_append, textOf_kept, hcut, hw]
          simp

/-- A part that a rule spares is kept by it. -/
theorem Spares.exists_cuts {w after : List α} (h : r.Spares before w after) :
    ∃ ps qs, r.Cuts (ps ++ w.map .kept ++ qs) ∧ textOf ps = before ∧ textOf qs = after := by
  obtain ⟨ps, qs, hps, hqs, hcut⟩ := h.cut_before (x := []) rfl
  refine ⟨ps, qs, ?_, hps, hqs⟩
  rw [Cuts, cut, textOf_append, textOf_append, textOf_kept, hps, hqs, hcut]

theorem survives_of_spares {rs : List (Rewrite α)} {w after : List α}
    (h : ∀ r ∈ rs, ∀ before after, r.Spares before w after) : Survives Cuts rs before w after := by
  induction rs generalizing before after with
  | nil => trivial
  | cons r rs ih =>
    obtain ⟨hr, hrs⟩ := List.forall_mem_cons.mp h
    obtain ⟨ps, qs, hcuts, hps, hqs⟩ := (hr before after).exists_cuts
    exact ⟨ps, qs, hcuts, hps, hqs, ih hrs⟩

end Rewrite

end TextPieces

import Mathlib.Data.List.Infix

namespace TextPieces

variable {α ρ : Type*}

/-- A piece of a text that is rewritten: an element that is kept, or a part that is swapped for another
text. -/
inductive Piece (α : Type*) where
  | kept (c : α)
  | swapped (w new : List α)

def Piece.text : Piece α → List α
  | kept c => [c]
  | swapped w _ => w

def Piece.result : Piece α → List α
  | kept c => [c]
  | swapped _ new => new

def textOf (ps : List (Piece α)) : List α := ps.flatMap Piece.text

def resultOf (ps : List (Piece α)) : List α := ps.flatMap Piece.result

/-- Each of the rewritings in turn leaves `w`, which stands between `before` and `after`, as it is;
`cuts r ps` says that `r` cuts the text of `ps` into these pieces. -/
def Survives (cuts : ρ → List (Piece α) → Prop) : List ρ → (before w after : List α) → Prop
  | [], _, _, _ => True
  | r :: rs, before, w, after =>
    ∃ ps qs, cuts r (ps ++ w.map .kept ++ qs) ∧ textOf ps = before ∧ textOf qs = after ∧
      Survives cuts rs (resultOf ps) w (resultOf qs)

/-- Each of the rewritings in turn makes something of `w` alone, and of what stands before and after it;
in the end `p` holds of the three. -/
def Becomes (cuts : ρ → List (Piece α) → Prop) (p : (before w after : List α) → Prop) :
    List ρ → (before w after : List α) → Prop
  | [], before, w, after => p before w after
  | r :: rs, before, w, after =>
    ∃ ps ms qs, cuts r (ps ++ ms ++ qs) ∧ textOf ps = before ∧ textOf ms = w ∧ textOf qs = after ∧
      Becomes cuts p rs (resultOf ps) (resultOf ms) (resultOf qs)

variable {s w before after : List α} {ps qs : List (Piece α)} {c : α}

@[simp]
theorem textOf_append (ps qs : List (Piece α)) : textOf (ps ++ qs) = textOf ps ++ textOf qs :=
  List.flatMap_append

@[simp]
theorem resultOf_append (ps qs : List (Piece α)) : resultOf (ps ++ qs) = resultOf ps ++ resultOf qs :=
  List.flatMap_append

@[simp]
theorem textOf_kept (s : List α) : textOf (s.map .kept) = s := by
  induction s with
  | nil => rfl
  | cons c s ih => exact congrArg (List.cons c) ih

@[simp]
theorem resultOf_kept (s : List α) : resultOf (s.map .kept) = s := by
  induction s with
  | nil => rfl
  | cons c s ih => exact congrArg (List.cons c) ih

/-- Every element of a result comes from one piece, where no piece is swapped for more than one. -/
theorem resultOf_split (hone : ∀ piece ∈ ps, piece.result.length ≤ 1)
    (h : resultOf ps = before ++ c :: after) :
    ∃ front piece back, ps = front ++ piece :: back ∧ resultOf front = before ∧
      piece.result = [c] ∧ resultOf back = after := by
  induction ps generalizing before with
  | nil => exact absurd h.symm (List.append_ne_nil_of_right_ne_nil _ (List.cons_ne_nil _ _))
  | cons piece ps ih =>
    have hcons : resultOf (piece :: ps) = piece.result ++ resultOf ps := rfl
    rw [hcons] at h
    obtain ⟨hpiece, hone⟩ := List.forall_mem_cons.mp hone
    match hresult : piece.result, hpiece with
    | [], _ =>
      rw [hresult] at h
      obtain ⟨front, found, back, rfl, hfront, hfound, hback⟩ := ih hone h
      refine ⟨piece :: front, found, back, rfl, ?_, hfound, hback⟩
      change piece.result ++ resultOf front = before
      rw [hresult, hfront, List.nil_append]
    | [x], _ =>
      rw [hresult] at h
      cases before with
      | nil =>
        obtain ⟨rfl, hback⟩ := List.cons.inj h
        exact ⟨[], piece, ps, rfl, rfl, hresult, hback⟩
      | cons y before =>
        obtain ⟨rfl, hmore⟩ := List.cons.inj h
        obtain ⟨front, found, back, rfl, hfront, hfound, hback⟩ := ih hone hmore
        refine ⟨piece :: front, found, back, rfl, ?_, hfound, hback⟩
        change piece.result ++ resultOf front = _
        rw [hresult, hfront, List.singleton_append]

theorem kept_or_swapped (ps : List (Piece α)) :
    (∃ s : List α, ps = s.map .kept) ∨ ∃ front u new back, ps = front ++ .swapped u new :: back := by
  induction ps with
  | nil => exact .inl ⟨[], rfl⟩
  | cons piece ps ih =>
    cases piece with
    | swapped u new => exact .inr ⟨[], u, new, ps, rfl⟩
    | kept c =>
      rcases ih with ⟨s, rfl⟩ | ⟨front, u, new, back, rfl⟩
      · exact .inl ⟨c :: s, rfl⟩
      · exact .inr ⟨.kept c :: front, u, new, back, rfl⟩

/-- What survives is in the result. -/
theorem Survives.isInfix {cuts : ρ → List (Piece α) → Prop} {apply : ρ → List α → List α}
    (happly : ∀ r ps, cuts r ps → apply r (textOf ps) = resultOf ps) {rs : List ρ}
    (h : Survives cuts rs before w after) :
    w <:+: rs.foldl (fun s r => apply r s) (before ++ w ++ after) := by
  induction rs generalizing before after with
  | nil => exact ⟨before, after, rfl⟩
  | cons r rs ih =>
    obtain ⟨ps, qs, hcuts, rfl, rfl, hmore⟩ := h
    have hresult := happly r _ hcuts
    simp only [textOf_append, textOf_kept, resultOf_append, resultOf_kept] at hresult
    rw [List.foldl_cons, hresult]
    exact ih hmore

/-- What the rewritings make of a part is a part of the result. -/
theorem Becomes.result {cuts : ρ → List (Piece α) → Prop} {apply : ρ → List α → List α}
    (happly : ∀ r ps, cuts r ps → apply r (textOf ps) = resultOf ps) {rs : List ρ}
    {p : (before w after : List α) → Prop} (h : Becomes cuts p rs before w after) :
    ∃ front made back, rs.foldl (fun s r => apply r s) (before ++ w ++ after) =
      front ++ made ++ back ∧ p front made back := by
  induction rs generalizing before w after with
  | nil => exact ⟨before, w, after, rfl, h⟩
  | cons r rs ih =>
    obtain ⟨ps, ms, qs, hcuts, rfl, rfl, rfl, hmore⟩ := h
    have hresult := happly r _ hcuts
    simp only [textOf_append, resultOf_append] at hresult
    rw [List.foldl_cons, hresult]
    exact ih hmore

end TextPieces

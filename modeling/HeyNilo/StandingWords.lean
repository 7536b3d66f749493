import HeyNilo.PieceRules

open TextPieces

/-- What the boundaries of words and a comparison that ignores case go by. -/
structure WholeWords (α : Type*) where
  isWord : α → Bool
  /-- Passed over by a boundary. -/
  isMark : α → Bool
  fold : α → α

namespace WholeWords

variable {α : Type*}

/-- Where `old` stands as a whole, in any case, `new` is put in. -/
structure Rule (α : Type*) where
  old : List α
  new : List α
  deriving DecidableEq

/-- The last element that is no mark is a word element. -/
def endsInWord (cl : WholeWords α) (before : List α) : Bool :=
  before.foldl (fun word c => if cl.isMark c then word else cl.isWord c) false

def boundary (cl : WholeWords α) (before : List α) : List α → Bool
  | [] => cl.endsInWord before
  | c :: _ => !cl.isMark c && cl.isWord c != cl.endsInWord before

/-- The word of the rule stands at this place. -/
structure Stands (cl : WholeWords α) (r : Rule α) (before w after : List α) : Prop where
  text : w.map cl.fold = r.old
  left : cl.boundary before (w ++ after) = true
  right : cl.boundary (before ++ w) after = true

instance [DecidableEq α] (cl : WholeWords α) (r : Rule α) (before w after : List α) :
    Decidable (cl.Stands r before w after) :=
  decidable_of_iff (w.map cl.fold = r.old ∧ cl.boundary before (w ++ after) = true ∧
    cl.boundary (before ++ w) after = true) ⟨fun h => ⟨h.1, h.2.1, h.2.2⟩, fun h => ⟨h.1, h.2, h.3⟩⟩

variable {cl : WholeWords α} {r : Rule α} {before after w u v s : List α} {c : α}
  {ms : List (Piece α)}

theorem Stands.length_eq (h : cl.Stands r before w after) : w.length = r.old.length := by
  rw [← h.text, List.length_map]

theorem endsInWord_append (cl : WholeWords α) (before w : List α) : cl.endsInWord (before ++ w) =
    w.foldl (fun word c => if cl.isMark c then word else cl.isWord c) (cl.endsInWord before) :=
  List.foldl_append

theorem endsInWord_concat (cl : WholeWords α) (before : List α) (c : α) :
    cl.endsInWord (before ++ [c]) = if cl.isMark c then cl.endsInWord before else cl.isWord c :=
  endsInWord_append cl before [c]

theorem endsInWord_of_last (hmark : cl.isMark c = false) :
    cl.endsInWord (before ++ [c]) = cl.isWord c := by
  rw [endsInWord_concat, if_neg (ne_true_of_eq_false hmark)]

/-- What a boundary after a text depends on. -/
theorem boundary_congr (hends : cl.endsInWord before = cl.endsInWord u)
    (hhead : s.head?.map (fun c => (cl.isMark c, cl.isWord c)) =
      after.head?.map fun c => (cl.isMark c, cl.isWord c)) :
    cl.boundary before s = cl.boundary u after := by
  cases s with
  | nil =>
    cases after with
    | nil => exact hends
    | cons d after => cases hhead
  | cons c s =>
    cases after with
    | nil => cases hhead
    | cons d after =>
      obtain ⟨hmark, hword⟩ := Prod.mk.inj (Option.some.inj hhead)
      rw [boundary, boundary, hends]
      rw [hmark, hword]

theorem boundary_word (hword : cl.isWord c = true) (hmark : cl.isMark c = false) :
    cl.boundary before (c :: s) = !cl.endsInWord before := by
  rw [boundary, hword, hmark]
  cases cl.endsInWord before <;> rfl

/-- What a rule has to be like for the texts it puts in to be told from words that it looks for. -/
structure Proper (cl : WholeWords α) (r : Rule α) : Prop where
  nonmark : ∀ c, cl.fold c ∈ r.old → cl.isMark c = false
  first : ∃ x xs, r.old = x :: xs ∧ ∀ c, cl.fold c = x → cl.isWord c = true
  newFirst : ∃ c cs, r.new = c :: cs ∧ cl.isWord c = true ∧ cl.isMark c = false
  newLast : ∃ cs c, r.new = cs ++ [c] ∧ cl.isWord c = true ∧ cl.isMark c = false

theorem Stands.head (h : cl.Stands r before w after) (hr : cl.Proper r) :
    ∃ c cs, w = c :: cs ∧ cl.isWord c = true ∧ cl.isMark c = false := by
  obtain ⟨x, xs, hold, hword⟩ := hr.first
  cases w with
  | nil => exact absurd (h.text.trans hold) (List.cons_ne_nil _ _).symm
  | cons c cs =>
    have hfold : cl.fold c = x := (List.cons.inj (h.text.trans hold)).1
    exact ⟨c, cs, rfl, hword c hfold, hr.nonmark c (by rw [hold, hfold]; exact List.mem_cons_self)⟩

theorem Stands.ne_nil (h : cl.Stands r before w after) (hr : cl.Proper r) : w ≠ [] := by
  obtain ⟨c, cs, rfl, -, -⟩ := h.head hr
  exact List.cons_ne_nil _ _

theorem Stands.nonmark (h : cl.Stands r before w after) (hr : cl.Proper r) (hc : c ∈ w) :
    cl.isMark c = false :=
  hr.nonmark c (h.text ▸ List.mem_map_of_mem hc)

/-- A word stands after no word element. -/
theorem Stands.not_endsInWord (h : cl.Stands r before w after) (hr : cl.Proper r) :
    cl.endsInWord before = false := by
  obtain ⟨c, cs, rfl, hword, hmark⟩ := h.head hr
  have hleft := h.left
  rw [List.cons_append, boundary_word hword hmark] at hleft
  exact Bool.not_eq_true' _ ▸ hleft

/-- Whether a word that has no mark ends in a word element does not depend on what is before it. -/
theorem endsInWord_of_nonmark (hne : w ≠ []) (hmark : ∀ c ∈ w, cl.isMark c = false) :
    cl.endsInWord (before ++ w) = cl.endsInWord (u ++ w) := by
  obtain ⟨front, c, rfl⟩ := (List.eq_nil_or_concat' w).resolve_left hne
  have hc : cl.isMark c = false := hmark c (by simp)
  rw [← List.append_assoc, ← List.append_assoc, endsInWord_of_last hc, endsInWord_of_last hc]

variable [DecidableEq α]

/-- The rule as one that goes through a text. -/
def rewrite (cl : WholeWords α) (r : Rule α) : Rewrite α where
  matchAt before rest :=
    let w := rest.take r.old.length
    if w ≠ [] ∧ cl.Stands r before w (rest.drop r.old.length) then some [.swapped w r.new] else none
  matched := by
    intro before rest ms h
    dsimp only at h
    split at h
    next hmatch =>
      cases h
      have htext : textOf [Piece.swapped (rest.take r.old.length) r.new] = rest.take r.old.length :=
        List.append_nil _
      rw [htext]
      exact ⟨hmatch.1, List.take_prefix _ _⟩
    next => cases h

theorem Stands.matchAt (h : cl.Stands r before w after) (hne : w ≠ []) :
    (cl.rewrite r).matchAt before (w ++ after) = some [.swapped w r.new] := by
  have htake : (w ++ after).take r.old.length = w := by rw [← h.length_eq, List.take_left]
  have hdrop : (w ++ after).drop r.old.length = after := by rw [← h.length_eq, List.drop_left]
  dsimp only [rewrite]
  rw [htake, hdrop, if_pos ⟨hne, h⟩]

theorem matchAt_some (h : (cl.rewrite r).matchAt before s = some ms) :
    ∃ w after, s = w ++ after ∧ w ≠ [] ∧ ms = [.swapped w r.new] ∧ cl.Stands r before w after := by
  dsimp only [rewrite] at h
  split at h
  next hmatch =>
    exact ⟨_, _, (List.take_append_drop _ _).symm, hmatch.1, (Option.some.inj h).symm, hmatch.2⟩
  next => cases h

/-- The rule finds nothing in or into this text that an earlier rule has put in. -/
structure Ignores (cl : WholeWords α) (r : Rule α) (new : List α) : Prop where
  inside : ∀ before p v after, new = p ++ v → v ≠ [] →
    (cl.rewrite r).matchAt (before ++ p) (v ++ after) = none
  into : ∀ u c rest w after, cl.isWord c = false → u ++ [c] ++ new ++ rest = w ++ after →
    (u ++ [c]).length < w.length → w.map cl.fold ≠ r.old

end WholeWords

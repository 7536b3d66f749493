import HeyNilo.TextPattern
import HeyNilo.RunsOfWords

open WordRuns

namespace TextPattern

variable {α : Type*} {isWord : α → Bool} {p : TextPattern α} {new s rest w : List α} {c : α}
  {left : Option α} {K L : List α → Prop}

/-- A replaced match with its neighbours: before and after it in the text, and after its replacement
in the result. -/
structure Match (α : Type*) where
  left : Option α
  text : List α
  right : Option α
  next : Option α

/-- The matches that `replaceLoop` replaces; `left` stands before the text. -/
def matchesLoop (p : TextPattern α) (new : List α) : Option α → Nat → List α → List (Match α)
  | _, _, [] => []
  | _, skip + 1, c :: s => matchesLoop p new (some c) skip s
  | left, 0, c :: s =>
    match matchFront p (c :: s) with
    | some rest =>
      if rest.length ≤ s.length then
        { left
          text := (c :: s).take (s.length + 1 - rest.length)
          right := rest.head?
          next := (replaceAll p new rest).head? } ::
            matchesLoop p new (some c) (s.length - rest.length) s
      else matchesLoop p new (some c) 0 s
    | none => matchesLoop p new (some c) 0 s

def replacedMatches (p : TextPattern α) (new s : List α) : List (Match α) :=
  matchesLoop p new none 0 s

/-- The match takes whole words only, of those that may go, and its replacement joins no others. -/
structure Match.Spares (isWord : α → Bool) (L : List α → Prop) (new : List α) (m : Match α) :
    Prop where
  front : joins isWord m.left m.text.head? = false
  back : joins isWord m.text.getLast? m.right = false
  gap : new ≠ [] ∨ joins isWord m.left m.next = false
  taken : ∀ w ∈ words isWord m.text, L w

instance [DecidableEq α] [DecidablePred L] (m : Match α) : Decidable (m.Spares isWord L new) :=
  decidable_of_iff
    (joins isWord m.left m.text.head? = false ∧ joins isWord m.text.getLast? m.right = false ∧
      (new ≠ [] ∨ joins isWord m.left m.next = false) ∧ ∀ w ∈ words isWord m.text, L w)
    ⟨fun h => ⟨h.1, h.2.1, h.2.2.1, h.2.2.2⟩, fun h => ⟨h.front, h.back, h.gap, h.taken⟩⟩

/-- A nonempty match stands at the front. -/
def Eats (p : TextPattern α) (s rest : List α) : Prop :=
  matchFront p s = some rest ∧ rest.length < s.length

theorem Eats.split (h : Eats p s rest) : ∃ w, w ≠ [] ∧ s = w ++ rest := by
  obtain ⟨hfront, hlen⟩ := h
  obtain ⟨items, -, hmatch⟩ := List.exists_of_findSome?_eq_some hfront
  obtain ⟨w, rfl, -⟩ := matchItems_some hmatch
  refine ⟨w, ?_, rfl⟩
  rintro rfl
  exact absurd hlen (Nat.lt_irrefl _)

theorem replaceLoop_append (w rest : List α) :
    replaceLoop p new w.length (w ++ rest) = replaceLoop p new 0 rest := by
  induction w with
  | nil => rfl
  | cons c w ih => exact ih

theorem matchesLoop_append (p : TextPattern α) (new : List α) (hw : w ≠ []) (left : Option α) (rest : List α) :
    matchesLoop p new left w.length (w ++ rest) = matchesLoop p new w.getLast? 0 rest := by
  induction w generalizing left with
  | nil => exact absurd rfl hw
  | cons c w ih =>
    cases w with
    | nil => rfl
    | cons d w => exact ih (List.cons_ne_nil d w) (some c)

theorem replaceAll_eats (h : Eats p (c :: w ++ rest) rest) :
    replaceAll p new (c :: w ++ rest) = new ++ replaceAll p new rest := by
  have hlen : rest.length ≤ (w ++ rest).length := by simp
  have hskip : (w ++ rest).length - rest.length = w.length := by simp
  rw [List.cons_append] at h ⊢
  rw [replaceAll, replaceLoop, h.1]
  dsimp only
  rw [if_pos hlen, hskip, replaceLoop_append, ← replaceAll]

theorem replaceAll_kept (h : ∀ rest, ¬ Eats p (c :: s) rest) :
    replaceAll p new (c :: s) = c :: replaceAll p new s := by
  rw [replaceAll, replaceLoop]
  split
  next rest hfront =>
    rw [if_neg fun hlen => h rest ⟨hfront, Nat.lt_succ_of_le hlen⟩, replaceAll]
  next => rfl

theorem matchesLoop_eats (h : Eats p (c :: w ++ rest) rest) :
    matchesLoop p new left 0 (c :: w ++ rest) =
      ⟨left, c :: w, rest.head?, (replaceAll p new rest).head?⟩ ::
        matchesLoop p new (c :: w).getLast? 0 rest := by
  have hlen : rest.length ≤ (w ++ rest).length := by simp
  have hskip : (w ++ rest).length - rest.length = w.length := by simp
  have htake : (w ++ rest).length + 1 - rest.length = (c :: w).length := by simp; omega
  have hrest := matchesLoop_append p new (List.cons_ne_nil c w) left rest
  rw [List.cons_append] at h hrest ⊢
  rw [matchesLoop, h.1]
  dsimp only
  rw [if_pos hlen, hskip, htake, ← List.cons_append, List.take_left]
  exact congrArg _ hrest

theorem matchesLoop_kept (h : ∀ rest, ¬ Eats p (c :: s) rest) :
    matchesLoop p new left 0 (c :: s) = matchesLoop p new (some c) 0 s := by
  rw [matchesLoop]
  split
  next rest hfront => rw [if_neg fun hlen => h rest ⟨hfront, Nat.lt_succ_of_le hlen⟩]
  next => rfl

theorem joins_of_word {x y : Option α} (hx : x.any isWord = true) (h : joins isWord x y = false) :
    y.any isWord = false := by
  rw [joins, hx, Bool.true_and] at h
  exact h

/-- What the replacements make of the words of a text, after an element that is in no word and after
one that is in a word. -/
structure Thinned (isWord : α → Bool) (K L : List α → Prop) (left : Option α) (t s : List α) : Prop where
  apart : left.any isWord = false → Thins K L (words isWord t) (words isWord s)
  inside : left.any isWord = true →
    (scan isWord t).1 = (scan isWord s).1 ∧ Thins K L (scan isWord t).2 (scan isWord s).2

/-- Before the end of a word or a gap the words are thinned in both cases. -/
theorem Thinned.thins {t : List α} (h : Thinned isWord K L left t s)
    (hs : joins isWord left s.head? = false) : Thins K L (words isWord t) (words isWord s) := by
  cases hleft : left.any isWord with
  | false => exact h.apart hleft
  | true =>
    obtain ⟨hfirst, hthins⟩ := h.inside hleft
    rw [scan_of_head (joins_of_word hleft hs)] at hfirst hthins
    have hwords : words isWord t = (scan isWord t).2 := by
      unfold words close
      rw [hfirst]
      rfl
    rw [hwords]
    exact hthins

theorem Thinned.eats (hnew : ∀ x ∈ new, isWord x = false) (hw : w ≠ []) {t : List α}
    (h : Thinned isWord K L w.getLast? t rest)
    (hspares : (Match.mk left w rest.head? t.head?).Spares isWord L new) :
    Thinned isWord K L left (new ++ t) (w ++ rest) := by
  have hthins : Thins K L (words isWord (new ++ t)) (words isWord (w ++ rest)) := by
    rw [words_gaps_append hnew, words_append hspares.back]
    exact (h.thins hspares.back).drop_append hspares.taken
  refine ⟨fun _ => hthins, fun hleft => ?_⟩
  have hold : (w ++ rest).head?.any isWord = false := by
    cases w with
    | nil => exact absurd rfl hw
    | cons c w => exact joins_of_word hleft hspares.front
  have hres : (new ++ t).head?.any isWord = false := by
    cases new with
    | nil => exact joins_of_word hleft (hspares.gap.resolve_left fun hne => hne rfl)
    | cons x new => exact hnew x List.mem_cons_self
  rw [scan_of_head hold, scan_of_head hres]
  exact ⟨rfl, hthins⟩

theorem Thinned.kept {t : List α} (h : Thinned isWord K L (some c) t s)
    (hK : isWord c = true → K (c :: (scan isWord s).1)) :
    Thinned isWord K L left (c :: t) (c :: s) := by
  cases hc : isWord c with
  | false =>
    have hthins := h.apart hc
    refine ⟨fun _ => ?_, fun _ => ?_⟩
    · rw [words_gap hc, words_gap hc]
      exact hthins
    · rw [scan_gap hc, scan_gap hc]
      exact ⟨rfl, hthins⟩
  | true =>
    obtain ⟨hfirst, hthins⟩ := h.inside hc
    refine ⟨fun _ => ?_, fun _ => ?_⟩
    · rw [words_word hc, words_word hc, hfirst]
      exact hthins.keep (hK hc)
    · rw [scan_word hc, scan_word hc, hfirst]
      exact ⟨rfl, hthins⟩

theorem thinned_replaceAll (hnew : ∀ x ∈ new, isWord x = false)
    (hK : ∀ w rest, w ≠ [] → (∀ x ∈ w, isWord x = true) → K w ∨ ∃ rest', Eats p (w ++ rest) rest')
    (h : ∀ m ∈ matchesLoop p new left 0 s, m.Spares isWord L new) :
    Thinned isWord K L left (replaceAll p new s) s := by
  induction hlen : s.length using Nat.strong_induction_on generalizing s left with
  | h n ih =>
    cases s with
    | nil => exact ⟨fun _ => .nil, fun _ => ⟨rfl, .nil⟩⟩
    | cons c s =>
      by_cases heats : ∃ rest, Eats p (c :: s) rest
      · obtain ⟨rest, heats⟩ := heats
        obtain ⟨w, hw, hsplit⟩ := heats.split
        cases w with
        | nil => exact absurd rfl hw
        | cons d w =>
          have hshort : rest.length < n := hlen ▸ heats.2
          rw [hsplit] at heats h ⊢
          rw [matchesLoop_eats heats] at h
          obtain ⟨hspares, hmore⟩ := List.forall_mem_cons.mp h
          rw [replaceAll_eats heats]
          exact (ih _ hshort hmore rfl).eats hnew hw hspares
      · have hkept : ∀ rest, ¬ Eats p (c :: s) rest := fun rest hrest => heats ⟨rest, hrest⟩
        have hshort : s.length < n := by
          rw [← hlen]
          exact Nat.lt_succ_self _
        rw [matchesLoop_kept hkept] at h
        rw [replaceAll_kept hkept]
        refine (ih _ hshort h rfl).kept fun hc => ?_
        -- no match begins at the word, so it is one that may be kept
        obtain ⟨rest, hrest⟩ := scan_fst_prefix isWord s
        refine (hK (c :: (scan isWord s).1) rest (List.cons_ne_nil _ _) ?_).resolve_right ?_
        · exact List.forall_mem_cons.mpr ⟨hc, scan_fst_word s⟩
        · rw [List.cons_append, hrest]
          exact heats

/-- Where the matches spare the words, the words of the result are words of the text, and only words
that may go are gone. -/
theorem words_replaceAll (hnew : ∀ x ∈ new, isWord x = false)
    (hK : ∀ w rest, w ≠ [] → (∀ x ∈ w, isWord x = true) → K w ∨ ∃ rest', Eats p (w ++ rest) rest')
    (h : ∀ m ∈ replacedMatches p new s, m.Spares isWord L new) :
    Thins K L (words isWord (replaceAll p new s)) (words isWord s) :=
  (thinned_replaceAll hnew hK h).apart rfl

theorem replaceAll_of_no_match (h : matchesLoop p new left 0 s = []) : replaceAll p new s = s := by
  induction s generalizing left with
  | nil => rfl
  | cons c s ih =>
    by_cases heats : ∃ rest, Eats p (c :: s) rest
    · obtain ⟨rest, heats⟩ := heats
      obtain ⟨w, hw, hsplit⟩ := heats.split
      cases w with
      | nil => exact absurd rfl hw
      | cons d w =>
        rw [hsplit] at heats h
        rw [matchesLoop_eats heats] at h
        cases h
    · have hkept : ∀ rest, ¬ Eats p (c :: s) rest := fun rest hrest => heats ⟨rest, hrest⟩
      rw [matchesLoop_kept hkept] at h
      rw [replaceAll_kept hkept, ih h]

/-- Every match is a nonempty text that the pattern stands for. -/
theorem accepts_of_mem_matches {m : Match α} (h : m ∈ matchesLoop p new left 0 s) :
    m.text ≠ [] ∧ ∃ items ∈ p, Accepts items m.text := by
  induction hlen : s.length using Nat.strong_induction_on generalizing s left with
  | h n ih =>
    cases s with
    | nil => cases h
    | cons c s =>
      by_cases heats : ∃ rest, Eats p (c :: s) rest
      · obtain ⟨rest, heats⟩ := heats
        obtain ⟨hfront, hshort⟩ := heats
        obtain ⟨items, hitems, hmatch⟩ := List.exists_of_findSome?_eq_some hfront
        obtain ⟨w, hsplit, haccepts⟩ := matchItems_some hmatch
        have heats : Eats p (w ++ rest) rest := hsplit ▸ ⟨hfront, hshort⟩
        rw [hlen] at hshort
        rw [hsplit] at h
        cases w with
        | nil => exact absurd heats.2 (Nat.lt_irrefl _)
        | cons d w =>
          rw [matchesLoop_eats heats] at h
          rcases List.mem_cons.mp h with rfl | h
          · exact ⟨List.cons_ne_nil d w, items, hitems, haccepts⟩
          · exact ih _ hshort h rfl
      · have hkept : ∀ rest, ¬ Eats p (c :: s) rest := fun rest hrest => heats ⟨rest, hrest⟩
        rw [matchesLoop_kept hkept] at h
        refine ih _ ?_ h rfl
        rw [← hlen]
        exact Nat.lt_succ_self _

theorem Match.spares_of_gaps {m : Match α} (hnew : new ≠ []) (htext : m.text ≠ [])
    (h : ∀ x ∈ m.text, isWord x = false) : m.Spares isWord L new where
  front := by
    cases hm : m.text with
    | nil => exact absurd hm htext
    | cons c w =>
      have hc : isWord c = false := h c (by rw [hm]; exact List.mem_cons_self)
      simp [joins, hc]
  back := by
    rw [List.getLast?_eq_some_getLast htext]
    simp [joins, h _ (List.getLast_mem htext)]
  gap := .inl hnew
  taken := by
    rw [words_of_gaps h]
    exact fun w hw => absurd hw List.not_mem_nil

end TextPattern

import HeyNilo.ReplyFilter
import HeyNilo.StreamingSpeech
import HeyNilo.ThinnedText

namespace HeyNilo

open WordRuns TextPattern

/-- Beyond ASCII: the blocks of symbols and punctuation. -/
def punctuationBlocks : List (Nat × Nat) := [
  (0x80, 0xBF), (0xD7, 0xD7), (0xF7, 0xF7), (0x2000, 0x206F), (0x3000, 0x303F), (0xFF00, 0xFF0F),
  (0xFF1A, 0xFF20), (0xFF3B, 0xFF40), (0xFF5B, 0xFF65)]

/-- What a word is made of. -/
def isWordChar (c : Char) : Bool :=
  c.isAlphanum ||
    (0x7F < c.toNat && !isPatternSpace c && !isWhitespace c &&
      !punctuationBlocks.any fun block => block.1 ≤ c.toNat && c.toNat ≤ block.2)

def isGap (text : Text) : Bool := text.all fun c => !isWordChar c

theorem isGap_iff {text : Text} : isGap text = true ↔ ∀ c ∈ text, isWordChar c = false := by
  simp [isGap]

def wordsOf (text : Text) : List Text := words isWordChar text

/-- The word that both filters take out. -/
def isMemory (word : Text) : Bool := word.map foldCase == "memory".toList

namespace TextFilter

variable {taken : Text → Bool} {text : Text} {rules : List Rule}

def exact (old : String) : TextPattern Char := [old.toList.map fun c => one (· == c)]

/-- Every match takes whole words only, of those that may be taken, and leaves a gap. -/
def SparesWords (taken : Text → Bool) (p : TextPattern Char) (new : String) (text : Text) : Prop :=
  ∀ m ∈ replacedMatches p new.toList text,
    isGap new.toList = true ∧
      m.Spares isWordChar (fun word => taken word = true) new.toList

instance (p : TextPattern Char) (new : String) : Decidable (SparesWords taken p new text) :=
  inferInstanceAs (Decidable (∀ m ∈ replacedMatches p new.toList text, _ ∧ _))

/-- The match of an anchored pattern. -/
def anchoredMatch (text rest : Text) : Match Char where
  left := none
  text := text.take (text.length - rest.length)
  right := rest.head?
  next := rest.head?

namespace Rule

/-- The rule takes no part of a word, no word other than those that may be taken, and neither splits a
word nor joins two. -/
def Spares (taken : Text → Bool) : Rule → Text → Prop
  | literal old new, text => SparesWords taken (exact old) new text
  | pattern p new, text => SparesWords taken p new text
  | anchored p new, text =>
    ∀ rest ∈ matchFront p text,
      isGap new.toList = true ∧
        (anchoredMatch text rest).Spares isWordChar (fun word => taken word = true) new.toList
  | each accepts new, text =>
    isGap new.toList = true ∧
      ∀ word ∈ wordsOf text,
        word.all (fun c => !accepts c) = true ∨ word.all accepts = true ∧ taken word = true
  | separate before after, text =>
    ∀ pair ∈ text.zip text.tail,
      (before pair.1 && after pair.2 && isWordChar pair.1 && isWordChar pair.2) = false

instance (taken : Text → Bool) (rule : Rule) (text : Text) : Decidable (rule.Spares taken text) :=
  match rule with
  | literal old new => inferInstanceAs (Decidable (SparesWords taken (exact old) new text))
  | pattern p new => inferInstanceAs (Decidable (SparesWords taken p new text))
  | anchored p new =>
    inferInstanceAs (Decidable (∀ rest ∈ matchFront p text,
      isGap new.toList = true ∧
        (anchoredMatch text rest).Spares isWordChar (fun word => taken word = true) new.toList))
  | each accepts new =>
    inferInstanceAs (Decidable (isGap new.toList = true ∧
      ∀ word ∈ wordsOf text,
        word.all (fun c => !accepts c) = true ∨ word.all accepts = true ∧ taken word = true))
  | separate before after =>
    inferInstanceAs (Decidable (∀ pair ∈ text.zip text.tail,
      (before pair.1 && after pair.2 && isWordChar pair.1 && isWordChar pair.2) = false))

/-- The rule rewrites what it is made for. -/
def WellFormed : Rule → Prop
  | literal old _ => old.toList ≠ []
  | each accepts _ => ∀ c, accepts c = true → isWordChar c = true
  | _ => True

/-- Rules other than those for a class, checked by evaluation. -/
def rewrites : Rule → Bool
  | literal old _ => !old.toList.isEmpty
  | each _ _ => false
  | _ => true

theorem wellFormed_of_rewrites {rule : Rule} (h : rule.rewrites = true) : rule.WellFormed := by
  cases rule with
  | literal old new => exact fun hold => by simp [rewrites, hold] at h
  | pattern p new => trivial
  | anchored p new => trivial
  | each accepts new => cases h
  | separate before after => trivial

end Rule

/-- Each rule of the chain spares the text that it gets. -/
def SparesAll (taken : Text → Bool) : List Rule → Text → Prop
  | [], _ => True
  | rule :: rules, text => rule.Spares taken text ∧ SparesAll taken rules (rule.apply text)

instance SparesAll.decidable (taken : Text → Bool) :
    (rules : List Rule) → (text : Text) → Decidable (SparesAll taken rules text)
  | [], _ => inferInstanceAs (Decidable True)
  | rule :: rules, text =>
    have := SparesAll.decidable taken rules (rule.apply text)
    inferInstanceAs (Decidable (_ ∧ _))

end TextFilter

open TextFilter

theorem matchItems_exact (old text : Text) :
    matchItems (old.map fun c => one (· == c)) text =
      if old.isPrefixOf text then some (text.drop old.length) else none := by
  induction old generalizing text with
  | nil => rfl
  | cons c old ih =>
    cases text with
    | nil => rfl
    | cons d text =>
      have hstep : matchItems ((c :: old).map fun c => one (· == c)) (d :: text) =
          if d == c then matchItems (old.map fun c => one (· == c)) text else none := by
        cases hd : d == c with
        | true => simp [matchItems, leading, one, tryDown, hd]
        | false => simp [matchItems, leading, one, tryDown, hd]
      rw [hstep, ih, List.isPrefixOf, BEq.comm]
      cases c == d with
      | true => simp
      | false => simp

theorem replaceLoop_eq (old : String) (hold : old.toList ≠ []) (new : Text) (skip : Nat) (text : Text) :
    replaceLoop old.toList new skip text = TextPattern.replaceLoop (exact old) new skip text := by
  induction text generalizing skip with
  | nil => cases skip <;> rfl
  | cons c text ih =>
    cases skip with
    | succ skip => exact ih skip
    | zero =>
      have hfront : matchFront (exact old) (c :: text) =
          if old.toList.isPrefixOf (c :: text) then some ((c :: text).drop old.toList.length)
          else none := by
        unfold matchFront exact
        rw [List.findSome?_singleton, matchItems_exact]
      rw [replaceLoop, TextPattern.replaceLoop, hfront]
      split
      next hpre =>
        have hlen := (List.isPrefixOf_iff_prefix.mp hpre).length_le
        have hpos := List.length_pos_iff.mpr hold
        rw [List.length_cons] at hlen
        have hskip : text.length - ((c :: text).drop old.toList.length).length =
            old.toList.length - 1 := by
          rw [List.length_drop, List.length_cons]
          omega
        have hshort : ((c :: text).drop old.toList.length).length ≤ text.length := by
          rw [List.length_drop, List.length_cons]
          omega
        dsimp only
        rw [if_pos hshort, hskip, ih]
      next => exact congrArg (List.cons c) (ih 0)

theorem replaceText_eq_replaceAll {old : String} (hold : old.toList ≠ []) (new text : Text) :
    replaceText old.toList new text = replaceAll (exact old) new text :=
  replaceLoop_eq old hold new 0 text

section

variable {taken : Text → Bool} {text : Text} {rule : Rule} {rules : List Rule}

/-- Some of the words are gone, all of them words that may be taken. -/
abbrev Loses (taken : Text → Bool) : List Text → List Text → Prop :=
  Thins (fun _ => True) fun word => taken word = true

theorem Loses.refl (taken : Text → Bool) (ws : List Text) : Loses taken ws ws :=
  .of_keep fun _ _ => trivial

theorem loses_replaceAll {p : TextPattern Char} {new : String} (h : SparesWords taken p new text) :
    Loses taken (wordsOf (replaceAll p new.toList text)) (wordsOf text) := by
  cases hmatches : replacedMatches p new.toList text with
  | nil =>
    rw [replaceAll_of_no_match hmatches]
    exact .refl _ _
  | cons m ms =>
    have hm : m ∈ replacedMatches p new.toList text := by
      rw [hmatches]
      exact List.mem_cons_self
    exact words_replaceAll (isGap_iff.mp (h m hm).1) (fun _ _ _ _ => .inl trivial) fun m hm => (h m hm).2

theorem loses_replaceStart {p : TextPattern Char} {new : String}
    (h : (Rule.anchored p new).Spares taken text) :
    Loses taken (wordsOf (replaceStart p new.toList text)) (wordsOf text) := by
  unfold replaceStart
  cases hfront : matchFront p text with
  | none => exact .refl _ _
  | some rest =>
    obtain ⟨hnew, hspares⟩ := h rest hfront
    obtain ⟨items, -, hmatch⟩ := List.exists_of_findSome?_eq_some hfront
    obtain ⟨w, rfl, -⟩ := matchItems_some hmatch
    have hw : (w ++ rest).take ((w ++ rest).length - rest.length) = w := by simp
    have hback : joins isWordChar w.getLast? rest.head? = false := by
      have hback := hspares.back
      unfold anchoredMatch at hback
      rwa [hw] at hback
    have htaken : ∀ word ∈ words isWordChar w, taken word = true := by
      have htaken := hspares.taken
      unfold anchoredMatch at htaken
      rwa [hw] at htaken
    show Loses taken (words isWordChar (new.toList ++ rest)) (words isWordChar (w ++ rest))
    rw [words_gaps_append (isGap_iff.mp hnew), words_append hback]
    exact (Loses.refl taken _).drop_append htaken

theorem replaceAll_each (accepts : Char → Bool) (new text : Text) :
    replaceAll [[one accepts]] new text =
      text.flatMap fun c => if accepts c then new else [c] := by
  induction text with
  | nil => rfl
  | cons c text ih =>
    have hfront : matchFront [[one accepts]] (c :: text) =
        if accepts c then some text else none := by
      cases hc : accepts c with
      | true => simp [matchFront, matchItems, leading, one, tryDown, hc]
      | false => simp [matchFront, matchItems, leading, one, tryDown, hc]
    rw [List.flatMap_cons, ← ih, replaceAll, TextPattern.replaceLoop, hfront]
    cases accepts c with
    | true =>
      show (if text.length ≤ text.length then _ else _) = _
      rw [if_pos (le_refl _), Nat.sub_self]
      rfl
    | false => rfl

/-- The class takes the word as a whole or not at all. -/
def Uniform (accepts : Char → Bool) (taken : Text → Bool) (word : Text) : Prop :=
  word.all (fun c => !accepts c) = true ∨ word.all accepts = true ∧ taken word = true

/-- What the rule for a class leaves of the words, the open one first. -/
theorem scan_each (taken : Text → Bool) (text : Text) {accepts : Char → Bool} {new : Text}
    (hwf : ∀ c, accepts c = true → isWordChar c = true) (hnew : ∀ c ∈ new, isWordChar c = false)
    (hopen : (∀ c ∈ (scan isWordChar text).1, accepts c = false) ∨
      ∀ c ∈ (scan isWordChar text).1, accepts c = true)
    (hwords : ∀ word ∈ (scan isWordChar text).2, Uniform accepts taken word) :
    (scan isWordChar (text.flatMap fun c => if accepts c then new else [c])).1 =
        (scan isWordChar text).1.filter (fun c => !accepts c) ∧
      Loses taken (scan isWordChar (text.flatMap fun c => if accepts c then new else [c])).2
        (scan isWordChar text).2 := by
  induction text with
  | nil => exact ⟨rfl, .nil⟩
  | cons c text ih =>
    cases hc : isWordChar c with
    | false =>
      have haccepts : accepts c = false := by
        cases ha : accepts c with
        | false => rfl
        | true => exact absurd (hwf c ha) (ne_true_of_eq_false hc)
      rw [scan_gap hc] at hwords
      rw [List.flatMap_cons, if_neg (ne_true_of_eq_false haccepts), List.singleton_append, scan_gap hc,
        scan_gap hc]
      refine ⟨rfl, ?_⟩
      -- the word that follows the gap is complete
      cases hfirst : (scan isWordChar text).1 with
      | nil =>
        have hclosed : words isWordChar text = (scan isWordChar text).2 := by
          unfold words close
          rw [hfirst]
          rfl
        rw [hclosed] at hwords ⊢
        obtain ⟨hout, hthins⟩ := ih (.inl (by simp [hfirst])) hwords
        rw [hfirst] at hout
        unfold words close
        rw [hout]
        exact hthins
      | cons d word =>
        have hclosed : words isWordChar text = (d :: word) :: (scan isWordChar text).2 := by
          unfold words close
          rw [hfirst]
          rfl
        rw [hclosed] at hwords ⊢
        obtain ⟨hword, hmore⟩ := List.forall_mem_cons.mp hwords
        rcases hword with hkept | ⟨hall, htaken⟩
        · have hkept : ∀ x ∈ d :: word, accepts x = false := by simpa using hkept
          obtain ⟨hout, hthins⟩ := ih (.inl (by rwa [hfirst])) hmore
          have hfilter : (d :: word).filter (fun c => !accepts c) = d :: word :=
            List.filter_eq_self.mpr fun x hx => by simp [hkept x hx]
          rw [hfirst, hfilter] at hout
          unfold words close
          rw [hout]
          exact hthins.keep trivial
        · have hall : ∀ x ∈ d :: word, accepts x = true := List.all_eq_true.mp hall
          obtain ⟨hout, hthins⟩ := ih (.inr (by rwa [hfirst])) hmore
          have hfilter : (d :: word).filter (fun c => !accepts c) = [] :=
            List.filter_eq_nil_iff.mpr fun x hx => by simp [hall x hx]
          rw [hfirst, hfilter] at hout
          unfold words close
          rw [hout]
          exact hthins.drop htaken
    | true =>
      rw [scan_word hc] at hopen hwords
      have hinner : (∀ c ∈ (scan isWordChar text).1, accepts c = false) ∨
          ∀ c ∈ (scan isWordChar text).1, accepts c = true :=
        hopen.imp (fun h x hx => h x (List.mem_cons_of_mem _ hx))
          fun h x hx => h x (List.mem_cons_of_mem _ hx)
      obtain ⟨hout, hthins⟩ := ih hinner hwords
      rw [List.flatMap_cons, scan_word hc]
      cases ha : accepts c with
      | false =>
        rw [if_neg Bool.false_ne_true, List.singleton_append, scan_word hc, hout,
          List.filter_cons_of_pos (by simp [ha])]
        exact ⟨rfl, hthins⟩
      | true =>
        have hall : ∀ x ∈ c :: (scan isWordChar text).1, accepts x = true := by
          refine hopen.resolve_left fun h => ?_
          exact Bool.false_ne_true ((h c List.mem_cons_self).symm.trans ha)
        have hfilter {word : Text} (h : ∀ x ∈ word, accepts x = true) :
            word.filter (fun c => !accepts c) = [] :=
          List.filter_eq_nil_iff.mpr fun x hx => by simp [h x hx]
        rw [hfilter fun x hx => hall x (List.mem_cons_of_mem _ hx)] at hout
        rw [if_pos rfl, hfilter hall]
        cases new with
        | nil => exact ⟨hout, hthins⟩
        | cons x new =>
          have hgap : isWordChar x = false := hnew x List.mem_cons_self
          rw [List.cons_append, scan_gap hgap,
            words_gaps_append fun y hy => hnew y (List.mem_cons_of_mem _ hy)]
          unfold words close
          rw [hout]
          exact ⟨rfl, hthins⟩

theorem loses_each {accepts : Char → Bool} {new : String}
    (hwf : ∀ c, accepts c = true → isWordChar c = true)
    (h : (Rule.each accepts new).Spares taken text) :
    Loses taken (wordsOf (replaceAll [[one accepts]] new.toList text)) (wordsOf text) := by
  obtain ⟨hnew, hwords⟩ := h
  rw [replaceAll_each]
  -- after a gap in front of the text no word is open
  have hspace : isWordChar ' ' = false := by decide
  have haccepts : accepts ' ' = false := by
    cases ha : accepts ' ' with
    | false => rfl
    | true => exact absurd (hwf ' ' ha) (ne_true_of_eq_false hspace)
  have hscan : scan isWordChar (' ' :: text) = ([], wordsOf text) := scan_gap hspace
  have hall := scan_each taken (' ' :: text) hwf (isGap_iff.mp hnew)
    (.inl (by rw [hscan]; exact fun c hc => absurd hc List.not_mem_nil))
    (by rw [hscan]; exact hwords)
  rw [List.flatMap_cons, haccepts, if_neg Bool.false_ne_true, List.singleton_append, hscan,
    scan_gap hspace] at hall
  exact hall.2

theorem words_separate {before after : Char → Bool}
    (h : (Rule.separate before after).Spares taken text) :
    scan isWordChar (TextFilter.separate before after text) = scan isWordChar text := by
  induction text using TextFilter.separate.induct before after with
  | case1 c d text hsplit ih =>
    obtain ⟨hpair, hrest⟩ := List.forall_mem_cons.mp h
    have htail : ∀ pair ∈ text.zip text.tail,
        (before pair.1 && after pair.2 && isWordChar pair.1 && isWordChar pair.2) = false := by
      cases text with
      | nil => exact fun pair hmem => absurd hmem List.not_mem_nil
      | cons e text => exact (List.forall_mem_cons.mp hrest).2
    have hspace : isWordChar ' ' = false := by decide
    have hsame := ih htail
    have hsecond : scan isWordChar (d :: TextFilter.separate before after text) =
        scan isWordChar (d :: text) := scan_cons_congr d hsame
    rw [TextFilter.separate, if_pos hsplit]
    cases hc : isWordChar c with
    | false =>
      rw [scan_gap hc, scan_gap hc, words_gap hspace, words, hsecond, words]
    | true =>
      rw [hsplit, hc, Bool.true_and, Bool.true_and] at hpair
      rw [scan_word hc, scan_word hc, scan_gap hspace, scan_gap hpair, words, hsecond,
        scan_gap hpair]
      rfl
  | case2 c d text hsplit ih =>
    obtain ⟨-, hrest⟩ := List.forall_mem_cons.mp h
    rw [TextFilter.separate, if_neg hsplit]
    exact scan_cons_congr c (ih hrest)
  | case3 text hshort =>
    rw [TextFilter.separate]
    exact hshort

theorem loses_apply (hwf : rule.WellFormed) (h : rule.Spares taken text) :
    Loses taken (wordsOf (rule.apply text)) (wordsOf text) := by
  cases rule with
  | literal old new =>
    show Loses taken (wordsOf (replaceText old.toList new.toList text)) _
    rw [replaceText_eq_replaceAll hwf]
    exact loses_replaceAll h
  | pattern p new => exact loses_replaceAll h
  | anchored p new => exact loses_replaceStart h
  | each accepts new => exact loses_each hwf h
  | separate before after =>
    show Loses taken (close (scan isWordChar (TextFilter.separate before after text))) _
    rw [words_separate h]
    exact .refl _ _

theorem loses_applyAll (hwf : ∀ rule ∈ rules, rule.WellFormed) (h : SparesAll taken rules text) :
    Loses taken (wordsOf (applyAll rules text)) (wordsOf text) := by
  induction rules generalizing text with
  | nil => exact .refl _ _
  | cons rule rules ih =>
    obtain ⟨hrule, hrules⟩ := List.forall_mem_cons.mp hwf
    exact (ih hrules h.2).trans (loses_apply hrule h.1)

end

end HeyNilo

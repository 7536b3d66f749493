import HeyNilo.SpeechMarkers

namespace HeyNilo

open TextPattern TextFilter TextPieces

/-- No `<` has a `>` after it. -/
def NoTag (s : Text) : Prop := ∀ before after, s = before ++ '<' :: after → '>' ∉ after

def tagPattern : TextPattern Char := [[one (· == '<'), many (· != '>') 0, one (· == '>')]]

theorem NoTag.of_isInfix {s t : Text} (h : NoTag t) (hin : s <:+: t) : NoTag s := by
  obtain ⟨front, back, rfl⟩ := hin
  rintro before after rfl hmem
  refine h (front ++ before) (after ++ back) (by simp) ?_
  exact List.mem_append_left _ hmem

/-- The first element is not the `<` of a tag, and there is none further on. -/
theorem noTag_cons {c : Char} {s : Text} (hc : c = '<' → '>' ∉ s) (h : NoTag s) : NoTag (c :: s) := by
  intro before after heq
  cases before with
  | nil =>
    obtain ⟨hfirst, rfl⟩ := List.cons.inj heq
    exact hc hfirst
  | cons d before =>
    obtain ⟨-, hrest⟩ := List.cons.inj heq
    exact h before after hrest

theorem mem_textOf {ps : List (Piece Char)} {c : Char} (hc : c ≠ ' ')
    (hspace : ∀ u v, .swapped u v ∈ ps → v = [' ']) (h : c ∈ resultOf ps) : c ∈ textOf ps := by
  obtain ⟨piece, hpiece, hmem⟩ := List.mem_flatMap.mp h
  cases piece with
  | kept d => exact List.mem_flatMap.mpr ⟨.kept d, hpiece, hmem⟩
  | swapped u v =>
    have hv : c ∈ v := hmem
    rw [hspace u v hpiece] at hv
    exact absurd (List.mem_singleton.mp hv) hc

theorem noTag_resultOf {ps : List (Piece Char)} (hspace : ∀ u v, .swapped u v ∈ ps → v = [' '])
    (h : NoTag (textOf ps)) : NoTag (resultOf ps) := by
  induction ps with
  | nil => exact h
  | cons piece ps ih =>
    have hrest : ∀ u v, .swapped u v ∈ ps → v = [' '] := fun u v hmem =>
      hspace u v (List.mem_cons_of_mem _ hmem)
    have hmore : NoTag (resultOf ps) := ih hrest (h.of_isInfix ⟨piece.text, [], List.append_nil _⟩)
    cases piece with
    | kept c =>
      refine noTag_cons (fun hc hmem => ?_) hmore
      exact h [] (textOf ps) (by rw [hc]; rfl) (mem_textOf (by decide) hrest hmem)
    | swapped u v =>
      obtain rfl := hspace u v List.mem_cons_self
      exact noTag_cons (fun hc => absurd hc (by decide)) hmore

theorem accepts_one {accepts : Char → Bool} {c : Char} (h : accepts c = true)
    {items : List (PatternItem Char)} {w : Text} (hw : Accepts items w) :
    Accepts (one accepts :: items) (c :: w) :=
  ⟨[c], w, rfl, fun _ hx => List.mem_singleton.mp hx ▸ h, le_refl 1,
    fun _ hmost => Option.some.inj hmost ▸ le_refl 1, hw⟩

/-- A `<` with a `>` after it is the beginning of a match. -/
theorem exists_tag {s : Text} (h : '>' ∈ s) : ∃ rest, Eats tagPattern ('<' :: s) rest := by
  obtain ⟨inner, rest, rfl, hinner⟩ := List.eq_append_cons_of_mem h
  have haccepts : Accepts [one (· == '<'), many (· != '>') 0, one (· == '>')]
      ('<' :: (inner ++ ['>'])) := by
    refine accepts_one (by decide) ⟨inner, ['>'], rfl, fun c hc => ?_, Nat.zero_le _, ?_, ?_⟩
    · exact bne_iff_ne.mpr fun heq => hinner (heq ▸ hc)
    · exact fun most hmost => nomatch hmost
    · exact accepts_one (by decide) rfl
  have hnever : NeverEmpty tagPattern := neverEmpty_of_least (by decide)
  have heats := exists_eats hnever (List.mem_singleton_self _) haccepts rest
  simpa using heats

theorem noTag_replaced {ps : List (Piece Char)} (h : Cuts tagPattern [' '] ps) :
    NoTag (resultOf ps) := by
  induction h with
  | nil =>
    intro before after heq
    exact absurd heq.symm (List.append_ne_nil_of_right_ne_nil _ (List.cons_ne_nil _ _))
  | @kept c ps h hmore ih =>
    refine noTag_cons (fun hc hmem => ?_) ih
    subst hc
    obtain ⟨rest, hrest⟩ := exists_tag (mem_textOf (by decide) (fun _ _ => hmore.new_eq) hmem)
    exact h rest hrest
  | swapped _ _ ih => exact noTag_cons (fun hc => absurd hc (by decide)) ih

theorem not_occurs_tag {s : Text} (h : NoTag s) : ¬ Occurs tagPattern s := by
  rintro ⟨items, hitems, w, ⟨before, after, rfl⟩, hw⟩
  rw [List.mem_singleton.mp hitems] at hw
  obtain ⟨u, v, rfl, hu, hleast, -, m, t, rfl, -, -, -, x, y, rfl, hx, hone, -, rfl⟩ := hw
  obtain ⟨a, u, rfl⟩ := List.exists_cons_of_length_pos hleast
  obtain ⟨b, x, rfl⟩ := List.exists_cons_of_length_pos hone
  have ha : a = '<' := beq_iff_eq.mp (hu a List.mem_cons_self)
  have hb : b = '>' := beq_iff_eq.mp (hx b List.mem_cons_self)
  subst a b
  refine h before (u ++ (m ++ '>' :: x) ++ after) (by simp) (by simp)

/-- Every blank of a pattern is a space and has none after it. -/
def SingleSpaced : Text → Prop
  | [] => True
  | c :: s =>
    (isPatternSpace c = true → c = ' ' ∧ ∀ d ∈ s.head?, isPatternSpace d = false) ∧ SingleSpaced s

theorem matchFront_spaces (c : Char) (s : Text) :
    matchFront [[spaces 1]] (c :: s) =
      if isPatternSpace c then some (s.dropWhile isPatternSpace) else none := by
  unfold matchFront
  rw [List.findSome?_singleton]
  have hleading : leading (spaces 1) (c :: s) = ((c :: s).takeWhile isPatternSpace).length := rfl
  rw [matchItems]
  dsimp only
  rw [hleading, List.takeWhile_cons]
  cases hc : isPatternSpace c with
  | false => rfl
  | true =>
    have hdrop : s.drop (s.takeWhile isPatternSpace).length = s.dropWhile isPatternSpace := by
      have happend := List.takeWhile_append_dropWhile (p := isPatternSpace) (l := s)
      calc s.drop (s.takeWhile isPatternSpace).length
          = (s.takeWhile isPatternSpace ++ s.dropWhile isPatternSpace).drop
              (s.takeWhile isPatternSpace).length := by rw [happend]
        _ = s.dropWhile isPatternSpace := List.drop_left
    simp [tryDown, spaces, matchItems, hdrop]

theorem head_dropWhile_spaces {s : Text} :
    ∀ d ∈ (s.dropWhile isPatternSpace).head?, isPatternSpace d = false :=
  fun _ hd => head_dropWhile hd

theorem eats_spaces {c : Char} (hc : isPatternSpace c = true) (s : Text) :
    Eats [[spaces 1]] (c :: s) (s.dropWhile isPatternSpace) := by
  refine ⟨by rw [matchFront_spaces, if_pos hc], ?_⟩
  exact Nat.lt_succ_of_le (List.dropWhile_suffix _).length_le

theorem not_eats_spaces {c : Char} (hc : isPatternSpace c = false) (s : Text) :
    ∀ rest, ¬ Eats [[spaces 1]] (c :: s) rest := by
  rintro rest ⟨hfront, -⟩
  rw [matchFront_spaces, hc] at hfront
  cases hfront

theorem replaceAll_space {c : Char} (hc : isPatternSpace c = true) (new s : Text) :
    replaceAll [[spaces 1]] new (c :: s) =
      new ++ replaceAll [[spaces 1]] new (s.dropWhile isPatternSpace) := by
  have hsplit : c :: s = c :: s.takeWhile isPatternSpace ++ s.dropWhile isPatternSpace := by
    rw [List.cons_append, List.takeWhile_append_dropWhile]
  have heats := eats_spaces hc s
  rw [hsplit] at heats ⊢
  exact replaceAll_eats heats

theorem singleSpaced_replaceAll (s : Text) : SingleSpaced (replaceAll [[spaces 1]] [' '] s) := by
  induction hlen : s.length using Nat.strong_induction_on generalizing s with
  | h n ih =>
    cases s with
    | nil => trivial
    | cons c s =>
      cases hc : isPatternSpace c with
      | false =>
        have hshort : s.length < n := hlen ▸ Nat.lt_succ_self _
        rw [replaceAll_kept (not_eats_spaces hc s)]
        exact ⟨fun h => absurd (hc.symm.trans h) (by decide), ih _ hshort s rfl⟩
      | true =>
        have hshort : (s.dropWhile isPatternSpace).length < n := hlen ▸ (eats_spaces hc s).2
        rw [replaceAll_space hc]
        refine ⟨fun _ => ⟨rfl, ?_⟩, ih _ hshort _ rfl⟩
        cases hrest : s.dropWhile isPatternSpace with
        | nil => exact fun d hd => nomatch hd
        | cons d rest =>
          have hd : isPatternSpace d = false := head_dropWhile_spaces d (by rw [hrest]; rfl)
          rw [replaceAll_kept (not_eats_spaces hd rest)]
          exact fun e he => Option.some.inj he ▸ hd

theorem SingleSpaced.drop {before s : Text} (h : SingleSpaced (before ++ s)) : SingleSpaced s := by
  induction before with
  | nil => exact h
  | cons c before ih => exact ih h.2

theorem SingleSpaced.take {s after : Text} (h : SingleSpaced (s ++ after)) : SingleSpaced s := by
  induction s with
  | nil => trivial
  | cons c s ih =>
    refine ⟨fun hc => ⟨(h.1 hc).1, fun d hd => (h.1 hc).2 d ?_⟩, ih h.2⟩
    change d ∈ (s ++ after).head?
    rw [List.head?_append, Option.mem_def.mp hd]
    rfl

theorem SingleSpaced.replaceAll_eq {s : Text} (h : SingleSpaced s) :
    replaceAll [[spaces 1]] [' '] s = s := by
  induction s with
  | nil => rfl
  | cons c s ih =>
    cases hc : isPatternSpace c with
    | false => rw [replaceAll_kept (not_eats_spaces hc s), ih h.2]
    | true =>
      obtain ⟨rfl, hnext⟩ := h.1 hc
      have hdrop : s.dropWhile isPatternSpace = s := by
        cases s with
        | nil => rfl
        | cons d s => exact List.dropWhile_cons_of_neg (ne_true_of_eq_false (hnext d rfl))
      rw [replaceAll_space hc, hdrop, ih h.2]
      rfl

theorem SingleSpaced.space {s : Text} (h : SingleSpaced s) {c : Char} (hc : c ∈ s)
    (hspace : isPatternSpace c = true) : c = ' ' := by
  obtain ⟨before, after, rfl⟩ := List.append_of_mem hc
  exact (h.drop.1 hspace).1

/-- The ends of the chain: what the last rules are applied to. -/
theorem filterTTSText_ends {text : Text} (h : isBlank text = false) :
    ∃ s, filterTTSText text = trim (replaceAll [[spaces 1]] [' ']
      (replaceAll [[many (· == '-') 3]] [' '] (replaceAll tagPattern [' '] s))) := by
  refine ⟨Replacement.applyAll ((filterRules.take 30).map Rule.replacement) text, ?_⟩
  have hchain : filterRules.map Rule.replacement = (filterRules.take 30).map Rule.replacement ++
      [{ pattern := tagPattern, new := [' '] }, { pattern := [[many (· == '-') 3]], new := [' '] },
        { pattern := [[spaces 1]], new := [' '] }] := rfl
  rw [filterTTSText_eq h, hchain, Replacement.applyAll, List.foldl_append]
  simp only [List.foldl_cons, List.foldl_nil, Replacement.apply, Bool.false_eq_true, if_false]
  rfl

theorem noTag_filterTTSText (text : Text) : NoTag (filterTTSText text) := by
  cases hblank : isBlank text with
  | true =>
    rw [filterTTSText, if_pos hblank]
    intro before after heq
    exact absurd heq.symm (List.append_ne_nil_of_right_ne_nil _ (List.cons_ne_nil _ _))
  | false =>
    obtain ⟨s, hs⟩ := filterTTSText_ends hblank
    have hkeeps (p : TextPattern Char) {s : Text} (h : NoTag s) : NoTag (replaceAll p [' '] s) := by
      obtain ⟨ps, hcuts, rfl⟩ := exists_cuts p [' '] s
      rw [hcuts.replaceAll_eq]
      exact noTag_resultOf (fun _ _ => hcuts.new_eq) h
    obtain ⟨ps, hcuts, rfl⟩ := exists_cuts tagPattern [' '] s
    rw [hcuts.replaceAll_eq] at hs
    rw [hs]
    exact (hkeeps _ (hkeeps _ (noTag_replaced hcuts))).of_isInfix (trim_isInfix _)

theorem singleSpaced_filterTTSText (text : Text) : SingleSpaced (filterTTSText text) := by
  cases hblank : isBlank text with
  | true =>
    rw [filterTTSText, if_pos hblank]
    trivial
  | false =>
    obtain ⟨s, hs⟩ := filterTTSText_ends hblank
    obtain ⟨before, after, hin⟩ := trim_isInfix (replaceAll [[spaces 1]] [' ']
      (replaceAll [[many (· == '-') 3]] [' '] (replaceAll tagPattern [' '] s)))
    have hall := singleSpaced_replaceAll
      (replaceAll [[many (· == '-') 3]] [' '] (replaceAll tagPattern [' '] s))
    rw [← hin] at hall
    rw [hs]
    exact hall.take.drop

/-- What a late rule has looked for does not come back: the rules after it put a space in. -/
theorem cleared (front : List Rule) (rule : Rule) (tail : List Rule)
    (hsplit : filterRules = front ++ rule :: tail)
    (htail : ∀ rule ∈ tail, rule.replacement.new = [' '])
    (hanchored : rule.replacement.anchored = false) (hnever : NeverEmpty rule.replacement.pattern)
    {w : Text} (hw : w ≠ []) (hspace : ' ' ∉ w)
    (hnew : rule.replacement.new = [' '] ∨ rule.replacement.new = [] ∧ w.length = 1)
    (hoccurs : Occurs rule.replacement.pattern w) (text : Text) : ¬ w <:+: filterTTSText text := by
  intro hin
  cases hblank : isBlank text with
  | true =>
    rw [filterTTSText, if_pos hblank] at hin
    exact hw (List.infix_nil.mp hin)
  | false =>
    have htails : ∀ r ∈ tail.map Rule.replacement, r.new = [' '] := by
      intro r hr
      obtain ⟨rule, hrule, rfl⟩ := List.mem_map.mp hr
      exact htail rule hrule
    rw [filterTTSText_eq hblank, hsplit, List.map_append, Replacement.applyAll, List.foldl_append]
      at hin
    have hrule := Replacement.infix_of_infix_applyAll htails hw hspace (hin.trans (trim_isInfix _))
    have hcleared := (Replacement.infix_of_infix_apply hw
      (hnew.imp_left fun hnew => ⟨hnew, hspace⟩) hrule).2
    exact hcleared hanchored hnever hoccurs

theorem late_new : ∀ rule ∈ filterRules.drop 28, rule.replacement.new = [' '] := by
  have hall : (filterRules.drop 28).all (fun rule => rule.replacement.new == [' ']) = true := by
    decide
  intro rule hrule
  exact beq_iff_eq.mp (List.all_eq_true.mp hall rule hrule)

theorem accepts_exact_iff {cs w : Text} : Accepts (cs.map fun c => one (· == c)) w ↔ w = cs := by
  induction cs generalizing w with
  | nil => exact Iff.rfl
  | cons c cs ih =>
    constructor
    · rintro ⟨u, v, rfl, hu, hleast, hmost, hv⟩
      obtain ⟨d, u, rfl⟩ := List.exists_cons_of_length_pos hleast
      have hlen : (d :: u).length ≤ 1 := hmost 1 rfl
      have hu0 : u = [] := List.length_eq_zero_iff.mp (Nat.le_zero.mp (Nat.le_of_succ_le_succ hlen))
      have hd : d = c := beq_iff_eq.mp (hu d List.mem_cons_self)
      rw [hu0, hd, ih.mp hv]
      rfl
    · rintro rfl
      exact @accepts_one (· == c) c (beq_self_eq_true c) _ _ (ih.mpr rfl)

theorem occurs_exact {old : String} {s : Text} : Occurs (exact old) s ↔ old.toList <:+: s := by
  constructor
  · rintro ⟨items, hitems, w, hw, h⟩
    rw [List.mem_singleton.mp hitems] at h
    exact accepts_exact_iff.mp h ▸ hw
  · intro h
    exact ⟨_, List.mem_singleton_self _, old.toList, h, accepts_exact_iff.mpr rfl⟩

theorem not_cjk (text : Text) : ¬ Occurs [[one isCjk]] (filterTTSText text) := by
  rintro ⟨items, hitems, w, hin, hw⟩
  have hnever : NeverEmpty (Rule.each isCjk "").replacement.pattern := neverEmpty_of_least (by decide)
  rw [List.mem_singleton.mp hitems] at hw
  obtain ⟨u, v, rfl, hu, hleast, hmost, rfl⟩ := hw
  obtain ⟨c, u, rfl⟩ := List.exists_cons_of_length_pos hleast
  have hlen : (c :: u ++ []).length = 1 := by
    have hmax : (c :: u).length ≤ 1 := hmost 1 rfl
    rw [List.append_nil]
    exact Nat.le_antisymm hmax hleast
  have hspace : ' ' ∉ c :: u ++ [] := by
    rw [List.append_nil]
    intro hmem
    exact absurd (hu ' ' hmem) (by decide)
  refine cleared (filterRules.take 27) (.each isCjk "") (filterRules.drop 28) rfl late_new rfl hnever
    (List.cons_ne_nil _ _) hspace (.inr ⟨rfl, hlen⟩) ?_ text hin
  exact ⟨_, List.mem_singleton_self _, _, List.infix_refl _, c :: u, [], rfl, hu, hleast, hmost, rfl⟩

theorem not_dots (text : Text) : ¬ Occurs (exact "...") (filterTTSText text) := by
  intro h
  refine cleared (filterRules.take 28) (.literal "..." " ") (filterRules.drop 29) rfl ?_ rfl (neverEmpty_of_least (by decide)) (w := "...".toList)
    (by decide) (by decide) (.inl rfl) (occurs_exact.mpr (List.infix_refl _)) text (occurs_exact.mp h)
  exact fun rule hrule => late_new rule (List.mem_of_mem_drop (i := 1) hrule)

theorem not_ellipsis (text : Text) : ¬ Occurs (exact "…") (filterTTSText text) := by
  intro h
  refine cleared (filterRules.take 29) (.literal "…" " ") (filterRules.drop 30) rfl ?_ rfl (neverEmpty_of_least (by decide)) (w := "…".toList)
    (by decide) (by decide) (.inl rfl) (occurs_exact.mpr (List.infix_refl _)) text (occurs_exact.mp h)
  exact fun rule hrule => late_new rule (List.mem_of_mem_drop (i := 2) hrule)

theorem not_dashes (text : Text) : ¬ Occurs [[many (· == '-') 3]] (filterTTSText text) := by
  rintro ⟨items, hitems, w, hin, hw⟩
  have hnever : NeverEmpty [[many (· == '-') 3]] := neverEmpty_of_least (by decide)
  rw [List.mem_singleton.mp hitems] at hw
  have hne : w ≠ [] := by
    rintro rfl
    exact hnever _ (List.mem_singleton_self _) hw
  have hspace : ' ' ∉ w := fun hmem => absurd (mem_of_accepts hw ' ' hmem) (by decide)
  refine cleared (filterRules.take 31) (.pattern [[many (· == '-') 3]] " ") (filterRules.drop 32) rfl ?_ rfl hnever hne hspace (.inl rfl)
    ⟨_, List.mem_singleton_self _, w, List.infix_refl w, hw⟩ text hin
  exact fun rule hrule => late_new rule (List.mem_of_mem_drop (i := 4) hrule)

theorem canEnd_concat {items : List (PatternItem Char)} {last : PatternItem Char}
    (h : last.least ≠ 0) (c : Char) : canEnd c (items ++ [last]) = last.accepts c := by
  induction items with
  | nil => simp [canEnd]
  | cons item items ih =>
    have hlast : (items ++ [last]).all (fun item => item.least == 0) = false := by simp [h]
    rw [List.cons_append, canEnd, ih, hlast, Bool.and_false, Bool.or_false]

/-- A role marker on a line of its own. -/
def rolePattern (role : String) : TextPattern Char :=
  [[spaces 0] ++ letters role ++ [spaces 0] ++ letters "\n"]

/-- Line breaks do not come through the filter. -/
theorem not_role (role : String) (text : Text) :
    ¬ Occurs (rolePattern role) (filterTTSText text) := by
  rintro ⟨items, hitems, w, hin, hw⟩
  rw [List.mem_singleton.mp hitems] at hw
  have hne : w ≠ [] := by
    rintro rfl
    have hleast := least_of_accepts_nil hw
    simp [letters] at hleast
  obtain ⟨c, hc⟩ : ∃ c, w.getLast? = some c := ⟨_, List.getLast?_eq_some_getLast hne⟩
  have hend := canEnd_of_accepts hw hc
  rw [show letters "\n" = [{ accepts := fun d => foldCase d == foldCase '\n' }] from rfl,
    canEnd_concat (by decide)] at hend
  have hnewline : c = '\n' := eq_of_foldCase (beq_iff_eq.mp hend) (by decide)
  have hmem : c ∈ filterTTSText text := hin.subset (List.mem_of_getLast? hc)
  have hspace := (singleSpaced_filterTTSText text).space hmem (hnewline ▸ by decide)
  exact absurd (hnewline.symm.trans hspace) (by decide)

/-- Without markers in it no rule changes the result. -/
theorem apply_filterTTSText {text : Text} (h : ∀ w, IsMarker w → ¬ w <:+: filterTTSText text) :
    ∀ rule ∈ filterRules,
      rule.replacement.apply (filterTTSText text) = filterTTSText text := by
  have hmarkers : ∀ rule ∈ markerRules,
      rule.replacement.apply (filterTTSText text) = filterTTSText text := by
    intro rule hrule
    refine Replacement.apply_of_not_occurs ?_
    rintro ⟨items, hitems, w, hin, hw⟩
    exact h w ⟨rule, hrule, items, hitems, hw⟩ hin
  have hsplit : filterRules = markerRules.take 22 ++ ([.anchored (rolePattern "system") "",
      .anchored (rolePattern "assistant") "", .anchored (rolePattern "user") ""] ++
      (markerRules.drop 22 ++ [.each isCjk "", .literal "..." " ", .literal "…" " ",
        .pattern tagPattern " ", .pattern [[many (· == '-') 3]] " ",
        .pattern [[spaces 1]] " "])) := rfl
  intro rule hrule
  rw [hsplit] at hrule
  rcases List.mem_append.mp hrule with hrule | hrule
  · exact hmarkers rule (List.mem_of_mem_take hrule)
  · rcases List.mem_append.mp hrule with hrule | hrule
    · simp only [List.mem_cons, List.not_mem_nil, or_false] at hrule
      rcases hrule with rfl | rfl | rfl
      · exact Replacement.apply_of_not_occurs (not_role "system" text)
      · exact Replacement.apply_of_not_occurs (not_role "assistant" text)
      · exact Replacement.apply_of_not_occurs (not_role "user" text)
    · rcases List.mem_append.mp hrule with hrule | hrule
      · exact hmarkers rule (List.mem_of_mem_drop hrule)
      · simp only [List.mem_cons, List.not_mem_nil, or_false] at hrule
        rcases hrule with rfl | rfl | rfl | rfl | rfl | rfl
        · exact Replacement.apply_of_not_occurs (not_cjk text)
        · exact Replacement.apply_of_not_occurs (not_dots text)
        · exact Replacement.apply_of_not_occurs (not_ellipsis text)
        · exact Replacement.apply_of_not_occurs (not_occurs_tag (noTag_filterTTSText text))
        · exact Replacement.apply_of_not_occurs (not_dashes text)
        · exact (singleSpaced_filterTTSText text).replaceAll_eq

theorem filterTTSText_trimmed (text : Text) : trim (filterTTSText text) = filterTTSText text := by
  cases h : isBlank text with
  | true =>
    rw [filterTTSText, if_pos h]
    rfl
  | false => rw [filterTTSText_eq h, trim_trim]

theorem filterTTSText_twice {text : Text} (h : ∀ w, IsMarker w → ¬ w <:+: filterTTSText text) :
    filterTTSText (filterTTSText text) = filterTTSText text := by
  have hsame (rules : List Rule) (hrules : ∀ rule ∈ rules,
      rule.replacement.apply (filterTTSText text) = filterTTSText text) :
      Replacement.applyAll (rules.map Rule.replacement) (filterTTSText text) =
        filterTTSText text := by
    induction rules with
    | nil => rfl
    | cons rule rules ih =>
      obtain ⟨hrule, hmore⟩ := List.forall_mem_cons.mp hrules
      change Replacement.applyAll (rules.map Rule.replacement) (rule.replacement.apply _) = _
      rw [hrule]
      exact ih hmore
  cases hblank : isBlank (filterTTSText text) with
  | true =>
    rw [← filterTTSText_trimmed] at hblank
    have hnil := trim_eq_nil_of_isBlank hblank
    rw [filterTTSText_trimmed] at hnil
    rw [hnil]
    rfl
  | false =>
    rw [filterTTSText_eq hblank, hsame filterRules (apply_filterTTSText h)]
    exact filterTTSText_trimmed text

/-- For every text that is not blank. -/
theorem filters_cleanly_iff (text : Text) :
    FiltersCleanly text ↔
      (isBlank text = false →
        ¬ Replacement.LeavesSpliced IsMarker (filterRules.map Rule.replacement) text) := by
  constructor
  · intro h hblank hspliced
    obtain ⟨w, hw, hin⟩ := (marker_iff_leavesSpliced hblank).mpr hspliced
    exact h.1 w hw hin
  · intro h
    have hclean : ∀ w, IsMarker w → ¬ w <:+: filterTTSText text := by
      intro w hw hin
      cases hblank : isBlank text with
      | true =>
        rw [filterTTSText, if_pos hblank] at hin
        exact isMarker_ne_nil hw (List.infix_nil.mp hin)
      | false => exact h hblank ((marker_iff_leavesSpliced hblank).mp ⟨w, hw, hin⟩)
    exact ⟨hclean, filterTTSText_twice hclean⟩

/-- The word MEMORY is taken out of an end marker, whose halves then make one. -/
theorem end_marker_spliced : ¬ ∀ text, FiltersCleanly text := by
  intro h
  have hmarker : IsMarker "im_end|".toList :=
    ⟨.literal "im_end|" "", by simp [markerRules, imEndRules], _, List.mem_singleton_self _,
      accepts_exact_iff.mpr rfl⟩
  refine (h "im_MEMORYend|".toList).1 _ hmarker ?_
  have hresult : filterTTSText "im_MEMORYend|".toList = "im_end|".toList := by decide +kernel
  rw [hresult]

end HeyNilo

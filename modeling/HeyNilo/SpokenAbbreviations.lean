import HeyNilo.SpokenSpelling

open TextPieces

namespace HeyNilo

open SpokenText

/-- What the removal passes leave. -/
def readText (raw : Text) : Text := Rewrite.applyAll removals raw

/-- The abbreviations that are written with a full stop, but for "Ms.". -/
def dotted : List (WholeWords.Rule Char) :=
  abbreviations.filter fun r => r.old ≠ "vs".toList ∧ r.old ≠ "ms.".toList

section Statement

variable (tables : WordTables)

/-- The abbreviation is there, in any case, and is no part of a longer word. -/
structure WholeWord (r : WholeWords.Rule Char) (before w after : Text) : Prop where
  text : w.map foldCase = r.old
  left : tables.words.endsInWord before = false
  right : ∀ c ∈ w.getLast?, tables.isWord c = true →
    tables.words.boundary (before ++ w) after = true

/-- White space, punctuation, a letter or the end of the text comes next. -/
def Followed (after : Text) : Prop :=
  ∀ c ∈ after.head?, isWhitespace c = true ∨ tables.isPunctuation c = true ∨ tables.isLetter c = true

/-- The abbreviation is read aloud: it is in what the removal passes leave, or it is in the text itself
and they leave it there. -/
def ReadAloud (raw : Text) (r : WholeWords.Rule Char) (before w after : Text) : Prop :=
  readText raw = before ++ w ++ after ∧
    (WholeWord tables r before w after ∧ Followed tables after ∨
      ∃ front back, raw = front ++ w ++ back ∧ WholeWord tables r front w back ∧
        Followed tables back ∧
          Becomes Rewrite.Cuts (fun b v a => b = before ∧ v = w ∧ a = after) removals front w back)

/-- The expansion comes in the place of the word, and what comes after leaves it there. -/
def Expanded (r : WholeWords.Rule Char) (before w after : Text) : Prop :=
  Becomes Rewrite.Cuts (fun b v a => ∃ p q, v = p ++ r.new ++ q ∧
      Survives Rewrite.Cuts (spelling tables ++ [trimEnds]) (b ++ p) r.new (q ++ a))
    (expansions tables) before w after

/-- Some of this part belongs to an abbreviation. -/
def InAbbreviation (before w after : Text) : Prop :=
  ∃ r ∈ abbreviations, ∃ x y z, before ++ w ++ after = x ++ y ++ z ∧ WholeWord tables r x y z ∧
    before.length < x.length + y.length ∧ x.length < before.length + w.length

structure ExpandsAbbreviations (raw : Text) : Prop where
  expanded : ∀ r ∈ dotted, ∀ before w after,
    ReadAloud tables raw r before w after → Expanded tables r before w after
  unchanged : ∀ before w after, readText raw = before ++ w ++ after →
    ¬ InAbbreviation tables before w after →
      Survives Rewrite.Cuts (expansions tables) before w after

/-- A word goes on behind this place. -/
def WordNext (after : Text) : Prop :=
  ∃ c ∈ after.head?, tables.isWord c = true ∧ tables.isMark c = false

instance (after : Text) : Decidable (WordNext tables after) :=
  inferInstanceAs (Decidable (∃ c ∈ after.head?, _))

/-- The rule for "vs" finds a "vs." that the one for "vs." cannot find. -/
def finder (r : WholeWords.Rule Char) (after : Text) : WholeWords.Rule Char :=
  if r.old = "vs.".toList ∧ ¬ WordNext tables after then abbreviation "vs" "versus" else r

/-- Directly before this place there is an abbreviation that comes earlier in the table. -/
def BehindEarlier (r : WholeWords.Rule Char) (before rest : Text) : Prop :=
  ∃ r' x y, [r', r].Sublist abbreviations ∧ before = x ++ y ∧ tables.words.Stands r' x y rest

/-- One that is not "Ms." behind an earlier one itself. -/
def Blocked (r : WholeWords.Rule Char) (before rest : Text) : Prop :=
  ∃ r' x y, [r', r].Sublist abbreviations ∧ before = x ++ y ∧ tables.words.Stands r' x y rest ∧
    (r'.old = "ms.".toList → ¬ BehindEarlier tables r' x (y ++ rest))

/-- When an abbreviation is found. -/
structure Heard (r : WholeWords.Rule Char) (before w after : Text) : Prop where
  /-- The removal passes have joined nothing to it. -/
  left : tables.words.endsInWord before = false
  next : WordNext tables after ∨ r.old = "vs.".toList
  /-- No other one begins inside it. -/
  alone : ∀ u v, w = u ++ v → u ≠ [] → v ≠ [] → ∀ r' ∈ abbreviations, ∀ y z, v ++ after = y ++ z →
    ¬ tables.words.Stands r' (before ++ u) y z
  free : ¬ Blocked tables (finder tables r after) before (w ++ after)

end Statement

variable {tables : WordTables} {r r' e : WholeWords.Rule Char} {t before w after x y z v m : Text}
  {F A C : List (Piece Char)}

theorem mem_of_dotted (h : r ∈ dotted) :
    r ∈ abbreviations ∧ r.old ≠ "vs".toList ∧ r.old ≠ "ms.".toList := by
  have hmem := List.mem_filter.mp h
  exact ⟨hmem.1, of_decide_eq_true hmem.2⟩

theorem mem_dotted (h : r ∈ abbreviations) (hvs : r.old ≠ "vs".toList) (hms : r.old ≠ "ms.".toList) :
    r ∈ dotted :=
  List.mem_filter.mpr ⟨h, decide_eq_true ⟨hvs, hms⟩⟩

theorem dotted_spellable : ∀ r ∈ abbreviations, r.old ≠ "ms.".toList → Spellable r.new := by
  decide +kernel

theorem dotted_longer : ∀ r ∈ dotted, r.old.length < r.new.length := by decide +kernel

/-- Only "vs" is written in another abbreviation. -/
theorem written_in_dotted : ∀ r ∈ dotted, ∀ cut ∈ cuts r.old, ∀ r' ∈ abbreviations,
    r'.old <+: cut.2 → cut.1 = [] ∧
      (r'.old = r.old ∨ r'.old = "vs".toList ∧ r.old = "vs.".toList) := by
  decide +kernel

theorem ends_dot : ∀ r ∈ abbreviations, r.old ≠ "vs".toList → r.old.getLast? = some '.' := by
  decide +kernel

theorem vs_mem : abbreviation "vs" "versus" ∈ abbreviations := by decide +kernel

/-- What comes before "vs." in the table comes before "vs". -/
theorem sublist_vs (h : [r', abbreviation "vs." "versus"].Sublist abbreviations) :
    [r', abbreviation "vs" "versus"].Sublist abbreviations := by
  have hall : ∀ r' ∈ abbreviations, [r', abbreviation "vs." "versus"].Sublist abbreviations →
      [r', abbreviation "vs" "versus"].Sublist abbreviations := by
    decide +kernel
  exact hall r' (h.subset List.mem_cons_self) h

theorem vsDot_mem : abbreviation "vs." "versus" ∈ abbreviations := by decide +kernel

theorem not_sublist_self : ¬ [r, r].Sublist abbreviations :=
  List.nodup_iff_sublist.mp (List.Nodup.of_map _ abbreviations_nodup) r

/-- No rule comes before the one for "e.g.". -/
theorem not_sublist_eg (h : r.old = "e.g.".toList) : ¬ [r', r].Sublist abbreviations := by
  have hfirst : ∃ eg back, abbreviations = [] ++ eg :: back ∧ eg.old = "e.g.".toList :=
    ⟨abbreviation "e.g." "for example", _, rfl, by decide⟩
  obtain ⟨eg, back, hsplit, hold⟩ := hfirst
  intro hsub
  obtain rfl : r = eg := eq_of_old (hsub.subset (by simp)) (hsplit ▸ by simp) (h.trans hold.symm)
  exact absurd ((sublist_iff_mem hsplit).mp hsub) List.not_mem_nil

/-- An abbreviation begins with a letter. -/
theorem head_latin (hr : r ∈ abbreviations) (hw : w.map foldCase = r.old) :
    ∃ c cs, w = c :: cs ∧ isLatin (foldCase c) = true := by
  obtain ⟨⟨d, hd, hlatin⟩, -⟩ := abbreviations_written r hr
  rw [← hw, List.head?_map] at hd
  obtain ⟨c, hc, rfl⟩ := Option.map_eq_some_iff.mp hd
  obtain ⟨cs, rfl⟩ := List.head?_eq_some_iff.mp hc
  exact ⟨c, cs, rfl, hlatin⟩

/-- All but "vs" end in a full stop. -/
theorem split_dot (hr : r ∈ abbreviations) (hvs : r.old ≠ "vs".toList) (hw : w.map foldCase = r.old) :
    ∃ u, w = u ++ ['.'] := by
  have hlast := ends_dot r hr hvs
  rw [← hw, List.getLast?_map] at hlast
  obtain ⟨c, hc, hfold⟩ := Option.map_eq_some_iff.mp hlast
  obtain ⟨u, rfl⟩ := List.getLast?_eq_some_iff.mp hc
  obtain rfl := eq_of_foldCase hfold (by decide)
  exact ⟨u, rfl⟩

theorem endsInWord_dot (u : Text) : tables.words.endsInWord (u ++ ['.']) = false := by
  rw [WholeWords.endsInWord_of_last tables.dot.2]
  exact tables.dot.1

/-- A boundary behind a full stop is one before a word. -/
theorem wordNext_iff (u : Text) :
    tables.words.boundary (u ++ ['.']) after = true ↔ WordNext tables after := by
  cases after with
  | nil =>
    rw [WholeWords.boundary, endsInWord_dot]
    constructor
    · exact fun h => absurd h Bool.false_ne_true
    · rintro ⟨_, hc, _⟩
      cases hc
  | cons c cs =>
    rw [WholeWords.boundary, endsInWord_dot]
    constructor
    · intro h
      obtain ⟨hmark, hword⟩ := Bool.and_eq_true_iff.mp h
      rw [Bool.bne_false] at hword
      rw [Bool.not_eq_true'] at hmark
      exact ⟨c, rfl, hword, hmark⟩
    · rintro ⟨d, hd, hword, hmark⟩
      cases hd
      change (!tables.isMark c && (tables.isWord c != false)) = true
      rw [hword, hmark]
      rfl

theorem wordNext_of_stands (hr : r ∈ abbreviations) (hvs : r.old ≠ "vs".toList)
    (h : tables.words.Stands r before w after) : WordNext tables after := by
  obtain ⟨u, rfl⟩ := split_dot hr hvs h.text
  have hright := h.right
  rw [← List.append_assoc] at hright
  exact (wordNext_iff _).mp hright

/-- A word that a rule finds is a whole word. -/
theorem wholeWord_of_stands (hr : r ∈ abbreviations) (h : tables.words.Stands r before w after) :
    WholeWord tables r before w after :=
  ⟨h.text, h.not_endsInWord (abbreviations_written r hr).proper, fun _ _ _ => h.right⟩

/-- "vs" is not found before a letter. -/
theorem not_stands_vs (hr : r ∈ abbreviations) (hw : w.map foldCase = r.old)
    (hvs : r'.old = "vs".toList) : ¬ tables.words.Stands r' x y (w ++ after) := by
  intro h
  obtain ⟨c, cs, rfl, hlatin⟩ := head_latin hr hw
  obtain ⟨hword, hmark, -⟩ := tables.letter c hlatin
  have hright := h.right
  have htext : y.map foldCase = r'.old := h.text
  rw [List.cons_append, WholeWords.boundary_word hword hmark, endsInWord_of_latin] at hright
  · cases hright
  · rw [List.map_append, htext, hvs]
    exact EndsInLatin.append (by decide)

/-- The rule finds `v` at the front of the abbreviation `w`. -/
structure Found (e r : WholeWords.Rule Char) (v m w : Text) : Prop where
  mem : e ∈ abbreviations
  new : e.new = r.new
  word : w = v ++ m
  text : v.map foldCase = e.old
  more : m = [] ∧ e = r ∨ m = ['.'] ∧ e.old = "vs".toList ∧ r.old = "vs.".toList

theorem found_self (hr : r ∈ abbreviations) (hw : w.map foldCase = r.old) : Found r r w [] w :=
  ⟨hr, rfl, (List.append_nil w).symm, hw, .inl ⟨rfl, rfl⟩⟩

theorem eq_vsDot (hr : r ∈ abbreviations) (h : r.old = "vs.".toList) :
    r = abbreviation "vs." "versus" :=
  eq_of_old hr vsDot_mem (h.trans (by decide))

theorem eq_vs (hr : r ∈ abbreviations) (h : r.old = "vs".toList) : r = abbreviation "vs" "versus" :=
  eq_of_old hr vs_mem (h.trans (by decide))

theorem found_vs (hr : r ∈ abbreviations) (hvs : r.old = "vs.".toList) (hw : w = v ++ ['.'])
    (hv : v.map foldCase = "vs".toList) : Found (abbreviation "vs" "versus") r v ['.'] w := by
  refine ⟨vs_mem, ?_, hw, hv.trans (by decide), .inr ⟨rfl, by decide, hvs⟩⟩
  rw [eq_vsDot hr hvs]
  rfl

/-- The word found, with what is behind it. -/
theorem Heard.stands (h : Heard tables r before w after) (hr : r ∈ abbreviations)
    (hvs : r.old ≠ "vs".toList) (hw : w.map foldCase = r.old) : ∃ v m,
      Found (finder tables r after) r v m w ∧
        tables.words.Stands (finder tables r after) before v (m ++ after) := by
  obtain ⟨c, cs, hcons, hlatin⟩ := head_latin hr hw
  obtain ⟨hword, hmark, -⟩ := tables.letter c hlatin
  have hleft (s : Text) : tables.words.boundary before (c :: s) = true := by
    rw [WholeWords.boundary_word hword hmark, h.left]
    rfl
  obtain ⟨v, hv⟩ := split_dot hr hvs hw
  by_cases hfinder : r.old = "vs.".toList ∧ ¬ WordNext tables after
  · rw [finder, if_pos hfinder]
    have htext : v.map foldCase = "vs".toList := by
      have hmap := hw
      rw [hv, List.map_append, hfinder.1] at hmap
      exact List.append_inj_left' (hmap.trans (show _ = "vs".toList ++ ['.'] from rfl)) rfl
    have hfound := found_vs hr hfinder.1 hv htext
    obtain ⟨d, ds, rfl, hd⟩ := head_latin hfound.mem hfound.text
    obtain ⟨rfl, -⟩ := List.cons.inj (hcons.symm.trans hv)
    refine ⟨_, ['.'], hfound, hfound.text, hleft _, ?_⟩
    have hends : tables.words.endsInWord (before ++ c :: ds) = true := by
      refine endsInWord_of_latin ?_
      rw [List.map_append, htext]
      exact EndsInLatin.append (by decide)
    change tables.words.boundary _ ('.' :: after) = true
    rw [WholeWords.boundary, hends]
    change (!tables.isMark '.' && (tables.isWord '.' != true)) = true
    rw [tables.dot.1, tables.dot.2]
    rfl
  · rw [finder, if_neg hfinder]
    have hnext : WordNext tables after := by
      by_contra hnone
      exact hfinder ⟨h.next.resolve_left hnone, hnone⟩
    refine ⟨w, [], found_self hr hw, hw, hcons ▸ hleft _, ?_⟩
    rw [hv, ← List.append_assoc]
    exact (wordNext_iff _).mpr hnext

/-- What comes earlier than the rule that finds an abbreviation comes earlier than one that stands
there. -/
theorem Found.sublist (h : Found e r v m w) (hr : r ∈ abbreviations)
    (hstands : tables.words.Stands e before v (m ++ after))
    (hearlier : [r', finder tables r after].Sublist abbreviations) :
    [r', e].Sublist abbreviations := by
  rcases h.more with ⟨rfl, rfl⟩ | ⟨-, he, hvs⟩
  · rwa [finder, if_neg] at hearlier
    rintro ⟨hold, hnone⟩
    refine hnone (wordNext_of_stands hr ?_ hstands)
    rw [hold]
    decide
  · rw [eq_vs h.mem he]
    unfold finder at hearlier
    split at hearlier
    next => exact hearlier
    next => exact sublist_vs (eq_vsDot hr hvs ▸ hearlier)

section Runs

open WholeWords

theorem marked_runs (hF : Runs tables.words abbreviations (t.map .kept) F) :
    Marked tables.words (· ∈ abbreviations) F :=
  hF.marked_kept (abbreviations_compatible tables)

theorem replaced_standing (hF : Runs tables.words abbreviations (t.map .kept) F)
    (h : Replaced F x y) : ∃ r ∈ abbreviations, ∃ z, t = x ++ y ++ z ∧ tables.words.Stands r x y z := by
  obtain ⟨r, z, hr, htext, hstands⟩ := (marked_runs hF).replaced h
  rw [hF.textOf_eq, textOf_kept] at htext
  exact ⟨r, hr, z, htext, hstands⟩

/-- Before what has been replaced no earlier rule has replaced a word. -/
theorem stands_of_replaced (hF : Runs tables.words abbreviations (t.map .kept) F)
    (he : e ∈ abbreviations) (hv : v.map foldCase = e.old) (ht : t = before ++ v ++ after)
    (h : Replaced F before v) : tables.words.Stands e before v after ∧
      ∀ r' x y, [r', e].Sublist abbreviations → before = x ++ y → y.map foldCase = r'.old →
        ¬ Replaced F x y := by
  obtain ⟨front, back, hsplit⟩ := List.append_of_mem he
  have hcompatible := abbreviations_compatible tables
  rw [hsplit] at hcompatible hF
  obtain ⟨hstands, hfree⟩ := hF.stands_of_replaced hcompatible hv h ht
  refine ⟨hstands, fun r' x y hearlier hbefore hy => hfree x y hbefore ?_⟩
  exact List.mem_map.mpr ⟨r', (sublist_iff_mem hsplit).mp hearlier, hy.symm⟩

/-- What stands there is replaced if nothing earlier stands over it or has been replaced before it. -/
theorem replaced_of_stands (hF : Runs tables.words abbreviations (t.map .kept) F)
    (he : e ∈ abbreviations) (ht : t = before ++ v ++ after)
    (hstands : tables.words.Stands e before v after)
    (hsame : e.old = "vs".toList → ∀ r' ∈ abbreviations, ∀ y z, r'.old = "vs.".toList →
      v ++ after = y ++ z → ¬ tables.words.Stands r' before y z)
    (hinside : e.old = "i.e.".toList → ∀ r' ∈ abbreviations, ∀ x y z, t = x ++ y ++ z →
      before.length < x.length → x.length < before.length + v.length →
        ¬ tables.words.Stands r' x y z)
    (hfree : ∀ r' x y, [r', e].Sublist abbreviations → before = x ++ y →
      tables.words.Stands r' x y (v ++ after) → ¬ Replaced F x y) : Replaced F before v := by
  obtain ⟨front, back, hsplit⟩ := List.append_of_mem he
  have hcompatible := abbreviations_compatible tables
  have hruns := hF
  rw [hsplit] at hcompatible hruns
  refine hruns.replaced_of_stands hcompatible ht hstands ?_ ?_
  · intro r' hr' x y z hs hy
    have hmem : r' ∈ abbreviations := by
      rw [hsplit]
      rcases List.mem_append.mp hr' with hmem | hmem
      · exact List.mem_append_left _ hmem
      · exact List.mem_append_right _ (List.mem_singleton.mp hmem ▸ List.mem_cons_self)
    rcases overlap_cases hsplit hr' ht hs hstands hy with hapart | ⟨hr'old, heold, rfl⟩ |
      ⟨-, heold, hbegin, hend⟩
    · exact hapart
    · refine absurd hy (hsame heold r' hmem y z hr'old ?_)
      rwa [ht, List.append_assoc, List.append_assoc, List.append_cancel_left_eq] at hs
    · exact absurd hy (hinside heold r' hmem x y z hs hbegin hend)
  · intro x y hbefore hmem hreplaced
    obtain ⟨r', hr', z, hs, hy⟩ := replaced_standing hF hreplaced
    obtain ⟨r'', hr'', hold⟩ := List.mem_map.mp hmem
    have hsame : r'' = r' := eq_of_old (hsplit ▸ List.mem_append_left _ hr'') hr' (hold.trans hy.text)
    subst hsame
    refine hfree r'' x y ((sublist_iff_mem hsplit).mpr hr'') hbefore ?_ hreplaced
    rw [ht, hbefore, List.append_assoc, List.append_cancel_left_eq] at hs
    exact hs ▸ hy

/-- What is expanded has been replaced, or the "vs" of a "vs." has. -/
theorem replaced_of_expanded (hF : Runs tables.words abbreviations (t.map .kept) F)
    (hr : r ∈ dotted) (ht : t = before ++ w ++ after) (hw : w.map foldCase = r.old)
    (h : Expanded tables r before w after) : ∃ e v m, Found e r v m w ∧ Replaced F before v := by
  have hmem := mem_of_dotted hr
  obtain ⟨A, B, C, rfl, hA, hB, -, p, q, hshown, -⟩ :=
    (ht ▸ hF).pieces_of_becomes (abbreviations_compatible tables) h
  rcases kept_or_swapped B with ⟨s, rfl⟩ | ⟨front, y, new, back, rfl⟩
  · -- a word that is kept is shorter than the expansion
    rw [textOf_kept] at hB
    rw [resultOf_kept, hB] at hshown
    have hlonger := dotted_longer r hr
    have hlength := congrArg List.length hshown
    rw [← hw, List.length_map] at hlonger
    rw [List.length_append, List.length_append] at hlength
    omega
  · have hreplaced : Replaced (A ++ (front ++ .swapped y new :: back ++ C)) (before ++ textOf front) y :=
      ⟨A ++ front, new, back ++ C, by simp, by rw [textOf_append, hA]⟩
    obtain ⟨r', hr', z, -, hy⟩ := replaced_standing hF hreplaced
    have hparts : w = textOf front ++ y ++ textOf back := by
      rw [← hB, textOf_append]
      simp [textOf, Piece.text]
    have hytext : y.map foldCase = r'.old := hy.text
    have hold : r.old = (textOf front).map foldCase ++ (r'.old ++ (textOf back).map foldCase) := by
      rw [← hw, hparts, List.map_append, List.map_append, hytext, List.append_assoc]
    obtain ⟨hnil, hcases⟩ := written_in_dotted r hr _ (hold ▸ mem_cuts _ _) r' hr' ⟨_, rfl⟩
    have hfront : textOf front = [] := List.map_eq_nil_iff.mp hnil
    rw [hfront, List.nil_append] at hparts
    rw [hfront, List.append_nil] at hreplaced
    rw [hfront, List.map_nil, List.nil_append] at hold
    rcases hcases with hsame | ⟨hvs, hrold⟩
    · have hback : textOf back = [] := by
        rw [hsame, List.self_eq_append_right] at hold
        exact List.map_eq_nil_iff.mp hold
      rw [hback, List.append_nil] at hparts
      subst hparts
      exact ⟨r, w, [], found_self hmem.1 hw, hreplaced⟩
    · rw [hrold, hvs] at hold
      have hback : (textOf back).map foldCase = ['.'] :=
        List.append_cancel_left (show "vs".toList ++ _ = "vs".toList ++ ['.'] from hold.symm)
      obtain ⟨c, hc, hfold⟩ := List.map_eq_singleton_iff.mp hback
      obtain rfl := eq_of_foldCase hfold (by decide)
      rw [hc] at hparts
      exact ⟨_, y, ['.'], found_vs hmem.1 hrold hparts (hytext.trans hvs), hreplaced⟩

/-- A full stop has not been replaced. -/
theorem dot_kept (hF : Runs tables.words abbreviations (t.map .kept) (A ++ C))
    (hC : textOf C = '.' :: after) : ∃ D, C = .kept '.' :: D ∧ textOf D = after := by
  cases C with
  | nil => cases hC
  | cons piece D =>
    cases piece with
    | kept c =>
      obtain ⟨rfl, hD⟩ := List.cons.inj hC
      exact ⟨D, rfl, hD⟩
    | swapped y new =>
      obtain ⟨r, hr, z, -, hy⟩ := replaced_standing hF ⟨A, new, D, rfl, rfl⟩
      obtain ⟨c, cs, rfl, hlatin⟩ := head_latin hr hy.text
      obtain ⟨rfl, -⟩ := List.cons.inj hC
      exact absurd hlatin (by decide)

theorem expanded_of_replaced (hF : Runs tables.words abbreviations (t.map .kept) F)
    (hr : r ∈ dotted) (ht : t = before ++ w ++ after) (hfound : Found e r v m w)
    (h : Replaced F before v) : Expanded tables r before w after := by
  obtain ⟨A, new, C, rfl, rfl⟩ := h
  obtain ⟨hmem, -, hms⟩ := mem_of_dotted hr
  obtain ⟨e', he', hnew, hstands⟩ := marked_runs hF A v new C rfl
  obtain rfl : e' = e := eq_of_old he' hfound.mem (hstands.text.symm.trans hfound.text)
  have htext := hF.textOf_eq
  rw [textOf_kept, ht, hfound.word, textOf_append, List.append_assoc, List.append_cancel_left_eq,
    List.append_assoc] at htext
  have hC : textOf C = m ++ after := List.append_cancel_left htext
  obtain ⟨M, D, rfl, hM, hD⟩ : ∃ M D, C = M ++ D ∧ textOf M = m ∧ textOf D = after := by
    rcases hfound.more with ⟨rfl, -⟩ | ⟨rfl, -, -⟩
    · exact ⟨[], C, rfl, rfl, hC⟩
    · rw [List.append_cons] at hF
      obtain ⟨D, rfl, hD⟩ := dot_kept hF hC
      exact ⟨[.kept '.'], D, rfl, rfl, hD⟩
  have hbecomes := hF.becomes_of_pieces (abbreviations_compatible tables)
    (p := fun b v a => ∃ p q, v = p ++ r.new ++ q ∧
      Survives Rewrite.Cuts (spelling tables ++ [trimEnds]) (b ++ p) r.new (q ++ a))
    (show _ = A ++ (.swapped v new :: M ++ D) by rw [List.cons_append]) ⟨[], resultOf M, by
      rw [List.nil_append, ← hfound.new, ← hnew]
      rfl, survives_spelling (dotted_spellable r hmem hms)⟩
  have hB : textOf (.swapped v new :: M) = w := by
    rw [hfound.word, ← hM]
    rfl
  rwa [hB, hD] at hbecomes

theorem followed_abbreviation (hr : r ∈ abbreviations) (hw : w.map foldCase = r.old) :
    Followed tables (w ++ after) := by
  obtain ⟨c, cs, rfl, hlatin⟩ := head_latin hr hw
  intro d hd
  cases hd
  exact .inr (.inr (tables.letter c hlatin).2.2.2)

theorem finder_of_next (h : WordNext tables after) : finder tables r after = r :=
  if_neg fun hfinder => hfinder.2 h

/-- An abbreviation that is found is replaced, if those that are read aloud before it are. -/
theorem replaced_of_heard (hF : Runs tables.words abbreviations (t.map .kept) F)
    (hr : r ∈ dotted) (ht : t = before ++ w ++ after) (hw : w.map foldCase = r.old)
    (h : Heard tables r before w after)
    (hbefore : ∀ r' ∈ dotted, ∀ x y z, t = x ++ y ++ z → x.length < before.length →
      tables.words.Stands r' x y z → Followed tables z → Replaced F x y) :
    ∃ v m, Found (finder tables r after) r v m w ∧ Replaced F before v := by
  obtain ⟨hmem, hvs, hms⟩ := mem_of_dotted hr
  obtain ⟨v, m, hfound, hstands⟩ := h.stands hmem hvs hw
  have htext : t = before ++ v ++ (m ++ after) := by
    rw [ht, hfound.word]
    simp
  have hrest : v ++ (m ++ after) = w ++ after := by rw [hfound.word, List.append_assoc]
  refine ⟨v, m, hfound, replaced_of_stands hF hfound.mem htext hstands ?_ ?_ ?_⟩
  · -- "vs." is not found where "vs" is looked for
    intro hold r' hr' y z hr'old hsplit hy
    rcases hfound.more with ⟨-, hself⟩ | ⟨-, -, hrold⟩
    · exact hvs (hself ▸ hold)
    · have hlength : w.length = y.length := by
        rw [hy.length_eq, hr'old, ← hrold, ← hw, List.length_map]
      obtain ⟨-, rfl⟩ := List.append_inj (hrest.symm.trans hsplit) hlength
      have hnext := wordNext_of_stands hr' (by rw [hr'old]; decide) hy
      rw [finder_of_next hnext] at hold
      exact hvs hold
  · intro hold r' hr' x y z hs hbegin hend hy
    rcases hfound.more with ⟨rfl, -⟩ | ⟨-, hvsOld, -⟩
    · have hvw : v = w := (hfound.word.trans (List.append_nil v)).symm
      subst hvw
      have hsplit := ht.symm.trans hs
      rw [List.append_assoc, List.append_assoc] at hsplit
      obtain ⟨u, rfl⟩ : before <+: x :=
        List.prefix_of_prefix_length_le ⟨_, hsplit⟩ ⟨_, rfl⟩ (Nat.le_of_lt hbegin)
      rw [List.append_assoc, List.append_cancel_left_eq] at hsplit
      rw [List.length_append] at hbegin hend
      obtain ⟨v', rfl⟩ : u <+: v :=
        List.prefix_of_prefix_length_le ⟨_, hsplit.symm⟩ ⟨_, rfl⟩ (by omega)
      rw [List.append_assoc, List.append_cancel_left_eq] at hsplit
      rw [List.length_append] at hend
      exact h.alone u v' rfl (List.length_pos_iff.mp (by omega)) (List.length_pos_iff.mp (by omega)) r' hr'
        y z hsplit hy
    · exact absurd (hvsOld.symm.trans hold) (by decide)
  · intro r' x y hearlier hxy hy hreplaced
    rw [hrest] at hy
    have hr' : r' ∈ abbreviations := hearlier.subset List.mem_cons_self
    refine h.free ⟨r', x, y, hearlier, hxy, hy, fun hms' => ?_⟩
    rintro ⟨r'', x', y', hearlier', hx, hy'⟩
    have hr'' : r'' ∈ abbreviations := hearlier'.subset List.mem_cons_self
    have hdotted : r'' ∈ dotted := by
      refine mem_dotted hr'' (fun hold => not_stands_vs hr' hy.text hold hy') fun hold => ?_
      obtain rfl : r'' = r' := eq_of_old hr'' hr' (hold.trans hms'.symm)
      exact not_sublist_self hearlier'
    have hs : t = x' ++ y' ++ (y ++ (w ++ after)) := by
      rw [ht, hxy, hx]
      simp
    have hshort : x'.length < before.length := by
      have hpos := List.length_pos_iff.mpr (hy'.ne_nil (abbreviations_written r'' hr'').proper)
      rw [hxy, hx, List.length_append, List.length_append]
      omega
    have hreplaced' := hbefore r'' hdotted x' y' _ hs hshort hy' (followed_abbreviation hr' hy.text)
    have htext' : t = x ++ y ++ (w ++ after) := by rw [ht, hxy, List.append_assoc]
    exact (stands_of_replaced hF hr' hy.text htext' hreplaced).2 r'' x' y' hearlier' hx hy'.text
      hreplaced'

theorem ReadAloud.text {raw : Text} (h : ReadAloud tables raw r before w after) :
    w.map foldCase = r.old := by
  obtain ⟨-, ⟨hword, -⟩ | ⟨_, _, -, hword, -⟩⟩ := h
  · exact hword.text
  · exact hword.text

theorem readAloud_of_stands {raw : Text} (hr : r ∈ abbreviations)
    (ht : readText raw = before ++ w ++ after) (h : tables.words.Stands r before w after)
    (hafter : Followed tables after) : ReadAloud tables raw r before w after :=
  ⟨ht, .inl ⟨wholeWord_of_stands hr h, hafter⟩⟩

/-- Where each abbreviation that is read aloud is found, each is replaced. -/
theorem all_replaced {raw : Text} (hF : Runs tables.words abbreviations ((readText raw).map .kept) F)
    (h : ∀ r ∈ dotted, ∀ before w after, ReadAloud tables raw r before w after →
      Heard tables r before w after) (hr : r ∈ dotted)
    (hread : ReadAloud tables raw r before w after) :
    ∃ v m, Found (finder tables r after) r v m w ∧ Replaced F before v := by
  induction hlen : before.length using Nat.strong_induction_on generalizing r before w after with
  | h n ih =>
    refine replaced_of_heard hF hr hread.1 hread.text (h r hr before w after hread) ?_
    intro r' hr' x y z hs hshort hy hz
    obtain ⟨hmem, hvs, -⟩ := mem_of_dotted hr'
    have hread' := readAloud_of_stands hmem hs hy hz
    obtain ⟨v, m, hfound, hreplaced⟩ := ih _ (hlen ▸ hshort) hr' hread' rfl
    rw [finder_of_next (wordNext_of_stands hmem hvs hy)] at hfound
    rcases hfound.more with ⟨rfl, -⟩ | ⟨-, hold, -⟩
    · rw [hfound.word, List.append_nil]
      exact hreplaced
    · exact absurd hold hvs

/-- An abbreviation that has been replaced was found. -/
theorem heard_of_replaced {raw : Text}
    (hF : Runs tables.words abbreviations ((readText raw).map .kept) F)
    (h : ∀ r ∈ dotted, ∀ before w after, ReadAloud tables raw r before w after →
      Expanded tables r before w after) (hr : r ∈ dotted)
    (hread : ReadAloud tables raw r before w after) (hfound : Found e r v m w)
    (hreplaced : Replaced F before v) : Heard tables r before w after := by
  obtain ⟨hmem, hvs, hms⟩ := mem_of_dotted hr
  have ht := hread.1
  have htext : readText raw = before ++ v ++ (m ++ after) := by
    rw [ht, hfound.word]
    simp
  obtain ⟨hstands, hnone⟩ := stands_of_replaced hF hfound.mem hfound.text htext hreplaced
  constructor
  · exact hstands.not_endsInWord (abbreviations_written e hfound.mem).proper
  · rcases hfound.more with ⟨rfl, rfl⟩ | ⟨-, -, hold⟩
    · exact .inl (wordNext_of_stands hmem hvs hstands)
    · exact .inr hold
  · -- of two that overlap both would have been replaced
    intro u v' hw hu hv' r' hr' y z hsplit hy
    have hs : before ++ w ++ after = before ++ u ++ y ++ z := by
      rw [hw, List.append_assoc, List.append_assoc, hsplit]
      simp
    have hupos := List.length_pos_iff.mpr hu
    have hvpos := List.length_pos_iff.mpr hv'
    have hwlen : w.length = u.length + v'.length := by rw [hw, List.length_append]
    have hbegins := begins_inside (abbreviations_written r' hr') hs hread.text hy
      (by rw [List.length_append]; omega) (by rw [List.length_append]; omega)
    obtain ⟨hinner, houter⟩ := abbreviations_inside r hmem r' hr' hbegins
    have hother : Replaced F (before ++ u) y := by
      refine replaced_of_stands hF hr' (ht.trans hs) hy ?_ ?_ ?_
      · exact fun hold => absurd (hinner.symm.trans hold) (by decide)
      · exact fun hold => absurd (hinner.symm.trans hold) (by decide)
      · exact fun r'' x' y' hearlier => absurd hearlier (not_sublist_eg hinner)
    have hword : Replaced F before w := by
      rcases hfound.more with ⟨rfl, -⟩ | ⟨-, -, hold⟩
      · rw [hfound.word, List.append_nil]
        exact hreplaced
      · exact absurd (houter.symm.trans hold) (by decide)
    have hypos := List.length_pos_iff.mpr (hy.ne_nil (abbreviations_written r' hr').proper)
    rcases replaced_apart hword hother with ⟨hbefore, -⟩ | hapart
    · exact hu (List.self_eq_append_right.mp hbefore)
    · rw [List.length_append] at hapart
      omega
  · rintro ⟨r', x, y, hearlier, hxy, hy, hfree⟩
    have hr' : r' ∈ abbreviations := hearlier.subset List.mem_cons_self
    have htext' : readText raw = x ++ y ++ (w ++ after) := by rw [ht, hxy, List.append_assoc]
    refine hnone r' x y (hfound.sublist hmem hstands hearlier) hxy hy.text ?_
    have hvs' : r'.old ≠ "vs".toList := fun hold => not_stands_vs hmem hread.text hold hy
    -- it would be enough for it to be replaced that nothing earlier is before it
    have hstanding (hie : r'.old ≠ "i.e.".toList) (hnothing : ∀ r'' x' y', [r'', r'].Sublist abbreviations → x = x' ++ y' →
        tables.words.Stands r'' x' y' (y ++ (w ++ after)) → ¬ Replaced F x' y') : Replaced F x y := by
      exact replaced_of_stands hF hr' htext' hy (fun hold => absurd hold hvs')
        (fun hold => absurd hold hie) hnothing
    by_cases hms' : r'.old = "ms.".toList
    · exact hstanding (by rw [hms']; decide) fun r'' x' y' hearlier' hx hy' _ =>
        hfree hms' ⟨r'', x', y', hearlier', hx, hy'⟩
    · have hread' := readAloud_of_stands hr' htext' hy (followed_abbreviation hmem hread.text)
      have hexpanded := h r' (mem_dotted hr' hvs' hms') x y _ hread'
      obtain ⟨e', v', m', hfound', hreplaced'⟩ :=
        replaced_of_expanded hF (mem_dotted hr' hvs' hms') htext' hy.text hexpanded
      rcases hfound'.more with ⟨rfl, -⟩ | ⟨-, hold, hvsDot⟩
      · rw [hfound'.word, List.append_nil]
        exact hreplaced'
      · refine hstanding (by rw [hvsDot]; decide) fun r'' x' y' hearlier' hx hy' => ?_
        have hsplit : readText raw = x ++ v' ++ (m' ++ (w ++ after)) := by
          rw [htext', hfound'.word]
          simp
        have hsub := sublist_vs (eq_vsDot hr' hvsDot ▸ hearlier')
        rw [← eq_vs hfound'.mem hold] at hsub
        exact (stands_of_replaced hF hfound'.mem hfound'.text hsplit hreplaced').2 r'' x' y' hsub hx
          hy'.text

/-- What is no part of an abbreviation is left as it is. -/
theorem survives_apart {raw : Text}
    (hF : Runs tables.words abbreviations ((readText raw).map .kept) F)
    (ht : readText raw = before ++ w ++ after) (h : ¬ InAbbreviation tables before w after) :
    Survives Rewrite.Cuts (expansions tables) before w after := by
  have hmarked := marked_runs hF
  have htext : textOf F = before ++ w ++ after := by rw [hF.textOf_eq, textOf_kept, ht]
  obtain ⟨A, C, rfl, rfl, rfl⟩ := split_kept
    (hmarked.text_ne_nil fun r hr => (abbreviations_written r hr).proper) htext fun x y hxy => by
      obtain ⟨r, hr, z, hs, hy⟩ := replaced_standing hF hxy
      by_contra hnear
      exact h ⟨r, hr, x, y, z, ht.symm.trans hs, wholeWord_of_stands hr hy, by omega, by omega⟩
  exact hF.survives_of_pieces (abbreviations_compatible tables) rfl

end Runs

theorem preprocessText_eq (tables : WordTables) (raw : Text) : preprocessText tables raw =
    Rewrite.applyAll (spelling tables ++ [trimEnds])
      (Rewrite.applyAll (expansions tables) (readText raw)) := by
  rw [preprocessText, readText, ← trimEnds_apply]
  simp only [Rewrite.applyAll, List.foldl_append, List.foldl_cons, List.foldl_nil]

/-- The expansion is in the text that is read. -/
theorem expanded_isInfix {raw : Text} (ht : readText raw = before ++ w ++ after)
    (h : Expanded tables r before w after) : r.new <:+: preprocessText tables raw := by
  obtain ⟨b, made, a, hresult, p, q, rfl, hsurvives⟩ := h.result fun _ _ => Rewrite.Cuts.apply_eq
  have hinfix := hsurvives.isInfix fun _ _ => Rewrite.Cuts.apply_eq
  rw [preprocessText_eq, ht]
  unfold Rewrite.applyAll
  rw [hresult]
  simpa using hinfix

/-- The tables of ASCII. -/
def asciiWordTables : WordTables where
  isWord c := isLatin (foldCase c) || c.isDigit || c == '_'
  isMark _ := false
  isDecimal c := c.isDigit
  isLetter c := isLatin (foldCase c)
  isPunctuation c := c ∈ ".,;:!?'()-".toList
  letter c h := by
    refine ⟨by rw [h]; rfl, rfl, ?_, h⟩
    have hcases := toNat_of_latin h
    simp only [Char.isDigit, Bool.and_eq_false_iff, decide_eq_false_iff_not, ge_iff_le, UInt32.le_iff_toNat_le]
    change ¬ 48 ≤ c.toNat ∨ ¬ c.toNat ≤ 57
    omega
  dot := by decide
  space := by decide

/-- The abbreviations are expanded just where each one is found. -/
theorem abbreviations_expanded_iff (tables : WordTables) (raw : Text) :
    ExpandsAbbreviations tables raw ↔ ∀ r ∈ dotted, ∀ before w after,
      ReadAloud tables raw r before w after → Heard tables r before w after := by
  obtain ⟨F, hF⟩ := WholeWords.exists_runs_kept (abbreviations_compatible tables) (readText raw)
  constructor
  · intro h r hr before w after hread
    obtain ⟨e, v, m, hfound, hreplaced⟩ := replaced_of_expanded hF hr hread.1 hread.text
      (h.expanded r hr before w after hread)
    exact heard_of_replaced hF h.expanded hr hread hfound hreplaced
  · intro h
    refine ⟨fun r hr before w after hread => ?_, fun before w after => survives_apart hF⟩
    obtain ⟨v, m, hfound, hreplaced⟩ := all_replaced hF h hr hread
    exact expanded_of_replaced hF hr hread.1 hfound hreplaced

/-- "Dr. Smith" is read as it is. -/
theorem abbreviation_before_space : ¬ ExpandsAbbreviations asciiWordTables "Dr. Smith".toList := by
  intro h
  have htext : readText "Dr. Smith".toList = [] ++ "Dr.".toList ++ " Smith".toList := by
    decide +kernel
  have hread : ReadAloud asciiWordTables "Dr. Smith".toList (abbreviation "Dr." "Doctor") []
      "Dr.".toList " Smith".toList := by
    refine ⟨htext, .inl ⟨⟨by decide, by decide, ?_⟩, ?_⟩⟩
    · decide
    · exact fun c hc => .inl (by cases hc; decide)
  have hexpanded := h.expanded _ (by decide) _ _ _ hread
  have hnot : ¬ "Doctor".toList <:+: preprocessText asciiWordTables "Dr. Smith".toList := by
    decide +kernel
  exact hnot (expanded_isInfix htext hexpanded)

end HeyNilo

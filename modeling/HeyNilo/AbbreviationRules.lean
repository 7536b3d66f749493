import HeyNilo.MarkedRuns
import HeyNilo.SpokenText
import Mathlib.Data.List.Nodup

open TextPieces

namespace HeyNilo

open SpokenText

/-- Both may stand at the same place. -/
def Comparable (u v : Text) : Prop := u <+: v ∨ v <+: u

instance (u v : Text) : Decidable (Comparable u v) :=
  inferInstanceAs (Decidable (u <+: v ∨ v <+: u))

/-- The text is in lower case here. -/
def EndsInLatin (s : Text) : Prop := ∃ c ∈ s.getLast?, isLatin c = true

instance (s : Text) : Decidable (EndsInLatin s) :=
  inferInstanceAs (Decidable (∃ c ∈ s.getLast?, isLatin c = true))

/-- The ways to cut a text in two. -/
def cuts (s : Text) : List (Text × Text) :=
  (List.range (s.length + 1)).map fun n => (s.take n, s.drop n)

theorem mem_cuts (u v : Text) : (u, v) ∈ cuts (u ++ v) := by
  refine List.mem_map.mpr ⟨u.length, List.mem_range.mpr ?_, by rw [List.take_left, List.drop_left]⟩
  rw [List.length_append]
  omega

/-- A word that begins inside this one, at a boundary. -/
def BeginsInside (inner outer : Text) : Prop :=
  ∃ cut ∈ cuts outer, cut.1 ≠ [] ∧ cut.2 ≠ [] ∧ ¬ EndsInLatin cut.1 ∧ Comparable cut.2 inner

instance (inner outer : Text) : Decidable (BeginsInside inner outer) :=
  inferInstanceAs (Decidable (∃ cut ∈ cuts outer, _))

/-- The rule finds nothing in this text, nor into it from before. -/
def FindsNothing (old new : Text) : Prop :=
  (∀ cut ∈ cuts new, cut.2 ≠ [] → Comparable (cut.2.map foldCase) old →
      EndsInLatin (cut.1.map foldCase)) ∧
    ∀ cut ∈ cuts old, cut.1 ≠ [] → cut.2 ≠ [] → Comparable cut.2 (new.map foldCase) →
      EndsInLatin cut.1

instance (old new : Text) : Decidable (FindsNothing old new) :=
  inferInstanceAs (Decidable (_ ∧ _))

/-- A word of letters and full stops and an expansion that begins and ends in a letter. -/
def Written (r : WholeWords.Rule Char) : Prop :=
  (∃ c ∈ r.old.head?, isLatin c = true) ∧ (∀ c ∈ r.old, isLatin c = true ∨ c = '.') ∧
    (∃ c ∈ r.new.head?, isLatin (foldCase c) = true) ∧ EndsInLatin (r.new.map foldCase)

instance (r : WholeWords.Rule Char) : Decidable (Written r) :=
  inferInstanceAs (Decidable (_ ∧ _ ∧ _ ∧ _))

theorem EndsInLatin.append {u v : Text} (h : EndsInLatin v) : EndsInLatin (u ++ v) := by
  obtain ⟨c, hc, hlatin⟩ := h
  refine ⟨c, ?_, hlatin⟩
  rw [List.getLast?_append, Option.mem_def.mp hc]
  rfl

variable {tables : WordTables} {r r' : WholeWords.Rule Char} {before w after x y z s t : Text}

/-- What stands at one place begins in the same way. -/
theorem comparable_of_append {u v : Text} (h : u ++ s = v ++ t) : Comparable u v :=
  List.prefix_or_prefix_of_prefix ⟨s, h⟩ ⟨t, rfl⟩

theorem Comparable.map {u v : Text} (h : Comparable u v) : Comparable (u.map foldCase) (v.map foldCase) :=
  h.imp (fun h => h.map foldCase) (fun h => h.map foldCase)

/-- Behind a letter there is a word. -/
theorem endsInWord_of_latin (h : EndsInLatin (s.map foldCase)) :
    tables.words.endsInWord s = true := by
  obtain ⟨d, hd, hlatin⟩ := h
  rw [List.getLast?_map] at hd
  obtain ⟨c, hc, rfl⟩ := Option.map_eq_some_iff.mp hd
  obtain ⟨front, rfl⟩ := List.getLast?_eq_some_iff.mp hc
  obtain ⟨hword, hmark, -⟩ := tables.letter c hlatin
  rw [WholeWords.endsInWord_of_last hmark]
  exact hword

theorem Written.proper (h : Written r) : tables.words.Proper r := by
  obtain ⟨⟨x, hx, hfirst⟩, hold, ⟨c, hc, hnew⟩, ⟨d, hd, hlast⟩⟩ := h
  rw [List.getLast?_map] at hd
  obtain ⟨e, he, rfl⟩ := Option.map_eq_some_iff.mp hd
  obtain ⟨front, hfront⟩ := List.getLast?_eq_some_iff.mp he
  obtain ⟨xs, hxs⟩ := List.head?_eq_some_iff.mp hx
  obtain ⟨cs, hcs⟩ := List.head?_eq_some_iff.mp hc
  obtain ⟨hcword, hcmark, -⟩ := tables.letter c hnew
  obtain ⟨heword, hemark, -⟩ := tables.letter e hlast
  refine ⟨fun c hc => ?_, ⟨x, xs, hxs, fun c hc => ?_⟩, ⟨c, cs, hcs, hcword, hcmark⟩,
    ⟨front, e, hfront, heword, hemark⟩⟩
  · rcases hold _ hc with hlatin | hdot
    · exact (tables.letter c hlatin).2.1
    · rw [eq_of_foldCase hdot (by decide)]
      exact tables.dot.2
  · have hc : foldCase c = x := hc
    exact (tables.letter c (hc ▸ hfirst)).1

theorem FindsNothing.ignores (hr : Written r) (h : FindsNothing r.old s) :
    tables.words.Ignores r s := by
  constructor
  · intro before p v after hnew hv
    cases hmatch : (tables.words.rewrite r).matchAt (before ++ p) (v ++ after) with
    | none => rfl
    | some ms =>
      obtain ⟨w, rest, hsplit, -, -, hstands⟩ := WholeWords.matchAt_some hmatch
      have hcomparable : Comparable (v.map foldCase) r.old :=
        hstands.text ▸ (comparable_of_append hsplit).map
      have hends := h.1 (p, v) (hnew ▸ mem_cuts p v) hv hcomparable
      have hword := hstands.not_endsInWord hr.proper
      rw [endsInWord_of_latin (by rw [List.map_append]; exact hends.append)] at hword
      cases hword
  · intro u c rest w after hc hsplit hlen hw
    have hprefix : u ++ [c] <+: w :=
      List.prefix_of_prefix_length_le ⟨s ++ rest, by rw [← hsplit]; simp⟩ ⟨after, rfl⟩ (Nat.le_of_lt hlen)
    obtain ⟨q, rfl⟩ := hprefix
    have hq : q ≠ [] := by
      rintro rfl
      rw [List.append_nil] at hlen
      exact absurd hlen (Nat.lt_irrefl _)
    have hrest : s ++ rest = q ++ after := by simpa using hsplit
    have hmem := mem_cuts ((u ++ [c]).map foldCase) (q.map foldCase)
    rw [← List.map_append] at hmem
    have hends := h.2 _ (hw ▸ hmem) (by simp) (by simpa using hq) (comparable_of_append hrest.symm).map
    rw [List.map_append] at hends
    obtain ⟨d, hd, hlatin⟩ := hends
    rw [List.map_singleton, List.getLast?_concat] at hd
    cases hd
    exact absurd (hc.symm.trans (tables.letter c hlatin).1) (by decide)

/-- A word that stands behind the beginning of another one, and before its end, begins inside it at
a boundary. -/
theorem begins_inside (hr' : Written r') (hs : before ++ w ++ after = x ++ y ++ z)
    (hw : w.map foldCase = r.old) (hy : tables.words.Stands r' x y z)
    (hbegin : before.length < x.length) (hend : x.length < before.length + w.length) :
    BeginsInside r'.old r.old := by
  rw [List.append_assoc, List.append_assoc] at hs
  obtain ⟨u, rfl⟩ : before <+: x :=
    List.prefix_of_prefix_length_le ⟨_, hs⟩ ⟨_, rfl⟩ (Nat.le_of_lt hbegin)
  rw [List.append_assoc, List.append_cancel_left_eq] at hs
  rw [List.length_append] at hbegin hend
  obtain ⟨v, rfl⟩ : u <+: w := List.prefix_of_prefix_length_le ⟨_, hs.symm⟩ ⟨_, rfl⟩ (by omega)
  rw [List.append_assoc, List.append_cancel_left_eq] at hs
  rw [List.length_append] at hend
  have hmem := mem_cuts (u.map foldCase) (v.map foldCase)
  rw [← List.map_append, hw] at hmem
  refine ⟨_, hmem, ?_, ?_, ?_, ?_⟩
  · exact fun hnil => absurd (List.map_eq_nil_iff.mp hnil) (List.length_pos_iff.mp (by omega))
  · exact fun hnil => absurd (List.map_eq_nil_iff.mp hnil) (List.length_pos_iff.mp (by omega))
  · intro hlatin
    have hends := hy.not_endsInWord hr'.proper
    rw [endsInWord_of_latin (by rw [List.map_append]; exact hlatin.append)] at hends
    cases hends
  · exact hy.text ▸ (comparable_of_append hs).map

/-- Two words that stand in a text are apart, or begin at one place, or one begins inside the
other. -/
theorem apart_or_overlap (hr : Written r) (hr' : Written r') (hs : s = before ++ w ++ after)
    (ht : s = x ++ y ++ z) (hw : tables.words.Stands r before w after)
    (hy : tables.words.Stands r' x y z) :
    (x.length + y.length ≤ before.length ∨ before.length + w.length ≤ x.length) ∨
      x = before ∧ Comparable r'.old r.old ∨
        (before.length < x.length ∧ x.length < before.length + w.length ∧
          BeginsInside r'.old r.old) ∨ BeginsInside r.old r'.old := by
  have hst := hs.symm.trans ht
  rcases Nat.lt_trichotomy before.length x.length with hlt | heq | hlt
  · by_cases hend : x.length < before.length + w.length
    · exact .inr (.inr (.inl ⟨hlt, hend, begins_inside hr' hst hw.text hy hlt hend⟩))
    · exact .inl (.inr (Nat.le_of_not_lt hend))
  · rw [List.append_assoc, List.append_assoc] at hst
    obtain ⟨rfl, hrest⟩ := List.append_inj hst heq
    refine .inr (.inl ⟨rfl, ?_⟩)
    rw [← hy.text, ← hw.text]
    exact (comparable_of_append hrest.symm).map
  · by_cases hend : before.length < x.length + y.length
    · exact .inr (.inr (.inr (begins_inside hr hst.symm hy.text hw hlt hend)))
    · exact .inl (.inl (Nat.le_of_not_lt hend))

theorem abbreviations_written : ∀ r ∈ abbreviations, Written r := by decide +kernel

theorem abbreviations_nodup : (abbreviations.map (·.old)).Nodup := by decide +kernel

/-- No rule finds anything in what an earlier one has put in. -/
theorem abbreviations_compatible (tables : WordTables) : tables.words.Compatible abbreviations := by
  have hfinds : abbreviations.Pairwise fun earlier later => FindsNothing later.old earlier.new := by
    decide +kernel
  refine ⟨fun r hr => (abbreviations_written r hr).proper, ?_, abbreviations_nodup⟩
  refine List.Pairwise.imp_of_mem (fun {earlier later} _ hlater h => ?_) hfinds
  exact h.ignores (abbreviations_written later hlater)

/-- Of two abbreviations only "vs" can stand at the place of one that comes earlier in the table. -/
theorem abbreviations_overlap : abbreviations.Pairwise fun earlier later =>
    (Comparable earlier.old later.old → earlier.old = "vs.".toList ∧ later.old = "vs".toList) ∧
      ¬ BeginsInside later.old earlier.old := by
  decide +kernel

/-- Only "e.g." can begin inside another one. -/
theorem abbreviations_inside : ∀ r ∈ abbreviations, ∀ r' ∈ abbreviations,
    BeginsInside r'.old r.old → r'.old = "e.g.".toList ∧ r.old = "i.e.".toList := by
  decide +kernel

theorem not_beginsInside_self (hr : r ∈ abbreviations) : ¬ BeginsInside r.old r.old := by
  intro h
  obtain ⟨hinner, houter⟩ := abbreviations_inside r hr r hr h
  exact absurd (hinner.symm.trans houter) (by decide)

theorem eq_of_old (hr : r ∈ abbreviations) (hr' : r' ∈ abbreviations) (h : r.old = r'.old) : r = r' :=
  List.inj_on_of_nodup_map abbreviations_nodup hr hr' h

/-- The rules that come earlier in the table. -/
theorem sublist_iff_mem {front back : List (WholeWords.Rule Char)}
    (h : abbreviations = front ++ r :: back) : [r', r].Sublist abbreviations ↔ r' ∈ front := by
  have hnodup := List.Nodup.of_map _ abbreviations_nodup
  rw [h] at hnodup ⊢
  obtain ⟨-, hback, hapart⟩ := List.nodup_append.mp hnodup
  constructor
  · intro hsub
    obtain ⟨u, v, huv, hu, hv⟩ := List.sublist_append_iff.mp hsub
    cases u with
    | nil =>
      rw [List.nil_append] at huv
      subst huv
      have hmem : r ∈ back := by
        cases hv with
        | cons _ hv => exact hv.subset (by simp)
        | cons_cons _ hv => exact hv.subset (by simp)
      exact absurd hmem (List.nodup_cons.mp hback).1
    | cons d u =>
      obtain ⟨rfl, -⟩ := List.cons.inj huv
      exact hu.subset List.mem_cons_self
  · intro hmem
    exact (List.singleton_sublist.mpr hmem).append (List.singleton_sublist.mpr List.mem_cons_self)

/-- A word that stands over one of a later rule, or of the same rule. -/
theorem overlap_cases {front back : List (WholeWords.Rule Char)}
    (h : abbreviations = front ++ r :: back) (hr' : r' ∈ front ++ [r])
    (hs : s = before ++ w ++ after) (ht : s = x ++ y ++ z)
    (hw : tables.words.Stands r before w after) (hy : tables.words.Stands r' x y z) :
    (r' = r ∧ x = before ∨ x.length + y.length ≤ before.length ∨
      before.length + w.length ≤ x.length) ∨
        (r'.old = "vs.".toList ∧ r.old = "vs".toList ∧ x = before) ∨
          (r'.old = "e.g.".toList ∧ r.old = "i.e.".toList ∧ before.length < x.length ∧
            x.length < before.length + w.length) := by
  have hr : r ∈ abbreviations := h ▸ by simp
  have hmem : r' ∈ abbreviations := by
    rw [h]
    rcases List.mem_append.mp hr' with hr' | hr'
    · exact List.mem_append_left _ hr'
    · rw [List.mem_singleton.mp hr']
      exact List.mem_append_right _ List.mem_cons_self
  have hcases := apart_or_overlap (abbreviations_written r hr) (abbreviations_written r' hmem) hs ht hw hy
  rcases List.mem_append.mp hr' with hearlier | hself
  · obtain ⟨hcomparable, hnot⟩ :=
      List.pairwise_iff_forall_sublist.mp abbreviations_overlap ((sublist_iff_mem h).mpr hearlier)
    rcases hcases with hapart | ⟨rfl, hsame⟩ | ⟨hbegin, hend, hbegins⟩ | hbegins
    · exact .inl (.inr hapart)
    · exact .inr (.inl ⟨(hcomparable hsame).1, (hcomparable hsame).2, rfl⟩)
    · obtain ⟨hinner, houter⟩ := abbreviations_inside r hr r' hmem hbegins
      exact .inr (.inr ⟨hinner, houter, hbegin, hend⟩)
    · exact absurd hbegins hnot
  · obtain rfl := List.mem_singleton.mp hself
    rcases hcases with hapart | ⟨rfl, -⟩ | ⟨-, -, hbegins⟩ | hbegins
    · exact .inl (.inr hapart)
    · exact .inl (.inl ⟨rfl, rfl⟩)
    · exact absurd hbegins (not_beginsInside_self hr)
    · exact absurd hbegins (not_beginsInside_self hr)

end HeyNilo

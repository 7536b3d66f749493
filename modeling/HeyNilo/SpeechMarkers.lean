import HeyNilo.DisplayedWords
import HeyNilo.ReplacementChain

namespace HeyNilo

open TextPattern TextFilter

section Trim

variable {text w : Text}

theorem dropWhile_append_cons {α : Type*} {p : α → Bool} {x : α} (hx : p x = false)
    (before after : List α) :
    (before ++ x :: after).dropWhile p = before.dropWhile p ++ x :: after := by
  induction before with
  | nil => simp [hx]
  | cons y before ih =>
    rw [List.cons_append, List.dropWhile_cons, List.dropWhile_cons]
    split
    · exact ih
    · rfl

/-- A text that neither begins nor ends with white space is not cut by `trim`. -/
theorem infix_trim (hne : w ≠ []) (hhead : ∀ c, w.head? = some c → isWhitespace c = false)
    (hlast : ∀ c, w.getLast? = some c → isWhitespace c = false) (h : w <:+: text) :
    w <:+: trim text := by
  obtain ⟨before, after, rfl⟩ := h
  cases w with
  | nil => exact absurd rfl hne
  | cons x rest =>
    have hx : isWhitespace x = false := hhead x rfl
    obtain ⟨init, z, hw⟩ := List.eq_nil_or_concat' (x :: rest) |>.resolve_left hne
    have hz : isWhitespace z = false := hlast z (by rw [hw, List.getLast?_concat])
    have hfront : (before ++ (x :: rest) ++ after).dropWhile isWhitespace =
        before.dropWhile isWhitespace ++ (x :: rest) ++ after := by
      rw [List.append_assoc, List.cons_append, dropWhile_append_cons hx, List.append_assoc,
        List.cons_append]
    have hback (front : Text) : (front ++ (x :: rest) ++ after).reverse.dropWhile isWhitespace =
        after.reverse.dropWhile isWhitespace ++ (front ++ (x :: rest)).reverse := by
      rw [hw]
      simp only [List.reverse_append, List.reverse_cons, List.reverse_nil, List.nil_append,
        List.cons_append]
      exact dropWhile_append_cons hz _ _
    rw [trim, hfront, hback, List.reverse_append, List.reverse_reverse]
    exact ⟨before.dropWhile isWhitespace, (after.reverse.dropWhile isWhitespace).reverse, rfl⟩

theorem head_dropWhile {α : Type*} {p : α → Bool} {s : List α} {c : α}
    (h : (s.dropWhile p).head? = some c) : p c = false := by
  have hfirst := List.head?_dropWhile_not p s
  rw [h] at hfirst
  exact hfirst

theorem trim_head {c : Char} (h : (trim text).head? = some c) : isWhitespace c = false := by
  have hprefix : trim text <+: text.dropWhile isWhitespace := by
    rw [← List.reverse_suffix, trim, List.reverse_reverse]
    exact List.dropWhile_suffix _
  obtain ⟨back, hback⟩ := hprefix
  have hhead : (text.dropWhile isWhitespace).head? = some c := by
    rw [← hback, List.head?_append, h]
    rfl
  exact head_dropWhile hhead

theorem trim_last {c : Char} (h : (trim text).getLast? = some c) : isWhitespace c = false := by
  rw [trim, List.getLast?_reverse] at h
  exact head_dropWhile h

theorem trim_eq_self (hhead : ∀ c, text.head? = some c → isWhitespace c = false)
    (hlast : ∀ c, text.getLast? = some c → isWhitespace c = false) : trim text = text := by
  by_cases hne : text = []
  · subst text
    rfl
  · have hlen := (infix_trim hne hhead hlast (List.infix_refl text)).length_le
    exact (trim_isInfix text).eq_of_length_le hlen

theorem trim_trim (text : Text) : trim (trim text) = trim text :=
  trim_eq_self (fun _ => trim_head) fun _ => trim_last

/-- What is trimmed is empty or not blank. -/
theorem trim_eq_nil_of_isBlank (h : isBlank (trim text) = true) : trim text = [] := by
  cases htrim : trim text with
  | nil => rfl
  | cons c s =>
    have hc : isWhitespace c = false := trim_head (by rw [htrim]; rfl)
    rw [htrim] at h
    have hwhite : isWhitespace c = true := List.all_eq_true.mp h c List.mem_cons_self
    exact absurd (hwhite.symm.trans hc) (by decide)

end Trim

/-- The characters that Kotlin takes for white space. -/
def whitespaces : Text :=
  [9, 10, 11, 12, 13, 28, 29, 30, 31, 32, 0xA0, 0x1680, 0x2000, 0x2001, 0x2002, 0x2003, 0x2004, 0x2005,
    0x2006, 0x2007, 0x2008, 0x2009, 0x200A, 0x2028, 0x2029, 0x202F, 0x205F, 0x3000].map Char.ofNat

theorem mem_whitespaces {c : Char} (h : isWhitespace c = true) : c ∈ whitespaces := by
  have hc : c = Char.ofNat c.toNat := (Char.ofNat_toNat c).symm
  rw [hc]
  refine List.mem_map_of_mem ?_
  simp [isWhitespace] at h
  simp
  omega

namespace TextFilter

/-- A rule as a replacement. -/
def Rule.replacement : Rule → Replacement Char
  | literal old new => { pattern := exact old, new := new.toList }
  | pattern p new => { pattern := p, new := new.toList }
  | anchored p new => { pattern := p, new := new.toList, anchored := true }
  | each accepts new => { pattern := [[one accepts]], new := new.toList }
  | separate _ _ => { pattern := [], new := [] }

def Rule.replaces : Rule → Bool
  | literal old _ => !old.toList.isEmpty
  | separate _ _ => false
  | _ => true

theorem Rule.apply_replacement {rule : Rule} (h : rule.replaces = true) (text : Text) :
    rule.replacement.apply text = rule.apply text := by
  cases rule with
  | literal old new =>
    have hold : old.toList ≠ [] := fun hold => by simp [replaces, hold] at h
    exact (replaceText_eq_replaceAll hold new.toList text).symm
  | pattern p new => rfl
  | anchored p new => rfl
  | each accepts new => rfl
  | separate before after => cases h

theorem applyAll_replacements {rules : List Rule} (h : ∀ rule ∈ rules, rule.replaces = true)
    (text : Text) : Replacement.applyAll (rules.map Rule.replacement) text = applyAll rules text := by
  induction rules generalizing text with
  | nil => rfl
  | cons rule rules ih =>
    obtain ⟨hrule, hrules⟩ := List.forall_mem_cons.mp h
    change Replacement.applyAll (rules.map Rule.replacement) (rule.replacement.apply text) = _
    rw [Rule.apply_replacement hrule, ih hrules]
    rfl

end TextFilter

/-- All rules of `filterTTSText`. -/
def filterRules : List Rule := imEndRules ++ speechRules

/-- The rules that take markers out: those before the role markers, and those for the sentence tags. -/
def markerRules : List Rule :=
  imEndRules ++ speechRules.take 18 ++ [.literal "</s>" "", .literal "<s>" ""]

/-- A text that one of these rules looks for. -/
def IsMarker (w : Text) : Prop :=
  ∃ rule ∈ markerRules, ∃ items ∈ rule.replacement.pattern, Accepts items w

/-- The result of the filter holds no marker, and filtering it again changes nothing. -/
def FiltersCleanly (text : Text) : Prop :=
  (∀ w, IsMarker w → ¬ w <:+: filterTTSText text) ∧
    filterTTSText (filterTTSText text) = filterTTSText text

theorem filterTTSText_eq {text : Text} (h : isBlank text = false) :
    filterTTSText text =
      trim (Replacement.applyAll (filterRules.map Rule.replacement) text) := by
  have hreplaces : ∀ rule ∈ filterRules, rule.replaces = true :=
    List.all_eq_true.mp (show filterRules.all Rule.replaces = true by decide)
  have hchain : applyAll filterRules text = applyAll speechRules (applyAll imEndRules text) :=
    List.foldl_append
  have hends : applyAll imEndRules text = removeImEndTokenOnly text := rfl
  rw [applyAll_replacements hreplaces, hchain, hends, filterTTSText,
    if_neg (ne_true_of_eq_false h)]

theorem markerRules_subset : ∀ rule ∈ markerRules, rule ∈ filterRules := by
  intro rule hrule
  rcases List.mem_append.mp hrule with hrule | htags
  · rcases List.mem_append.mp hrule with hends | hspeech
    · exact List.mem_append_left _ hends
    · exact List.mem_append_right _ (List.mem_of_mem_take hspeech)
  · refine List.mem_append_right _ (List.mem_of_mem_drop (i := 21) ?_)
    exact List.mem_of_mem_take (i := 2) htags

/-- No marker begins or ends with white space. -/
theorem marker_ends {w : Text} (h : IsMarker w) {c : Char} (hc : isWhitespace c = true) :
    w.head? ≠ some c ∧ w.getLast? ≠ some c := by
  have hall : markerRules.all (fun rule => rule.replacement.pattern.all fun items =>
      whitespaces.all fun c => !canBegin c items && !canEnd c items) = true := by decide +kernel
  obtain ⟨rule, hrule, items, hitems, hw⟩ := h
  have hends := List.all_eq_true.mp
    (List.all_eq_true.mp (List.all_eq_true.mp hall rule hrule) items hitems) c (mem_whitespaces hc)
  obtain ⟨hbegin, hend⟩ := Bool.and_eq_true_iff.mp hends
  constructor
  · intro hhead
    rw [canBegin_of_accepts hw hhead] at hbegin
    cases hbegin
  · intro hlast
    rw [canEnd_of_accepts hw hlast] at hend
    cases hend

theorem markerRules_all : ∀ rule ∈ markerRules,
    rule.replacement.anchored = false ∧ NeverEmpty rule.replacement.pattern := by
  have hall : markerRules.all (fun rule => !rule.replacement.anchored &&
      rule.replacement.pattern.all fun items => items.any fun item => item.least != 0) = true := by
    decide +kernel
  intro rule hrule
  obtain ⟨hanchored, hleast⟩ := Bool.and_eq_true_iff.mp (List.all_eq_true.mp hall rule hrule)
  exact ⟨by simpa using hanchored, neverEmpty_of_least hleast⟩

/-- Whatever is put in is a blank at most. -/
theorem filterRules_new : ∀ rule ∈ filterRules,
    rule.replacement.new = [] ∨ rule.replacement.new = [' '] := by
  have hall : filterRules.all (fun rule =>
      rule.replacement.new == [] || rule.replacement.new == [' ']) = true := by decide +kernel
  intro rule hrule
  simpa using List.all_eq_true.mp hall rule hrule

theorem isMarker_ne_nil {w : Text} (h : IsMarker w) : w ≠ [] := by
  obtain ⟨rule, hrule, items, hitems, hw⟩ := h
  rintro rfl
  exact (markerRules_all rule hrule).2 items hitems hw

theorem isMarker_sought {w : Text} (h : IsMarker w) :
    Replacement.Sought (filterRules.map Rule.replacement) w where
  ne_nil := isMarker_ne_nil h
  apart := by
    intro r hr c hc
    obtain ⟨rule, hrule, rfl⟩ := List.mem_map.mp hr
    have hblank : c = ' ' := by
      rcases filterRules_new rule hrule with hnew | hnew
      · rw [hnew] at hc
        cases hc
      · rw [hnew] at hc
        exact List.mem_singleton.mp hc
    exact marker_ends h (hblank ▸ by decide)
  sought := by
    obtain ⟨rule, hrule, items, hitems, hw⟩ := h
    obtain ⟨hanchored, hnever⟩ := markerRules_all rule hrule
    refine ⟨_, List.mem_map_of_mem (markerRules_subset rule hrule), hanchored, hnever, ?_⟩
    exact ⟨items, hitems, w, List.infix_refl w, hw⟩

/-- A marker is spoken exactly when a splice leaves one. -/
theorem marker_iff_leavesSpliced {text : Text} (h : isBlank text = false) :
    (∃ w, IsMarker w ∧ w <:+: filterTTSText text) ↔
      Replacement.LeavesSpliced IsMarker (filterRules.map Rule.replacement) text := by
  have hnew : ∀ r ∈ filterRules.map Rule.replacement, r.new.length ≤ 1 := by
    intro r hr
    obtain ⟨rule, hrule, rfl⟩ := List.mem_map.mp hr
    rcases filterRules_new rule hrule with hnew | hnew <;> rw [hnew] <;> decide
  rw [← Replacement.occurs_iff_leavesSpliced hnew fun w hw => isMarker_sought hw,
    filterTTSText_eq h]
  constructor
  · rintro ⟨w, hw, hin⟩
    exact ⟨w, hw, hin.trans (trim_isInfix _)⟩
  · rintro ⟨w, hw, hin⟩
    have hends {c : Char} (hc : w.head? = some c ∨ w.getLast? = some c) : isWhitespace c = false := by
      by_contra hwhite
      obtain ⟨hhead, hlast⟩ := marker_ends hw (Bool.not_eq_false _ ▸ hwhite)
      exact hc.elim hhead hlast
    exact ⟨w, hw, infix_trim (isMarker_ne_nil hw) (fun c hc => hends (.inl hc))
      (fun c hc => hends (.inr hc)) hin⟩

end HeyNilo

import HeyNilo.ReplyFilter

namespace HeyNilo

namespace ReplyFilter

def index (marker : String) (text : Text) : Option Nat := indexOfIgnoreCase marker.toList text

/-- The smallest index at which one of the end markers occurs. -/
def firstIndex (text : Text) : Option Nat := (endMarkers.filterMap (index · text)).min?

/-- The text is cut at the first occurrence of any end marker. -/
structure CutsAtFirst (text : Text) : Prop where
  kept : truncate text = (firstIndex text).elim text text.take
  clean : ∀ marker ∈ endMarkers, index marker (truncate text) = none

/-- Of the markers that occur, the one that the list has first is nowhere behind another. -/
def ListedFirst (text : Text) : Prop :=
  ∀ marker, (endMarkers.find? fun marker => (index marker text).isSome) = some marker →
    ∀ other ∈ endMarkers, ∀ i j, index marker text = some i → index other text = some j → i ≤ j

end ReplyFilter

open ReplyFilter

variable {old text : Text} {i j : Nat} {marker : String}

theorem startsWithIgnoreCase_iff :
    startsWithIgnoreCase old text ↔ old.map foldLetter <+: text.map foldLetter := by
  induction old generalizing text with
  | nil => simp [startsWithIgnoreCase]
  | cons c old ih =>
    cases text with
    | nil => simp [startsWithIgnoreCase]
    | cons d text =>
      rw [startsWithIgnoreCase, Bool.and_eq_true, beq_iff_eq, ih, List.map_cons, List.map_cons,
        List.cons_prefix_cons]

theorem startsWith_indexOf (h : indexOfIgnoreCase old text = some i) :
    startsWithIgnoreCase old (text.drop i) := by
  induction text generalizing i with
  | nil =>
    rw [indexOfIgnoreCase] at h
    split at h
    next hold =>
      rw [List.isEmpty_iff.mp hold]
      rfl
    next => cases h
  | cons c text ih =>
    rw [indexOfIgnoreCase] at h
    split at h
    next hstart =>
      cases h
      exact hstart
    next =>
      obtain ⟨i, hi, rfl⟩ := Option.map_eq_some_iff.mp h
      exact ih hi

theorem indexOf_le (h : startsWithIgnoreCase old (text.drop j)) (hold : old ≠ []) :
    ∃ i, indexOfIgnoreCase old text = some i ∧ i ≤ j := by
  induction text generalizing j with
  | nil =>
    rw [List.drop_nil] at h
    cases old with
    | nil => exact absurd rfl hold
    | cons c old => cases h
  | cons c text ih =>
    rw [indexOfIgnoreCase]
    split
    next => exact ⟨0, rfl, Nat.zero_le j⟩
    next hstart =>
      cases j with
      | zero => exact absurd h hstart
      | succ j =>
        obtain ⟨i, hi, hle⟩ := ih h
        exact ⟨i + 1, by rw [hi]; rfl, Nat.succ_le_succ hle⟩

theorem endMarkers_ne_nil (h : marker ∈ endMarkers) : marker.toList ≠ [] := by
  revert marker
  decide

/-- A marker in a prefix is in the text, and ends where the prefix does at the latest. -/
theorem index_take (h : marker ∈ endMarkers) (hi : index marker (text.take j) = some i) :
    i < j ∧ ∃ k, index marker text = some k ∧ k ≤ i := by
  have hne := endMarkers_ne_nil h
  have hstart := startsWithIgnoreCase_iff.mp (startsWith_indexOf hi)
  have hlt : i < j := by
    have hlength := hstart.length_le
    have hpos := List.length_pos_iff.mpr hne
    rw [List.length_map, List.length_map, List.length_drop, List.length_take] at hlength
    omega
  refine ⟨hlt, indexOf_le ?_ hne⟩
  rw [startsWithIgnoreCase_iff]
  refine hstart.trans (List.IsPrefix.map foldLetter ?_)
  rw [List.drop_take]
  exact List.take_prefix _ _

theorem firstIndex_eq_some_iff : firstIndex text = some i ↔
    (∃ marker ∈ endMarkers, index marker text = some i) ∧
      ∀ marker ∈ endMarkers, ∀ j, index marker text = some j → i ≤ j := by
  rw [firstIndex, List.min?_eq_some_iff]
  simp only [List.mem_filterMap]
  constructor
  · rintro ⟨hmem, hle⟩
    exact ⟨hmem, fun marker hm j hj => hle j ⟨marker, hm, hj⟩⟩
  · rintro ⟨hmem, hle⟩
    exact ⟨hmem, fun j ⟨marker, hm, hj⟩ => hle marker hm j hj⟩

theorem firstIndex_eq_none_iff :
    firstIndex text = none ↔ ∀ marker ∈ endMarkers, index marker text = none := by
  rw [firstIndex, List.min?_eq_none_iff, List.filterMap_eq_nil_iff]

theorem clean_of_firstIndex (h : firstIndex text = some i) (hm : marker ∈ endMarkers) :
    index marker (text.take i) = none := by
  obtain ⟨-, hle⟩ := firstIndex_eq_some_iff.mp h
  cases hindex : index marker (text.take i) with
  | none => rfl
  | some j =>
    obtain ⟨hlt, k, hk, hkj⟩ := index_take hm hindex
    have hik := hle marker hm k hk
    omega

/-- The first marker of the list that occurs decides. -/
theorem truncate_eq (text : Text) : truncate text =
    ((endMarkers.find? fun marker => (index marker text).isSome).bind (index · text)).elim text
      text.take := by
  have hfind : ∀ markers : List String, (markers.findSome? fun m => indexOfIgnoreCase m.toList text) =
      (markers.find? fun marker => (index marker text).isSome).bind (index · text) := by
    intro markers
    induction markers with
    | nil => rfl
    | cons marker markers ih =>
      rw [List.findSome?_cons, List.find?_cons]
      cases h : indexOfIgnoreCase marker.toList text with
      | none =>
        have hnone : (index marker text).isSome = false := by rw [index, h]; rfl
        rw [hnone]
        exact ih
      | some i =>
        have hsome : (index marker text).isSome = true := by rw [index, h]; rfl
        rw [hsome]
        exact h.symm
  rw [truncate, hfind]
  split
  next h => rw [h]; rfl
  next h => rw [h]; rfl

theorem index_lt_length (hm : marker ∈ endMarkers) (h : index marker text = some i) :
    i < text.length := by
  have hlength := (startsWithIgnoreCase_iff.mp (startsWith_indexOf h)).length_le
  have hpos := List.length_pos_iff.mpr (endMarkers_ne_nil hm)
  rw [List.length_map, List.length_map, List.length_drop] at hlength
  omega

theorem truncate_of_listed
    (hfind : (endMarkers.find? fun marker => (index marker text).isSome) = some marker)
    (hi : index marker text = some i) : truncate text = text.take i := by
  rw [truncate_eq, hfind, Option.bind_some, hi]
  rfl

/-- What is cut at the first occurrence has the length of the text up to the smallest index. -/
theorem listedFirst_of_cutsAtFirst (h : CutsAtFirst text) : ListedFirst text := by
  intro marker hfind other hother i j hi hj
  have hm := List.mem_of_find?_eq_some hfind
  obtain ⟨first, hfirst⟩ : ∃ first, firstIndex text = some first := by
    cases hnone : firstIndex text with
    | none =>
      rw [firstIndex_eq_none_iff.mp hnone marker hm] at hi
      cases hi
    | some first => exact ⟨first, rfl⟩
  have hkept := congrArg List.length h.kept
  have hlt := index_lt_length hm hi
  have hle := (firstIndex_eq_some_iff.mp hfirst).2 other hother j hj
  rw [hfirst, truncate_of_listed hfind hi, Option.elim_some, List.length_take,
    List.length_take] at hkept
  omega

theorem cutsAtFirst_iff (text : Text) : CutsAtFirst text ↔ ListedFirst text := by
  refine ⟨listedFirst_of_cutsAtFirst, fun h => ?_⟩
  cases hfind : endMarkers.find? fun marker => (index marker text).isSome with
  | none =>
    have hnone : ∀ marker ∈ endMarkers, index marker text = none := by
      simpa using List.find?_eq_none.mp hfind
    have hwhole : truncate text = text := by rw [truncate_eq, hfind]; rfl
    refine ⟨?_, hwhole.symm ▸ hnone⟩
    rw [hwhole, firstIndex_eq_none_iff.mpr hnone]
    rfl
  | some marker =>
    have hm := List.mem_of_find?_eq_some hfind
    have hoccurs := List.find?_some hfind
    obtain ⟨i, hi⟩ := Option.isSome_iff_exists.mp hoccurs
    have hcut := truncate_of_listed hfind hi
    have hfirst : firstIndex text = some i :=
      firstIndex_eq_some_iff.mpr ⟨⟨marker, hm, hi⟩, fun other hother j hj =>
        h marker hfind other hother i j hi hj⟩
    refine ⟨by rw [hfirst]; exact hcut, fun other hother => ?_⟩
    rw [hcut]
    exact clean_of_firstIndex hfirst hother

/-- What the list has before it cannot stand where the end token does. -/
theorem im_end_alone (h : marker ∈ endMarkers.take 11)
    (hstart : startsWithIgnoreCase marker.toList text) :
    startsWithIgnoreCase "<|im_end|>".toList text = false := by
  have hapart : ∀ marker ∈ endMarkers.take 11,
      ¬marker.toList.map foldLetter <+: "<|im_end|>".toList.map foldLetter ∧
        ¬"<|im_end|>".toList.map foldLetter <+: marker.toList.map foldLetter := by
    decide
  rw [Bool.eq_false_iff]
  intro hend
  rw [startsWithIgnoreCase_iff] at hstart hend
  rcases List.prefix_or_prefix_of_prefix hstart hend with hpre | hpre
  · exact (hapart marker h).1 hpre
  · exact (hapart marker h).2 hpre

/-- The end token, which begins with the marker after it, is never cut off whole. -/
theorem im_end_not_first (h : index "<|im_end|>" text = some i) (hfirst : firstIndex text = some i) :
    ¬CutsAtFirst text := by
  intro hcuts
  have hlisted := listedFirst_of_cutsAtFirst hcuts
  have hend := startsWith_indexOf h
  -- the form without the bracket occurs one place further on
  have hform : startsWithIgnoreCase "|im_end|".toList (text.drop (i + 1)) := by
    have hbehind : "|im_end|".toList.map foldLetter <+:
        ("<|im_end|>".toList.map foldLetter).drop 1 := by decide
    rw [startsWithIgnoreCase_iff] at hend ⊢
    rw [← List.drop_drop, List.map_drop]
    exact hbehind.trans (hend.drop 1)
  obtain ⟨k, hk, -⟩ := indexOf_le hform (by decide)
  have hsplit : endMarkers = endMarkers.take 11 ++ endMarkers.drop 11 :=
    (List.take_append_drop 11 endMarkers).symm
  cases hfind : (endMarkers.take 11).find? fun marker => (index marker text).isSome with
  | none =>
    have hnone := List.find?_eq_none.mp hfind "|im_end|" (by decide)
    rw [index, hk] at hnone
    exact hnone rfl
  | some marker =>
    have hm := List.mem_of_find?_eq_some hfind
    have hoccurs := List.find?_some hfind
    obtain ⟨j, hj⟩ := Option.isSome_iff_exists.mp hoccurs
    have hle := hlisted marker (by rw [hsplit, List.find?_append, hfind]; rfl) "<|im_end|>"
      (by decide) j i hj h
    have hge := (firstIndex_eq_some_iff.mp hfirst).2 marker (List.mem_of_mem_take hm) j hj
    obtain rfl := Nat.le_antisymm hle hge
    rw [im_end_alone hm (startsWith_indexOf hj)] at hend
    cases hend

/-- The bracketed marker is listed before the other. -/
theorem later_marker_cut : ¬∀ text, CutsAtFirst text := by
  intro h
  exact absurd ((h "Bye</s> now [/s]".toList).clean "</s>" (by decide)) (by decide)

end HeyNilo

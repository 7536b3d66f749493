import HeyNilo.SanitizedText

namespace HeyNilo

open Utf8

/-- The value of a multicharacter constant: its bytes in order, the last one lowest. -/
def multichar (bytes : Bytes) : Nat := bytes.foldl (fun value b => value * 256 + b.toNat) 0

/-- `'\xE2\x96\x81'`, converted to a `char`. -/
def spaceNeedle : UInt8 := UInt8.ofNat (multichar [0xE2, 0x96, 0x81])

/-- `find(c, pos)` of a `std::string`, `none` for `npos`. -/
def findByte (s : Bytes) (c : UInt8) (pos : Nat) : Option Nat :=
  ((s.drop pos).idxOf? c).map fun i => pos + i

/-- `replace(pos, 3, " ")` -/
def replaceThree (s : Bytes) (pos : Nat) : Bytes := s.take pos ++ 0x20 :: s.drop (pos + 3)

/-- The replacement loop of `nativeGenerateStream` as it stands there; `none` where `fuel` rounds do
not suffice. -/
def spaceRounds : Nat → Nat → Bytes → Option Bytes
  | fuel, pos, display =>
    match findByte display spaceNeedle pos with
    | none => some display
    | some found =>
      match fuel with
      | 0 => none
      | fuel + 1 => spaceRounds fuel (found + 1) (replaceThree display found)

/-- What the loop is meant to make of a piece: every U+2581 becomes a space, and nothing else
changes. -/
def markersReplaced : Bytes → Bytes
  | [] => []
  | 0xE2 :: 0x96 :: 0x81 :: s => 0x20 :: markersReplaced s
  | b :: s => b :: markersReplaced s

theorem replaceSpaceMarker_skip (k : Nat) (s : Bytes) :
    replaceSpaceMarker k s = replaceSpaceMarker 0 (s.drop k) := by
  induction k generalizing s with
  | zero => rfl
  | succ k ih =>
    cases s with
    | nil => rfl
    | cons b s => exact ih s

theorem replaceSpaceMarker_of_notMem {s : Bytes} (h : (0x81 : UInt8) ∉ s) (t : Bytes) :
    replaceSpaceMarker 0 (s ++ t) = s ++ replaceSpaceMarker 0 t := by
  induction s with
  | nil => rfl
  | cons b s ih =>
    have hb : (b == 0x81) = false := by
      rw [beq_eq_false_iff_ne]
      exact fun hb => h (hb ▸ List.mem_cons_self)
    rw [List.cons_append, replaceSpaceMarker, hb]
    exact congrArg (b :: ·) (ih fun hmem => h (List.mem_cons_of_mem _ hmem))

theorem findByte_none {s : Bytes} {c : UInt8} {pos : Nat} (h : findByte s c pos = none) :
    c ∉ s.drop pos :=
  List.idxOf?_eq_none_iff.mp (Option.map_eq_none_iff.mp h)

theorem findByte_some {s : Bytes} {c : UInt8} {pos found : Nat} (h : findByte s c pos = some found) :
    ∃ before after, s.drop pos = before ++ c :: after ∧ c ∉ before ∧
      found = pos + before.length := by
  obtain ⟨i, hi, rfl⟩ := Option.map_eq_some_iff.mp h
  obtain ⟨hlt, hc, hfirst⟩ := List.idxOf?_eq_some_iff.mp hi
  refine ⟨(s.drop pos).take i, (s.drop pos).drop (i + 1), ?_, fun hmem => ?_, ?_⟩
  · rw [← hc, ← List.drop_eq_getElem_cons hlt, List.take_append_drop]
  · obtain ⟨j, hj, hjc⟩ := List.mem_take_iff_getElem.mp hmem
    exact hfirst j (by omega) hjc
  · rw [List.length_take_of_le (Nat.le_of_lt hlt)]

/-- The loop terminates, with what the model's scan from left to right gives. -/
theorem spaceRounds_eq {fuel : Nat} (pos : Nat) (display : Bytes)
    (hfuel : display.length ≤ pos + fuel) :
    spaceRounds fuel pos display =
      some (display.take pos ++ replaceSpaceMarker 0 (display.drop pos)) := by
  induction fuel generalizing pos display with
  | zero =>
    have hempty : display.drop pos = [] := List.drop_eq_nil_of_le (by omega)
    have hnone : findByte display spaceNeedle pos = none := by rw [findByte, hempty]; rfl
    rw [spaceRounds, hnone, hempty, List.take_of_length_le (by omega)]
    simp [replaceSpaceMarker]
  | succ fuel ih =>
    cases hfind : findByte display spaceNeedle pos with
    | none =>
      have hkept := replaceSpaceMarker_of_notMem (findByte_none hfind) []
      rw [List.append_nil] at hkept
      rw [spaceRounds, hfind, hkept]
      simp [replaceSpaceMarker]
    | some found =>
      obtain ⟨before, after, hdrop, hbefore, rfl⟩ := findByte_some hfind
      have hpos : pos < display.length := by
        by_contra hlong
        rw [List.drop_eq_nil_of_le (by omega)] at hdrop
        exact absurd hdrop.symm (by simp)
      set kept := display.take pos ++ before with hkept
      have hfound : kept.length = pos + before.length := by
        rw [hkept, List.length_append, List.length_take_of_le hpos.le]
      have hsplit : display = kept ++ spaceNeedle :: after := by
        rw [hkept, List.append_assoc, ← hdrop, List.take_append_drop]
      have hlen : display.length = kept.length + (after.length + 1) := by
        rw [hsplit, List.length_append, List.length_cons]
      have hnext : replaceThree display (pos + before.length) = (kept ++ [0x20]) ++ after.drop 2 := by
        rw [replaceThree, ← hfound, hsplit, List.take_left, List.drop_append]
        simp
      have hlater := ih (pos + before.length + 1) ((kept ++ [0x20]) ++ after.drop 2) (by
        simp only [List.length_append, List.length_singleton, List.length_drop]
        omega)
      have hshift : pos + before.length + 1 = (kept ++ [0x20]).length := by
        rw [List.length_append, List.length_singleton, hfound]
      rw [spaceRounds, hfind]
      simp only
      rw [hnext, hlater, hshift, List.take_left, List.drop_left, hdrop,
        replaceSpaceMarker_of_notMem hbefore]
      have hneedle : replaceSpaceMarker 0 (spaceNeedle :: after) =
          0x20 :: replaceSpaceMarker 2 after := rfl
      rw [hneedle, replaceSpaceMarker_skip 2 after, hkept]
      simp only [List.append_assoc, List.singleton_append]

theorem markersReplaced_cons {b : UInt8} {s : Bytes} (h : ¬[0xE2, 0x96, 0x81] <+: b :: s) :
    markersReplaced (b :: s) = b :: markersReplaced s := by
  rw [markersReplaced]
  intro t hb hs
  refine h ⟨t, ?_⟩
  rw [hb, hs]
  rfl

/-- U+2581 becomes a space. -/
def spaceFor (c : Char) : Char := if c = '\u2581' then ' ' else c

theorem markersReplaced_tails {tails : Bytes} (htails : ∀ b ∈ tails, isTail b = true) (s : Bytes) :
    markersReplaced (tails ++ s) = tails ++ markersReplaced s := by
  induction tails with
  | nil => rfl
  | cons b tails ih =>
    obtain ⟨hb, htails⟩ := List.forall_mem_cons.mp htails
    have hmarker : ¬[0xE2, 0x96, 0x81] <+: b :: (tails ++ s) := by
      intro h
      obtain ⟨t, ht⟩ := h
      have hlead : 0xE2 = b := (List.cons.inj ht).1
      rw [← hlead] at hb
      exact absurd hb (by decide)
    rw [List.cons_append, markersReplaced_cons hmarker, ih htails]
    rfl

theorem utf8EncodeChar_marker : String.utf8EncodeChar '\u2581' = [0xE2, 0x96, 0x81] := by decide

theorem markersReplaced_encodeChar {c : Char} (hc : c ≠ '\u2581') (s : Bytes) :
    markersReplaced (String.utf8EncodeChar c ++ s) = String.utf8EncodeChar c ++ markersReplaced s := by
  have hunit := utf8EncodeChar_isSequence c
  have hmarker : ¬[0xE2, 0x96, 0x81] <+: String.utf8EncodeChar c ++ s := by
    intro h
    obtain ⟨t, ht⟩ := h
    rw [← utf8EncodeChar_marker] at ht
    have hsame := ((utf8EncodeChar_isSequence _).append_inj hunit ht).1
    exact hc (utf8EncodeChar_injective hsame).symm
  obtain ⟨lead, tails, heq, -, htails⟩ := hunit
  rw [heq, List.cons_append] at hmarker ⊢
  rw [markersReplaced_cons hmarker, markersReplaced_tails htails]
  rfl

/-- On a well-formed text the bytes are replaced where the characters are. -/
theorem markersReplaced_encode (chars : List Char) :
    markersReplaced (encode chars) = encode (chars.map spaceFor) := by
  induction chars with
  | nil => rfl
  | cons c chars ih =>
    rw [encode_cons, List.map_cons, encode_cons, ← ih]
    by_cases hc : c = '\u2581'
    · rw [hc, utf8EncodeChar_marker]
      rfl
    · rw [markersReplaced_encodeChar hc, spaceFor, if_neg hc]

/-- A byte 0x81 spoils the replacement, also that of U+2581. -/
theorem replaceSpaceMarker_eq_iff (s : Bytes) :
    replaceSpaceMarker 0 s = markersReplaced s ↔ (0x81 : UInt8) ∉ s := by
  induction s with
  | nil => simp [replaceSpaceMarker, markersReplaced]
  | cons b s ih =>
    by_cases hmarker : [0xE2, 0x96, 0x81] <+: b :: s
    · obtain ⟨t, ht⟩ := hmarker
      rw [← ht]
      have hmem : (0x81 : UInt8) ∈ [0xE2, 0x96, 0x81] ++ t := by simp
      refine ⟨fun heq => ?_, fun hout => absurd hmem hout⟩
      have hhead : (0xE2 : UInt8) = 0x20 := (List.cons.inj heq).1
      exact absurd hhead (by decide)
    rw [markersReplaced_cons hmarker]
    by_cases hb : b = 0x81
    · subst hb
      refine ⟨fun heq => ?_, fun hout => absurd List.mem_cons_self hout⟩
      have hhead : (0x20 : UInt8) = 0x81 := (List.cons.inj heq).1
      exact absurd hhead (by decide)
    · have hscan : replaceSpaceMarker 0 (b :: s) = b :: replaceSpaceMarker 0 s := by
        rw [replaceSpaceMarker, if_neg (by simpa using hb)]
      rw [hscan, List.cons_inj_right, ih, List.mem_cons, not_or]
      exact ⟨fun hout => ⟨fun heq => hb heq.symm, hout⟩, fun hout => hout.2⟩

/-- The replacement loop always ends, and it does what it is meant to exactly where the piece has no
byte 0x81. -/
theorem spaceRounds_markersReplaced_iff (piece : Bytes) :
    (∃ display, ∀ fuel, piece.length ≤ fuel → spaceRounds fuel 0 piece = some display) ∧
      ((∀ fuel, piece.length ≤ fuel → spaceRounds fuel 0 piece = some (markersReplaced piece)) ↔
        (0x81 : UInt8) ∉ piece) := by
  have hrun : ∀ fuel, piece.length ≤ fuel →
      spaceRounds fuel 0 piece = some (replaceSpaceMarker 0 piece) := fun fuel hfuel => by
    rw [spaceRounds_eq 0 piece (by omega), List.take_zero, List.drop_zero, List.nil_append]
  refine ⟨⟨_, hrun⟩, ?_⟩
  rw [← replaceSpaceMarker_eq_iff]
  constructor
  · intro h
    exact Option.some.inj ((hrun _ (Nat.le_refl _)).symm.trans (h _ (Nat.le_refl _)))
  · intro h fuel hfuel
    rw [← h]
    exact hrun fuel hfuel

/-- `Á` loses its second byte to a space. -/
theorem spaceRounds_accent : ¬∀ piece, WellFormed piece → ∀ fuel, piece.length ≤ fuel →
    spaceRounds fuel 0 piece = some (markersReplaced piece) := by
  intro h
  have hrun := h (encode ['Á']) ⟨['Á'], rfl⟩ 2 (by decide)
  revert hrun
  decide

end HeyNilo

import Mathlib.Data.List.Basic
import Mathlib.Data.List.Infix

namespace Utf8

/-- The bytes that follow the first byte of an encoded character. -/
def isTail (b : UInt8) : Bool := 0x80 ≤ b && b < 0xC0

/-- How many tail bytes a lead byte announces; `none` for a tail byte and from `0xF8` on. -/
def tailCount (b : UInt8) : Option Nat :=
  if b < 0x80 then some 0
  else if b < 0xC0 then none
  else if b < 0xE0 then some 1
  else if b < 0xF0 then some 2
  else if b < 0xF8 then some 3
  else none

/-- A lead byte with as many tail bytes as it announces. -/
def IsSequence (u : List UInt8) : Prop :=
  ∃ lead tails, u = lead :: tails ∧ tailCount lead = some tails.length ∧
    ∀ b ∈ tails, isTail b = true

/-- The encodings of the Unicode scalar values: the units that are not overlong, no surrogates and
not beyond `U+10FFFF`. -/
def isEncoding : List UInt8 → Bool
  | [a] => a < 0x80
  | [a, b] => 0xC2 ≤ a && a < 0xE0 && isTail b
  | [a, b, c] =>
    (a == 0xE0 && 0xA0 ≤ b && b < 0xC0 || 0xE1 ≤ a && a < 0xED && isTail b ||
      a == 0xED && 0x80 ≤ b && b < 0xA0 || 0xEE ≤ a && a < 0xF0 && isTail b) && isTail c
  | [a, b, c, d] =>
    (a == 0xF0 && 0x90 ≤ b && b < 0xC0 || 0xF1 ≤ a && a < 0xF4 && isTail b ||
      a == 0xF4 && 0x80 ≤ b && b < 0x90) && isTail c && isTail d
  | _ => false

def encode (chars : List Char) : List UInt8 := chars.flatMap String.utf8EncodeChar

/-- Characters, encoded one after the other. -/
def WellFormed (s : List UInt8) : Prop := ∃ chars : List Char, s = encode chars

theorem isTail_iff {b : UInt8} : isTail b = true ↔ 0x80 ≤ b.toNat ∧ b.toNat < 0xC0 := by
  simp [isTail, UInt8.le_iff_toNat_le, UInt8.lt_iff_toNat_lt]

theorem tailCount_eq (b : UInt8) :
    tailCount b =
      if b.toNat < 0x80 then some 0
      else if b.toNat < 0xC0 then none
      else if b.toNat < 0xE0 then some 1
      else if b.toNat < 0xF0 then some 2
      else if b.toNat < 0xF8 then some 3
      else none := by
  simp only [tailCount, UInt8.lt_iff_toNat_lt]
  rfl

theorem tailCount_of_isTail {b : UInt8} (h : isTail b = true) : tailCount b = none := by
  obtain ⟨hlow, hhigh⟩ := isTail_iff.mp h
  rw [tailCount_eq, if_neg (by omega), if_pos hhigh]

/-- The number that the payload bits of three bytes make up. -/
def scalarOfThree (a b c : UInt8) : Nat :=
  ((a.toNat - 0xE0) * 64 + (b.toNat - 0x80)) * 64 + (c.toNat - 0x80)

def scalarOfFour (a b c d : UInt8) : Nat :=
  (((a.toNat - 0xF0) * 64 + (b.toNat - 0x80)) * 64 + (c.toNat - 0x80)) * 64 + (d.toNat - 0x80)

theorem isEncoding_one {a : UInt8} : isEncoding [a] = true ↔ a.toNat < 0x80 := by
  simp [isEncoding, UInt8.lt_iff_toNat_lt]

theorem isEncoding_two {a b : UInt8} :
    isEncoding [a, b] = true ↔ 0xC2 ≤ a.toNat ∧ a.toNat < 0xE0 ∧ isTail b = true := by
  simp [isEncoding, UInt8.le_iff_toNat_le, UInt8.lt_iff_toNat_lt, and_assoc]

theorem isEncoding_three {a b c : UInt8} :
    isEncoding [a, b, c] = true ↔ 0xE0 ≤ a.toNat ∧ a.toNat < 0xF0 ∧ isTail b = true ∧
      isTail c = true ∧ 0x800 ≤ scalarOfThree a b c ∧ (scalarOfThree a b c).isValidChar := by
  obtain ⟨v, hv⟩ : ∃ v, v = scalarOfThree a b c := ⟨_, rfl⟩
  rw [← hv]
  unfold scalarOfThree at hv
  simp only [isEncoding, isTail_iff, Nat.isValidChar, UInt8.le_iff_toNat_le,
    UInt8.lt_iff_toNat_lt, ← UInt8.toNat_inj, Bool.and_eq_true, Bool.or_eq_true, decide_eq_true_eq,
    beq_iff_eq, UInt8.reduceToNat]
  omega

theorem isEncoding_four {a b c d : UInt8} :
    isEncoding [a, b, c, d] = true ↔ 0xF0 ≤ a.toNat ∧ a.toNat < 0xF8 ∧ isTail b = true ∧
      isTail c = true ∧ isTail d = true ∧ 0x10000 ≤ scalarOfFour a b c d ∧
      (scalarOfFour a b c d).isValidChar := by
  obtain ⟨v, hv⟩ : ∃ v, v = scalarOfFour a b c d := ⟨_, rfl⟩
  rw [← hv]
  unfold scalarOfFour at hv
  simp only [isEncoding, isTail_iff, Nat.isValidChar, UInt8.le_iff_toNat_le,
    UInt8.lt_iff_toNat_lt, ← UInt8.toNat_inj, Bool.and_eq_true, Bool.or_eq_true, decide_eq_true_eq,
    beq_iff_eq, UInt8.reduceToNat]
  omega

theorem toNat_ofByte {n : Nat} (h : n < 256) : (UInt8.ofNat n).toNat = n :=
  UInt8.toNat_ofNat_of_lt' h

theorem ofNat_eq {n : Nat} {b : UInt8} (h : n = b.toNat) : UInt8.ofNat n = b := by
  rw [h, UInt8.ofNat_toNat]

theorem scalarOfThree_encode {v : Nat} (h : v ≤ 0xFFFF) :
    scalarOfThree (UInt8.ofNat (v / 4096 % 0x10 + 0xE0)) (UInt8.ofNat (v / 64 % 0x40 + 0x80))
      (UInt8.ofNat (v % 0x40 + 0x80)) = v := by
  unfold scalarOfThree
  have ha : (UInt8.ofNat (v / 4096 % 0x10 + 0xE0)).toNat = v / 4096 % 0x10 + 0xE0 :=
    toNat_ofByte (by omega)
  have hb : (UInt8.ofNat (v / 64 % 0x40 + 0x80)).toNat = v / 64 % 0x40 + 0x80 :=
    toNat_ofByte (by omega)
  have hc : (UInt8.ofNat (v % 0x40 + 0x80)).toNat = v % 0x40 + 0x80 :=
    toNat_ofByte (by omega)
  omega

theorem scalarOfFour_encode {v : Nat} (h : v < 0x110000) :
    scalarOfFour (UInt8.ofNat (v / 262144 % 0x08 + 0xF0)) (UInt8.ofNat (v / 4096 % 0x40 + 0x80))
      (UInt8.ofNat (v / 64 % 0x40 + 0x80)) (UInt8.ofNat (v % 0x40 + 0x80)) = v := by
  unfold scalarOfFour
  have ha : (UInt8.ofNat (v / 262144 % 0x08 + 0xF0)).toNat = v / 262144 % 0x08 + 0xF0 :=
    toNat_ofByte (by omega)
  have hb : (UInt8.ofNat (v / 4096 % 0x40 + 0x80)).toNat = v / 4096 % 0x40 + 0x80 :=
    toNat_ofByte (by omega)
  have hc : (UInt8.ofNat (v / 64 % 0x40 + 0x80)).toNat = v / 64 % 0x40 + 0x80 :=
    toNat_ofByte (by omega)
  have hd : (UInt8.ofNat (v % 0x40 + 0x80)).toNat = v % 0x40 + 0x80 :=
    toNat_ofByte (by omega)
  omega

theorem lt_of_isValidChar {v : Nat} (h : v.isValidChar) : v < 0x110000 := by
  unfold Nat.isValidChar at h
  omega

theorem utf8EncodeChar_isEncoding (c : Char) : isEncoding (String.utf8EncodeChar c) = true := by
  have hvalid : c.val.toNat.isValidChar := c.valid
  rw [String.utf8EncodeChar]
  generalize c.val.toNat = v at hvalid
  have hbound := lt_of_isValidChar hvalid
  split
  next h =>
    refine isEncoding_one.mpr ?_
    rw [UInt8.toNat_ofNat']
    omega
  split
  next h h2 =>
    refine isEncoding_two.mpr ?_
    simp only [isTail_iff, UInt8.toNat_ofNat']
    omega
  split
  next h h2 h3 =>
    refine isEncoding_three.mpr ?_
    rw [scalarOfThree_encode h3]
    simp only [isTail_iff, UInt8.toNat_ofNat']
    refine ⟨by omega, by omega, by omega, by omega, by omega, hvalid⟩
  next h h2 h3 =>
    refine isEncoding_four.mpr ?_
    rw [scalarOfFour_encode hbound]
    simp only [isTail_iff, UInt8.toNat_ofNat']
    refine ⟨by omega, by omega, by omega, by omega, by omega, by omega, hvalid⟩

theorem exists_char {v : Nat} (h : v.isValidChar) : ∃ c : Char, c.val.toNat = v :=
  ⟨Char.ofNatAux v h, rfl⟩

/-- Every encoding is that of a character. -/
theorem exists_utf8EncodeChar {e : List UInt8} (h : isEncoding e = true) :
    ∃ c : Char, String.utf8EncodeChar c = e := by
  match e, h with
  | [a], h =>
    have ha := isEncoding_one.mp h
    obtain ⟨c, hc⟩ := exists_char (v := a.toNat) (.inl (by omega))
    refine ⟨c, ?_⟩
    rw [String.utf8EncodeChar, hc, if_pos (by omega), UInt8.ofNat_toNat]
  | [a, b], h =>
    obtain ⟨ha, ha', hb⟩ := isEncoding_two.mp h
    obtain ⟨hb, hb'⟩ := isTail_iff.mp hb
    obtain ⟨v, hv⟩ : ∃ v, v = (a.toNat - 0xC0) * 64 + (b.toNat - 0x80) := ⟨_, rfl⟩
    obtain ⟨c, hc⟩ := exists_char (v := v) (.inl (by omega))
    refine ⟨c, ?_⟩
    rw [String.utf8EncodeChar, hc, if_neg (by omega), if_pos (by omega), ofNat_eq (b := a) (by omega),
      ofNat_eq (b := b) (by omega)]
  | [a, b, c], h =>
    obtain ⟨ha, ha', hb, hc, hlow, hvalid⟩ := isEncoding_three.mp h
    obtain ⟨hb, hb'⟩ := isTail_iff.mp hb
    obtain ⟨hc, hc'⟩ := isTail_iff.mp hc
    obtain ⟨v, hv⟩ : ∃ v, v = scalarOfThree a b c := ⟨_, rfl⟩
    rw [← hv] at hlow hvalid
    unfold scalarOfThree at hv
    obtain ⟨x, hx⟩ := exists_char hvalid
    refine ⟨x, ?_⟩
    rw [String.utf8EncodeChar, hx, if_neg (by omega), if_neg (by omega), if_pos (by omega),
      ofNat_eq (b := a) (by omega), ofNat_eq (b := b) (by omega), ofNat_eq (b := c) (by omega)]
  | [a, b, c, d], h =>
    obtain ⟨ha, ha', hb, hc, hd, hlow, hvalid⟩ := isEncoding_four.mp h
    obtain ⟨hb, hb'⟩ := isTail_iff.mp hb
    obtain ⟨hc, hc'⟩ := isTail_iff.mp hc
    obtain ⟨hd, hd'⟩ := isTail_iff.mp hd
    obtain ⟨v, hv⟩ : ∃ v, v = scalarOfFour a b c d := ⟨_, rfl⟩
    rw [← hv] at hlow hvalid
    unfold scalarOfFour at hv
    obtain ⟨x, hx⟩ := exists_char hvalid
    refine ⟨x, ?_⟩
    rw [String.utf8EncodeChar, hx, if_neg (by omega), if_neg (by omega), if_neg (by omega),
      ofNat_eq (b := a) (by omega), ofNat_eq (b := b) (by omega), ofNat_eq (b := c) (by omega),
      ofNat_eq (b := d) (by omega)]

/-- The scalar value that an encoding stands for. -/
def scalar : List UInt8 → Nat
  | [a] => a.toNat
  | [a, b] => (a.toNat - 0xC0) * 64 + (b.toNat - 0x80)
  | [a, b, c] => scalarOfThree a b c
  | [a, b, c, d] => scalarOfFour a b c d
  | _ => 0

theorem scalar_utf8EncodeChar (c : Char) : scalar (String.utf8EncodeChar c) = c.val.toNat := by
  have hvalid : c.val.toNat.isValidChar := c.valid
  rw [String.utf8EncodeChar]
  generalize c.val.toNat = v at hvalid
  have hbound := lt_of_isValidChar hvalid
  split
  next h => exact toNat_ofByte (by omega)
  split
  next h h2 =>
    have ha : (UInt8.ofNat (v / 64 % 0x20 + 0xC0)).toNat = v / 64 % 0x20 + 0xC0 :=
      toNat_ofByte (by omega)
    have hb : (UInt8.ofNat (v % 0x40 + 0x80)).toNat = v % 0x40 + 0x80 := toNat_ofByte (by omega)
    change ((UInt8.ofNat (v / 64 % 0x20 + 0xC0)).toNat - 0xC0) * 64 +
      ((UInt8.ofNat (v % 0x40 + 0x80)).toNat - 0x80) = v
    omega
  split
  next h h2 h3 => exact scalarOfThree_encode h3
  next h h2 h3 => exact scalarOfFour_encode hbound

theorem utf8EncodeChar_injective {c d : Char}
    (h : String.utf8EncodeChar c = String.utf8EncodeChar d) : c = d := by
  have hval : c.val.toNat = d.val.toNat := by
    rw [← scalar_utf8EncodeChar c, h, scalar_utf8EncodeChar]
  exact Char.ext (UInt32.toNat_inj.mp hval)

@[simp] theorem encode_nil : encode [] = [] := rfl

@[simp] theorem encode_cons (c : Char) (chars : List Char) :
    encode (c :: chars) = String.utf8EncodeChar c ++ encode chars := List.flatMap_cons

@[simp] theorem encode_append (chars more : List Char) :
    encode (chars ++ more) = encode chars ++ encode more := List.flatMap_append

theorem WellFormed.append {s t : List UInt8} (hs : WellFormed s) (ht : WellFormed t) :
    WellFormed (s ++ t) := by
  obtain ⟨chars, rfl⟩ := hs
  obtain ⟨more, rfl⟩ := ht
  exact ⟨chars ++ more, (encode_append chars more).symm⟩

section Units

variable {u v s t : List UInt8}

theorem IsSequence.ne_nil (h : IsSequence u) : u ≠ [] := by
  obtain ⟨lead, tails, rfl, -⟩ := h
  exact List.cons_ne_nil lead tails

/-- An encoding is a lead byte with its tail bytes. -/
theorem isSequence_of_isEncoding (h : isEncoding u = true) : IsSequence u := by
  match u, h with
  | [a], h =>
    have ha := isEncoding_one.mp h
    exact ⟨a, [], rfl, by rw [tailCount_eq, if_pos ha]; rfl, by simp⟩
  | [a, b], h =>
    obtain ⟨ha, ha', hb⟩ := isEncoding_two.mp h
    refine ⟨a, [b], rfl, ?_, by simpa using hb⟩
    rw [tailCount_eq, if_neg (by omega), if_neg (by omega), if_pos ha']
    rfl
  | [a, b, c], h =>
    obtain ⟨ha, ha', hb, hc, -⟩ := isEncoding_three.mp h
    refine ⟨a, [b, c], rfl, ?_, by simpa using ⟨hb, hc⟩⟩
    rw [tailCount_eq, if_neg (by omega), if_neg (by omega), if_neg (by omega), if_pos ha']
    rfl
  | [a, b, c, d], h =>
    obtain ⟨ha, ha', hb, hc, hd, -⟩ := isEncoding_four.mp h
    refine ⟨a, [b, c, d], rfl, ?_, by simpa using ⟨hb, hc, hd⟩⟩
    rw [tailCount_eq, if_neg (by omega), if_neg (by omega), if_neg (by omega), if_neg (by omega),
      if_pos ha']
    rfl

theorem utf8EncodeChar_isSequence (c : Char) : IsSequence (String.utf8EncodeChar c) :=
  isSequence_of_isEncoding (utf8EncodeChar_isEncoding c)

/-- The lead byte tells where a unit ends. -/
theorem IsSequence.append_inj (hu : IsSequence u) (hv : IsSequence v) (h : u ++ s = v ++ t) :
    u = v ∧ s = t := by
  obtain ⟨a, as, rfl, ha, -⟩ := hu
  obtain ⟨b, bs, rfl, hb, -⟩ := hv
  obtain ⟨hlead, hrest⟩ := List.cons.inj h
  rw [hlead, hb] at ha
  have hlen : as.length = bs.length := (Option.some.inj ha).symm
  obtain ⟨htails, hst⟩ := List.append_inj hrest hlen
  exact ⟨by rw [hlead, htails], hst⟩

/-- A text is made up of units in one way. -/
theorem units_eq_of_flatten_eq {us vs : List (List UInt8)} (hus : ∀ u ∈ us, IsSequence u)
    (hvs : ∀ v ∈ vs, IsSequence v) (h : us.flatten = vs.flatten) : us = vs := by
  induction us generalizing vs with
  | nil =>
    cases vs with
    | nil => rfl
    | cons v vs =>
      have hempty : v = [] := List.flatten_eq_nil_iff.mp h.symm v List.mem_cons_self
      exact absurd hempty (hvs v List.mem_cons_self).ne_nil
  | cons u us ih =>
    cases vs with
    | nil =>
      have hempty : u = [] := List.flatten_eq_nil_iff.mp h u List.mem_cons_self
      exact absurd hempty (hus u List.mem_cons_self).ne_nil
    | cons v vs =>
      have huv := (hus u List.mem_cons_self).append_inj (hvs v List.mem_cons_self) h
      have hrest := ih (fun w hw => hus w (List.mem_cons_of_mem _ hw))
        (fun w hw => hvs w (List.mem_cons_of_mem _ hw)) huv.2
      rw [huv.1, hrest]

theorem encode_injective {chars more : List Char} (h : encode chars = encode more) : chars = more := by
  have hunits (cs : List Char) : ∀ v ∈ cs.map String.utf8EncodeChar, IsSequence v := by
    intro v hv
    obtain ⟨c, -, rfl⟩ := List.mem_map.mp hv
    exact utf8EncodeChar_isSequence c
  rw [encode, encode, List.flatMap_def, List.flatMap_def] at h
  have hmap := units_eq_of_flatten_eq (hunits chars) (hunits more) h
  exact List.map_injective_iff.mpr (fun _ _ hcd => utf8EncodeChar_injective hcd) hmap

/-- Units are well-formed together where each of them is an encoding. -/
theorem wellFormed_flatten_iff {us : List (List UInt8)} (hus : ∀ u ∈ us, IsSequence u) :
    WellFormed us.flatten ↔ ∀ u ∈ us, isEncoding u = true := by
  constructor
  · intro h u hu
    obtain ⟨chars, hchars⟩ := h
    have hunits : ∀ v ∈ chars.map String.utf8EncodeChar, IsSequence v := by
      intro v hv
      obtain ⟨c, -, rfl⟩ := List.mem_map.mp hv
      exact utf8EncodeChar_isSequence c
    have heq : us = chars.map String.utf8EncodeChar :=
      units_eq_of_flatten_eq hus hunits (hchars.trans (List.flatMap_def ..))
    rw [heq] at hu
    obtain ⟨c, -, rfl⟩ := List.mem_map.mp hu
    exact utf8EncodeChar_isEncoding c
  · intro h
    induction us with
    | nil => exact ⟨[], rfl⟩
    | cons u us ih =>
      obtain ⟨c, hc⟩ := exists_utf8EncodeChar (h u List.mem_cons_self)
      have hfirst : WellFormed u := ⟨[c], by simp [hc]⟩
      exact hfirst.append (ih (fun w hw => hus w (List.mem_cons_of_mem _ hw))
        fun w hw => h w (List.mem_cons_of_mem _ hw))

/-- No unit begins with a tail byte. -/
theorem IsSequence.head_not_tail {b : UInt8} (h : IsSequence (b :: u)) : isTail b = false := by
  obtain ⟨lead, tails, heq, hlead, -⟩ := h
  by_contra htail
  rw [← (List.cons.inj heq).1, tailCount_of_isTail (Bool.not_eq_false _ ▸ htail)] at hlead
  cases hlead

theorem IsSequence.get_tail (h : IsSequence u) {n : Nat} (hpos : 0 < n) (hn : n < u.length) :
    isTail u[n] = true := by
  obtain ⟨lead, tails, rfl, -, htails⟩ := h
  obtain ⟨n, rfl⟩ := Nat.exists_eq_succ_of_ne_zero (Nat.ne_of_gt hpos)
  rw [List.getElem_cons_succ]
  exact htails _ (List.getElem_mem _)

/-- A well-formed text can be cut where no tail byte follows, and there only. -/
theorem wellFormed_take_iff {n : Nat} (h : WellFormed s) (hn : n < s.length) :
    WellFormed (s.take n) ↔ isTail s[n] = false := by
  obtain ⟨chars, rfl⟩ := h
  induction chars generalizing n with
  | nil => exact absurd hn (Nat.not_lt_zero n)
  | cons c chars ih =>
    have hunit := utf8EncodeChar_isSequence c
    simp only [encode_cons] at hn ⊢
    rcases Nat.lt_or_ge n (String.utf8EncodeChar c).length with hlt | hge
    · rw [List.getElem_append_left hlt, List.take_append_of_le_length (Nat.le_of_lt hlt)]
      by_cases hzero : n = 0
      · subst hzero
        obtain ⟨b, tail, hcons⟩ := List.exists_cons_of_ne_nil hunit.ne_nil
        simp only [hcons, List.take_zero, List.getElem_cons_zero]
        exact iff_of_true ⟨[], rfl⟩ (hcons ▸ hunit).head_not_tail
      · -- the first part of a character is no text
        rw [hunit.get_tail (Nat.pos_of_ne_zero hzero) hlt]
        refine iff_of_false (fun hwell => ?_) (by simp)
        obtain ⟨more, hmore⟩ := hwell
        cases more with
        | nil =>
          have hlen := congrArg List.length hmore
          rw [List.length_take_of_le (Nat.le_of_lt hlt)] at hlen
          exact hzero hlen
        | cons d more =>
          have hwhole : String.utf8EncodeChar c ++ [] = String.utf8EncodeChar d ++
              (encode more ++ (String.utf8EncodeChar c).drop n) := by
            rw [← List.append_assoc, ← encode_cons, ← hmore, List.take_append_drop,
              List.append_nil]
          obtain ⟨hsame, -⟩ := hunit.append_inj (utf8EncodeChar_isSequence d) hwhole
          have hlen := congrArg List.length hmore
          rw [List.length_take_of_le (Nat.le_of_lt hlt), encode_cons, ← hsame,
            List.length_append] at hlen
          omega
    · rw [List.length_append] at hn
      have hlater := @ih (n - (String.utf8EncodeChar c).length) (by omega)
      rw [List.getElem_append_right hge, ← hlater, List.take_append,
        List.take_of_length_le hge]
      constructor
      · intro hwell
        obtain ⟨more, hmore⟩ := hwell
        cases more with
        | nil => exact absurd (List.append_eq_nil_iff.mp hmore).1 hunit.ne_nil
        | cons d more =>
          rw [encode_cons] at hmore
          exact ⟨more, (hunit.append_inj (utf8EncodeChar_isSequence d) hmore).2⟩
      · intro hwell
        obtain ⟨more, hmore⟩ := hwell
        exact ⟨c :: more, by rw [hmore, encode_cons]⟩

end Units

end Utf8

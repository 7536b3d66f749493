import HeyNilo.JniText
import HeyNilo.Utf8

namespace HeyNilo

open Utf8

/-- A finite check gives a fact about every byte. -/
theorem byte_all {p : UInt8 → Bool} (h : ∀ n < 256, p (UInt8.ofNat n) = true) (b : UInt8) :
    p b = true := by
  have hb := h b.toNat b.toNat_lt
  rwa [UInt8.ofNat_toNat] at hb

theorem isContinuation_eq_isTail (b : UInt8) : isContinuation b = isTail b := by
  have h : (isContinuation b == isTail b) = true :=
    byte_all (p := fun b => isContinuation b == isTail b) (by decide +kernel) b
  exact eq_of_beq h

theorem tailCount_eq_zero_iff (b : UInt8) : tailCount b = some 0 ↔ b < 0x80 := by
  have h : (decide (tailCount b = some 0) == decide (b < 0x80)) = true :=
    byte_all (p := fun b => decide (tailCount b = some 0) == decide (b < 0x80)) (by decide +kernel) b
  simpa using h

/-- The masks of the three kinds of lead byte of a longer character. -/
theorem lead_masks (b : UInt8) :
    (b &&& 0xE0 == 0xC0) = decide (tailCount b = some 1) ∧
      (b &&& 0xF0 == 0xE0) = decide (tailCount b = some 2) ∧
      (b &&& 0xF8 == 0xF0) = decide (tailCount b = some 3) := by
  have h : ((b &&& 0xE0 == 0xC0) == decide (tailCount b = some 1) &&
      (b &&& 0xF0 == 0xE0) == decide (tailCount b = some 2) &&
      (b &&& 0xF8 == 0xF0) == decide (tailCount b = some 3)) = true :=
    byte_all (p := fun b => (b &&& 0xE0 == 0xC0) == decide (tailCount b = some 1) &&
      (b &&& 0xF0 == 0xE0) == decide (tailCount b = some 2) &&
      (b &&& 0xF8 == 0xF0) == decide (tailCount b = some 3)) (by decide +kernel) b
  simpa [and_assoc] using h

theorem tailCount_le_three {b : UInt8} {k : Nat} (h : tailCount b = some k) : k ≤ 3 := by
  rw [tailCount_eq] at h
  split_ifs at h <;> cases h <;> decide

theorem continued_iff {k : Nat} {s : Bytes} :
    continued k s = true ↔
      ∃ tails rest, s = tails ++ rest ∧ tails.length = k ∧ ∀ b ∈ tails, isTail b = true := by
  induction k generalizing s with
  | zero => exact ⟨fun _ => ⟨[], s, rfl, rfl, by simp⟩, fun _ => rfl⟩
  | succ k ih =>
    cases s with
    | nil => simp [continued]
    | cons b s =>
      rw [continued, Bool.and_eq_true, isContinuation_eq_isTail, ih]
      constructor
      · intro h
        obtain ⟨hb, tails, rest, rfl, hlen, htails⟩ := h
        exact ⟨b :: tails, rest, rfl, by rw [List.length_cons, hlen],
          List.forall_mem_cons.mpr ⟨hb, htails⟩⟩
      · intro h
        obtain ⟨tails, rest, hs, hlen, htails⟩ := h
        cases tails with
        | nil => cases hlen
        | cons t tails =>
          obtain ⟨rfl, rfl⟩ := List.cons.inj hs
          obtain ⟨ht, htails⟩ := List.forall_mem_cons.mp htails
          exact ⟨ht, tails, rest, rfl, Nat.succ.inj hlen, htails⟩

/-- The loop at a lead byte, by the number of tail bytes that it announces. -/
theorem sanitizeLoop_cons (c : UInt8) (s : Bytes) :
    sanitizeLoop 0 (c :: s) =
      if c = 0 then sanitizeLoop 0 s
      else
        match tailCount c with
        | some k => if continued k s then c :: sanitizeLoop k s else sanitizeLoop 0 s
        | none => sanitizeLoop 0 s := by
  obtain ⟨hone, htwo, hthree⟩ := lead_masks c
  rw [sanitizeLoop, hone, htwo, hthree]
  simp only [beq_iff_eq, ← tailCount_eq_zero_iff, decide_eq_true_eq]
  cases hk : tailCount c with
  | none => simp
  | some k =>
    match k, tailCount_le_three hk with
    | 0, _ => simp [continued]
    | 1, _ => simp
    | 2, _ => simp
    | 3, _ => simp

theorem sanitizeLoop_copy (tails s : Bytes) :
    sanitizeLoop tails.length (tails ++ s) = tails ++ sanitizeLoop 0 s := by
  induction tails with
  | nil => rfl
  | cons b tails ih => exact congrArg (b :: ·) ih

/-- A unit is taken over whole. -/
theorem sanitizeForJNI_unit {u : Bytes} (hu : IsSequence u) (hne : u ≠ [0]) (s : Bytes) :
    sanitizeForJNI (u ++ s) = u ++ sanitizeForJNI s := by
  obtain ⟨lead, tails, rfl, hlead, htails⟩ := hu
  have hnonzero : lead ≠ 0 := by
    rintro rfl
    have hlen : 0 = tails.length := Option.some.inj hlead
    cases tails with
    | nil => exact hne rfl
    | cons b tails => cases hlen
  have hcontinued : continued tails.length (tails ++ s) = true :=
    continued_iff.mpr ⟨tails, s, rfl, rfl, htails⟩
  rw [sanitizeForJNI, List.cons_append, sanitizeLoop_cons, if_neg hnonzero, hlead]
  simp only [hcontinued, if_true, sanitizeLoop_copy]
  rfl

/-- A byte that begins no unit is dropped. -/
theorem sanitizeForJNI_drop {c : UInt8} {s : Bytes}
    (h : c = 0 ∨ ∀ u rest, IsSequence u → c :: s ≠ u ++ rest) :
    sanitizeForJNI (c :: s) = sanitizeForJNI s := by
  rw [sanitizeForJNI, sanitizeLoop_cons]
  split
  next => rfl
  next hc =>
    have hnone := h.resolve_left hc
    split
    next k hk =>
      have hcut : ¬continued k s = true := by
        intro hcontinued
        obtain ⟨tails, rest, rfl, hlen, htails⟩ := continued_iff.mp hcontinued
        exact hnone (c :: tails) rest ⟨c, tails, rfl, hlen ▸ hk, htails⟩ rfl
      rw [if_neg hcut]
      rfl
    next => rfl

/-- Induction along the loop: a unit is copied, or a byte is dropped. -/
theorem sanitize_induction {P : Bytes → Prop} (nil : P [])
    (unit : ∀ u s, IsSequence u → u ≠ [0] → P s → P (u ++ s))
    (dropped : ∀ c s, (c = 0 ∨ ∀ u rest, IsSequence u → c :: s ≠ u ++ rest) → P s → P (c :: s)) :
    ∀ s, P s := by
  intro s
  induction hn : s.length using Nat.strong_induction_on generalizing s with
  | _ n ih =>
    cases s with
    | nil => exact nil
    | cons c s =>
      have hdrop : c = 0 ∨ (∀ u rest, IsSequence u → c :: s ≠ u ++ rest) → P (c :: s) := fun h =>
        dropped c s h (ih s.length (by rw [← hn]; exact Nat.lt_succ_self _) s rfl)
      by_cases hzero : c = 0
      · exact hdrop (.inl hzero)
      by_cases hunit : ∃ u rest, IsSequence u ∧ c :: s = u ++ rest
      · obtain ⟨u, rest, hu, hs⟩ := hunit
        have hpos := List.length_pos_iff.mpr hu.ne_nil
        have hlen : rest.length < n := by
          rw [← hn, hs, List.length_append]
          omega
        have hne : u ≠ [0] := by
          rintro rfl
          exact hzero (List.cons.inj hs).1
        rw [hs]
        exact unit u rest hu hne (ih rest.length hlen rest rfl)
      · exact hdrop (.inr fun u rest hu hs => hunit ⟨u, rest, hu, hs⟩)

/-- A unit within a text that begins with a unit is that one, or comes after it. -/
theorem unit_infix_append {u v s : Bytes} (hu : IsSequence u) (hv : IsSequence v) (h : v <:+: u ++ s) :
    v = u ∨ v <:+: s := by
  obtain ⟨before, after, h⟩ := h
  rw [List.append_assoc] at h
  cases before with
  | nil => exact .inl (hv.append_inj hu h).1
  | cons b before =>
    obtain ⟨lead, tails, rfl, -, htails⟩ := hu
    have hrest : before ++ (v ++ after) = tails ++ s := (List.cons.inj h).2
    rcases List.append_eq_append_iff.mp hrest with ⟨w, htw, hvw⟩ | ⟨w, -, hs⟩
    · -- the lead byte of `v` would be a tail byte of `u`
      obtain ⟨lead', tails', rfl, hlead', -⟩ := hv
      cases w with
      | nil => exact .inr ⟨[], after, hvw⟩
      | cons x w =>
        have hx : lead' = x := (List.cons.inj hvw).1
        have hmem : x ∈ tails := htw ▸ List.mem_append_right _ List.mem_cons_self
        rw [hx, tailCount_of_isTail (htails x hmem)] at hlead'
        cases hlead'
    · exact .inr ⟨w, after, by rw [hs, List.append_assoc]⟩

/-- What is left of a text are the units in it. -/
theorem sanitizeForJNI_units (s : Bytes) :
    ∃ us : List Bytes, sanitizeForJNI s = us.flatten ∧ us.flatten.Sublist s ∧
      ∀ u, u ∈ us ↔ IsSequence u ∧ u ≠ [0] ∧ u <:+: s := by
  induction s using sanitize_induction with
  | nil =>
    refine ⟨[], rfl, List.Sublist.refl _, fun u => ⟨fun h => absurd h List.not_mem_nil, fun h => ?_⟩⟩
    exact absurd (List.infix_nil.mp h.2.2) h.1.ne_nil
  | unit u s hu hne ih =>
    obtain ⟨us, heq, hsub, hmem⟩ := ih
    refine ⟨u :: us, ?_, (List.Sublist.refl u).append hsub, fun v => ?_⟩
    · rw [sanitizeForJNI_unit hu hne, heq]
      rfl
    · rw [List.mem_cons, hmem]
      constructor
      · intro h
        rcases h with rfl | ⟨hv, hzero, hinfix⟩
        · exact ⟨hu, hne, (List.prefix_append v s).isInfix⟩
        · exact ⟨hv, hzero, hinfix.trans (List.suffix_append u s).isInfix⟩
      · intro h
        obtain ⟨hv, hzero, hinfix⟩ := h
        rcases unit_infix_append hu hv hinfix with hvu | hlater
        · exact .inl hvu
        · exact .inr ⟨hv, hzero, hlater⟩
  | dropped c s hc ih =>
    obtain ⟨us, heq, hsub, hmem⟩ := ih
    refine ⟨us, (sanitizeForJNI_drop hc).trans heq, hsub.cons c, fun v => ?_⟩
    rw [hmem]
    constructor
    · intro h
      obtain ⟨hv, hzero, hinfix⟩ := h
      exact ⟨hv, hzero, hinfix.trans (List.suffix_cons c s).isInfix⟩
    · intro h
      obtain ⟨hv, hzero, hinfix⟩ := h
      refine ⟨hv, hzero, ?_⟩
      rcases List.infix_cons_iff.mp hinfix with ⟨rest, hrest⟩ | hlater
      · rcases hc with rfl | hnone
        · have hnul : IsSequence [0] := ⟨0, [], rfl, by decide, by simp⟩
          exact absurd (hv.append_inj hnul hrest).1 hzero
        · exact absurd hrest.symm (hnone v rest hv)
      · exact hlater

theorem sanitizeForJNI_flatten {us : List Bytes} (hus : ∀ u ∈ us, IsSequence u ∧ u ≠ [0]) :
    sanitizeForJNI us.flatten = us.flatten := by
  induction us with
  | nil => rfl
  | cons u us ih =>
    obtain ⟨⟨hu, hne⟩, hlater⟩ := List.forall_mem_cons.mp hus
    rw [List.flatten_cons, sanitizeForJNI_unit hu hne, ih hlater]

theorem zero_notMem_unit {u : Bytes} (hu : IsSequence u) (hne : u ≠ [0]) : (0 : UInt8) ∉ u := by
  obtain ⟨lead, tails, rfl, hlead, htails⟩ := hu
  intro hmem
  rcases List.mem_cons.mp hmem with hzero | hmem
  · rw [← hzero] at hlead hne
    have hlen : 0 = tails.length := Option.some.inj hlead
    exact hne (by rw [List.length_eq_zero_iff.mp hlen.symm])
  · exact absurd (htails 0 hmem) (by decide)

theorem sanitizeForJNI_sublist (s : Bytes) : (sanitizeForJNI s).Sublist s := by
  obtain ⟨us, heq, hsub, -⟩ := sanitizeForJNI_units s
  exact heq ▸ hsub

theorem zero_notMem_sanitizeForJNI (s : Bytes) : (0 : UInt8) ∉ sanitizeForJNI s := by
  obtain ⟨us, heq, -, hmem⟩ := sanitizeForJNI_units s
  rw [heq]
  intro hzero
  obtain ⟨u, hu, hin⟩ := List.mem_flatten.mp hzero
  obtain ⟨hunit, hne, -⟩ := (hmem u).mp hu
  exact zero_notMem_unit hunit hne hin

@[simp] theorem sanitizeForJNI_idempotent (s : Bytes) :
    sanitizeForJNI (sanitizeForJNI s) = sanitizeForJNI s := by
  obtain ⟨us, heq, -, hmem⟩ := sanitizeForJNI_units s
  rw [heq]
  refine sanitizeForJNI_flatten fun u hu => ?_
  obtain ⟨hunit, hne, -⟩ := (hmem u).mp hu
  exact ⟨hunit, hne⟩

theorem sanitizeForJNI_wellFormed {s : Bytes} (h : WellFormed s) (hzero : (0 : UInt8) ∉ s) :
    sanitizeForJNI s = s := by
  obtain ⟨chars, rfl⟩ := h
  rw [encode, List.flatMap_def] at hzero ⊢
  refine sanitizeForJNI_flatten fun u hu => ?_
  have hnonzero : u ≠ [0] := by
    rintro rfl
    exact hzero (List.mem_flatten.mpr ⟨[0], hu, List.mem_singleton_self 0⟩)
  obtain ⟨c, -, rfl⟩ := List.mem_map.mp hu
  exact ⟨utf8EncodeChar_isSequence c, hnonzero⟩

/-- The text that is left is well-formed exactly where every lead byte with its tail bytes in the
input is the encoding of a character. -/
theorem sanitizeForJNI_wellFormed_iff (input : Bytes) :
    WellFormed (sanitizeForJNI input) ↔ ∀ u, IsSequence u → u <:+: input → isEncoding u = true := by
  obtain ⟨us, heq, -, hmem⟩ := sanitizeForJNI_units input
  have hunits : ∀ u ∈ us, IsSequence u := fun u hu => ((hmem u).mp hu).1
  rw [heq, wellFormed_flatten_iff hunits]
  constructor
  · intro h u hu hinfix
    by_cases hzero : u = [0]
    · rw [hzero]
      decide
    · exact h u ((hmem u).mpr ⟨hu, hzero, hinfix⟩)
  · intro h u hu
    obtain ⟨hunit, -, hinfix⟩ := (hmem u).mp hu
    exact h u hunit hinfix

/-- The overlong form of NUL passes. -/
theorem sanitizeForJNI_overlong : ¬∀ input : Bytes, WellFormed (sanitizeForJNI input) := by
  intro h
  have htail : isTail 0x80 = true := by decide
  have hunit : IsSequence [0xC0, 0x80] := ⟨0xC0, [0x80], rfl, by decide, by simpa using htail⟩
  have hkept : sanitizeForJNI [0xC0, 0x80] = [[0xC0, 0x80]].flatten := by decide
  have hoverlong := h [0xC0, 0x80]
  rw [hkept] at hoverlong
  have hall := (wellFormed_flatten_iff (by simpa using hunit)).mp hoverlong
  exact absurd (hall _ (List.mem_singleton_self _)) (by decide)

/-- `left && right`: the right operand is only evaluated where the left one holds. -/
def shortAnd (left : Bool) (right : Option Bool) : Option Bool :=
  if left then right else some false

/-- `(input[i] & 0xC0) == 0x80`, a read that has to be within the string. -/
def tailAt (input : Bytes) (i : Nat) : Option Bool := input[i]?.map isContinuation

/-- One round of the loop in `ai_chat_jni.cpp`: the next index and the output, `none` where a read is
out of bounds. -/
def aiChatRound (input : Bytes) (i : Nat) (output : Bytes) : Option (Nat × Bytes) := do
  let c ← input[i]?
  if c == 0 then
    return (i + 1, output)
  else if c < 0x80 then
    return (i + 1, output ++ [c])
  else if c &&& 0xE0 == 0xC0 then
    if ← shortAnd (i + 1 < input.length) (tailAt input (i + 1)) then
      return (i + 2, output ++ [c, ← input[i + 1]?])
    else return (i + 1, output)
  else if c &&& 0xF0 == 0xE0 then
    if ← shortAnd (i + 2 < input.length)
        ((tailAt input (i + 1)).bind fun b => shortAnd b (tailAt input (i + 2))) then
      return (i + 3, output ++ [c, ← input[i + 1]?, ← input[i + 2]?])
    else return (i + 1, output)
  else if c &&& 0xF8 == 0xF0 then
    if ← shortAnd (i + 3 < input.length)
        ((tailAt input (i + 1)).bind fun b => shortAnd b
          ((tailAt input (i + 2)).bind fun b => shortAnd b (tailAt input (i + 3)))) then
      return (i + 4, output ++ [c, ← input[i + 1]?, ← input[i + 2]?, ← input[i + 3]?])
    else return (i + 1, output)
  else return (i + 1, output)

/-- One round of the loop in `whisper_jni.cpp`. -/
def whisperRound (input : Bytes) (i : Nat) (output : Bytes) : Option (Nat × Bytes) := do
  let c ← input[i]?
  if c == 0 then return (i + 1, output)
  if c < 0x80 then return (i + 1, output ++ [c])
  else if c &&& 0xE0 == 0xC0 then
    if ← shortAnd (i + 1 < input.length) (tailAt input (i + 1)) then
      return (i + 2, output ++ [c] ++ [← input[i + 1]?])
    else return (i + 1, output)
  else if c &&& 0xF0 == 0xE0 then
    if ← shortAnd (i + 2 < input.length)
        ((tailAt input (i + 1)).bind fun b => shortAnd b (tailAt input (i + 2))) then
      return (i + 3, output ++ [c] ++ [← input[i + 1]?] ++ [← input[i + 2]?])
    else return (i + 1, output)
  else if c &&& 0xF8 == 0xF0 then
    if ← shortAnd (i + 3 < input.length)
        ((tailAt input (i + 1)).bind fun b => shortAnd b
          ((tailAt input (i + 2)).bind fun b => shortAnd b (tailAt input (i + 3)))) then
      return (i + 4,
        output ++ [c] ++ [← input[i + 1]?] ++ [← input[i + 2]?] ++ [← input[i + 3]?])
    else return (i + 1, output)
  else return (i + 1, output)

/-- The loop itself; `none` where a round reads out of bounds or `fuel` rounds do not suffice. -/
def sanitizeRounds (round : Bytes → Nat → Bytes → Option (Nat × Bytes)) (input : Bytes) :
    Nat → Nat → Bytes → Option Bytes
  | fuel, i, output =>
    if i < input.length then
      match fuel with
      | 0 => none
      | fuel + 1 => (round input i output).bind fun next =>
        sanitizeRounds round input fuel next.1 next.2
    else some output

/-- What a round has to do: copy a piece of the input, or pass over it, and go on behind it. -/
def RoundSound (round : Bytes → Nat → Bytes → Option (Nat × Bytes)) : Prop :=
  ∀ (input : Bytes) (i : Nat) (output : Bytes), i < input.length →
    ∃ k w, round input i output = some (i + k, output ++ w) ∧ 1 ≤ k ∧
      sanitizeForJNI (input.drop i) = w ++ sanitizeForJNI (input.drop (i + k))

theorem sanitizeRounds_eq {round : Bytes → Nat → Bytes → Option (Nat × Bytes)}
    (h : RoundSound round) (input : Bytes) {fuel : Nat} (i : Nat) (output : Bytes)
    (hfuel : input.length ≤ i + fuel) :
    sanitizeRounds round input fuel i output =
      some (output ++ sanitizeForJNI (input.drop i)) := by
  induction fuel generalizing i output with
  | zero =>
    rw [sanitizeRounds, if_neg (by omega), List.drop_eq_nil_of_le (by omega)]
    simp [sanitizeForJNI, sanitizeLoop]
  | succ fuel ih =>
    rw [sanitizeRounds]
    by_cases hi : i < input.length
    · obtain ⟨k, w, hround, hk, hrest⟩ := h input i output hi
      rw [if_pos hi]
      simp only [hround, Option.bind_some]
      rw [ih (i + k) (output ++ w) (by omega), hrest, List.append_assoc]
    · rw [if_neg hi, List.drop_eq_nil_of_le (by omega)]
      simp [sanitizeForJNI, sanitizeLoop]

/-- The checks and reads of a round behind the byte at `i`, on what is left of the input there. -/
structure ReadsRest (input : Bytes) (i : Nat) (rest : Bytes) : Prop where
  length : input.length = i + 1 + rest.length
  first : input[i + 1]? = rest[0]?
  second : input[i + 2]? = rest[1]?
  third : input[i + 3]? = rest[2]?

theorem readsRest_drop {input : Bytes} {i : Nat} (hi : i < input.length) :
    ReadsRest input i (input.drop (i + 1)) where
  length := by rw [List.length_drop]; omega
  first := by rw [List.getElem?_drop]
  second := by rw [List.getElem?_drop]
  third := by rw [List.getElem?_drop]

theorem ReadsRest.check {input : Bytes} {i : Nat} {rest : Bytes} (h : ReadsRest input i rest)
    (k : Nat) : decide (i + k < input.length) = decide (k ≤ rest.length) := by
  rw [h.length, decide_eq_decide]
  omega

theorem ReadsRest.one {input : Bytes} {i : Nat} {rest : Bytes} (h : ReadsRest input i rest) :
    shortAnd (i + 1 < input.length) (tailAt input (i + 1)) = some (continued 1 rest) := by
  rw [tailAt, h.first, h.check]
  cases rest <;> simp [shortAnd, continued]

theorem ReadsRest.two {input : Bytes} {i : Nat} {rest : Bytes} (h : ReadsRest input i rest) :
    shortAnd (i + 2 < input.length)
        ((tailAt input (i + 1)).bind fun b => shortAnd b (tailAt input (i + 2))) =
      some (continued 2 rest) := by
  rw [tailAt, tailAt, h.first, h.second, h.check]
  match rest with
  | [] => simp [shortAnd, continued]
  | [a] => simp [shortAnd, continued]
  | a :: b :: rest => cases ha : isContinuation a <;> simp [shortAnd, continued, ha]

theorem ReadsRest.three {input : Bytes} {i : Nat} {rest : Bytes} (h : ReadsRest input i rest) :
    shortAnd (i + 3 < input.length)
        ((tailAt input (i + 1)).bind fun b => shortAnd b
          ((tailAt input (i + 2)).bind fun b => shortAnd b (tailAt input (i + 3)))) =
      some (continued 3 rest) := by
  rw [tailAt, tailAt, tailAt, h.first, h.second, h.third, h.check]
  match rest with
  | [] => simp [shortAnd, continued]
  | [a] => simp [shortAnd, continued]
  | [a, b] => simp [shortAnd, continued]
  | a :: b :: c :: rest =>
    cases ha : isContinuation a <;> cases hb : isContinuation b <;>
      simp [shortAnd, continued, ha, hb]

/-- A round, by the number of tail bytes that the byte at `i` announces. -/
def roundByTails (input : Bytes) (i : Nat) (output : Bytes) (c : UInt8) : Nat × Bytes :=
  if c = 0 then (i + 1, output)
  else
    match tailCount c with
    | some k =>
      if continued k (input.drop (i + 1))
      then (i + 1 + k, output ++ c :: (input.drop (i + 1)).take k) else (i + 1, output)
    | none => (i + 1, output)

theorem continued_one {s : Bytes} (h : continued 1 s = true) : ∃ a rest, s = a :: rest := by
  obtain ⟨tails, rest, rfl, hlen, -⟩ := continued_iff.mp h
  obtain ⟨a, rfl⟩ := List.length_eq_one_iff.mp hlen
  exact ⟨a, rest, rfl⟩

theorem continued_two {s : Bytes} (h : continued 2 s = true) : ∃ a b rest, s = a :: b :: rest := by
  obtain ⟨tails, rest, rfl, hlen, -⟩ := continued_iff.mp h
  obtain ⟨a, b, rfl⟩ := List.length_eq_two.mp hlen
  exact ⟨a, b, rest, rfl⟩

theorem continued_three {s : Bytes} (h : continued 3 s = true) :
    ∃ a b c rest, s = a :: b :: c :: rest := by
  obtain ⟨tails, rest, rfl, hlen, -⟩ := continued_iff.mp h
  obtain ⟨a, b, c, rfl⟩ := List.length_eq_three.mp hlen
  exact ⟨a, b, c, rest, rfl⟩

theorem aiChatRound_eq {input : Bytes} {i : Nat} (output : Bytes) (hi : i < input.length) :
    aiChatRound input i output = some (roundByTails input i output input[i]) := by
  have h := readsRest_drop hi
  obtain ⟨hone, htwo, hthree⟩ := lead_masks input[i]
  rw [aiChatRound, roundByTails, List.getElem?_eq_getElem hi, Option.bind_eq_bind, Option.bind_some,
    hone, htwo, hthree, h.one, h.two, h.three, h.first, h.second, h.third]
  simp only [beq_iff_eq, ← tailCount_eq_zero_iff, decide_eq_true_eq]
  generalize input.drop (i + 1) = rest
  by_cases hzero : input[i] = 0
  · rw [if_pos hzero, if_pos hzero]
    rfl
  rw [if_neg hzero, if_neg hzero]
  cases hk : tailCount input[i] with
  | none => simp
  | some k =>
    match k, tailCount_le_three hk with
    | 0, _ => simp [continued]
    | 1, _ =>
      cases hcontinued : continued 1 rest with
      | false => simp [hcontinued]
      | true =>
        obtain ⟨a, rest, rfl⟩ := continued_one hcontinued
        simp [hcontinued]
    | 2, _ =>
      cases hcontinued : continued 2 rest with
      | false => simp [hcontinued]
      | true =>
        obtain ⟨a, b, rest, rfl⟩ := continued_two hcontinued
        simp [hcontinued]
    | 3, _ =>
      cases hcontinued : continued 3 rest with
      | false => simp [hcontinued]
      | true =>
        obtain ⟨a, b, c, rest, rfl⟩ := continued_three hcontinued
        simp [hcontinued]

theorem aiChatRound_sound : RoundSound aiChatRound := by
  intro input i output hi
  have hdrop : input.drop i = input[i] :: input.drop (i + 1) := List.drop_eq_getElem_cons hi
  rw [aiChatRound_eq output hi, hdrop, sanitizeForJNI, sanitizeLoop_cons, roundByTails]
  split
  next => exact ⟨1, [], by simp, Nat.le_refl 1, rfl⟩
  next =>
    split
    next k _ =>
      by_cases hcontinued : continued k (input.drop (i + 1)) = true
      · obtain ⟨tails, rest, hrest, hlen, -⟩ := continued_iff.mp hcontinued
        refine ⟨1 + k, input[i] :: tails, ?_, Nat.le_add_right 1 k, ?_⟩
        · rw [if_pos hcontinued, hrest, ← hlen, List.take_left, Nat.add_assoc]
        · have hbehind : input.drop (i + (1 + k)) = rest := by
            rw [← Nat.add_assoc, ← List.drop_drop, hrest, ← hlen, List.drop_left]
          rw [if_pos hcontinued, hbehind, hrest, ← hlen, sanitizeLoop_copy]
          rfl
      · exact ⟨1, [], by simp [hcontinued], Nat.le_refl 1, by simp [hcontinued, sanitizeForJNI]⟩
    next => exact ⟨1, [], by simp, Nat.le_refl 1, rfl⟩

theorem whisperRound_eq : whisperRound = aiChatRound := by
  funext input i output
  simp only [whisperRound, aiChatRound, List.append_assoc, List.cons_append, List.nil_append]

/-- Both copies end within the bounds of the string and return the same: a subsequence without NUL
bytes, which is a fixed point, and the input itself where that is well-formed without NUL. -/
theorem sanitizeForJNI_copies (input : Bytes) :
    (∀ fuel, input.length ≤ fuel →
      sanitizeRounds aiChatRound input fuel 0 [] = some (sanitizeForJNI input) ∧
        sanitizeRounds whisperRound input fuel 0 [] = some (sanitizeForJNI input)) ∧
      (sanitizeForJNI input).Sublist input ∧ (0 : UInt8) ∉ sanitizeForJNI input ∧
      sanitizeForJNI (sanitizeForJNI input) = sanitizeForJNI input ∧
      (WellFormed input → (0 : UInt8) ∉ input → sanitizeForJNI input = input) := by
  refine ⟨fun fuel hfuel => ?_, sanitizeForJNI_sublist input, zero_notMem_sanitizeForJNI input,
    sanitizeForJNI_idempotent input, sanitizeForJNI_wellFormed⟩
  have hrun := @sanitizeRounds_eq _ aiChatRound_sound input fuel 0 [] (by omega)
  rw [List.nil_append, List.drop_zero] at hrun
  exact ⟨hrun, whisperRound_eq ▸ hrun⟩

end HeyNilo

import Mathlib.Algebra.Order.Ring.Nat
import Mathlib.Algebra.Ring.Int.Defs
import Mathlib.Data.List.Basic
import Mathlib.Data.List.GetD

namespace HeyNilo

/-- An array of the runtime, whose size is an Int. -/
structure KotlinArray (α : Type) where
  toList : List α
  size_lt : toList.length < 2 ^ 31

namespace KotlinArray

variable {α : Type}

def size (a : KotlinArray α) : Int32 := .ofNat a.toList.length

/-- None where the size is negative. -/
def zeros (size : Int32) (zero : α) : Option (KotlinArray α) :=
  if 0 ≤ size then
    some ⟨.replicate size.toInt.toNat zero, by
      have := size.toInt_lt
      rw [List.length_replicate]
      omega⟩
  else none

def get (a : KotlinArray α) (i : Nat) : Option α := a.toList[i]?

/-- None where the index is out of bounds. -/
def set (a : KotlinArray α) (i : Nat) (x : α) : Option (KotlinArray α) :=
  if i < a.toList.length then some ⟨a.toList.set i x, by simpa using a.size_lt⟩ else none

end KotlinArray

namespace TTSBridge

def lowByte (short : Int16) : Int8 := (short.toInt32 &&& 0xFF).toInt8

/-- `shr` and `and` bind alike, from the left. -/
def highByte (short : Int16) : Int8 := ((short.toInt32 >>> 8) &&& 0xFF).toInt8

/-- One round of the loop. -/
def writeShort (shorts : KotlinArray Int16) (bytes : KotlinArray Int8) (i : Nat) :
    Option (KotlinArray Int8) := do
  let short ← shorts.get i
  let bytes ← bytes.set (i * 2) (lowByte short)
  bytes.set (i * 2 + 1) (highByte short)

-- where the loop is reached the size has not overflowed, so no index does
def shortArrayToByteArray (shorts : KotlinArray Int16) : Option (KotlinArray Int8) := do
  let bytes ← KotlinArray.zeros (shorts.size * 2) 0
  (List.range shorts.toList.length).foldlM (writeShort shorts) bytes

end TTSBridge

namespace VADBridge

def sample (high low : Int8) : Int16 :=
  ((high.toInt32 <<< 8) ||| (low.toInt32 &&& 0xFF)).toInt16

def readShort (audioData : KotlinArray Int8) (shortArray : KotlinArray Int16) (i : Nat) :
    Option (KotlinArray Int16) := do
  let high ← audioData.get (i * 2 + 1)
  let low ← audioData.get (i * 2)
  shortArray.set i (sample high low)

/-- What `detectVoice(ByteArray)` makes of its argument. -/
def toShortArray (audioData : KotlinArray Int8) : Option (KotlinArray Int16) := do
  let shortArray ← KotlinArray.zeros (audioData.size / 2) 0
  (List.range (audioData.toList.length / 2)).foldlM (readShort audioData) shortArray

end VADBridge

open TTSBridge VADBridge

section Bits

variable {i : Nat} {short : Int16} {high low : Int8}

theorem getLsbD_mask (hi : i < 32) : (255#32).getLsbD i = decide (i < 8) := by
  rw [BitVec.getLsbD_ofNat, show 255 = 2 ^ 8 - 1 from rfl, Nat.testBit_two_pow_sub_one,
    decide_eq_true hi, Bool.true_and]

theorem lowByte_getLsbD (hi : i < 8) :
    (lowByte short).toBitVec.getLsbD i = short.toBitVec.getLsbD i := by
  change ((short.toBitVec.signExtend 32 &&& 255#32).signExtend 8).getLsbD i = _
  rw [BitVec.getLsbD_signExtend, BitVec.getLsbD_and, getLsbD_mask (by omega),
    BitVec.getLsbD_signExtend]
  simp [hi, show i < 16 by omega, show i < 32 by omega]

theorem highByte_getLsbD (hi : i < 8) :
    (highByte short).toBitVec.getLsbD i = short.toBitVec.getLsbD (i + 8) := by
  change (((short.toBitVec.signExtend 32).sshiftRight 8 &&& 255#32).signExtend 8).getLsbD i = _
  rw [BitVec.getLsbD_signExtend, BitVec.getLsbD_and, getLsbD_mask (by omega),
    BitVec.getLsbD_sshiftRight, BitVec.getLsbD_signExtend]
  simp [hi, Nat.add_comm, show i + 8 < 16 by omega, show i + 8 < 32 by omega, show i < 32 by omega]

/-- Without the mask the sign of the low byte would run into the high one. -/
theorem sample_getLsbD (hi : i < 16) : (sample high low).toBitVec.getLsbD i =
    if i < 8 then low.toBitVec.getLsbD i else high.toBitVec.getLsbD (i - 8) := by
  change (((high.toBitVec.signExtend 32 <<< 8) |||
    (low.toBitVec.signExtend 32 &&& 255#32)).signExtend 16).getLsbD i = _
  rw [BitVec.getLsbD_signExtend, BitVec.getLsbD_or, BitVec.getLsbD_and,
    getLsbD_mask (by omega), BitVec.getLsbD_shiftLeft, BitVec.getLsbD_signExtend,
    BitVec.getLsbD_signExtend]
  by_cases h : i < 8
  · simp [h, show i < 16 by omega, show i < 32 by omega]
  · simp [h, hi, show i < 32 by omega, show i - 8 < 8 by omega, show i - 8 < 32 by omega]

theorem sample_bytes (short : Int16) : sample (highByte short) (lowByte short) = short := by
  apply Int16.toBitVec_inj.mp
  apply BitVec.eq_of_getLsbD_eq
  intro i hi
  rw [sample_getLsbD hi]
  split
  next h => exact lowByte_getLsbD h
  next h => rw [highByte_getLsbD (by omega), Nat.sub_add_cancel (Nat.le_of_not_lt h)]

theorem lowByte_sample (high low : Int8) : lowByte (sample high low) = low := by
  apply Int8.toBitVec_inj.mp
  apply BitVec.eq_of_getLsbD_eq
  intro i hi
  rw [lowByte_getLsbD hi, sample_getLsbD (by omega), if_pos hi]

theorem highByte_sample (high low : Int8) : highByte (sample high low) = high := by
  apply Int8.toBitVec_inj.mp
  apply BitVec.eq_of_getLsbD_eq
  intro i hi
  rw [highByte_getLsbD hi, sample_getLsbD (by omega), if_neg (by omega), Nat.add_sub_cancel]

end Bits

section Loops

variable {α β : Type} {a : KotlinArray α} {n width : Nat} {zero : α}

theorem KotlinArray.ext {a b : KotlinArray α} (h : a.toList = b.toList) : a = b := by
  cases a
  cases b
  cases h
  rfl

theorem KotlinArray.zeros_eq {size : Int32} (hsize : size.toInt = n) :
    ∃ a, KotlinArray.zeros size zero = some a ∧ a.toList.length = n := by
  have hpos : (0 : Int32) ≤ size := by
    rw [Int32.le_iff_toInt_le, hsize]
    exact Int.natCast_nonneg n
  refine ⟨_, if_pos hpos, ?_⟩
  rw [List.length_replicate, hsize, Int.toNat_natCast]

theorem KotlinArray.set_eq {pre rest : List α} {x y : α} (ha : a.toList = pre ++ x :: rest) :
    ∃ b, a.set pre.length y = some b ∧ b.toList = pre ++ y :: rest := by
  have hlt : pre.length < a.toList.length := by
    rw [ha, List.length_append, List.length_cons]
    omega
  refine ⟨_, if_pos hlt, ?_⟩
  simp [ha]

/-- A loop whose rounds fill an array, the next places of it in each. -/
theorem fill_blocks {round : KotlinArray α → Nat → Option (KotlinArray α)} {block : Nat → List α}
    (hblock : ∀ i < n, (block i).length = width)
    (hround : ∀ i < n, ∀ a pre hole rest, a.toList = pre ++ (hole ++ rest) →
      pre.length = i * width → hole.length = width →
        ∃ b, round a i = some b ∧ b.toList = pre ++ (block i ++ rest))
    (ha : a.toList.length = n * width) :
    ∃ b, (List.range n).foldlM round a = some b ∧ b.toList = (List.range n).flatMap block := by
  have hfill : ∀ k ≤ n, ∃ b, (List.range k).foldlM round a = some b ∧
      b.toList = (List.range k).flatMap block ++ a.toList.drop (k * width) ∧
        ((List.range k).flatMap block).length = k * width := by
    intro k hk
    induction k with
    | zero => exact ⟨a, rfl, by simp, by simp⟩
    | succ k ih =>
      obtain ⟨b, hb, hlist, hlength⟩ := ih (by omega)
      have hdrop : a.toList.drop (k * width) =
          (a.toList.drop (k * width)).take width ++ a.toList.drop ((k + 1) * width) := by
        rw [Nat.succ_mul, ← List.drop_drop, List.take_append_drop]
      have hhole : ((a.toList.drop (k * width)).take width).length = width := by
        have hle : (k + 1) * width ≤ n * width := Nat.mul_le_mul_right width hk
        rw [Nat.succ_mul] at hle
        rw [List.length_take, List.length_drop, ha]
        omega
      rw [hdrop] at hlist
      obtain ⟨b', hb', hlist'⟩ := hround k (by omega) b _ _ _ hlist hlength hhole
      refine ⟨b', ?_, ?_, ?_⟩
      · rw [List.range_succ, List.foldlM_append, hb]
        simpa using hb'
      · rw [hlist', List.range_succ, List.flatMap_append, List.flatMap_singleton, List.append_assoc]
      · rw [List.range_succ, List.flatMap_append, List.flatMap_singleton, List.length_append,
          hlength, hblock k (by omega), Nat.succ_mul]
  obtain ⟨b, hb, hlist, -⟩ := hfill n (Nat.le_refl n)
  rw [← ha, List.drop_length, List.append_nil] at hlist
  exact ⟨b, hb, hlist⟩

variable {f g : α → β} {l : List α}

theorem length_flatMap_pair : (l.flatMap fun x => [f x, g x]).length = l.length * 2 := by
  induction l with
  | nil => rfl
  | cons x l ih =>
    rw [List.flatMap_cons, List.length_append, ih, List.length_cons]
    simp only [List.length_cons, List.length_nil]
    omega

theorem flatMap_pair_get (i : Nat) : (l.flatMap fun x => [f x, g x])[i * 2]? = l[i]?.map f ∧
    (l.flatMap fun x => [f x, g x])[i * 2 + 1]? = l[i]?.map g := by
  induction l generalizing i with
  | nil => simp
  | cons x l ih =>
    cases i with
    | zero => simp
    | succ i =>
      rw [Nat.succ_mul]
      exact ih i

end Loops

theorem size_double {shorts : KotlinArray Int16} :
    (shorts.size * 2).toInt = if shorts.toList.length < 2 ^ 30 then
      (shorts.toList.length * 2 : Int) else shorts.toList.length * 2 - 2 ^ 32 := by
  have hlt := shorts.size_lt
  have htwo : (2 : Int32).toInt = 2 := rfl
  rw [KotlinArray.size, Int32.toInt_mul, Int32.toInt_ofNat_of_lt hlt, htwo, Int.bmod_def]
  split <;> split <;> omega

theorem size_half {bytes : KotlinArray Int8} :
    (bytes.size / 2).toInt = (bytes.toList.length / 2 : Nat) := by
  have hlt := bytes.size_lt
  have htwo : (2 : Int32).toInt = 2 := rfl
  rw [KotlinArray.size, Int32.toInt_div, Int32.toInt_ofNat_of_lt hlt, htwo,
    Int.tdiv_eq_ediv_of_nonneg (Int.natCast_nonneg _), Int.bmod_def]
  split <;> omega

section Codec

variable {shorts : KotlinArray Int16} {bytes : KotlinArray Int8} {i : Nat}

theorem get_eq {α : Type} {a : KotlinArray α} (zero : α) (hi : i < a.toList.length) :
    a.get i = some (a.toList.getD i zero) := by
  rw [KotlinArray.get, List.getD_eq_getElem _ _ hi, List.getElem?_eq_getElem hi]

theorem writeShort_eq {pre hole rest : List Int8} (hi : i < shorts.toList.length)
    (hbytes : bytes.toList = pre ++ (hole ++ rest)) (hpre : pre.length = i * 2)
    (hhole : hole.length = 2) :
    ∃ b, writeShort shorts bytes i = some b ∧ b.toList = pre ++
      ([lowByte (shorts.toList.getD i 0), highByte (shorts.toList.getD i 0)] ++ rest) := by
  obtain ⟨x, y, rfl⟩ := List.length_eq_two.mp hhole
  obtain ⟨b, hb, hlow⟩ := KotlinArray.set_eq (y := lowByte (shorts.toList.getD i 0)) hbytes
  rw [List.append_cons] at hlow
  obtain ⟨c, hc, hhigh⟩ := KotlinArray.set_eq (y := highByte (shorts.toList.getD i 0)) hlow
  rw [List.length_append, List.length_singleton, hpre] at hc
  rw [hpre] at hb
  refine ⟨c, ?_, by rw [hhigh, ← List.append_cons]; rfl⟩
  rw [writeShort, get_eq 0 hi, Option.bind_eq_bind, Option.bind_some, hb]
  exact hc

theorem readShort_eq {pre hole rest : List Int16} (hi : i < bytes.toList.length / 2)
    (hshorts : shorts.toList = pre ++ (hole ++ rest)) (hpre : pre.length = i * 1)
    (hhole : hole.length = 1) :
    ∃ b, readShort bytes shorts i = some b ∧ b.toList = pre ++
      ([sample (bytes.toList.getD (i * 2 + 1) 0) (bytes.toList.getD (i * 2) 0)] ++ rest) := by
  obtain ⟨x, rfl⟩ := List.length_eq_one_iff.mp hhole
  obtain ⟨b, hb, hlist⟩ := KotlinArray.set_eq
    (y := sample (bytes.toList.getD (i * 2 + 1) 0) (bytes.toList.getD (i * 2) 0)) hshorts
  rw [hpre, Nat.mul_one] at hb
  refine ⟨b, ?_, hlist⟩
  rw [readShort, get_eq 0 (by omega), get_eq 0 (by omega)]
  exact hb

theorem shortArrayToByteArray_eq (h : shorts.toList.length < 2 ^ 30) :
    ∃ bytes, shortArrayToByteArray shorts = some bytes ∧
      bytes.toList = shorts.toList.flatMap fun short => [lowByte short, highByte short] := by
  have hsize := @size_double shorts
  rw [if_pos h] at hsize
  obtain ⟨zeros, hzeros, hlength⟩ : ∃ a, KotlinArray.zeros (shorts.size * 2) (0 : Int8) = some a ∧
      a.toList.length = shorts.toList.length * 2 :=
    KotlinArray.zeros_eq (by rw [hsize]; omega)
  obtain ⟨bytes, hbytes, hlist⟩ : ∃ b,
      (List.range shorts.toList.length).foldlM (writeShort shorts) zeros = some b ∧
        b.toList = (List.range shorts.toList.length).flatMap fun i =>
          [lowByte (shorts.toList.getD i 0), highByte (shorts.toList.getD i 0)] :=
    fill_blocks (fun _ _ => rfl) (fun i hi _ _ _ _ hlist => writeShort_eq hi hlist) hlength
  refine ⟨bytes, ?_, ?_⟩
  · rw [shortArrayToByteArray, hzeros]
    exact hbytes
  · have hmap : (List.range shorts.toList.length).map (shorts.toList.getD · 0) = shorts.toList := by
      apply List.ext_getElem
      · simp
      · intro i _ hi
        simp [hi]
    conv_rhs => rw [← hmap, List.flatMap_map]
    exact hlist

theorem shortArrayToByteArray_none (h : 2 ^ 30 ≤ shorts.toList.length) :
    shortArrayToByteArray shorts = none := by
  have hlt := shorts.size_lt
  have hsize := @size_double shorts
  rw [if_neg (by omega)] at hsize
  have hnone : KotlinArray.zeros (shorts.size * 2) (0 : Int8) = none := by
    rw [KotlinArray.zeros, if_neg]
    rw [Int32.le_iff_toInt_le, hsize, Int32.toInt_zero]
    omega
  rw [shortArrayToByteArray, hnone]
  rfl

theorem toShortArray_eq (bytes : KotlinArray Int8) : ∃ shorts, toShortArray bytes = some shorts ∧
    shorts.toList = (List.range (bytes.toList.length / 2)).map fun i =>
      sample (bytes.toList.getD (i * 2 + 1) 0) (bytes.toList.getD (i * 2) 0) := by
  obtain ⟨zeros, hzeros, hlength⟩ : ∃ a, KotlinArray.zeros (bytes.size / 2) (0 : Int16) = some a ∧
      a.toList.length = bytes.toList.length / 2 := KotlinArray.zeros_eq size_half
  obtain ⟨shorts, hshorts, hlist⟩ : ∃ b,
      (List.range (bytes.toList.length / 2)).foldlM (readShort bytes) zeros = some b ∧
        b.toList = (List.range (bytes.toList.length / 2)).flatMap fun i =>
          [sample (bytes.toList.getD (i * 2 + 1) 0) (bytes.toList.getD (i * 2) 0)] :=
    fill_blocks (fun _ _ => rfl) (fun i hi _ _ _ _ hlist => readShort_eq hi hlist)
      (by rw [hlength, Nat.mul_one])
  refine ⟨shorts, ?_, ?_⟩
  · rw [toShortArray, hzeros]
    exact hshorts
  · rw [hlist, List.map_eq_flatMap]

theorem decode_encode (h : shorts.toList.length < 2 ^ 30) :
    (shortArrayToByteArray shorts).bind toShortArray = some shorts := by
  obtain ⟨bytes, hbytes, hlist⟩ := shortArrayToByteArray_eq h
  obtain ⟨shorts', hshorts, hlist'⟩ := toShortArray_eq bytes
  rw [hbytes, Option.bind_some, hshorts, Option.some_inj]
  apply KotlinArray.ext
  have hlength := length_flatMap_pair (l := shorts.toList) (f := lowByte) (g := highByte)
  rw [hlist', hlist, hlength, Nat.mul_div_cancel _ (by omega)]
  apply List.ext_getElem
  · simp
  · intro i _ hi
    obtain ⟨hlow, hhigh⟩ := flatMap_pair_get (l := shorts.toList) (f := lowByte) (g := highByte) i
    rw [List.getElem_map, List.getElem_range, List.getD_eq_getElem?_getD, hhigh,
      List.getD_eq_getElem?_getD, hlow, List.getElem?_eq_getElem hi]
    exact sample_bytes _

theorem encode_decode_iff : (toShortArray bytes).bind shortArrayToByteArray = some bytes ↔
    2 ∣ bytes.toList.length := by
  have hlt := bytes.size_lt
  obtain ⟨shorts, hshorts, hlist⟩ := toShortArray_eq bytes
  have hlength : shorts.toList.length = bytes.toList.length / 2 := by
    rw [hlist, List.length_map, List.length_range]
  obtain ⟨bytes', hbytes, hlist'⟩ := @shortArrayToByteArray_eq shorts (by omega)
  have hlength' : bytes'.toList.length = shorts.toList.length * 2 := by
    rw [hlist', length_flatMap_pair]
  rw [hshorts, Option.bind_some, hbytes, Option.some_inj]
  constructor
  · rintro rfl
    omega
  · intro heven
    apply KotlinArray.ext
    apply List.ext_getElem?
    intro j
    by_cases hj : j < bytes.toList.length
    · obtain ⟨i, hi⟩ : ∃ i, j = i * 2 ∨ j = i * 2 + 1 := ⟨j / 2, by omega⟩
      obtain ⟨hlow, hhigh⟩ := flatMap_pair_get (l := shorts.toList) (f := lowByte) (g := highByte) i
      have hget : shorts.toList[i]? =
          some (sample (bytes.toList.getD (i * 2 + 1) 0) (bytes.toList.getD (i * 2) 0)) := by
        rw [hlist, List.getElem?_map, List.getElem?_range (by omega)]
        rfl
      rw [hget, Option.map_some] at hlow hhigh
      rcases hi with rfl | rfl
      · rw [hlist', hlow, lowByte_sample, List.getD_eq_getElem _ _ hj, List.getElem?_eq_getElem hj]
      · rw [hlist', hhigh, highByte_sample, List.getD_eq_getElem _ _ hj,
          List.getElem?_eq_getElem hj]
    · rw [List.getElem?_eq_none (by omega), List.getElem?_eq_none (by omega)]

/-- Encoding and decoding undo each other, for as many samples as have an array for their bytes, and
for an even number of bytes. -/
theorem pcm_roundTrip :
    (∀ shorts, (shortArrayToByteArray shorts).bind toShortArray =
      if shorts.toList.length < 2 ^ 30 then some shorts else none) ∧
    ∀ bytes, (toShortArray bytes).bind shortArrayToByteArray = some bytes ↔
      2 ∣ bytes.toList.length := by
  constructor
  · intro shorts
    split
    next h => exact decode_encode h
    next h => rw [shortArrayToByteArray_none (Nat.le_of_not_lt h), Option.bind_none]
  · intro bytes
    exact encode_decode_iff

end Codec

/-- The bytes of this many samples are one more than an array can hold. -/
def longSilence : KotlinArray Int16 :=
  ⟨.replicate (2 ^ 30) 0, by rw [List.length_replicate]; omega⟩

theorem longSilence_not_encoded : ¬∀ shorts : KotlinArray Int16,
    (shortArrayToByteArray shorts).bind toShortArray = some shorts := by
  intro h
  have hlength : 2 ^ 30 ≤ longSilence.toList.length :=
    Nat.le_of_eq List.length_replicate.symm
  have hsome := h longSilence
  rw [shortArrayToByteArray_none hlength] at hsome
  cases hsome

end HeyNilo

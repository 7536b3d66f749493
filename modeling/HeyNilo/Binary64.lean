import Mathlib.Tactic.Ring

namespace Binary64

/-- A whole number rounded to the 53 bits of a `Double`, to nearest and ties to even. -/
def round (n : Nat) : Nat :=
  let unit := 2 ^ (n.log2 - 52)
  if 2 * (n % unit) < unit ∨ (2 * (n % unit) = unit ∧ n / unit % 2 = 0) then n / unit * unit
  else (n / unit + 1) * unit

/-- `n < total * c` between two whole numbers and a literal `c`, whose `Double` is
`mantissa / 2 ^ scale`. -/
def below (mantissa scale n : Nat) : Int → Bool
  | .ofNat total => decide (round n * 2 ^ scale < round (round total * mantissa))
  | .negSucc _ => false

theorem round_of_log2_le {n : Nat} (h : n.log2 ≤ 52) : round n = n := by
  have hunit : n.log2 - 52 = 0 := by omega
  simp [round, hunit, Nat.mod_one]

/-- Rounding moves a number by at most half a unit. -/
theorem two_mul_round_le (n : Nat) : 2 * round n ≤ 2 * n + 2 ^ (n.log2 - 52) := by
  have hdiv := Nat.div_add_mod' n (2 ^ (n.log2 - 52))
  simp only [round]
  generalize 2 ^ (n.log2 - 52) = unit at *
  split
  · omega
  next h =>
    have hsucc : (n / unit + 1) * unit = n / unit * unit + unit := by rw [Nat.add_mul, Nat.one_mul]
    omega

theorem two_mul_le_round (n : Nat) : 2 * n ≤ 2 * round n + 2 ^ (n.log2 - 52) := by
  have hdiv := Nat.div_add_mod' n (2 ^ (n.log2 - 52))
  have hmod := Nat.mod_lt n (Nat.two_pow_pos (n.log2 - 52))
  simp only [round]
  generalize 2 ^ (n.log2 - 52) = unit at *
  split
  · omega
  next h =>
    have hsucc : (n / unit + 1) * unit = n / unit * unit + unit := by rw [Nat.add_mul, Nat.one_mul]
    omega

theorem unit_le {n : Nat} (h : 52 < n.log2) : 2 ^ (n.log2 - 52) * 2 ^ 52 ≤ n := by
  have hn : n ≠ 0 := by
    rintro rfl
    simp at h
  have hpow : 2 ^ (n.log2 - 52) * 2 ^ 52 = 2 ^ n.log2 := Nat.pow_sub_mul_pow 2 (by omega)
  exact hpow ▸ Nat.log2_self_le hn

theorem unit_le_round {n : Nat} (h : 52 < n.log2) : 2 ^ (n.log2 - 52) * 2 ^ 52 ≤ round n := by
  have hunit := unit_le h
  rw [Nat.mul_comm] at hunit ⊢
  have hquot : 2 ^ 52 ≤ n / 2 ^ (n.log2 - 52) :=
    (Nat.le_div_iff_mul_le (Nat.two_pow_pos _)).mpr hunit
  simp only [round]
  split
  · exact Nat.mul_le_mul_right _ hquot
  · exact Nat.mul_le_mul_right _ (Nat.le_succ_of_le hquot)

/-- The relative error of the rounding is at most `1 / 2 ^ 53`, upwards and downwards. -/
theorem round_le (n : Nat) : round n * 2 ^ 53 ≤ n * (2 ^ 53 + 1) := by
  by_cases h : n.log2 ≤ 52
  · rw [round_of_log2_le h]
    exact Nat.mul_le_mul_left _ (Nat.le_succ _)
  · calc round n * 2 ^ 53
        = 2 * round n * 2 ^ 52 := by ring
      _ ≤ (2 * n + 2 ^ (n.log2 - 52)) * 2 ^ 52 := Nat.mul_le_mul_right _ (two_mul_round_le n)
      _ = n * 2 ^ 53 + 2 ^ (n.log2 - 52) * 2 ^ 52 := by ring
      _ ≤ n * 2 ^ 53 + n := Nat.add_le_add_left (unit_le (by omega)) _
      _ = n * (2 ^ 53 + 1) := (Nat.mul_succ ..).symm

theorem le_round (n : Nat) : n * 2 ^ 53 ≤ round n * (2 ^ 53 + 1) := by
  by_cases h : n.log2 ≤ 52
  · rw [round_of_log2_le h]
    exact Nat.mul_le_mul_left _ (Nat.le_succ _)
  · calc n * 2 ^ 53
        = 2 * n * 2 ^ 52 := by ring
      _ ≤ (2 * round n + 2 ^ (n.log2 - 52)) * 2 ^ 52 :=
        Nat.mul_le_mul_right _ (two_mul_le_round n)
      _ = round n * 2 ^ 53 + 2 ^ (n.log2 - 52) * 2 ^ 52 := by ring
      _ ≤ round n * 2 ^ 53 + round n := Nat.add_le_add_left (unit_le_round (by omega)) _
      _ = round n * (2 ^ 53 + 1) := (Nat.mul_succ ..).symm

/-- A number is not below a part of itself, or of less, if the part leaves room for the three
roundings. -/
theorem below_of_le {mantissa scale n : Nat} {total : Int}
    (h : mantissa * (2 ^ 53 + 1) ^ 3 ≤ 2 ^ scale * (2 ^ 53) ^ 3) (hle : total ≤ n) :
    below mantissa scale n total = false := by
  cases total with
  | negSucc k => rfl
  | ofNat k =>
    have hk : k ≤ n := Int.ofNat_le.mp hle
    have hbound : round (round k * mantissa) * (2 ^ 53) ^ 3 ≤ round n * 2 ^ scale * (2 ^ 53) ^ 3 := by
      calc round (round k * mantissa) * (2 ^ 53) ^ 3
          = round (round k * mantissa) * 2 ^ 53 * (2 ^ 53) ^ 2 := by ring
        _ ≤ round k * mantissa * (2 ^ 53 + 1) * (2 ^ 53) ^ 2 :=
          Nat.mul_le_mul_right _ (round_le _)
        _ = round k * 2 ^ 53 * (mantissa * (2 ^ 53 + 1) * 2 ^ 53) := by ring
        _ ≤ k * (2 ^ 53 + 1) * (mantissa * (2 ^ 53 + 1) * 2 ^ 53) :=
          Nat.mul_le_mul_right _ (round_le k)
        _ ≤ n * (2 ^ 53 + 1) * (mantissa * (2 ^ 53 + 1) * 2 ^ 53) :=
          Nat.mul_le_mul_right _ (Nat.mul_le_mul_right _ hk)
        _ = n * 2 ^ 53 * (mantissa * (2 ^ 53 + 1) ^ 2) := by ring
        _ ≤ round n * (2 ^ 53 + 1) * (mantissa * (2 ^ 53 + 1) ^ 2) :=
          Nat.mul_le_mul_right _ (le_round n)
        _ = round n * (mantissa * (2 ^ 53 + 1) ^ 3) := by ring
        _ ≤ round n * (2 ^ scale * (2 ^ 53) ^ 3) := Nat.mul_le_mul_left _ h
        _ = round n * 2 ^ scale * (2 ^ 53) ^ 3 := (Nat.mul_assoc ..).symm
    have hround : round (round k * mantissa) ≤ round n * 2 ^ scale :=
      Nat.le_of_mul_le_mul_right hbound (by decide)
    exact decide_eq_false (Nat.not_lt.mpr hround)

end Binary64

import Mathlib.Data.Int.Log
import Mathlib.Data.Rat.Floor

/-!
# Floating point numbers

A number of the format is an integer times a power of two and has 53 binary places. An
operation gives the one next to the result in the rationals, and of two that are as near
the even one. The powers have no bound: nothing here is large or small enough for the
format to show its own.
-/

namespace Wireops.Lib.Floats

def nearest (q : ℚ) : ℤ :=
  if q - ⌊q⌋ < 1 / 2 then ⌊q⌋
  else if 1 / 2 < q - ⌊q⌋ then ⌊q⌋ + 1
  else if ⌊q⌋ % 2 = 0 then ⌊q⌋ else ⌊q⌋ + 1

def lastPlace (q : ℚ) : ℚ := 2 ^ (Int.log 2 |q| - 52)

def float64 (q : ℚ) : ℚ := nearest (q / lastPlace q) * lastPlace q

def trunc (q : ℚ) : ℤ := if q < 0 then ⌈q⌉ else ⌊q⌋

variable {n : ℤ} {q : ℚ} {j : ℕ}

theorem nearest_intCast (n : ℤ) : nearest n = n := by
  simp [nearest]

theorem le_nearest (h : n ≤ q) : n ≤ nearest q := by
  have hfloor : n ≤ ⌊q⌋ := Int.le_floor.mpr h
  unfold nearest
  split_ifs <;> omega

theorem nearest_le (h : q ≤ n) : nearest q ≤ n := by
  rcases h.eq_or_lt with rfl | hlt
  · rw [nearest_intCast]
  · have hfloor : ⌊q⌋ < n := Int.floor_lt.mpr hlt
    unfold nearest
    split_ifs <;> omega

theorem lastPlace_pos (q : ℚ) : 0 < lastPlace q := zpow_pos two_pos _

theorem lastPlace_eq (hj : j ≤ 52) (h : |q| * 2 ^ j < 2 ^ 53) : ∃ k : ℕ, lastPlace q * 2 ^ j = (2 ^ k)⁻¹ := by
  have hlog : Int.log 2 |q| + j ≤ 52 := by
    rcases eq_or_ne q 0 with rfl | hne
    · simpa using hj
    · have hlt : |q| < ((2 : ℕ) : ℚ) ^ (53 - j : ℤ) := by
        rw [Nat.cast_ofNat, zpow_sub₀ two_ne_zero, lt_div_iff₀ (zpow_pos two_pos _)]
        exact_mod_cast h
      have hlog := (Int.lt_zpow_iff_log_lt one_lt_two (abs_pos.mpr hne)).mp hlt
      omega
  obtain ⟨k, hk⟩ : ∃ k : ℕ, Int.log 2 |q| - 52 + j = -(k : ℤ) := ⟨(52 - j - Int.log 2 |q|).toNat, by omega⟩
  exact ⟨k, by rw [lastPlace, ← zpow_natCast, ← zpow_add₀ two_ne_zero, hk, zpow_neg, zpow_natCast]⟩

theorem exists_scaled (n : ℤ) (hj : j ≤ 52) (h : |q| * 2 ^ j < 2 ^ 53) :
    ∃ m : ℤ, (n : ℚ) = m * lastPlace q * 2 ^ j := by
  obtain ⟨k, hk⟩ := lastPlace_eq hj h
  refine ⟨n * 2 ^ k, ?_⟩
  rw [mul_assoc, hk]
  push_cast
  field_simp

theorem le_float64 (hj : j ≤ 52) (h : |q| * 2 ^ j < 2 ^ 53) (hn : n ≤ q * 2 ^ j) : n ≤ float64 q * 2 ^ j := by
  obtain ⟨m, hm⟩ := exists_scaled n hj h
  have hq := le_of_mul_le_mul_right (hm ▸ hn) (by positivity)
  have hm' : m ≤ nearest (q / lastPlace q) := le_nearest ((le_div_iff₀ (lastPlace_pos q)).mpr hq)
  rw [hm, float64]
  gcongr
  exact (lastPlace_pos q).le

theorem float64_le (hj : j ≤ 52) (h : |q| * 2 ^ j < 2 ^ 53) (hn : q * 2 ^ j ≤ n) : float64 q * 2 ^ j ≤ n := by
  obtain ⟨m, hm⟩ := exists_scaled n hj h
  have hq := le_of_mul_le_mul_right (hm ▸ hn) (by positivity)
  have hm' : nearest (q / lastPlace q) ≤ m := nearest_le ((div_le_iff₀ (lastPlace_pos q)).mpr hq)
  rw [hm, float64]
  gcongr
  exact (lastPlace_pos q).le

theorem float64_within {m : ℤ} (hm : |(m : ℚ)| < 2 ^ 53) (hn : |(n : ℚ)| < 2 ^ 53) (hmq : m ≤ q) (hqn : q ≤ n) :
    m ≤ float64 q ∧ float64 q ≤ n := by
  have hq : |q| * 2 ^ 0 < 2 ^ 53 := by
    rw [pow_zero, mul_one]
    exact (abs_le_max_abs_abs hmq hqn).trans_lt (max_lt hm hn)
  simpa using And.intro (@le_float64 m q 0 (by decide) hq (by simpa using hmq))
    (@float64_le n q 0 (by decide) hq (by simpa using hqn))

theorem float64_intCast (h : |n| < 2 ^ 53) : float64 n = n := by
  have hn : |(n : ℚ)| < 2 ^ 53 := by exact_mod_cast h
  obtain ⟨hge, hle⟩ := float64_within hn hn le_rfl le_rfl
  exact le_antisymm hle hge

theorem float64_zero : float64 0 = 0 := by
  exact_mod_cast @float64_intCast 0 (by decide)

theorem float64_between {m : ℤ} (hj : j ≤ 52) (hm : 0 ≤ m) (hmq : m ≤ q) (hqn : q * 2 ^ j ≤ n) (hn : n < 2 ^ 53) :
    m ≤ float64 q ∧ float64 q * 2 ^ j ≤ n := by
  have hq : 0 ≤ q := (Int.cast_nonneg hm).trans hmq
  have hsmall : |q| * 2 ^ j < 2 ^ 53 := by
    rw [abs_of_nonneg hq]
    exact hqn.trans_lt (by exact_mod_cast hn)
  have hscaled := @le_float64 (m * 2 ^ j) q j hj hsmall (by push_cast; gcongr)
  push_cast at hscaled
  exact ⟨le_of_mul_le_mul_right hscaled (by positivity), float64_le hj hsmall hqn⟩

theorem trunc_intCast (n : ℤ) : trunc n = n := by
  simp [trunc]

theorem le_trunc (hn : 0 ≤ n) (h : n ≤ q) : n ≤ trunc q := by
  have hq : ¬ q < 0 := not_lt.mpr ((Int.cast_nonneg hn).trans h)
  rw [trunc, if_neg hq]
  exact Int.le_floor.mpr h

theorem trunc_le (hq : 0 ≤ q) : trunc q ≤ q := by
  rw [trunc, if_neg (not_lt.mpr hq)]
  exact Int.floor_le q

theorem trunc_bounds (hlow : n ≤ q) (hq : q < 1) : n ≤ trunc q ∧ trunc q ≤ 0 := by
  unfold trunc
  split_ifs with hneg
  · exact ⟨by exact_mod_cast hlow.trans (Int.le_ceil q), Int.ceil_le.mpr (by exact_mod_cast hneg.le)⟩
  · exact ⟨Int.le_floor.mpr hlow, Int.lt_add_one_iff.mp (Int.floor_lt.mpr (by simpa using hq))⟩

end Wireops.Lib.Floats

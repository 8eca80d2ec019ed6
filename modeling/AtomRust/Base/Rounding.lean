-- SUMMARY: Rounding to a fixed number of significant bits, to nearest with ties to even, as IEEE 754 rounds; it is monotone and keeps what fits.
import Mathlib.Data.Int.Log
import Mathlib.Data.Rat.Floor
import Mathlib.Tactic.Linarith
import Mathlib.Tactic.Positivity

/-!
# Rounding

`round p x` is the value that a binary format with `p` significant bits has for `x`,
of two equally near ones that with the even last bit. The exponent is unbounded, so it
is the value of an IEEE format as long as `x` is neither so large that it overflows nor
so small that it is subnormal.
-/

namespace Rounding
variable {K : Type*} [Field K] [LinearOrder K] [IsStrictOrderedRing K] [FloorRing K]
variable {p : ℕ} {x y : K}

/-- The integer nearest to `x`, the even one of two. -/
def nearestEven (x : K) : ℤ :=
  if x - ⌊x⌋ < 1 / 2 then ⌊x⌋
  else if 1 / 2 < x - ⌊x⌋ then ⌊x⌋ + 1
  else if Even ⌊x⌋ then ⌊x⌋ else ⌊x⌋ + 1

/-- The distance between two neighbours of `x`. -/
def ulp (p : ℕ) (x : K) : K := 2 ^ (Int.log 2 |x| + 1 - p)

def round (p : ℕ) (x : K) : K := nearestEven (x / ulp p x) * ulp p x

/-! ## To an integer -/

theorem nearestEven_intCast (n : ℤ) : nearestEven (n : K) = n := by
  simp [nearestEven]

omit [IsStrictOrderedRing K] in
theorem floor_le_nearestEven (x : K) : ⌊x⌋ ≤ nearestEven x := by
  unfold nearestEven
  split_ifs <;> omega

omit [IsStrictOrderedRing K] in
theorem nearestEven_le_floor_add_one (x : K) : nearestEven x ≤ ⌊x⌋ + 1 := by
  unfold nearestEven
  split_ifs <;> omega

theorem nearestEven_mono (h : x ≤ y) : nearestEven x ≤ nearestEven y := by
  rcases (Int.floor_mono h).lt_or_eq with hlt | heq
  · exact (nearestEven_le_floor_add_one x).trans (hlt.trans_le (floor_le_nearestEven y))
  · -- Within a unit interval only the distance from its lower end counts.
    have hsub : x - ⌊y⌋ ≤ y - ⌊y⌋ := sub_le_sub_right h _
    unfold nearestEven
    rw [heq]
    split_ifs <;> first | omega | linarith

theorem le_nearestEven {n : ℤ} (h : n ≤ x) : n ≤ nearestEven x :=
  (nearestEven_intCast (K := K) n).symm.trans_le (nearestEven_mono h)

theorem nearestEven_le {n : ℤ} (h : x ≤ n) : nearestEven x ≤ n :=
  (nearestEven_mono h).trans_eq (nearestEven_intCast n)

/-! ## To a number of bits -/

theorem ulp_pos (p : ℕ) (x : K) : 0 < ulp p x := zpow_pos two_pos _

theorem pow_mul_ulp (n p : ℕ) (x : K) : 2 ^ n * ulp p x = 2 ^ (Int.log 2 |x| + 1 - p + n) := by
  have htwo : (2 : K) ≠ 0 := two_pos.ne'
  rw [ulp, zpow_add₀ htwo, zpow_natCast, mul_comm]

@[simp] theorem round_zero : round p (0 : K) = 0 := by
  have h : nearestEven (0 : K) = 0 := by simpa using nearestEven_intCast (K := K) 0
  simp [round, h]

/-- A multiple of the distance to its neighbours is kept. -/
theorem round_of_eq {n : ℤ} (h : x = n * ulp p x) : round p x = x := by
  have hdiv : x / ulp p x = n := by
    rw [div_eq_iff (ulp_pos p x).ne']
    exact h
  rw [round, hdiv, nearestEven_intCast]
  exact h.symm

theorem round_natCast {n : ℕ} (h : n < 2 ^ p) : round p (n : K) = n := by
  rcases Nat.eq_zero_or_pos n with rfl | hn
  · simp
  · have hlog : Nat.log 2 n < p := Nat.log_lt_of_lt_pow hn.ne' h
    apply round_of_eq (n := n * 2 ^ (p - 1 - Nat.log 2 n))
    have hexp : Int.log 2 |(n : K)| + 1 - p + (p - 1 - Nat.log 2 n : ℕ) = 0 := by
      rw [abs_of_nonneg (Nat.cast_nonneg n), Int.log_natCast]
      omega
    have hpow := pow_mul_ulp (p - 1 - Nat.log 2 n) p (n : K)
    rw [hexp, zpow_zero] at hpow
    push_cast
    rw [mul_assoc, hpow, mul_one]

theorem round_nonneg (h : 0 ≤ x) : 0 ≤ round p x := by
  have hdiv : ((0 : ℤ) : K) ≤ x / ulp p x := by
    simpa using div_nonneg h (ulp_pos p x).le
  exact mul_nonneg (by exact_mod_cast le_nearestEven hdiv) (ulp_pos p x).le

/-- A number rounds to one between the powers of two around it. -/
theorem zpow_log_le_round (hp : 0 < p) (hx : 0 < x) : 2 ^ Int.log 2 x ≤ round p x := by
  have hpow : (2 : K) ^ Int.log 2 x = 2 ^ (p - 1) * ulp p x := by
    rw [pow_mul_ulp, abs_of_pos hx]
    congr 1
    omega
  have hle : ((2 ^ (p - 1) : ℤ) : K) ≤ x / ulp p x := by
    rw [le_div_iff₀ (ulp_pos p x)]
    push_cast
    rw [← hpow]
    exact Int.zpow_log_le_self one_lt_two hx
  rw [hpow]
  exact mul_le_mul_of_nonneg_right (by exact_mod_cast le_nearestEven hle) (ulp_pos p x).le

theorem round_le_zpow_log (hx : 0 < x) : round p x ≤ 2 ^ (Int.log 2 x + 1) := by
  have hpow : (2 : K) ^ (Int.log 2 x + 1) = 2 ^ p * ulp p x := by
    rw [pow_mul_ulp, abs_of_pos hx]
    congr 1
    omega
  have hle : x / ulp p x ≤ ((2 ^ p : ℤ) : K) := by
    rw [div_le_iff₀ (ulp_pos p x)]
    push_cast
    rw [← hpow]
    exact (Int.lt_zpow_succ_log_self one_lt_two x).le
  rw [hpow]
  exact mul_le_mul_of_nonneg_right (by exact_mod_cast nearestEven_le hle) (ulp_pos p x).le

theorem round_mono (hp : 0 < p) (hx : 0 ≤ x) (h : x ≤ y) : round p x ≤ round p y := by
  rcases hx.eq_or_lt with rfl | hx
  · simpa using round_nonneg h
  · have hy := hx.trans_le h
    rcases (Int.log_mono_right (b := 2) hx h).lt_or_eq with hlt | heq
    · calc round p x ≤ 2 ^ (Int.log 2 x + 1) := round_le_zpow_log hx
        _ ≤ 2 ^ Int.log 2 y := zpow_le_zpow_right₀ one_le_two hlt
        _ ≤ round p y := zpow_log_le_round hp hy
    · have hulp : ulp p x = ulp p y := by
        rw [ulp, ulp, abs_of_pos hx, abs_of_pos hy, heq]
      rw [round, round, hulp]
      have hdiv := div_le_div_of_nonneg_right h (ulp_pos p y).le
      exact mul_le_mul_of_nonneg_right (by exact_mod_cast nearestEven_mono hdiv) (ulp_pos p y).le

/-! ## Single precision -/

/-- The binary32 number nearest to `x`. -/
def f32 (x : ℚ) : ℚ := round 24 x

theorem f32_mono {x y : ℚ} (hx : 0 ≤ x) (h : x ≤ y) : f32 x ≤ f32 y :=
  round_mono (by decide) hx h

theorem f32_nonneg {x : ℚ} (h : 0 ≤ x) : 0 ≤ f32 x := round_nonneg h

theorem f32_natCast {n : ℕ} (h : n < 2 ^ 24) : f32 n = n := round_natCast h

theorem f32_one : f32 1 = 1 := by simpa using f32_natCast (n := 1) (by decide)

end Rounding

import Mathlib

/-!
# Integer parts of sines

`floor_of_sineCheck`: the integer part of `2 ^ 32 |sin k|`, for a natural number
`k`, decided by arithmetic on integers.

`sin k` is the imaginary part of `exp(I) ^ k`. `rot` is a Gaussian rational of
norm at most 1 within `2 ^ -60` of `exp(I)`, so `rot ^ k` is within `k * 2 ^ -60`
of it. `rotPow` computes `rot ^ k` in integers; one integer comparison (`sineCheck`)
then pins the integer part.
-/

namespace Lib.Sine

open Complex

/-- `2 ^ 64 cos 1`, rounded down. -/
def cosOne : ℤ := 9966818358784711825

/-- `2 ^ 64 sin 1`, rounded down. -/
def sinOne : ℤ := 15522399902203605024

/-- A Gaussian rational close to `exp(I)`. -/
noncomputable def rot : ℂ := ⟨cosOne / 2 ^ 64, sinOne / 2 ^ 64⟩

/-- The first 22 terms of the exponential series at `I`. -/
noncomputable def taylor : ℂ := ∑ m ∈ Finset.range 22, I ^ m / m.factorial

theorem norm_exp_I_sub_taylor : ‖exp I - taylor‖ ≤ 1 / 2 ^ 62 := by
  have h := Complex.exp_bound (x := I) (by simp) (n := 22) (by decide)
  apply h.trans
  rw [Complex.norm_I]
  norm_num [Nat.factorial]

theorem taylor_eq : taylor = ⟨(1 - 1 / 2 + 1 / 24 - 1 / 720 + 1 / 40320 - 1 / 3628800 + 1 / 479001600
    - 1 / 87178291200 + 1 / 20922789888000 - 1 / 6402373705728000 + 1 / 2432902008176640000 : ℝ),
    (1 - 1 / 6 + 1 / 120 - 1 / 5040 + 1 / 362880 - 1 / 39916800 + 1 / 6227020800 - 1 / 1307674368000
    + 1 / 355687428096000 - 1 / 121645100408832000 + 1 / 51090942171709440000 : ℝ)⟩ := by
  simp only [taylor, Finset.sum_range_succ, Finset.sum_range_zero, Nat.factorial]
  refine Complex.ext ?_ ?_
  · simp [pow_succ]; norm_num
  · simp [pow_succ]; norm_num

theorem norm_exp_I_sub_rot : ‖exp I - rot‖ ≤ 1 / 2 ^ 60 := by
  have h : ‖taylor - rot‖ ≤ 1 / 2 ^ 61 := by
    refine (Complex.norm_le_abs_re_add_abs_im _).trans ?_
    rw [taylor_eq, rot, cosOne, sinOne]
    simp only [Complex.sub_re, Complex.sub_im]
    norm_num [abs_le]
  calc ‖exp I - rot‖ ≤ ‖exp I - taylor‖ + ‖taylor - rot‖ := norm_sub_le_norm_sub_add_norm_sub ..
    _ ≤ 1 / 2 ^ 62 + 1 / 2 ^ 61 := add_le_add norm_exp_I_sub_taylor h
    _ ≤ 1 / 2 ^ 60 := by norm_num

theorem norm_rot_le : ‖rot‖ ≤ 1 := by
  rw [← sq_le_one_iff₀ (norm_nonneg _), ← Complex.normSq_eq_norm_sq, rot, Complex.normSq_mk, cosOne,
    sinOne]
  norm_num

/-- The error of a power grows by one bound a step. -/
theorem norm_pow_sub_pow_le (k : Nat) : ‖exp I ^ k - rot ^ k‖ ≤ k * (1 / 2 ^ 60) := by
  induction k with
  | zero => simp
  | succ k ih =>
    have hexp : ‖exp I‖ = 1 := by simpa using Complex.norm_exp_ofReal_mul_I 1
    have hsplit : exp I ^ (k + 1) - rot ^ (k + 1) =
        exp I * (exp I ^ k - rot ^ k) + rot ^ k * (exp I - rot) := by ring
    have hrot : ‖rot ^ k‖ ≤ 1 := by
      rw [norm_pow]; exact pow_le_one₀ (norm_nonneg _) norm_rot_le
    calc ‖exp I ^ (k + 1) - rot ^ (k + 1)‖
        ≤ ‖exp I * (exp I ^ k - rot ^ k)‖ + ‖rot ^ k * (exp I - rot)‖ := by
          rw [hsplit]; exact norm_add_le _ _
      _ = ‖exp I ^ k - rot ^ k‖ + ‖rot ^ k‖ * ‖exp I - rot‖ := by
          rw [norm_mul, norm_mul, hexp, one_mul]
      _ ≤ k * (1 / 2 ^ 60) + 1 * (1 / 2 ^ 60) :=
          add_le_add ih (mul_le_mul hrot norm_exp_I_sub_rot (norm_nonneg _) zero_le_one)
      _ = (k + 1 : Nat) * (1 / 2 ^ 60) := by push_cast; ring

/-- `(cosOne + sinOne I) ^ k`, real and imaginary part. -/
def rotPow : Nat → ℤ × ℤ
  | 0 => (1, 0)
  | k + 1 =>
    let p := rotPow k
    (p.1 * cosOne - p.2 * sinOne, p.1 * sinOne + p.2 * cosOne)

theorem rot_pow_eq (k : Nat) :
    rot ^ k = ⟨(rotPow k).1 / 2 ^ (64 * k), (rotPow k).2 / 2 ^ (64 * k)⟩ := by
  induction k with
  | zero => simp [rotPow, Complex.ext_iff]
  | succ k ih =>
    rw [pow_succ, ih, rot]
    refine Complex.ext ?_ ?_
    · simp only [Complex.mul_re, rotPow, Nat.mul_succ, pow_add]
      push_cast; field_simp
    · simp only [Complex.mul_im, rotPow, Nat.mul_succ, pow_add]
      push_cast; field_simp

theorem sin_eq_im (k : Nat) : Real.sin k = (exp I ^ k).im := by
  rw [← Complex.exp_nat_mul, Complex.exp_im]
  simp

/-- The sine of a natural number, up to `k * 2 ^ -60`. -/
theorem abs_sin_sub_le (k : Nat) :
    |Real.sin k - (rotPow k).2 / 2 ^ (64 * k)| ≤ k * (1 / 2 ^ 60) := by
  have h := (Complex.abs_im_le_norm (exp I ^ k - rot ^ k)).trans (norm_pow_sub_pow_le k)
  rwa [Complex.sub_im, ← sin_eq_im, rot_pow_eq] at h

/-- `t` is the integer part of `2 ^ 32 |sin k|`, decided on integers. -/
def sineCheck (k t : Nat) : Bool :=
  let d := 2 ^ (64 * k)
  let s := 2 ^ 60 * (rotPow k).2.natAbs
  decide (t * 2 ^ 28 * d + k * d ≤ s) && decide (s + k * d < (t + 1) * 2 ^ 28 * d)

theorem floor_of_sineCheck {k t : Nat} (h : sineCheck k t = true) :
    ⌊4294967296 * |Real.sin k|⌋₊ = t := by
  simp only [sineCheck, Bool.and_eq_true, decide_eq_true_eq] at h
  have hd : (0 : ℝ) < 2 ^ (64 * k) := by positivity
  have hs := abs_sin_sub_le k
  have habs : |(|Real.sin k| - (rotPow k).2.natAbs / 2 ^ (64 * k))| ≤ k * (1 / 2 ^ 60) := by
    refine le_trans ?_ hs
    have := abs_abs_sub_abs_le (Real.sin k) ((rotPow k).2 / 2 ^ (64 * k))
    rwa [abs_div, abs_of_pos hd, ← Int.cast_abs, Int.abs_eq_natAbs, Int.cast_natCast] at this
  obtain ⟨hlo, hhi⟩ := abs_le.mp habs
  have h1 : ((t * 2 ^ 28 * 2 ^ (64 * k) + k * 2 ^ (64 * k) : Nat) : ℝ) ≤
      (2 ^ 60 * (rotPow k).2.natAbs : Nat) := by exact_mod_cast h.1
  have h2 : ((2 ^ 60 * (rotPow k).2.natAbs + k * 2 ^ (64 * k) : Nat) : ℝ) <
      ((t + 1) * 2 ^ 28 * 2 ^ (64 * k) : Nat) := by exact_mod_cast h.2
  push_cast at h1 h2
  have h1' : (t * 2 ^ 28 + k : ℝ) ≤ 2 ^ 60 * ((rotPow k).2.natAbs / 2 ^ (64 * k)) := by
    rw [← mul_div_assoc, le_div_iff₀ hd]; linarith
  have h2' : (2 ^ 60 * ((rotPow k).2.natAbs / 2 ^ (64 * k)) + k : ℝ) < (t + 1) * 2 ^ 28 := by
    rw [← mul_div_assoc, ← lt_sub_iff_add_lt, div_lt_iff₀ hd]; linarith
  rw [Nat.floor_eq_iff (by positivity)]
  constructor
  · linarith
  · linarith

end Lib.Sine

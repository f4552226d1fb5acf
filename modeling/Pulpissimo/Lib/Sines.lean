import Mathlib.Analysis.Complex.Norm
import Mathlib.Analysis.Complex.Trigonometric
import Mathlib.NumberTheory.Zsqrtd.GaussianInt
import Mathlib.Tactic.NormNum
import Pulpissimo.Lib.Indices

/-!
# Sines of natural numbers

The Taylor sum of the exponential at `i` is a Gaussian integer over a factorial. Its powers are
close to the powers of the exponential, whose imaginary parts are the sines of the natural
numbers, so that comparing integers decides the first bits of a sine.
-/

namespace Pulpissimo.Sines

open Complex

/-- The sum of the first terms of the exponential series at `i`, times the last factorial. -/
def taylor : ℕ → GaussianInt
  | 0 => 0
  | n+1 => n*taylor n+(⟨0,1⟩ : GaussianInt)^n

theorem taylor_succ (n : ℕ) :
    (taylor (n+1) : ℂ)=n.factorial*∑ m ∈ Finset.range (n+1), I^m/m.factorial := by
  have hI : ((⟨0,1⟩ : GaussianInt) : ℂ)=I := by simp [GaussianInt.toComplex_def']
  induction n with
  | zero => simp [taylor]
  | succ n ih =>
    have hne : ((n+1).factorial : ℂ) ≠ 0 := Nat.cast_ne_zero.mpr (Nat.factorial_ne_zero _)
    rw [taylor,map_add,map_mul,map_pow,hI,map_natCast,ih,Finset.sum_range_succ _ (n+1),mul_add,
      mul_div_cancel₀ _ hne,Nat.factorial_succ]
    push_cast
    ring

/-- How close the sum comes to the exponential. -/
theorem norm_taylor_sub (n : ℕ) :
    ‖(taylor (n+1) : ℂ)/n.factorial-exp I‖ ≤ (n+2)/((n+1).factorial*(n+1)) := by
  have hne : (n.factorial : ℂ) ≠ 0 := Nat.cast_ne_zero.mpr (Nat.factorial_ne_zero _)
  have hbound := exp_bound (x:=I) (by rw [norm_I]) n.succ_pos
  rw [taylor_succ,mul_div_cancel_left₀ _ hne,norm_sub_rev]
  refine hbound.trans (le_of_eq ?_)
  rw [norm_I,one_pow,one_mul,div_eq_mul_inv]
  push_cast
  ring

/-- Powers of close numbers in the unit disc are close. -/
theorem norm_pow_sub_pow_le {w z : ℂ} (hw : ‖w‖ ≤ 1) (hz : ‖z‖ ≤ 1) (n : ℕ) :
    ‖w^n-z^n‖ ≤ n*‖w-z‖ := by
  induction n with
  | zero => simp
  | succ n ih =>
    have hsplit : w^(n+1)-z^(n+1)=w^n*(w-z)+(w^n-z^n)*z := by ring
    have hfirst : ‖w^n*(w-z)‖ ≤ ‖w-z‖ := by
      rw [Complex.norm_mul,Complex.norm_pow]
      exact mul_le_of_le_one_left (norm_nonneg _) (pow_le_one₀ (norm_nonneg _) hw)
    have hrest : ‖(w^n-z^n)*z‖ ≤ n*‖w-z‖ := by
      rw [Complex.norm_mul]
      exact (mul_le_of_le_one_right (norm_nonneg _) hz).trans ih
    rw [hsplit]
    push_cast
    linarith [norm_add_le (w^n*(w-z)) ((w^n-z^n)*z)]

/-- The sine of a natural number is an imaginary part. -/
theorem sin_eq_im (n : ℕ) : Real.sin n=(exp I^n).im := by
  rw [←exp_nat_mul,←ofReal_natCast,exp_ofReal_mul_I_im]

/-- Powers of the sum of twenty terms. -/
def power : ℕ → GaussianInt
  | 0 => 1
  | n+1 => power n*taylor 20

theorem power_eq (n : ℕ) : power n=taylor 20^n := by
  induction n with
  | zero => rfl
  | succ n ih => rw [power,ih,pow_succ]

/-- A sine and the imaginary part of a power. -/
theorem sin_sub_power {n : ℕ} (hn : n ≤ 64) :
    |(power n).im/(Nat.factorial 19 : ℝ)^n-Real.sin n| ≤ 1/2^52 := by
  have hne : (0 : ℝ) < Nat.factorial 19 := Nat.cast_pos.mpr (Nat.factorial_pos _)
  have hunit : ‖exp I‖=1 := by simpa using norm_exp_ofReal_mul_I 1
  have hsum : ‖(taylor 20 : ℂ)‖ ≤ Nat.factorial 19 := by
    have hnorm : (taylor 20).re^2+(taylor 20).im^2 ≤ (Nat.factorial 19 : ℤ)^2 := by
      decide +kernel
    rw [Complex.norm_def,Real.sqrt_le_left hne.le,normSq_apply,←GaussianInt.intCast_re,
      ←GaussianInt.intCast_im,←sq,←sq]
    exact_mod_cast hnorm
  have hdisc : ‖(taylor 20 : ℂ)/Nat.factorial 19‖ ≤ 1 := by
    rw [Complex.norm_div,Complex.norm_natCast]
    exact div_le_one_of_le₀ hsum hne.le
  have hclose := norm_pow_sub_pow_le hdisc hunit.le n
  have him : ((power n).im : ℝ)/(Nat.factorial 19 : ℝ)^n=
      (((taylor 20 : ℂ)/Nat.factorial 19)^n).im := by
    rw [div_pow,←map_pow,←power_eq,GaussianInt.intCast_im,←Nat.cast_pow,←Nat.cast_pow,div_natCast_im]
  have hbound : (n : ℝ)*‖(taylor 20 : ℂ)/Nat.factorial 19-exp I‖ ≤ 1/2^52 := by
    have hterms : (n : ℝ) ≤ 64 := by exact_mod_cast hn
    have htail := norm_taylor_sub 19
    have hnumber : (64 : ℝ)*((19+2)/((19+1).factorial*(19+1))) ≤ 1/2^52 := by
      norm_num [Nat.factorial]
    refine (mul_le_mul hterms htail (norm_nonneg _) (by norm_num)).trans ?_
    exact_mod_cast hnumber
  rw [him,sin_eq_im,←sub_im]
  exact (abs_im_le_norm _).trans (hclose.trans hbound)

/-- The first 32 bits of the sine of `n` after the point, up to its sign, are those of `K`. -/
def Starts (n K : ℕ) : Prop :=
  (2^20*K+1)*Nat.factorial 19^n ≤ 2^52*(power n).im.natAbs ∧
    2^52*(power n).im.natAbs+Nat.factorial 19^n < 2^20*(K+1)*Nat.factorial 19^n

instance (n K : ℕ) : Decidable (Starts n K) := inferInstanceAs (Decidable (_ ∧ _))

theorem floor_sin {n K : ℕ} (hn : n ≤ 64) (h : Starts n K) : ⌊2^32*|Real.sin n|⌋₊=K := by
  have hpow : (0 : ℝ) < (Nat.factorial 19 : ℝ)^n := by positivity
  have hclose := (abs_abs_sub_abs_le _ _).trans (sin_sub_power hn)
  rw [abs_div,abs_of_pos hpow,←Int.cast_abs,Int.abs_eq_natAbs,Int.cast_natCast] at hclose
  rcases abs_le.mp hclose with ⟨hbelow,habove⟩
  have hlow : ((2^20*K+1)*Nat.factorial 19^n : ℝ) ≤ 2^52*(power n).im.natAbs := by
    exact_mod_cast h.1
  have hhigh : (2^52*(power n).im.natAbs+Nat.factorial 19^n : ℝ) <
      2^20*(K+1)*Nat.factorial 19^n := by
    exact_mod_cast h.2
  rw [Nat.floor_eq_iff (by positivity)]
  have hfrac : (2^20*K+1 : ℝ) ≤ 2^52*((power n).im.natAbs/(Nat.factorial 19 : ℝ)^n) := by
    rw [mul_div_assoc',le_div_iff₀ hpow]
    exact hlow
  have hfrac' : 2^52*((power n).im.natAbs/(Nat.factorial 19 : ℝ)^n)+1 < (2^20*(K+1) : ℝ) := by
    rw [mul_div_assoc',div_add_one hpow.ne',div_lt_iff₀ hpow]
    exact hhigh
  constructor
  · linarith
  · linarith

end Pulpissimo.Sines

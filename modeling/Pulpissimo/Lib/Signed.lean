import Mathlib.Data.BitVec
import Mathlib.Tactic.Ring
import Mathlib.Tactic.Linarith
import Mathlib.Tactic.LinearCombination

/-!
# Two's complement values of bit vectors

Signed datapaths compute on widths wide enough for their exact integer
values. `Fits` states that width, and the lemmas read sums, products,
narrowings, shifts and fields as integer operations where the values fit.
-/

namespace Pulpissimo.Signed

variable {w : ℕ}

/-- An integer is representable in `w` signed bits. -/
def Fits (w : ℕ) (z : ℤ) : Prop := -2^(w-1)≤z ∧ z<2^(w-1)

/-- A wrapped integer that fits is itself. -/
theorem bmod_eq_of_fits (hw : 0<w) {z : ℤ} (h : Fits w z) : z.bmod (2^w)=z := by
  obtain ⟨k,rfl⟩ : ∃ k, w=k+1 := ⟨w-1,by omega⟩
  unfold Fits at h
  simp only [Nat.add_sub_cancel] at h
  apply Int.bmod_eq_of_le
  · push_cast
    rw [pow_succ]
    omega
  · push_cast
    rw [pow_succ]
    omega

/-- Addition is exact where the sum fits. -/
theorem toInt_add_of_fits (hw : 0<w) {x y : BitVec w} (h : Fits w (x.toInt+y.toInt)) :
    (x+y).toInt=x.toInt+y.toInt := by
  rw [BitVec.toInt_add,bmod_eq_of_fits hw h]

/-- Multiplication is exact where the product fits. -/
theorem toInt_mul_of_fits (hw : 0<w) {x y : BitVec w} (h : Fits w (x.toInt*y.toInt)) :
    (x*y).toInt=x.toInt*y.toInt := by
  rw [BitVec.toInt_mul,bmod_eq_of_fits hw h]

/-- An integer that fits is the value of its vector. -/
theorem toInt_ofInt_of_fits (hw : 0<w) {z : ℤ} (h : Fits w z) : (BitVec.ofInt w z).toInt=z := by
  rw [BitVec.toInt_ofInt,bmod_eq_of_fits hw h]

/-- Truncation wraps the value. -/
theorem setWidth_ofInt {v : ℕ} (z : ℤ) (h : w≤v) :
    (BitVec.ofInt v z).setWidth w=BitVec.ofInt w z := by
  rw [←BitVec.signExtend_eq_setWidth_of_le _ h]
  apply BitVec.eq_of_toInt_eq
  rw [BitVec.toInt_signExtend,BitVec.toInt_ofInt,BitVec.toInt_ofInt,Nat.min_eq_left h]
  exact Int.bmod_bmod_of_dvd (Nat.pow_dvd_pow 2 h)

/-- An operand extended by its gated sign bit reads as signed or unsigned. -/
theorem toInt_cons_sign (s : Bool) (x : BitVec w) :
    (BitVec.cons (s && x.msb) x).toInt=if s=true then x.toInt else (x.toNat : ℤ) := by
  rw [BitVec.toInt_eq_msb_cond,BitVec.toInt_eq_msb_cond,BitVec.toNat_cons']
  cases s <;> cases hm : x.msb <;> simp [Nat.shiftLeft_eq,pow_succ]
  ring

/-- The low part of an extension is the operand. -/
theorem setWidth_signExtend {v : ℕ} (x : BitVec w) (h : w≤v) : (x.signExtend v).setWidth w=x := by
  apply BitVec.eq_of_getLsbD_eq
  intro k hk
  rw [BitVec.getLsbD_setWidth,BitVec.getLsbD_signExtend,if_pos hk,decide_eq_true hk,
    decide_eq_true (by omega),Bool.true_and,Bool.true_and]

/-- A field of an integer's vector is the integer's floor quotient. -/
theorem extract_ofInt {v : ℕ} (z : ℤ) (k : ℕ) (h : k+w≤v) :
    (BitVec.ofInt v z).extractLsb' k w=BitVec.ofInt w (z/2^k) := by
  apply BitVec.eq_of_toNat_eq
  have hpos : ∀ m : ℕ, (0 : ℤ)<2^m := fun m => by positivity
  have hv : (2 : ℤ)^v=2^k*(2^w*2^(v-(k+w))) := by
    rw [←pow_add,←pow_add]
    congr 1
    omega
  zify
  rw [BitVec.extractLsb'_toNat,BitVec.toNat_ofInt,BitVec.toNat_ofInt,Nat.shiftRight_eq_div_pow]
  push_cast
  rw [Int.toNat_of_nonneg (Int.emod_nonneg _ (hpos v).ne'),
    Int.toNat_of_nonneg (Int.emod_nonneg _ (hpos w).ne'),hv]
  have hmod : z%(2^k*(2^w*2^(v-(k+w))))=
      z+2^k*(2^w*(-(2^(v-(k+w))*(z/(2^k*(2^w*2^(v-(k+w)))))))) := by
    have he := Int.emod_add_mul_ediv z (2^k*(2^w*2^(v-(k+w))))
    linear_combination he
  rw [hmod,Int.add_mul_ediv_left _ _ (hpos k).ne',Int.add_mul_emod_self_left]

end Pulpissimo.Signed

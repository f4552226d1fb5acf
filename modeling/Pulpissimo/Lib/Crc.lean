import Mathlib.Algebra.Field.ZMod
import Mathlib.Algebra.Polynomial.Div
import Mathlib.Algebra.Polynomial.OfFn
import Mathlib.Data.BitVec
import Mathlib.Data.ZMod.Basic
import Mathlib.Tactic.LinearCombination

/-!
# Checksums as remainders

A shift register with feedback divides the polynomial of the bits that come in, the first
bit being the highest coefficient. What it holds is the remainder of the message, moved up by
the register's width, by the monic polynomial whose lower coefficients are the feedback.
-/

namespace Pulpissimo.Crc

open Polynomial

variable {n : ℕ}

/-- The first `j` bits of a word, the highest one first. -/
def msbs (v : BitVec n) (j : ℕ) : List Bool := (List.range j).map fun i => v.getLsbD (n-1-i)

@[simp] theorem length_msbs (v : BitVec n) (j : ℕ) : (msbs v j).length=j := by
  rw [msbs,List.length_map,List.length_range]

theorem msbs_succ (v : BitVec n) (j : ℕ) : msbs v (j+1)=msbs v j++[v.getLsbD (n-1-j)] := by
  rw [msbs,List.range_succ,List.map_append]
  rfl

/-- The bits of joined words. -/
theorem msbs_append {m : ℕ} (x : BitVec m) (y : BitVec n) :
    msbs (x++y) (m+n)=msbs x m++msbs y n := by
  rw [msbs,List.range_add,List.map_append,List.map_map]
  congr 1
  · apply List.map_congr_left
    intro i hi
    rw [List.mem_range] at hi
    rw [BitVec.getLsbD_append,if_neg (by omega)]
    congr 1
    omega
  · apply List.map_congr_left
    intro i hi
    rw [List.mem_range] at hi
    show (x++y).getLsbD (m+n-1-(m+i))=y.getLsbD (n-1-i)
    rw [BitVec.getLsbD_append,if_pos (by omega)]
    congr 1
    omega

/-- A bit as a coefficient. -/
def bit (b : Bool) : ZMod 2 := if b then 1 else 0

@[simp] theorem bit_xor (a b : Bool) : bit (a ^^ b)=bit a+bit b := by
  cases a <;> cases b <;> decide

@[simp] theorem bit_false : bit false=0 := rfl

/-- Polynomial of a word. -/
noncomputable def poly (v : BitVec n) : (ZMod 2)[X] := Polynomial.ofFn n fun i => bit (v.getLsbD i)

/-- Polynomial of some bits, the first one highest. -/
noncomputable def message (bs : List Bool) : (ZMod 2)[X] :=
  bs.foldl (fun p b => p*X+C (bit b)) 0

/-- Monic polynomial of one degree more, with a word for the lower coefficients. -/
noncomputable def generator (g : BitVec n) : (ZMod 2)[X] := X^n+poly g

/-- One bit into the register. -/
def step (g v : BitVec n) (b : Bool) : BitVec n :=
  if b ^^ v.getLsbD (n-1) then v <<< 1 ^^^ g else v <<< 1

/-- The register after some bits. -/
def crc (g : BitVec n) (bs : List Bool) : BitVec n := bs.foldl (step g) 0

theorem crc_concat (g : BitVec n) (bs : List Bool) (b : Bool) :
    crc g (bs++[b])=step g (crc g bs) b := List.foldl_append

theorem coeff_poly (v : BitVec n) (k : ℕ) : (poly v).coeff k=bit (v.getLsbD k) := by
  rcases Nat.lt_or_ge k n with hk | hk
  · exact Polynomial.ofFn_coeff_eq_val_of_lt _ hk
  · rw [poly,Polynomial.ofFn_coeff_eq_zero_of_ge _ hk,BitVec.getLsbD_of_ge v k hk]
    rfl

theorem poly_injective : Function.Injective (poly : BitVec n → (ZMod 2)[X]) := by
  intro v w h
  apply BitVec.eq_of_getLsbD_eq
  intro k _
  have hk := congrArg (fun p => Polynomial.coeff p k) h
  simp only [coeff_poly] at hk
  revert hk
  cases v.getLsbD k <;> cases w.getLsbD k <;> decide

theorem degree_poly (v : BitVec n) : (poly v).degree < n := Polynomial.ofFn_degree_lt _

theorem monic_generator (g : BitVec n) : (generator g).Monic := monic_X_pow_add (degree_poly g)

theorem degree_generator (g : BitVec n) : (generator g).degree=n := by
  rw [generator,degree_add_eq_left_of_degree_lt,degree_X_pow]
  rw [degree_X_pow]
  exact degree_poly g

theorem coeff_generator (g : BitVec n) (k : ℕ) :
    (generator g).coeff k=(if k=n then 1 else 0)+bit (g.getLsbD k) := by
  rw [generator,coeff_add,coeff_X_pow,coeff_poly]

theorem getLsbD_step (g v : BitVec n) (b : Bool) {k : ℕ} (hk : k<n) :
    (step g v b).getLsbD k=
      ((decide (0 < k) && v.getLsbD (k-1)) ^^ ((b ^^ v.getLsbD (n-1)) && g.getLsbD k)) := by
  have hshift : (v <<< 1).getLsbD k=(decide (0 < k) && v.getLsbD (k-1)) := by
    rw [BitVec.getLsbD_shiftLeft,decide_eq_true hk,Bool.true_and]
    cases k with
    | zero => rfl
    | succ k => rfl
  unfold step
  split_ifs with hfb
  · rw [BitVec.getLsbD_xor,hshift,hfb,Bool.true_and]
  · rw [hshift,Bool.eq_false_of_not_eq_true hfb,Bool.false_and,Bool.xor_false]

/-- A bit moves the register up and takes off the generator if that overflows. -/
theorem poly_step (hn : 0 < n) (g v : BitVec n) (b : Bool) :
    poly v*X+C (bit b)*X^n=
      poly (step g v b)+C (bit (b ^^ v.getLsbD (n-1)))*generator g := by
  have hcancel : ∀ a c d : Bool, bit a=bit (a ^^ (c && d))+bit c*(0+bit d) := by decide
  ext k
  rw [coeff_add,coeff_add,coeff_C_mul,coeff_C_mul,coeff_generator,coeff_X_pow,coeff_poly]
  rcases Nat.lt_trichotomy k n with hlt | rfl | hgt
  · rw [getLsbD_step g v b hlt,if_neg (Nat.ne_of_lt hlt),mul_zero,add_zero]
    cases k with
    | zero =>
      rw [mul_coeff_zero,coeff_X_zero,mul_zero]
      exact hcancel false _ _
    | succ k =>
      rw [coeff_mul_X,coeff_poly,decide_eq_true (Nat.succ_pos k),Bool.true_and]
      exact hcancel _ _ _
  · obtain ⟨m,rfl⟩ : ∃ m,k=m+1 := ⟨k-1,by omega⟩
    rw [coeff_mul_X,coeff_poly,BitVec.getLsbD_of_ge _ _ (Nat.le_refl _),
      BitVec.getLsbD_of_ge g _ (Nat.le_refl _),if_pos rfl,bit_xor,bit_false,Nat.add_sub_cancel]
    ring
  · obtain ⟨m,rfl⟩ : ∃ m,k=m+1 := ⟨k-1,by omega⟩
    rw [coeff_mul_X,coeff_poly,BitVec.getLsbD_of_ge _ _ (Nat.le_of_lt hgt),
      BitVec.getLsbD_of_ge g _ (Nat.le_of_lt hgt),BitVec.getLsbD_of_ge v _ (Nat.le_of_lt_succ hgt),
      if_neg (Nat.ne_of_gt hgt),bit_false]
    ring

/-- A register that differs from a multiple of the generator by the message still does so with
one more bit. -/
theorem dvd_foldl (hn : 0 < n) (g : BitVec n) (bs : List Bool) {v : BitVec n} {p : (ZMod 2)[X]}
    (h : generator g∣p*X^n-poly v) :
    generator g∣bs.foldl (fun p b => p*X+C (bit b)) p*X^n-poly (bs.foldl (step g) v) := by
  induction bs generalizing v p with
  | nil => exact h
  | cons b bs ih =>
    apply ih
    have hstep := poly_step hn g v b
    have hnext : (p*X+C (bit b))*X^n-poly (step g v b)=
        (p*X^n-poly v)*X+C (bit (b ^^ v.getLsbD (n-1)))*generator g := by
      linear_combination hstep
    rw [hnext]
    exact dvd_add (h.mul_right X) (dvd_mul_left _ _)

/-- The register holds the remainder of what came in. -/
theorem poly_crc (hn : 0 < n) (g : BitVec n) (bs : List Bool) :
    poly (crc g bs)=(message bs*X^n) %ₘ generator g := by
  have hzero : poly (0 : BitVec n)=0 := by
    ext k
    rw [coeff_poly,coeff_zero]
    exact congrArg bit BitVec.getLsbD_zero
  have hdvd : generator g∣message bs*X^n-poly (crc g bs) := by
    apply dvd_foldl hn
    rw [hzero,zero_mul,sub_zero]
    exact dvd_zero _
  have hsmall : poly (crc g bs) %ₘ generator g=poly (crc g bs) := by
    rw [modByMonic_eq_self_iff (monic_generator g),degree_generator]
    exact degree_poly _
  rw [modByMonic_eq_of_dvd_sub (monic_generator g) hdvd,hsmall]

end Pulpissimo.Crc

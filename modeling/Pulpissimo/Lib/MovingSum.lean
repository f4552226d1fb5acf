import Mathlib.Algebra.BigOperators.Group.Finset.Basic
import Mathlib.Algebra.Group.ForwardDiff

/-!
# Moving sums from running sums

A running sum grows without bound, but what it grows by over a window is the sum of the window. So
as many differences as running sums give the moving sum of moving sums, in every commutative
group. A difference of every `R`-th value is one of the values taken before the choice.
-/

namespace Pulpissimo.MovingSum

open Function Finset

variable {G H : Type*} [AddCommGroup G] [AddCommGroup H] {R : ℕ}

/-- Sum of a window of `R` values from `n` on. -/
def movingSum (R : ℕ) (f : ℤ → G) (n : ℤ) : G := ∑ j ∈ range R,f (n+j)

/-- A sequence grows by the values of another one. -/
def Runs (f g : ℤ → G) : Prop := ∀ n,g (n+1)=g n+f n

/-- Over a window a running sum grows by the moving sum. -/
theorem Runs.fwdDiff_eq {f g : ℤ → G} (h : Runs f g) (R : ℕ) :
    fwdDiff (R : ℤ) g=movingSum R f := by
  funext n
  unfold fwdDiff movingSum
  induction R with
  | zero => simp
  | succ R ih =>
    rw [sum_range_succ,←ih,Nat.cast_succ,←add_assoc,h (n+R)]
    abel

/-- Differences and moving sums change places. -/
theorem fwdDiff_movingSum (h : ℤ) (f : ℤ → G) :
    fwdDiff h (movingSum R f)=movingSum R (fwdDiff h f) := by
  funext n
  unfold fwdDiff movingSum
  rw [←sum_sub_distrib]
  exact sum_congr rfl fun j _ => by rw [add_right_comm]

theorem iterate_fwdDiff_movingSum (h : ℤ) (k : ℕ) (f : ℤ → G) :
    (fwdDiff h)^[k] (movingSum R f)=movingSum R ((fwdDiff h)^[k] f) := by
  induction k generalizing f with
  | zero => rfl
  | succ k ih => rw [iterate_succ_apply,fwdDiff_movingSum,ih,←iterate_succ_apply]

/-- As many differences as running sums. -/
theorem iterate_fwdDiff_runs {A : ℕ → ℤ → G} (h : ∀ i,Runs (A i) (A (i+1))) (N : ℕ) :
    (fwdDiff (R : ℤ))^[N] (A N)=(movingSum R)^[N] (A 0) := by
  induction N with
  | zero => rfl
  | succ N ih =>
    rw [iterate_succ_apply,(h N).fwdDiff_eq,iterate_fwdDiff_movingSum,ih,
      ←iterate_succ_apply' (movingSum R)]

/-- Every `R`-th value. -/
def decimate (R : ℕ) (f : ℤ → G) (m : ℤ) : G := f (m*R)

theorem fwdDiff_decimate (f : ℤ → G) :
    fwdDiff 1 (decimate R f)=decimate R (fwdDiff (R : ℤ) f) := by
  funext m
  unfold fwdDiff decimate
  rw [add_mul,one_mul]

theorem iterate_fwdDiff_decimate (k : ℕ) (f : ℤ → G) :
    (fwdDiff 1)^[k] (decimate R f)=decimate R ((fwdDiff (R : ℤ))^[k] f) := by
  induction k generalizing f with
  | zero => rfl
  | succ k ih => rw [iterate_succ_apply,fwdDiff_decimate,ih,←iterate_succ_apply]

/-- A moving sum of images is the image of the moving sum. -/
theorem movingSum_map (φ : G →+ H) (f : ℤ → G) : movingSum R (φ ∘ f)=φ ∘ movingSum R f := by
  funext n
  exact (map_sum φ _ _).symm

theorem iterate_movingSum_map (φ : G →+ H) (N : ℕ) (f : ℤ → G) :
    (movingSum R)^[N] (φ ∘ f)=φ ∘ (movingSum R)^[N] f := by
  induction N generalizing f with
  | zero => rfl
  | succ N ih => rw [iterate_succ_apply,movingSum_map,ih,←iterate_succ_apply]

/-- Running sums of running sums, from the value at zero on. -/
def sums (f : ℤ → G) : ℕ → ℤ → G
  | 0 => f
  | i+1 => fun n => ∑ j ∈ range n.toNat,sums f i j

theorem sums_of_neg {f : ℤ → G} (hf : ∀ n,n < 0 → f n=0) (i : ℕ) {n : ℤ} (hn : n < 0) :
    sums f i n=0 := by
  cases i with
  | zero => exact hf n hn
  | succ i =>
    unfold sums
    rw [Int.toNat_eq_zero.mpr hn.le,sum_range_zero]

theorem sums_succ_zero (f : ℤ → G) (i : ℕ) : sums f (i+1) 0=0 := sum_range_zero _

theorem sums_runs {f : ℤ → G} (hf : ∀ n,n < 0 → f n=0) (i : ℕ) : Runs (sums f i) (sums f (i+1)) := by
  intro n
  rcases lt_or_ge n 0 with hneg | hnonneg
  · rw [sums_of_neg hf i hneg,sums_of_neg hf (i+1) hneg,add_zero]
    unfold sums
    rw [Int.toNat_eq_zero.mpr (by omega),sum_range_zero]
  · obtain ⟨k,rfl⟩ := Int.eq_ofNat_of_zero_le hnonneg
    have hnext : ((k : ℤ)+1).toNat=k+1 := rfl
    unfold sums
    rw [hnext,sum_range_succ,Int.toNat_natCast]
    cases i <;> rfl

/-- The differences of the chosen values of the sums are the chosen values of the moving sums. -/
theorem iterate_fwdDiff_sums {f : ℤ → G} (hf : ∀ n,n < 0 → f n=0) (N : ℕ) :
    (fwdDiff 1)^[N] (decimate R (sums f N))=decimate R ((movingSum R)^[N] f) := by
  rw [iterate_fwdDiff_decimate,iterate_fwdDiff_runs (sums_runs hf)]
  rfl

end Pulpissimo.MovingSum

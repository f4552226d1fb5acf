import Mathlib.Algebra.Order.Ring.Nat
import Mathlib.Tactic.Ring
import Mathlib.Tactic.Linarith

/-!
# Restoring division

Compare-and-subtract passes with a divisor that is halved from pass to pass.
Each pass keeps the remainder below the divisor it has just used and appends
one quotient bit, so all passes together are natural division. A zero divisor
is subtracted every time and leaves a quotient of ones.
-/

namespace Pulpissimo.Division

/-- The last `n` passes for a divisor `b`, on a remainder and a quotient. -/
def passes (b : ℕ) : ℕ → ℕ × ℕ → ℕ × ℕ
  | 0,rq => rq
  | n+1,(r,q) => passes b n (if b*2^n ≤ r then (r-b*2^n,2*q+1) else (r,2*q))

/-- The passes are natural division where the first divisor is large enough. -/
theorem passes_eq {b : ℕ} (hb : 0<b) (n r q : ℕ) (hr : r<b*2^n) :
    passes b n (r,q)=(r%b,q*2^n+r/b) := by
  induction n generalizing r q with
  | zero =>
    have hr' : r<b := by simpa using hr
    simp [passes,Nat.mod_eq_of_lt hr',Nat.div_eq_of_lt hr']
  | succ n ih =>
    have hdouble : b*2^(n+1)=2*(b*2^n) := by ring
    unfold passes
    split_ifs with h
    · have hsub : r-b*2^n+b*2^n=r := Nat.sub_add_cancel h
      have hmod : (r-b*2^n)%b=r%b := by
        conv_rhs => rw [←hsub]
        exact (Nat.add_mul_mod_self_left (r-b*2^n) b (2^n)).symm
      have hdiv : r/b=(r-b*2^n)/b+2^n := by
        conv_lhs => rw [←hsub]
        exact Nat.add_mul_div_left (r-b*2^n) (2^n) hb
      rw [ih _ _ (by omega),hmod,hdiv]
      congr 1
      ring
    · rw [ih _ _ (by omega)]
      congr 1
      ring

/-- With a zero divisor every pass keeps the remainder and appends a one. -/
theorem passes_zero (n r q : ℕ) : passes 0 n (r,q)=(r,(q+1)*2^n-1) := by
  induction n generalizing q with
  | zero => simp [passes]
  | succ n ih =>
    unfold passes
    simp only [Nat.zero_mul,Nat.zero_le,if_true,Nat.sub_zero]
    rw [ih]
    congr 2
    ring

section Window

variable (N D : ℕ)

/-- Remainder of the dividend above bit `c`, with bit `c` behind it. -/
def window (c : ℕ) : ℕ := 2*(N/2^(c+1)%D)+N/2^c%2

variable {N D}

/-- The dividend down to bit `c` is that down to the bit above and bit `c`. -/
theorem div_two_pow (N c : ℕ) : N/2^c=2*(N/2^(c+1))+N/2^c%2 := by
  have hsplit : N/2^(c+1)=N/2^c/2 := by rw [Nat.pow_succ,Nat.div_div_eq_div_mul]
  omega

theorem window_le (c : ℕ) : window N D c≤N := by
  have hsplit := div_two_pow N c
  have hmod := Nat.mod_le (N/2^(c+1)) D
  have hle := Nat.div_le_self N (2^c)
  unfold window
  omega

/-- What the window holds apart from the quotient so far. -/
theorem window_add (c : ℕ) : N/2^c=D*(2*(N/2^(c+1)/D))+window N D c := by
  have hsplit := div_two_pow N c
  have hdiv := Nat.div_add_mod (N/2^(c+1)) D
  have hassoc : D*(2*(N/2^(c+1)/D))=2*(D*(N/2^(c+1)/D)) := by ring
  unfold window
  omega

theorem window_lt (hD : 0<D) (c : ℕ) : window N D c<2*D := by
  have hmod := Nat.mod_lt (N/2^(c+1)) hD
  unfold window
  omega

/-- Subtracting the divisor where it fits leaves the remainder down to bit `c`. -/
theorem window_sub (hD : 0<D) (c : ℕ) :
    (if D≤window N D c then window N D c-D else window N D c)=N/2^c%D := by
  have hlt := window_lt (N:=N) hD c
  rw [window_add (D:=D) c,Nat.mul_add_mod]
  split_ifs with hle
  · rw [Nat.mod_eq_sub_mod hle,Nat.mod_eq_of_lt (by omega)]
  · rw [Nat.mod_eq_of_lt (by omega)]

/-- Where it fits the quotient has bit `c`. -/
theorem quotient_window (hD : 0<D) (c : ℕ) :
    N/2^c/D=2*(N/2^(c+1)/D)+if D≤window N D c then 1 else 0 := by
  have hlt := window_lt (N:=N) hD c
  rw [window_add (D:=D) c,Nat.mul_add_div hD]
  congr 1
  split_ifs with hle
  · exact Nat.div_eq_of_lt_le (by omega) (by omega)
  · exact Nat.div_eq_of_lt (by omega)

end Window

end Pulpissimo.Division

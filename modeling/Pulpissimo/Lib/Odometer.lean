import Mathlib.Data.BitVec

/-!
# Odometers

Nested loops over a running number have as indices its places in a mixed
radix. The next number moves the lowest place, or clears it and carries. A
place is often kept in a counter that is too narrow for the radix; it still
tells the last index if that one is not reached.
-/

namespace Pulpissimo.Odometer

variable {k b : ℕ}

/-- Inside a round only the place moves. A round of length zero never ends. -/
theorem next_inside (h : k%b+1≠b) : (k+1)%b=k%b+1 ∧ (k+1)/b=k/b := by
  rcases Nat.eq_zero_or_pos b with hzero | hpos
  · rw [hzero,Nat.mod_zero,Nat.mod_zero,Nat.div_zero,Nat.div_zero]
    exact ⟨rfl,rfl⟩
  · have hlt := Nat.mod_lt k hpos
    have hk := Nat.div_add_mod k b
    have hsum : k+1=k%b+1+b*(k/b) := by omega
    have hin : k%b+1<b := by omega
    rw [hsum,Nat.add_mul_mod_self_left,Nat.mod_eq_of_lt hin,Nat.add_mul_div_left _ _ hpos,
      Nat.div_eq_of_lt hin,Nat.zero_add]
    exact ⟨rfl,rfl⟩

/-- At the end of a round the place is cleared and the next one moves. -/
theorem next_carry (h : k%b+1=b) : (k+1)%b=0 ∧ (k+1)/b=k/b+1 := by
  have hk := Nat.div_add_mod k b
  have hsum : k+1=b*(k/b+1) := by rw [Nat.mul_add,Nat.mul_one]; omega
  rw [hsum,Nat.mul_mod_right,Nat.mul_div_cancel_left _ (by omega)]
  exact ⟨rfl,rfl⟩

/-- At the end of a round the numbers counted are whole rounds. -/
theorem rounds_of_last (h : k%b+1=b) : k+1=b*(k/b+1) := by
  have hk := Nat.div_add_mod k b
  rw [Nat.mul_add,Nat.mul_one]
  omega

section Counter

variable {w x bound : ℕ} {c : BitVec w}

/-- A counter of some bits tells whether an index is before the last one. -/
theorem counter_lt (hc : c=BitVec.ofNat w x) (hx : x<bound) (hfit : bound≤2^w ∨ x+1<bound) :
    c.toNat<bound-1 ↔ x+1<bound := by
  have hmod : x%2^w≤x := Nat.mod_le _ _
  have hlt : x%2^w<2^w := Nat.mod_lt _ (Nat.two_pow_pos w)
  rw [hc,BitVec.toNat_ofNat]
  rcases Nat.lt_or_ge x (2^w) with hsmall | hlarge
  · rw [Nat.mod_eq_of_lt hsmall]
    omega
  · omega

/-- It tells whether an index is the last one. -/
theorem counter_eq (hc : c=BitVec.ofNat w x) (hx : x<bound) (hfit : bound≤2^w ∨ x+1<bound) :
    c.toNat=bound-1 ↔ x+1=bound := by
  have hmod : x%2^w≤x := Nat.mod_le _ _
  have hlt : x%2^w<2^w := Nat.mod_lt _ (Nat.two_pow_pos w)
  rw [hc,BitVec.toNat_ofNat]
  rcases Nat.lt_or_ge x (2^w) with hsmall | hlarge
  · rw [Nat.mod_eq_of_lt hsmall]
    omega
  · omega

end Counter

end Pulpissimo.Odometer

import Mathlib.Data.BitVec
import Mathlib.Tactic.SplitIfs

/-!
# Byte addresses by word and lane

A 32-bit byte address is the number of a word followed by a two-bit lane.
Sums with small offsets are computed on the two parts.
-/

namespace Pulpissimo.WordAddr

/-- Word address and byte lane of an address. -/
theorem split_addr (x : BitVec 32) :
    ∃ (q : BitVec 30) (r : BitVec 2), x=q++r :=
  ⟨x.extractLsb' 2 30,x.extractLsb' 0 2,by
    apply BitVec.eq_of_getLsbD_eq
    intro i hi
    simp only [BitVec.getLsbD_append,BitVec.getLsbD_extractLsb']
    split_ifs with h
    · simp [h]
    · simp [show i-2<30 by omega,show 2+(i-2)=i by omega]⟩

section Lanes

variable (q : BitVec 30) (r : BitVec 2)

theorem wordAddr_append : (q++r).extractLsb' 2 30=q := by
  apply BitVec.eq_of_getLsbD_eq
  intro i hi
  simp only [BitVec.getLsbD_extractLsb',BitVec.getLsbD_append,hi,decide_true,Bool.true_and]
  rw [if_neg (by omega),show 2+i-2=i by omega]

theorem lane_append : (q++r).extractLsb' 0 2=r := by
  apply BitVec.eq_of_getLsbD_eq
  intro i hi
  simp only [BitVec.getLsbD_extractLsb',BitVec.getLsbD_append,hi,decide_true,Bool.true_and]
  rw [if_pos (by omega),Nat.zero_add]

theorem toNat_append : (q++r).toNat=4*q.toNat+r.toNat := by
  have hr := r.isLt
  rw [BitVec.toNat_append,←Nat.shiftLeft_add_eq_or_of_lt hr,Nat.shiftLeft_eq]
  omega

/-- The next word has the same byte lanes. -/
theorem append_add_four : q++r+4#32=(q+1#30)++r := by
  have hq := q.isLt
  have hr := r.isLt
  apply BitVec.eq_of_toNat_eq
  rw [BitVec.toNat_add,toNat_append,toNat_append,BitVec.toNat_add]
  simp only [BitVec.toNat_ofNat]
  omega

/-- Addresses of the bytes of an access, by word and lane. -/
theorem append_add {k : ℕ} (hk : k<4) :
    q++r+BitVec.ofNat 32 k=
      if r.toNat+k<4 then q++(r+BitVec.ofNat 2 k) else (q+1#30)++(r+BitVec.ofNat 2 k) := by
  have hq := q.isLt
  have hr := r.isLt
  have hlane : (r+BitVec.ofNat 2 k).toNat=(r.toNat+k)%4 := by
    rw [BitVec.toNat_add,BitVec.toNat_ofNat]
    omega
  have hnext : (q+1#30).toNat=(q.toNat+1)%1073741824 := BitVec.toNat_add q 1#30
  apply BitVec.eq_of_toNat_eq
  split_ifs with h
  · rw [BitVec.toNat_add,toNat_append,toNat_append,BitVec.toNat_ofNat,hlane]
    omega
  · rw [BitVec.toNat_add,toNat_append,toNat_append,BitVec.toNat_ofNat,hlane,hnext]
    omega

end Lanes

/-- The four byte lanes. -/
theorem lane_cases (r : BitVec 2) : r=0#2 ∨ r=1#2 ∨ r=2#2 ∨ r=3#2 := by
  revert r
  decide

end Pulpissimo.WordAddr

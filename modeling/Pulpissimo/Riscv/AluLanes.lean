import Mathlib.Tactic.IntervalCases
import Pulpissimo.Lib.Signed
import Pulpissimo.Riscv.AluDatapath

/-!
# Lanes of the arithmetic unit

Every operation on lanes computes in each lane what the operation of the lane's width computes on
the same lanes of the operands. The carry of the adder is followed byte by byte: in front of the
first byte of a lane it is the carry of the operation, and elsewhere that of the byte below.
-/

namespace Pulpissimo.Riscv.Alu

open Pulpissimo.Lanes Pulpissimo.Bits

/-- Bytes of a lane. -/
def VecMode.bytes : VecMode → ℕ
  | .VEC_MODE32 => 4
  | .VEC_MODE16 => 2
  | .VEC_MODE8 => 1

/-- Bits of a lane. -/
def VecMode.width (m : VecMode) : ℕ := m.bytes*8

theorem VecMode.width_mul_lanes (m : VecMode) : 32=m.width*(32/m.width) := by
  cases m <;> rfl

/-- The byte is one of the lane. -/
def InLane (m : VecMode) (k : ℕ) (r : Fin 4) : Prop :=
  m.bytes*k ≤ r.val ∧ r.val < m.bytes*k+m.bytes

section Adder

variable (i : Input)

/-- Sum of the two bits in front of a byte. -/
def breakSum (k : Fin 4) : ℕ :=
  (adder_carry i || !breaks i.vector_mode_i k).toNat+
    (adder_carry i && (k==0 || breaks i.vector_mode_i k)).toNat

/-- Sum of the bytes at a place. -/
def byteSum (k : Fin 4) : ℕ :=
  (lane 8 k (adder_op_a i)).toNat+(lane 8 k (adder_op_b i)).toNat

/-- Carry out of the bytes below a place. -/
def carryAt (k : ℕ) : ℕ := carryOut (adder_in_a i).toNat (adder_in_b i).toNat (512^k)

theorem toNat_interleave (x : BitVec 32) (c : PerByte) (k : Fin 4) :
    (interleave x c).toNat/512^k.val%512=2*(lane 8 k x).toNat+(c k).toNat := by
  have hlane : lane 9 k (interleave x c)=lane 8 k x++BitVec.ofBool (c k) := lane_pack _ k
  have hval := congrArg BitVec.toNat hlane
  rw [toNat_lane,toNat_join,BitVec.toNat_ofBool,pow_mul] at hval
  rw [Nat.mul_comm 2]
  exact hval

/-- Values of both inputs at a place. -/
theorem places (k : Fin 4) :
    (adder_in_a i).toNat/512^k.val%512+(adder_in_b i).toNat/512^k.val%512=
      2*byteSum i k+breakSum i k := by
  unfold adder_in_a adder_in_b byteSum breakSum
  rw [toNat_interleave,toNat_interleave]
  omega

theorem carryAt_succ (k : Fin 4) :
    carryAt i (k+1)=(byteSum i k+(breakSum i k+carryAt i k)/2)/256 := by
  unfold carryAt
  rw [pow_succ,carryOut_mul _ _ (by positivity),places]
  omega

/-- The places of the sum are those of the sum of the numbers. -/
theorem adder_result_expanded_place (k : Fin 4) :
    (adder_result_expanded i).toNat/512^k.val%512=
      ((adder_in_a i).toNat+(adder_in_b i).toNat)/512^k.val%512 := by
  have hlow : (adder_result_expanded i).setWidth 36=adder_in_a i+adder_in_b i := by
    unfold adder_result_expanded
    rw [BitVec.setWidth_add _ _ (by omega),Signed.setWidth_signExtend _ (by omega),
      Signed.setWidth_signExtend _ (by omega)]
  have hval := congrArg BitVec.toNat hlow
  rw [BitVec.toNat_setWidth,BitVec.toNat_add] at hval
  have hpow : 2^36=512^k.val*512^(4-k.val) := by
    rw [←pow_add,show k.val+(4-k.val)=4 by omega]
    rfl
  have hdvd : 512 ∣ 512^(4-k.val) := dvd_pow_self 512 (by omega)
  have hplace : ∀ n : ℕ, n%2^36/512^k.val%512=n/512^k.val%512 := fun n => by
    rw [hpow,Nat.mod_mul_right_div_self,Nat.mod_mod_of_dvd _ hdvd]
  rw [←hplace,hval,hplace]

/-- A byte of the sum. -/
theorem byte_adder (k : Fin 4) : (lane 8 k (adder_result i)).toNat=
    (byteSum i k+(breakSum i k+carryAt i k)/2)%256 := by
  have hlane : lane 8 k (adder_result i)=(adder_result_expanded i).extractLsb' (9*k+1) 8 :=
    lane_pack _ k
  have hplace := adder_result_expanded_place i k
  rw [digit_add _ _ (by positivity),places] at hplace
  have hpow : 2^(9*k.val+1)=512^k.val*2 := by rw [pow_succ,pow_mul]; rfl
  rw [hlane,BitVec.extractLsb'_toNat,Nat.shiftRight_eq_div_pow,hpow,←Nat.div_div_eq_div_mul]
  unfold carryAt
  omega

/-- The byte starts a lane. -/
def starts (m : VecMode) (k : Fin 4) : Bool := k==0 || breaks m k

theorem not_breaks_zero (m : VecMode) : breaks m 0=false := by cases m <;> rfl

/-- Carry into a byte. -/
theorem carry_into (k : Fin 4) : (breakSum i k+carryAt i k)/2=
    if starts i.vector_mode_i k then (adder_carry i).toNat else carryAt i k := by
  have hlt : carryAt i k < 2 := carryOut_lt_two _ _ (by positivity)
  unfold breakSum starts
  rcases eq_or_ne k 0 with rfl | hk
  · have hzero : carryAt i (0 : Fin 4).val=0 := by
      unfold carryAt
      exact carryOut_one _ _
    rw [not_breaks_zero,hzero]
    cases adder_carry i <;> rfl
  · rw [beq_false_of_ne hk,Bool.false_or]
    generalize carryAt i k=c at hlt ⊢
    cases breaks i.vector_mode_i k with
    | true =>
      rw [if_pos rfl]
      cases adder_carry i <;> simp <;> omega
    | false =>
      rw [if_neg Bool.false_ne_true,Bool.not_false,Bool.or_true,Bool.and_false]
      simp
      omega

/-- A byte of the sum by the carry into it. -/
theorem byte_sum (k : Fin 4) : (lane 8 k (adder_result i)).toNat=
    (byteSum i k+if starts i.vector_mode_i k then (adder_carry i).toNat else carryAt i k)%256 := by
  rw [byte_adder,carry_into]

theorem carry_next (k : Fin 4) : carryAt i (k+1)=
    (byteSum i k+if starts i.vector_mode_i k then (adder_carry i).toNat else carryAt i k)/256 := by
  rw [carryAt_succ,carry_into]

theorem toNat_half (x : BitVec 32) (k : ℕ) :
    (lane 16 k x).toNat=(lane 8 (2*k+1) x).toNat*256+(lane 8 (2*k) x).toNat := by
  have hjoin : lane 16 k x=lane 8 (2*k+1) x++lane 8 (2*k) x := lane_double 8 k x
  rw [hjoin,toNat_join]
  rfl

theorem toNat_bytes (x : BitVec 32) : x.toNat=
    (lane 8 3 x).toNat*16777216+((lane 8 2 x).toNat*65536+
      ((lane 8 1 x).toNat*256+(lane 8 0 x).toNat)) := by
  conv_lhs => rw [join_bytes x]
  rw [toNat_join,toNat_join,toNat_join]
  rfl

theorem starts_half (k : Fin 2) : starts .VEC_MODE16 ⟨2*k,by omega⟩=true ∧
    starts .VEC_MODE16 ⟨2*k+1,by omega⟩=false := by
  revert k
  decide

/-- The sum in a byte. -/
theorem adder_byte (hm : i.vector_mode_i=.VEC_MODE8) (k : Fin 4) :
    (lane 8 k (adder_result i)).toNat=
      ((lane 8 k (adder_op_a i)).toNat+(lane 8 k (adder_op_b i)).toNat+
        (adder_carry i).toNat)%256 := by
  have hstart : ∀ k : Fin 4, starts .VEC_MODE8 k=true := by decide
  have hbyte := byte_sum i k
  rw [hm,hstart,if_pos rfl] at hbyte
  exact hbyte

/-- The sum in a half-word. -/
theorem adder_half (hm : i.vector_mode_i=.VEC_MODE16) (k : Fin 2) :
    (lane 16 k (adder_result i)).toNat=
      ((lane 16 k (adder_op_a i)).toNat+(lane 16 k (adder_op_b i)).toNat+
        (adder_carry i).toNat)%65536 := by
  have hk := k.isLt
  have hlow := byte_sum i ⟨2*k,by omega⟩
  have hnext := carry_next i ⟨2*k,by omega⟩
  have hhigh := byte_sum i ⟨2*k+1,by omega⟩
  rw [hm,(starts_half k).1,if_pos rfl] at hlow hnext
  rw [hm,(starts_half k).2,if_neg Bool.false_ne_true] at hhigh
  unfold byteSum at hlow hnext hhigh
  dsimp only at hlow hnext hhigh
  rw [toNat_half,toNat_half,toNat_half]
  omega

/-- The sum in a word. -/
theorem adder_word (hm : i.vector_mode_i=.VEC_MODE32) :
    (adder_result i).toNat=
      ((adder_op_a i).toNat+(adder_op_b i).toNat+(adder_carry i).toNat)%4294967296 := by
  have hbyte := byte_sum i
  have hnext := carry_next i
  have hzero : starts .VEC_MODE32 0=true := rfl
  have hstart : ∀ k : Fin 4, k ≠ 0 → starts .VEC_MODE32 k=false := by decide
  have hafter : ∀ k : Fin 4, k ≠ 0 → (lane 8 k (adder_result i)).toNat=
      (byteSum i k+carryAt i k)%256 ∧ carryAt i (k+1)=(byteSum i k+carryAt i k)/256 := by
    intro k hk
    have hb := hbyte k
    have hn := hnext k
    rw [hm,hstart k hk,if_neg Bool.false_ne_true] at hb hn
    exact ⟨hb,hn⟩
  have h₀ := hbyte 0
  have hn₀ := hnext 0
  rw [hm,hzero,if_pos rfl] at h₀ hn₀
  have h₁ := hafter 1 (by decide)
  have h₂ := hafter 2 (by decide)
  have h₃ := hafter 3 (by decide)
  unfold byteSum at h₀ hn₀ h₁ h₂ h₃
  rw [toNat_bytes (adder_result i),toNat_bytes (adder_op_a i),toNat_bytes (adder_op_b i)]
  dsimp at h₀ hn₀ h₁ h₂ h₃
  omega

/-- The sum in every lane. -/
theorem lane_adder {k : ℕ} (hk : k < 32/i.vector_mode_i.width) :
    lane i.vector_mode_i.width k (adder_result i)=
      lane i.vector_mode_i.width k (adder_op_a i)+lane i.vector_mode_i.width k (adder_op_b i)+
        (BitVec.ofBool (adder_carry i)).setWidth _ := by
  apply BitVec.eq_of_toNat_eq
  rw [BitVec.toNat_add,BitVec.toNat_add,BitVec.toNat_setWidth,BitVec.toNat_ofBool,
    ←Nat.add_mod]
  cases hm : i.vector_mode_i with
  | VEC_MODE8 =>
    rw [hm] at hk
    have hk' : k < 4 := hk
    exact adder_byte i hm ⟨k,hk'⟩
  | VEC_MODE16 =>
    rw [hm] at hk
    have hk' : k < 2 := hk
    exact adder_half i hm ⟨k,hk'⟩
  | VEC_MODE32 =>
    rw [hm] at hk
    obtain rfl : k=0 := Nat.lt_one_iff.mp hk
    have hself : ∀ x : BitVec 32, lane VecMode.VEC_MODE32.width 0 x=x := lane_self
    rw [hself,hself,hself]
    exact adder_word i hm

end Adder

section Compare

variable (i : Input)

theorem is_greater_vec_eq (k : Fin 4) : is_greater_vec i k=
    greater (cmp_signed i k) (lane 8 k i.operand_a_i) (lane 8 k i.operand_b_i) := by
  unfold is_greater_vec
  dsimp only
  rw [Signed.toInt_cons_sign,Signed.toInt_cons_sign]
  rfl

/-- The order of two half-words. -/
theorem greater_half (hm : i.vector_mode_i=.VEC_MODE16) {k : ℕ} {r₁ r₀ : Fin 4}
    (h₁ : r₁.val=2*k+1) (h₀ : r₀.val=2*k) :
    (is_greater_vec i r₁ || (is_equal_vec i r₁ && is_greater_vec i r₀))=
      greater (compares_signed i) (lane 16 k i.operand_a_i) (lane 16 k i.operand_b_i) := by
  have hs₁ : cmp_signed i r₁=compares_signed i := by
    unfold cmp_signed
    rw [hm]
    have hcase : r₁=1 ∨ r₁=3 := by omega
    rcases hcase with rfl | rfl <;> exact Bool.and_true _
  have hs₀ : cmp_signed i r₀=false := by
    unfold cmp_signed
    rw [hm]
    have hcase : r₀=0 ∨ r₀=2 := by omega
    rcases hcase with rfl | rfl <;> exact Bool.and_false _
  rw [is_greater_vec_eq,is_greater_vec_eq,is_equal_vec,hs₁,hs₀,h₁,h₀]
  have hjoin : ∀ x : BitVec 32, lane 16 k x=lane 8 (2*k+1) x++lane 8 (2*k) x := lane_double 8 k
  rw [hjoin,hjoin,greater_join _ _ _ _ _ (by omega)]

theorem equal_half {k : ℕ} {r₁ r₀ : Fin 4} (h₁ : r₁.val=2*k+1) (h₀ : r₀.val=2*k) :
    (is_equal_vec i r₁ && is_equal_vec i r₀)=
      (lane 16 k i.operand_a_i==lane 16 k i.operand_b_i) := by
  have hjoin : ∀ x : BitVec 32, lane 16 k x=lane 8 (2*k+1) x++lane 8 (2*k) x := lane_double 8 k
  rw [is_equal_vec,is_equal_vec,h₁,h₀,hjoin,hjoin,beq_join]

/-- The order of two words. -/
theorem greater_word (hm : i.vector_mode_i=.VEC_MODE32) :
    (is_greater_vec i 3 || (is_equal_vec i 3 && (is_greater_vec i 2 ||
      (is_equal_vec i 2 && (is_greater_vec i 1 || (is_equal_vec i 1 && is_greater_vec i 0))))))=
      greater (compares_signed i) i.operand_a_i i.operand_b_i := by
  have hs : cmp_signed i 3=compares_signed i := by
    unfold cmp_signed
    rw [hm]
    exact Bool.and_true _
  have hu : ∀ k : Fin 4, k ≠ 3 → cmp_signed i k=false := by
    intro k hk
    unfold cmp_signed
    rw [hm]
    dsimp only
    rw [beq_false_of_ne hk,Bool.and_false]
  rw [is_greater_vec_eq,is_greater_vec_eq,is_greater_vec_eq,is_greater_vec_eq,hs,hu 2 (by decide),
    hu 1 (by decide),hu 0 (by decide),join_bytes i.operand_a_i,join_bytes i.operand_b_i,
    greater_join _ _ _ _ _ (by omega),greater_join _ _ _ _ _ (by omega),
    greater_join _ _ _ _ _ (by omega),←join_bytes,←join_bytes]
  rfl

theorem equal_word :
    (is_equal_vec i 3 && is_equal_vec i 2 && is_equal_vec i 1 && is_equal_vec i 0)=
      (i.operand_a_i==i.operand_b_i) := by
  rw [join_bytes i.operand_a_i,join_bytes i.operand_b_i,beq_join,beq_join,beq_join,
    Bool.and_assoc,Bool.and_assoc]
  rfl

/-- The order of two lanes. -/
theorem is_greater_eq {k : ℕ} {r : Fin 4} (hr : InLane i.vector_mode_i k r) :
    is_greater i r=greater (compares_signed i) (lane i.vector_mode_i.width k i.operand_a_i)
      (lane i.vector_mode_i.width k i.operand_b_i) := by
  unfold is_greater
  unfold InLane at hr
  cases hm : i.vector_mode_i with
  | VEC_MODE8 =>
    rw [hm] at hr
    dsimp only [VecMode.bytes] at hr
    obtain rfl : r.val=k := by omega
    have hs : cmp_signed i r=compares_signed i := by
      unfold cmp_signed
      rw [hm]
      exact Bool.and_true _
    have hvec := is_greater_vec_eq i r
    rw [hs] at hvec
    exact hvec
  | VEC_MODE16 =>
    rw [hm] at hr
    dsimp only [VecMode.bytes] at hr ⊢
    by_cases hlow : r < 2
    · rw [if_pos hlow]
      obtain rfl : k=0 := by omega
      exact greater_half i hm rfl rfl
    · rw [if_neg hlow]
      obtain rfl : k=1 := by omega
      exact greater_half i hm rfl rfl
  | VEC_MODE32 =>
    rw [hm] at hr
    dsimp only [VecMode.bytes] at hr
    obtain rfl : k=0 := by omega
    have hself : ∀ x : BitVec 32, lane VecMode.VEC_MODE32.width 0 x=x := lane_self
    rw [hself,hself]
    exact greater_word i hm

theorem is_equal_eq {k : ℕ} {r : Fin 4} (hr : InLane i.vector_mode_i k r) :
    is_equal i r=(lane i.vector_mode_i.width k i.operand_a_i==
      lane i.vector_mode_i.width k i.operand_b_i) := by
  unfold is_equal
  unfold InLane at hr
  cases hm : i.vector_mode_i with
  | VEC_MODE8 =>
    rw [hm] at hr
    dsimp only [VecMode.bytes] at hr
    obtain rfl : r.val=k := by omega
    rfl
  | VEC_MODE16 =>
    rw [hm] at hr
    dsimp only [VecMode.bytes] at hr ⊢
    by_cases hlow : r < 2
    · rw [if_pos hlow,Bool.and_comm]
      obtain rfl : k=0 := by omega
      exact equal_half i rfl rfl
    · rw [if_neg hlow,Bool.and_comm]
      obtain rfl : k=1 := by omega
      exact equal_half i rfl rfl
  | VEC_MODE32 =>
    rw [hm] at hr
    dsimp only [VecMode.bytes] at hr
    obtain rfl : k=0 := by omega
    have hself : ∀ x : BitVec 32, lane VecMode.VEC_MODE32.width 0 x=x := lane_self
    rw [hself,hself]
    exact equal_word i

end Compare

section Shift

variable (i : Input)

theorem shift_lane_eq {w bits k : ℕ} (hw : w=2^bits) :
    shift_lane i w bits k=shifted (shift_arithmetic i) (lane w k (shift_op_a i))
      ((lane w k (shift_amt_int i)).toNat%w) := by
  subst hw
  have hamt : ((shift_amt_int i).extractLsb' (2^bits*k) bits).toNat=
      (lane (2^bits) k (shift_amt_int i)).toNat%2^bits := by
    rw [toNat_lane,BitVec.extractLsb'_toNat,Nat.shiftRight_eq_div_pow,
      Nat.mod_mod_of_dvd _ (Nat.pow_dvd_pow 2 (Nat.lt_two_pow_self).le)]
  rw [shift_lane,shifted_cons,hamt]

/-- The shift in every lane. -/
theorem lane_shift_right (hror : (i.operator_i==ALU_ROR)=false) {k : ℕ}
    (hk : k < 32/i.vector_mode_i.width) :
    lane i.vector_mode_i.width k (shift_right_result i)=
      shifted (shift_arithmetic i) (lane i.vector_mode_i.width k (shift_op_a i))
        ((lane i.vector_mode_i.width k (shift_amt_int i)).toNat%i.vector_mode_i.width) := by
  unfold shift_right_result
  cases hm : i.vector_mode_i with
  | VEC_MODE8 =>
    rw [hm] at hk
    have hk' : k < 4 := hk
    refine Eq.trans (lane_pack (fun k : Fin 4 => shift_lane i 8 3 k) ⟨k,hk'⟩) ?_
    exact shift_lane_eq i rfl
  | VEC_MODE16 =>
    rw [hm] at hk
    have hk' : k < 2 := hk
    refine Eq.trans (lane_pack (fun k : Fin 2 => shift_lane i 16 4 k) ⟨k,hk'⟩) ?_
    exact shift_lane_eq i rfl
  | VEC_MODE32 =>
    rw [hm] at hk
    obtain rfl : k=0 := Nat.lt_one_iff.mp hk
    have hself : ∀ x : BitVec 32, lane VecMode.VEC_MODE32.width 0 x=x := lane_self
    rw [hself,hself,hself]
    have hamt : ((shift_amt_int i).extractLsb' 0 5).toNat=
        (shift_amt_int i).toNat%VecMode.VEC_MODE32.width := by
      rw [BitVec.extractLsb'_toNat,Nat.shiftRight_zero]
      rfl
    have hbound : (shift_amt_int i).toNat%VecMode.VEC_MODE32.width ≤ 32 :=
      (Nat.mod_lt _ (by decide)).le
    unfold shift_op_a_32
    rw [hror,if_neg Bool.false_ne_true]
    dsimp only
    rw [hamt]
    exact shifted_fill _ _ hbound

theorem rev_eq (x : BitVec 32) : rev x=x.reverse := by
  apply BitVec.eq_of_getLsbD_eq
  intro j hj
  rw [getLsbD_rev x hj,BitVec.getLsbD_reverse,BitVec.getMsbD_eq_getLsbD,decide_eq_true hj,
    Bool.true_and]

/-- The amount for the left shift of a lane stands at the place of its reversed lane. -/
theorem lane_shift_amt_left {k : ℕ} (hk : k < 32/i.vector_mode_i.width) :
    lane i.vector_mode_i.width (32/i.vector_mode_i.width-1-k) (shift_amt_left i)=
      lane i.vector_mode_i.width k (shift_amt i) := by
  unfold shift_amt_left
  cases hm : i.vector_mode_i with
  | VEC_MODE8 =>
    rw [hm] at hk
    have hk' : k < 4 := hk
    refine Eq.trans (lane_pack (fun k : Fin 4 => lane 8 (3-k) (shift_amt i)) ⟨3-k,by omega⟩) ?_
    dsimp only
    rw [Nat.sub_sub_self (by omega)]
    rfl
  | VEC_MODE16 =>
    rw [hm] at hk
    have hk' : k < 2 := hk
    refine Eq.trans (lane_pack (fun k : Fin 2 => lane 16 (1-k) (shift_amt i)) ⟨1-k,by omega⟩) ?_
    dsimp only
    rw [Nat.sub_sub_self (by omega)]
    rfl
  | VEC_MODE32 =>
    rw [hm] at hk
    obtain rfl : k=0 := Nat.lt_one_iff.mp hk
    rfl

/-- The left shift in every lane. -/
theorem lane_shift_left (hleft : shift_left i=true) (hround : shift_use_round i=false)
    (harith : shift_arithmetic i=false) (hdiv : div_valid i.operator_i=false)
    (hror : (i.operator_i==ALU_ROR)=false) {k : ℕ} (hk : k < 32/i.vector_mode_i.width) :
    lane i.vector_mode_i.width k (shift_result i)=
      lane i.vector_mode_i.width k i.operand_a_i<<<
        ((lane i.vector_mode_i.width k i.operand_b_i).toNat%i.vector_mode_i.width) := by
  have hsize := i.vector_mode_i.width_mul_lanes
  have hamt : shift_amt i=i.operand_b_i := by
    rw [shift_amt,hdiv,if_neg Bool.false_ne_true]
  have hresult : shift_result i=(shift_right_result i).reverse := by
    rw [shift_result,hleft,if_pos rfl,rev_eq]
  have hop_a : shift_op_a i=i.operand_a_i.reverse := by
    rw [shift_op_a,hleft,if_pos rfl,rev_eq]
  have hint : shift_amt_int i=shift_amt_left i := by
    rw [shift_amt_int,hround,hleft,if_neg Bool.false_ne_true,if_pos rfl]
  rw [hresult,lane_reverse _ hsize hk,lane_shift_right i hror (by omega),harith,hop_a,hint,
    lane_shift_amt_left i hk,hamt,lane_reverse _ hsize (by omega),Nat.sub_sub_self (by omega)]
  exact reverse_ushiftRight_reverse _ _

theorem one_word : 0 < 32/VecMode.VEC_MODE32.width := by decide

/-- The left shift of a word. -/
theorem word_shift_left (hmode : i.vector_mode_i=.VEC_MODE32) (hleft : shift_left i=true)
    (hround : shift_use_round i=false) (harith : shift_arithmetic i=false)
    (hdiv : div_valid i.operator_i=false) (hror : (i.operator_i==ALU_ROR)=false) :
    shift_result i=i.operand_a_i<<<(i.operand_b_i.toNat%32) := by
  obtain ⟨o,m,a,b,c,x,y⟩ := i
  dsimp only at hmode
  subst hmode
  have hlane : lane 32 0 (shift_result ⟨o,.VEC_MODE32,a,b,c,x,y⟩)=
      lane 32 0 a<<<((lane 32 0 b).toNat%32) :=
    lane_shift_left (k:=0) ⟨o,.VEC_MODE32,a,b,c,x,y⟩ hleft hround harith hdiv hror one_word
  rw [lane_self,lane_self,lane_self] at hlane
  exact hlane

/-- The right shift of a word. -/
theorem word_shift_right (hmode : i.vector_mode_i=.VEC_MODE32) (hleft : shift_left i=false)
    (hround : shift_use_round i=false) (hdiv : div_valid i.operator_i=false)
    (hror : (i.operator_i==ALU_ROR)=false) :
    shift_result i=shifted (shift_arithmetic i) i.operand_a_i (i.operand_b_i.toNat%32) := by
  obtain ⟨o,m,a,b,c,x,y⟩ := i
  dsimp only at hmode
  subst hmode
  have hlane : lane 32 0 (shift_right_result ⟨o,.VEC_MODE32,a,b,c,x,y⟩)=
      shifted (shift_arithmetic ⟨o,.VEC_MODE32,a,b,c,x,y⟩)
        (lane 32 0 (shift_op_a ⟨o,.VEC_MODE32,a,b,c,x,y⟩))
        ((lane 32 0 (shift_amt_int ⟨o,.VEC_MODE32,a,b,c,x,y⟩)).toNat%32) :=
    lane_shift_right (k:=0) ⟨o,.VEC_MODE32,a,b,c,x,y⟩ hror one_word
  rw [lane_self,lane_self,lane_self,shift_op_a,shift_amt_int,hleft,hround,
    if_neg Bool.false_ne_true,if_neg Bool.false_ne_true,if_neg Bool.false_ne_true,
    if_neg Bool.false_ne_true,shift_amt,hdiv,if_neg Bool.false_ne_true] at hlane
  rw [shift_result,hleft,if_neg Bool.false_ne_true]
  exact hlane

end Shift

end Pulpissimo.Riscv.Alu

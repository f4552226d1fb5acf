import Pulpissimo.Riscv.Mult

/-!
# Multiply-accumulate and dot products

While the sequence of the upper-half product is idle, the multiplier's result is the low word of
an integer expression: the accumulator with the product of the operands, with the products of
their fields, or with the product of two halves, rounded and shifted.
-/

namespace Pulpissimo.Riscv.Mult

open Pulpissimo.Signed

/-- Integer value of field `k` of a packed operand under a signedness flag. -/
def fieldValue (sign : Bool) (x : BitVec 32) (width k : ℕ) : ℤ :=
  if sign then (x.extractLsb' (k*width) width).toInt else (x.extractLsb' (k*width) width).toNat

section Expected

variable (i : Input)

/-- Product of the fields `k` of both dot product operands. -/
def fieldProduct (width k : ℕ) : ℤ :=
  fieldValue (i.dot_signed_i.getLsbD 1) i.dot_op_a_i width k*
    fieldValue (i.dot_signed_i.getLsbD 0) i.dot_op_b_i width k

/-- Sum of the products of the first `n` fields. -/
def dotSum (width n : ℕ) : ℤ := ((List.range n).map (fieldProduct i width)).sum

/-- Half a unit of the last place that is kept. -/
def roundValue : ℤ :=
  if i.operator_i=.MUL_IR ∧ 0 < i.imm_i.toNat then 2^(i.imm_i.toNat-1) else 0

/-- Accumulator, product of the selected halves and rounding value. -/
def shortSum : ℤ :=
  i.op_c_i.toInt+halfValue i.short_subword_i (i.short_signed_i.getLsbD 0) i.op_a_i*
    halfValue i.short_subword_i (i.short_signed_i.getLsbD 1) i.op_b_i+roundValue i

/-- A word shifted right, with its sign or with zeros. -/
def shifted (arith : Bool) (x : BitVec 32) (n : ℕ) : BitVec 32 :=
  if arith then x.sshiftRight n else x>>>n

/-- The result of a multiplication other than an upper-half one. -/
def expected : BitVec 32 :=
  match i.operator_i with
  | .MUL_MAC32 => BitVec.ofInt 32 (i.op_c_i.toInt+i.op_a_i.toInt*i.op_b_i.toInt)
  | .MUL_MSU32 => BitVec.ofInt 32 (i.op_c_i.toInt-i.op_a_i.toInt*i.op_b_i.toInt)
  | .MUL_DOT8 => BitVec.ofInt 32 (i.dot_op_c_i.toInt+dotSum i 8 4)
  | .MUL_DOT16 => BitVec.ofInt 32 (i.dot_op_c_i.toInt+dotSum i 16 2)
  | .MUL_I | .MUL_IR | .MUL_H =>
    shifted (i.short_signed_i.getLsbD 0) (BitVec.ofInt 32 (shortSum i)) i.imm_i.toNat

end Expected

section Words

variable {i : Input}

/-- The complement of the factor and the other factor added once more make a subtraction. -/
theorem int_result_eq : int_result i=
    if i.operator_i=.MUL_MSU32 then i.op_c_i-i.op_a_i*i.op_b_i else i.op_c_i+i.op_a_i*i.op_b_i := by
  unfold int_result
  by_cases hmsu : i.operator_i=.MUL_MSU32
  · have hnot : i.op_a_i ^^^ BitVec.allOnes 32=-i.op_a_i-1 := by
      rw [BitVec.xor_allOnes,BitVec.not_eq_neg_add]
      rfl
    have hfill : BitVec.fill 32 (i.operator_i==.MUL_MSU32)=BitVec.allOnes 32 := by
      rw [hmsu]
      rfl
    rw [if_pos hmsu]
    dsimp only
    rw [hfill,BitVec.and_allOnes,hnot,sub_mul,neg_mul,one_mul,add_assoc,add_sub_cancel,
      sub_eq_add_neg]
  · have hfill : BitVec.fill 32 (i.operator_i==.MUL_MSU32)=0#32 := by
      rw [beq_eq_false_iff_ne.mpr hmsu]
      rfl
    rw [if_neg hmsu]
    dsimp only
    rw [hfill,BitVec.and_zero,BitVec.xor_zero,BitVec.add_zero]

/-- Words add and multiply as their values do. -/
theorem ofInt_mac {w : ℕ} (c a b : BitVec w) :
    BitVec.ofInt w (c.toInt+a.toInt*b.toInt)=c+a*b := by
  rw [BitVec.ofInt_add,BitVec.ofInt_mul,BitVec.ofInt_toInt,BitVec.ofInt_toInt,BitVec.ofInt_toInt]

theorem ofInt_msu {w : ℕ} (c a b : BitVec w) :
    BitVec.ofInt w (c.toInt-a.toInt*b.toInt)=c-a*b := by
  rw [Int.sub_eq_add_neg,BitVec.ofInt_add,BitVec.ofInt_neg,BitVec.ofInt_mul,BitVec.ofInt_toInt,
    BitVec.ofInt_toInt,BitVec.ofInt_toInt,BitVec.sub_eq_add_neg]

/-- A widened field has the field's value. -/
theorem dotOp_eq (sign : Bool) (x : BitVec 32) {width : ℕ} (hwidth : width < 32) (k : ℕ) :
    dotOp sign x width k=BitVec.ofInt 32 (fieldValue sign x width k) := by
  have hvalue : (dotOp sign x width k).toInt=fieldValue sign x width k := by
    unfold dotOp
    dsimp only
    rw [BitVec.toInt_signExtend_of_le hwidth,toInt_cons_sign]
    rfl
  rw [←hvalue,BitVec.ofInt_toInt]

theorem dot_char_result_eq : dot_char_result i=BitVec.ofInt 32 (i.dot_op_c_i.toInt+dotSum i 8 4) := by
  have hsum : dotSum i 8 4=
      fieldProduct i 8 0+fieldProduct i 8 1+fieldProduct i 8 2+fieldProduct i 8 3 := by
    simp [dotSum,List.range_succ,add_assoc]
  unfold dot_char_result
  simp only [dotOp_eq _ _ (show 8 < 32 by decide),←BitVec.ofInt_mul]
  rw [hsum,add_comm i.dot_op_c_i.toInt,BitVec.ofInt_add,BitVec.ofInt_toInt,BitVec.ofInt_add,
    BitVec.ofInt_add,BitVec.ofInt_add]
  rfl

theorem dot_short_result_eq :
    dot_short_result i=BitVec.ofInt 32 (i.dot_op_c_i.toInt+dotSum i 16 2) := by
  have hsum : dotSum i 16 2=fieldProduct i 16 0+fieldProduct i 16 1 := by
    simp [dotSum,List.range_succ]
  unfold dot_short_result
  simp only [dotOp_eq _ _ (show 16 < 32 by decide),←BitVec.ofInt_mul]
  rw [hsum,add_comm i.dot_op_c_i.toInt,BitVec.ofInt_add,BitVec.ofInt_toInt,BitVec.ofInt_add]
  rfl

/-- The rounding value is half a unit. -/
theorem short_round_toInt : (short_round i).toInt=roundValue i := by
  have hlt := i.imm_i.isLt
  unfold short_round roundValue
  by_cases hround : i.operator_i=.MUL_IR
  · rw [if_pos hround]
    have hnat : (((1#32)<<<i.imm_i)>>>1).toNat=2^i.imm_i.toNat/2 := by
      have hfit : 2^i.imm_i.toNat < 2^32 := Nat.pow_lt_pow_right (by decide) hlt
      rw [BitVec.toNat_ushiftRight,BitVec.shiftLeft_eq',BitVec.toNat_shiftLeft,
        Nat.shiftRight_eq_div_pow,Nat.shiftLeft_eq]
      simp only [BitVec.toNat_ofNat,Nat.reducePow,Nat.reduceMod,Nat.one_mul,Nat.pow_one] at hfit ⊢
      rw [Nat.mod_eq_of_lt hfit]
    have hpos : (((1#32)<<<i.imm_i)>>>1).toInt=(2^i.imm_i.toNat/2 : ℕ) := by
      have hbound : (((1#32)<<<i.imm_i)>>>1).toNat < 2^31 := by
        have hfit : 2^i.imm_i.toNat < 2^32 := Nat.pow_lt_pow_right (by decide) hlt
        omega
      rw [BitVec.toInt_eq_toNat_of_lt (by omega),hnat]
    rw [hpos]
    by_cases hzero : i.imm_i.toNat=0
    · rw [if_neg fun h => h.2.ne' hzero,hzero]
      rfl
    · have hsplit : 2^i.imm_i.toNat=2*2^(i.imm_i.toNat-1) := by
        rw [←pow_succ',Nat.sub_add_cancel (Nat.one_le_iff_ne_zero.mpr hzero)]
      rw [if_pos ⟨hround,Nat.pos_of_ne_zero hzero⟩,hsplit,Nat.mul_div_cancel_left _ (by decide)]
      push_cast
      rfl
  · rw [if_neg hround,if_neg fun h => hround h.1]
    rfl

/-- While the sequence is idle, the path adds the product of the selected halves. -/
theorem short_mac_idle {c : Control} (hc : c.mulh_active=false) (carry : Bool) :
    short_mac c carry i=BitVec.ofInt 34 (shortSum i) := by
  have hwide : ∀ {w : ℕ} (x : BitVec w),w ≤ 34 → x.signExtend 34=BitVec.ofInt 34 x.toInt :=
    fun x hw => by rw [←BitVec.toInt_signExtend_of_le hw,BitVec.ofInt_toInt]
  have hsub : (BitVec.fill 2 i.short_subword_i).getLsbD 0=i.short_subword_i ∧
      (BitVec.fill 2 i.short_subword_i).getLsbD 1=i.short_subword_i := by
    cases i.short_subword_i <;> exact ⟨rfl,rfl⟩
  have hc32 : (i.op_c_i.signExtend 33).toInt=i.op_c_i.toInt :=
    BitVec.toInt_signExtend_of_le (by decide)
  unfold short_mac short_subword short_signed short_op_c
  simp only [hc,Bool.false_eq_true,if_false]
  rw [hwide _ (by decide),hwide _ (by decide),hwide _ (by decide),hwide _ (by decide),shortOp_toInt,
    shortOp_toInt,hc32,short_round_toInt,hsub.1,hsub.2,←BitVec.ofInt_mul,
    ←BitVec.ofInt_add,←BitVec.ofInt_add]
  rfl

/-- A word whose sign is kept or not on top of it, shifted. -/
theorem shifted_eq (arith : Bool) (x : BitVec 32) (n : ℕ) :
    ((BitVec.cons (arith && x.msb) (BitVec.cons (arith && x.msb) x)).sshiftRight n).extractLsb' 0 32=
      shifted arith x n := by
  have hmsb : (BitVec.cons (arith && x.msb) x).msb=(arith && x.msb) := BitVec.msb_cons
  have htop := toInt_cons_sign true (BitVec.cons (arith && x.msb) x)
  rw [hmsb,Bool.true_and,if_pos rfl,toInt_cons_sign] at htop
  rw [sshiftRight_low,htop]
  unfold shifted
  cases arith with
  | true =>
    have hshift : x.toInt/2^n=(x.sshiftRight n).toInt := by
      rw [BitVec.toInt_sshiftRight,Int.shiftRight_eq_div_pow]
      rfl
    rw [if_pos rfl,if_pos rfl,hshift,BitVec.ofInt_toInt]
  | false =>
    rw [if_neg Bool.false_ne_true,if_neg Bool.false_ne_true]
    apply BitVec.eq_of_toNat_eq
    have hlt := x.isLt
    have hle : x.toNat/2^n ≤ x.toNat := Nat.div_le_self _ _
    have hcast : (x.toNat : ℤ)/2^n=((x.toNat/2^n : ℕ) : ℤ) := by push_cast; rfl
    rw [hcast,BitVec.ofInt_natCast,BitVec.toNat_ofNat,BitVec.toNat_ushiftRight,
      Nat.shiftRight_eq_div_pow,Nat.mod_eq_of_lt (by omega)]

theorem short_result_idle {c : Control} (hc : c.mulh_active=false) (carry : Bool) :
    short_result c carry i=
      shifted (i.short_signed_i.getLsbD 0) (BitVec.ofInt 32 (shortSum i)) i.imm_i.toNat := by
  have hlow : (short_mac c carry i).extractLsb' 0 32=BitVec.ofInt 32 (shortSum i) := by
    rw [short_mac_idle hc,extract_ofInt _ _ (by decide)]
    simp
  have hbit : (short_mac c carry i).getLsbD 31=(BitVec.ofInt 32 (shortSum i)).msb := by
    rw [←hlow,BitVec.msb_eq_getLsbD_last,BitVec.getLsbD_extractLsb']
    rfl
  unfold short_result
  simp only [hc,Bool.false_eq_true,if_false]
  rw [hlow,hbit,shifted_eq]

end Words

/-- While the sequence is idle, every result is the integer expression of its operation. The dot
products are those of a multiplier that does not share them. -/
theorem result_idle {SHARED_DSP_MULT : Bool} {s : State} (hidle : s.mulh_CS=.IDLE) (i : Input)
    (hdot : SHARED_DSP_MULT=false ∨ (i.operator_i≠.MUL_DOT8 ∧ i.operator_i≠.MUL_DOT16)) :
    result_o SHARED_DSP_MULT s i=expected i := by
  have hactive : (control s.mulh_CS i).mulh_active=false := by
    rw [hidle]
    rfl
  unfold result_o expected
  cases hop : i.operator_i with
  | MUL_MAC32 =>
    exact (int_result_eq.trans (if_neg (hop ▸ MulOperator.noConfusion))).trans (ofInt_mac _ _ _).symm
  | MUL_MSU32 => exact (int_result_eq.trans (if_pos hop)).trans (ofInt_msu _ _ _).symm
  | MUL_I => exact short_result_idle hactive s.mulh_carry_q
  | MUL_IR => exact short_result_idle hactive s.mulh_carry_q
  | MUL_H => exact short_result_idle hactive s.mulh_carry_q
  | MUL_DOT8 =>
    have hown : SHARED_DSP_MULT=false := hdot.resolve_right fun h => h.1 hop
    rw [hown]
    exact dot_char_result_eq
  | MUL_DOT16 =>
    have hown : SHARED_DSP_MULT=false := hdot.resolve_right fun h => h.2 hop
    rw [hown]
    exact dot_short_result_eq

/-- The rule for a rounded product of two signed upper halves. -/
theorem result_idle_example :
    let i : Input := ⟨true,.MUL_IR,true,3,0x80000000,0x7FFF0000,5,2,0,0,0,0,true⟩
    result_o true ⟨.IDLE,false⟩ i=expected i ∧ expected i=0xF0002001 :=
  ⟨result_idle rfl _ (Or.inr ⟨MulOperator.noConfusion,MulOperator.noConfusion⟩),by decide⟩

end Pulpissimo.Riscv.Mult

import Pulpissimo.Riscv.AluLanes

/-!
# Operations of the arithmetic unit on lanes

The operations on words, half-words and bytes, and what each one computes in a lane alone. The
result of the unit is that operation in every lane, with the shift of the sums taken from the mask
field, and sums of words are rounded by half of the shifted-out weight.
-/

namespace Pulpissimo.Riscv.Alu

open Pulpissimo.Lanes Pulpissimo.Bits

/-- The operations that act on lanes. -/
inductive LaneOp where
  | ADD
  | ADDU
  | SUB
  | SUBU
  | SLL
  | SRL
  | SRA
  | EQ
  | NE
  | GTS
  | GES
  | LTS
  | LES
  | GTU
  | GEU
  | LTU
  | LEU
  | MIN
  | MINU
  | MAX
  | MAXU
  | ABS
deriving DecidableEq

/-- The operator of an operation. -/
def LaneOp.code : LaneOp → BitVec 7
  | .ADD => ALU_ADD
  | .ADDU => ALU_ADDU
  | .SUB => ALU_SUB
  | .SUBU => ALU_SUBU
  | .SLL => ALU_SLL
  | .SRL => ALU_SRL
  | .SRA => ALU_SRA
  | .EQ => ALU_EQ
  | .NE => ALU_NE
  | .GTS => ALU_GTS
  | .GES => ALU_GES
  | .LTS => ALU_LTS
  | .LES => ALU_LES
  | .GTU => ALU_GTU
  | .GEU => ALU_GEU
  | .LTU => ALU_LTU
  | .LEU => ALU_LEU
  | .MIN => ALU_MIN
  | .MINU => ALU_MINU
  | .MAX => ALU_MAX
  | .MAXU => ALU_MAXU
  | .ABS => ALU_ABS

/-- The operation on one lane. Sums are shifted by `n` and comparisons fill the lane. -/
def LaneOp.scalar {w : ℕ} (n : ℕ) (a b : BitVec w) : LaneOp → BitVec w
  | .ADD => (a+b).sshiftRight n
  | .ADDU => (a+b)>>>n
  | .SUB => (a-b).sshiftRight n
  | .SUBU => (a-b)>>>n
  | .SLL => a<<<(b.toNat%w)
  | .SRL => a>>>(b.toNat%w)
  | .SRA => a.sshiftRight (b.toNat%w)
  | .EQ => BitVec.fill w (a==b)
  | .NE => BitVec.fill w (a != b)
  | .GTS => BitVec.fill w (b.slt a)
  | .GES => BitVec.fill w (b.sle a)
  | .LTS => BitVec.fill w (a.slt b)
  | .LES => BitVec.fill w (a.sle b)
  | .GTU => BitVec.fill w (b.ult a)
  | .GEU => BitVec.fill w (b.ule a)
  | .LTU => BitVec.fill w (a.ult b)
  | .LEU => BitVec.fill w (a.ule b)
  | .MIN => if b.slt a then b else a
  | .MINU => if b.ult a then b else a
  | .MAX => if b.slt a then a else b
  | .MAXU => if b.ult a then a else b
  | .ABS => a.abs

section Sum

variable (i : Input) {k : ℕ}

/-- Lanes lie within the word. -/
theorem lane_within (hk : k < 32/i.vector_mode_i.width) :
    i.vector_mode_i.width*k+i.vector_mode_i.width ≤ 32 := by
  have hsize := i.vector_mode_i.width_mul_lanes
  have hle := Nat.mul_le_mul_left i.vector_mode_i.width (Nat.succ_le_of_lt hk)
  rw [Nat.mul_succ] at hle
  omega

theorem width_pos (m : VecMode) : 0 < m.width := by cases m <;> decide

/-- A lane of the difference. -/
theorem lane_sub (habs : (i.operator_i==ALU_ABS)=false) (hneg : adder_op_b_negate i=true)
    (hk : k < 32/i.vector_mode_i.width) :
    lane i.vector_mode_i.width k (adder_result i)=
      lane i.vector_mode_i.width k i.operand_a_i-lane i.vector_mode_i.width k i.operand_b_i := by
  have hcarry : adder_carry i=true := by rw [adder_carry,hneg]; rfl
  have hone : (BitVec.ofBool true).setWidth i.vector_mode_i.width=1 :=
    BitVec.eq_of_toNat_eq (by rw [BitVec.toNat_setWidth]; rfl)
  rw [lane_adder i hk,adder_op_a,habs,if_neg Bool.false_ne_true,adder_op_b,hneg,
    if_pos rfl,lane_not _ (lane_within i hk),hcarry,hone,BitVec.sub_eq_add_neg,
    BitVec.neg_eq_not_add,BitVec.add_assoc]
  rfl

/-- A lane of the sum. -/
theorem lane_add (habs : (i.operator_i==ALU_ABS)=false) (hneg : adder_op_b_negate i=false)
    (hcarry : adder_carry i=false) (hk : k < 32/i.vector_mode_i.width) :
    lane i.vector_mode_i.width k (adder_result i)=
      lane i.vector_mode_i.width k i.operand_a_i+lane i.vector_mode_i.width k i.operand_b_i := by
  have hzero : (BitVec.ofBool false).setWidth i.vector_mode_i.width=0 :=
    BitVec.eq_of_toNat_eq (by rw [BitVec.toNat_setWidth]; exact Nat.zero_mod _)
  rw [lane_adder i hk,adder_op_a,habs,if_neg Bool.false_ne_true,adder_op_b,hneg,
    if_neg Bool.false_ne_true,hcarry,hzero]
  exact BitVec.add_zero _

/-- A lane of the opposite. -/
theorem lane_neg (habs : i.operator_i=ALU_ABS) (hb : i.operand_b_i=0)
    (hk : k < 32/i.vector_mode_i.width) :
    lane i.vector_mode_i.width k (adder_result i)= -lane i.vector_mode_i.width k i.operand_a_i := by
  have hneg : adder_op_b_negate i=false := by rw [adder_op_b_negate,habs]; rfl
  have hcarry : adder_carry i=true := by rw [adder_carry,hneg,habs]; rfl
  have hone : (BitVec.ofBool true).setWidth i.vector_mode_i.width=1 :=
    BitVec.eq_of_toNat_eq (by rw [BitVec.toNat_setWidth]; rfl)
  have hzero : lane i.vector_mode_i.width k (0 : BitVec 32)=0 := lane_zero _ _
  rw [lane_adder i hk,adder_op_a,habs,beq_self_eq_true,if_pos rfl,adder_op_b,hneg,
    if_neg Bool.false_ne_true,hb,hzero,lane_not _ (lane_within i hk),hcarry,hone,
    BitVec.neg_eq_not_add]
  exact congrArg (·+1) (BitVec.add_zero _)

/-- The shift of the sums in every lane. -/
theorem lane_amt_norm (hk : k < 32/i.vector_mode_i.width) :
    (lane i.vector_mode_i.width k (shift_amt_norm i)).toNat%i.vector_mode_i.width=
      i.bmask_b_i.toNat%i.vector_mode_i.width := by
  have hwithin := lane_within i hk
  have hbyte : i.vector_mode_i.bytes*k < 4 := by
    unfold VecMode.width at hwithin
    rw [Nat.mul_right_comm] at hwithin
    cases hm : i.vector_mode_i <;> rw [hm] at hwithin <;> dsimp only [VecMode.bytes] at * <;> omega
  have hdvd : i.vector_mode_i.width ∣ 2^8 := by cases i.vector_mode_i <;> decide
  have hdvd' : 2^8 ∣ 2^i.vector_mode_i.width := by cases i.vector_mode_i <;> decide
  have hlane : lane 8 (i.vector_mode_i.bytes*k) (shift_amt_norm i)=i.bmask_b_i.setWidth 8 :=
    lane_pack (fun _ : Fin 4 => i.bmask_b_i.setWidth 8) ⟨_,hbyte⟩
  have hval := congrArg BitVec.toNat hlane
  have hpow : i.vector_mode_i.width*k=8*(i.vector_mode_i.bytes*k) := by
    rw [VecMode.width,Nat.mul_comm _ 8,Nat.mul_assoc]
  rw [toNat_lane,BitVec.toNat_setWidth_of_le (by omega)] at hval
  rw [toNat_lane,Nat.mod_mod_of_dvd _ (hdvd.trans hdvd'),←Nat.mod_mod_of_dvd _ hdvd,hpow,hval]

/-- A lane of the shifted sum. -/
theorem lane_shift_sum (hleft : shift_left i=false) (hround : shift_use_round i=true)
    (hror : (i.operator_i==ALU_ROR)=false) (hk : k < 32/i.vector_mode_i.width) :
    lane i.vector_mode_i.width k (shift_result i)=
      shifted (shift_arithmetic i) (lane i.vector_mode_i.width k (adder_round_result i))
        (i.bmask_b_i.toNat%i.vector_mode_i.width) := by
  have hop_a : shift_op_a i=adder_round_result i := by
    rw [shift_op_a,hleft,hround,if_neg Bool.false_ne_true,if_pos rfl]
  have hint : shift_amt_int i=shift_amt_norm i := by rw [shift_amt_int,hround,if_pos rfl]
  rw [shift_result,hleft,if_neg Bool.false_ne_true,lane_shift_right i hror hk,hop_a,hint,
    lane_amt_norm i hk]

end Sum

section Extremes

variable (i : Input) {k : ℕ}

theorem width_mul (m : VecMode) (k : ℕ) : m.bytes*k+m.bytes ≤ 4 ↔ m.width*k+m.width ≤ 32 := by
  rw [VecMode.width,Nat.mul_right_comm]
  omega

/-- A lane of the smaller or the greater operand. -/
theorem lane_minmax (hk : k < 32/i.vector_mode_i.width) :
    lane i.vector_mode_i.width k (result_minmax i)=
      if greater (compares_signed i) (lane i.vector_mode_i.width k i.operand_a_i)
          (lane i.vector_mode_i.width k i.operand_b_i) ^^ do_min i
      then lane i.vector_mode_i.width k i.operand_a_i
      else lane i.vector_mode_i.width k (minmax_b i) := by
  generalize hsel : (greater (compares_signed i) (lane i.vector_mode_i.width k i.operand_a_i)
    (lane i.vector_mode_i.width k i.operand_b_i) ^^ do_min i)=sel
  have hagree : ∀ r : Fin 4, i.vector_mode_i.bytes*k ≤ r.val →
      r.val < i.vector_mode_i.bytes*k+i.vector_mode_i.bytes →
      (if sel_minmax i r then lane 8 r i.operand_a_i else lane 8 r (minmax_b i))=
        lane 8 r (if sel then i.operand_a_i else minmax_b i) := by
    intro r hlo hhi
    rw [sel_minmax,is_greater_eq i ⟨hlo,hhi⟩,hsel]
    cases sel <;> rfl
  have hlane := lane_pack_of_agree _ _ hagree ((width_mul _ _).mpr (lane_within i hk))
  refine hlane.trans ?_
  cases sel <;> rfl

/-- A lane of a comparison. -/
theorem lane_compare {c : Bool} (hk : k < 32/i.vector_mode_i.width)
    (hcmp : ∀ r : Fin 4, InLane i.vector_mode_i k r → cmp_result i r=c) :
    lane i.vector_mode_i.width k
        (pack fun r : Fin 4 => BitVec.fill 8 (cmp_result i r) : BitVec (4*8))=
      BitVec.fill i.vector_mode_i.width c := by
  have hwithin := lane_within i hk
  have hfill : ∀ w k, w*k+w ≤ 32 → lane w k (BitVec.fill 32 c)=BitVec.fill w c := by
    intro w k h
    apply BitVec.eq_of_getLsbD_eq
    intro j hj
    rw [getLsbD_lane _ hj,BitVec.getLsbD_fill,BitVec.getLsbD_fill,decide_eq_true (by omega),
      decide_eq_true hj]
  have hagree : ∀ r : Fin 4, i.vector_mode_i.bytes*k ≤ r.val →
      r.val < i.vector_mode_i.bytes*k+i.vector_mode_i.bytes →
      BitVec.fill 8 (cmp_result i r)=lane 8 r (BitVec.fill 32 c) := by
    intro r hlo hhi
    rw [hcmp r ⟨hlo,hhi⟩,hfill 8 r (by omega)]
  have hlane := lane_pack_of_agree _ _ hagree ((width_mul _ _).mpr hwithin)
  exact hlane.trans (hfill _ _ hwithin)

end Extremes

section Order

variable {w : ℕ} (a b : BitVec w)

theorem greater_signed : greater true a b=b.slt a := rfl

theorem greater_unsigned : greater false a b=b.ult a := by
  rw [Bool.eq_iff_iff,greater,decide_eq_true_iff,BitVec.ult,decide_eq_true_iff]
  exact Int.ofNat_lt

theorem greater_or_beq (sign : Bool) : (greater sign a b || a==b)=!greater sign b a := by
  rw [Bool.eq_iff_iff,Bool.or_eq_true,Bool.not_eq_true',greater,greater,decide_eq_true_iff,
    decide_eq_false_iff_not,beq_iff_eq,not_lt]
  constructor
  · rintro (h | rfl)
    · exact h.le
    · exact le_rfl
  · intro h
    rcases h.lt_or_eq with hlt | heq
    · exact Or.inl hlt
    · exact Or.inr (value_inj sign heq.symm)

theorem ge_signed : (greater true a b || a==b)=b.sle a := by
  rw [greater_or_beq,greater_signed,←BitVec.sle_eq_not_slt]

theorem ge_unsigned : (greater false a b || a==b)=b.ule a := by
  rw [greater_or_beq,greater_unsigned,←BitVec.ule_eq_not_ult]

theorem lt_signed : (!(greater true a b || a==b))=a.slt b := by
  rw [greater_or_beq,Bool.not_not,greater_signed]

theorem lt_unsigned : (!(greater false a b || a==b))=a.ult b := by
  rw [greater_or_beq,Bool.not_not,greater_unsigned]

theorem le_signed : (!greater true a b)=a.sle b := by
  rw [greater_signed,←BitVec.sle_eq_not_slt]

theorem le_unsigned : (!greater false a b)=a.ule b := by
  rw [greater_unsigned,←BitVec.ule_eq_not_ult]

theorem smaller_eq (sign : Bool) :
    (if greater sign a b ^^ true then a else b)=if greater sign a b then b else a := by
  cases greater sign a b <;> rfl

theorem minu_eq : (if greater false a b ^^ true then a else b)=if b.ult a then b else a := by
  rw [smaller_eq,greater_unsigned]

theorem maxu_eq : (if greater false a b ^^ false then a else b)=if b.ult a then a else b := by
  rw [Bool.xor_false,greater_unsigned]

/-- The greater one of a number and its opposite. -/
theorem abs_eq : (if greater true a 0 ^^ false then a else -a)=a.abs := by
  have h0 : (0 : BitVec w).toInt=0 := BitVec.toInt_zero
  have hgreater : greater true a 0=decide (0 < a.toInt) := by
    unfold greater value
    rw [if_pos rfl,if_pos rfl,h0]
  rw [Bool.xor_false,hgreater,BitVec.abs]
  cases hmsb : a.msb with
  | true =>
    have hneg := BitVec.toInt_neg_of_msb_true hmsb
    rw [decide_eq_false (by omega),if_neg Bool.false_ne_true,if_pos rfl]
    rfl
  | false =>
    have hpos := BitVec.toInt_nonneg_of_msb_false hmsb
    rw [if_neg Bool.false_ne_true]
    by_cases hlt : 0 < a.toInt
    · rw [decide_eq_true hlt,if_pos rfl]
    · have hzero : a=0 := BitVec.eq_of_toInt_eq (by rw [h0]; omega)
      rw [decide_eq_false hlt,if_neg Bool.false_ne_true,hzero]
      exact BitVec.neg_zero w

end Order

section Result

variable (i : Input) {k : ℕ}

theorem lane_sum (hleft : shift_left i=false) (hround : shift_use_round i=true)
    (hror : (i.operator_i==ALU_ROR)=false) (hzero : adder_round_value i=0)
    (hk : k < 32/i.vector_mode_i.width) :
    lane i.vector_mode_i.width k (shift_result i)=
      shifted (shift_arithmetic i) (lane i.vector_mode_i.width k (adder_result i))
        (i.bmask_b_i.toNat%i.vector_mode_i.width) := by
  have hnone : adder_round_result i=adder_result i := by
    rw [adder_round_result,hzero]
    exact BitVec.add_zero _
  rw [lane_shift_sum i hleft hround hror hk,hnone]

/-- Every lane of the result is the operation on the lanes of the operands. -/
theorem lane_result (other : BitVec 32) (op : LaneOp) (hop : i.operator_i=op.code)
    (habs : op=.ABS → i.operand_b_i=0) (hk : k < 32/i.vector_mode_i.width) :
    lane i.vector_mode_i.width k (result_o i other)=
      op.scalar (i.bmask_b_i.toNat%i.vector_mode_i.width)
        (lane i.vector_mode_i.width k i.operand_a_i)
        (lane i.vector_mode_i.width k i.operand_b_i) := by
  obtain ⟨o,m,a,b,c,x,y⟩ := i
  dsimp only at hop habs hk ⊢
  subst hop
  cases op with
  | ADD =>
    have hsum := lane_sum ⟨ALU_ADD,m,a,b,c,x,y⟩ rfl rfl rfl rfl hk
    rw [lane_add ⟨ALU_ADD,m,a,b,c,x,y⟩ rfl rfl rfl hk] at hsum
    exact hsum
  | ADDU =>
    have hsum := lane_sum ⟨ALU_ADDU,m,a,b,c,x,y⟩ rfl rfl rfl rfl hk
    rw [lane_add ⟨ALU_ADDU,m,a,b,c,x,y⟩ rfl rfl rfl hk] at hsum
    exact hsum
  | SUB =>
    have hsum := lane_sum ⟨ALU_SUB,m,a,b,c,x,y⟩ rfl rfl rfl rfl hk
    rw [lane_sub ⟨ALU_SUB,m,a,b,c,x,y⟩ rfl rfl hk] at hsum
    exact hsum
  | SUBU =>
    have hsum := lane_sum ⟨ALU_SUBU,m,a,b,c,x,y⟩ rfl rfl rfl rfl hk
    rw [lane_sub ⟨ALU_SUBU,m,a,b,c,x,y⟩ rfl rfl hk] at hsum
    exact hsum
  | SLL => exact lane_shift_left ⟨ALU_SLL,m,a,b,c,x,y⟩ rfl rfl rfl rfl rfl hk
  | SRL => exact lane_shift_right ⟨ALU_SRL,m,a,b,c,x,y⟩ rfl hk
  | SRA => exact lane_shift_right ⟨ALU_SRA,m,a,b,c,x,y⟩ rfl hk
  | EQ =>
    refine lane_compare ⟨ALU_EQ,m,a,b,c,x,y⟩ hk (fun r hr => ?_)
    exact is_equal_eq ⟨ALU_EQ,m,a,b,c,x,y⟩ hr
  | NE =>
    refine lane_compare ⟨ALU_NE,m,a,b,c,x,y⟩ hk (fun r hr => ?_)
    exact congrArg (!·) (is_equal_eq ⟨ALU_NE,m,a,b,c,x,y⟩ hr)
  | GTS =>
    refine lane_compare ⟨ALU_GTS,m,a,b,c,x,y⟩ hk (fun r hr => ?_)
    exact (is_greater_eq ⟨ALU_GTS,m,a,b,c,x,y⟩ hr).trans (greater_signed _ _)
  | GES =>
    refine lane_compare ⟨ALU_GES,m,a,b,c,x,y⟩ hk (fun r hr => ?_)
    exact (congrArg₂ (· || ·) (is_greater_eq ⟨ALU_GES,m,a,b,c,x,y⟩ hr)
      (is_equal_eq ⟨ALU_GES,m,a,b,c,x,y⟩ hr)).trans (ge_signed _ _)
  | LTS =>
    refine lane_compare ⟨ALU_LTS,m,a,b,c,x,y⟩ hk (fun r hr => ?_)
    exact (congrArg₂ (fun g e => !(g || e)) (is_greater_eq ⟨ALU_LTS,m,a,b,c,x,y⟩ hr)
      (is_equal_eq ⟨ALU_LTS,m,a,b,c,x,y⟩ hr)).trans (lt_signed _ _)
  | LES =>
    refine lane_compare ⟨ALU_LES,m,a,b,c,x,y⟩ hk (fun r hr => ?_)
    exact (congrArg (!·) (is_greater_eq ⟨ALU_LES,m,a,b,c,x,y⟩ hr)).trans (le_signed _ _)
  | GTU =>
    refine lane_compare ⟨ALU_GTU,m,a,b,c,x,y⟩ hk (fun r hr => ?_)
    exact (is_greater_eq ⟨ALU_GTU,m,a,b,c,x,y⟩ hr).trans (greater_unsigned _ _)
  | GEU =>
    refine lane_compare ⟨ALU_GEU,m,a,b,c,x,y⟩ hk (fun r hr => ?_)
    exact (congrArg₂ (· || ·) (is_greater_eq ⟨ALU_GEU,m,a,b,c,x,y⟩ hr)
      (is_equal_eq ⟨ALU_GEU,m,a,b,c,x,y⟩ hr)).trans (ge_unsigned _ _)
  | LTU =>
    refine lane_compare ⟨ALU_LTU,m,a,b,c,x,y⟩ hk (fun r hr => ?_)
    exact (congrArg₂ (fun g e => !(g || e)) (is_greater_eq ⟨ALU_LTU,m,a,b,c,x,y⟩ hr)
      (is_equal_eq ⟨ALU_LTU,m,a,b,c,x,y⟩ hr)).trans (lt_unsigned _ _)
  | LEU =>
    refine lane_compare ⟨ALU_LEU,m,a,b,c,x,y⟩ hk (fun r hr => ?_)
    exact (congrArg (!·) (is_greater_eq ⟨ALU_LEU,m,a,b,c,x,y⟩ hr)).trans (le_unsigned _ _)
  | MIN => exact (lane_minmax ⟨ALU_MIN,m,a,b,c,x,y⟩ hk).trans (smaller_eq _ _ true)
  | MINU => exact (lane_minmax ⟨ALU_MINU,m,a,b,c,x,y⟩ hk).trans (minu_eq _ _)
  | MAX =>
    refine (lane_minmax ⟨ALU_MAX,m,a,b,c,x,y⟩ hk).trans ?_
    exact congrArg (fun g : Bool => if g then lane m.width k a else lane m.width k b)
      (Bool.xor_false _)
  | MAXU => exact (lane_minmax ⟨ALU_MAXU,m,a,b,c,x,y⟩ hk).trans (maxu_eq _ _)
  | ABS =>
    obtain rfl := habs rfl
    have habs := lane_minmax ⟨ALU_ABS,m,a,0,c,x,y⟩ hk
    rw [minmax_b,if_pos (beq_self_eq_true _),lane_neg ⟨ALU_ABS,m,a,0,c,x,y⟩ rfl rfl hk] at habs
    dsimp only at habs
    rw [lane_zero] at habs
    exact habs.trans (abs_eq _)

/-- The sums and differences that are rounded. -/
def roundCode (sub sign : Bool) : BitVec 7 :=
  match sub,sign with
  | false,true => ALU_ADDR
  | false,false => ALU_ADDUR
  | true,true => ALU_SUBR
  | true,false => ALU_SUBUR

/-- Half of the weight that a shift takes out. -/
def half (n : ℕ) : BitVec 32 := if n=0 then 0 else BitVec.twoPow 32 (n-1)

theorem adder_round_value_eq (hmask : i.bmask_a_i=0)
    (hop : (i.operator_i==ALU_ADDR || i.operator_i==ALU_SUBR || i.operator_i==ALU_ADDUR ||
      i.operator_i==ALU_SUBUR)=true) : adder_round_value i=half i.bmask_b_i.toNat := by
  have hhalf : ∀ n : BitVec 5,
      ((~~~((0xFFFFFFFE : BitVec 32)<<<(0 : BitVec 5)))<<<n)>>>1=half n.toNat := by decide
  rw [adder_round_value,if_pos hop,bmask,bmask_first,hmask,hhalf]

/-- A word shifted after rounding. -/
theorem word_rounded (hmode : i.vector_mode_i=.VEC_MODE32) (hmask : i.bmask_a_i=0)
    (hop : (i.operator_i==ALU_ADDR || i.operator_i==ALU_SUBR || i.operator_i==ALU_ADDUR ||
      i.operator_i==ALU_SUBUR)=true) (hleft : shift_left i=false)
    (hround : shift_use_round i=true) (hror : (i.operator_i==ALU_ROR)=false) :
    shift_result i=shifted (shift_arithmetic i) (adder_result i+half i.bmask_b_i.toNat)
      i.bmask_b_i.toNat := by
  have hlane := lane_shift_sum (k:=0) i hleft hround hror (by rw [hmode]; decide)
  rw [adder_round_result,adder_round_value_eq i hmask hop] at hlane
  obtain ⟨o,m,a,b,c,x,n⟩ := i
  dsimp only at hmode
  subst hmode
  have hmod : n.toNat%VecMode.VEC_MODE32.width=n.toNat := Nat.mod_eq_of_lt n.isLt
  have hself : ∀ x : BitVec 32, lane VecMode.VEC_MODE32.width 0 x=x := lane_self
  dsimp only at hlane ⊢
  rw [hself,hself,hmod] at hlane
  exact hlane

theorem word_add (hmode : i.vector_mode_i=.VEC_MODE32) (habs : (i.operator_i==ALU_ABS)=false)
    (hneg : adder_op_b_negate i=false) (hcarry : adder_carry i=false) :
    adder_result i=i.operand_a_i+i.operand_b_i := by
  have hlane := lane_add (k:=0) i habs hneg hcarry (by rw [hmode]; decide)
  rw [hmode] at hlane
  have hself : ∀ x : BitVec 32, lane VecMode.VEC_MODE32.width 0 x=x := lane_self
  rw [hself,hself,hself] at hlane
  exact hlane

theorem word_sub (hmode : i.vector_mode_i=.VEC_MODE32) (habs : (i.operator_i==ALU_ABS)=false)
    (hneg : adder_op_b_negate i=true) : adder_result i=i.operand_a_i-i.operand_b_i := by
  have hlane := lane_sub (k:=0) i habs hneg (by rw [hmode]; decide)
  rw [hmode] at hlane
  have hself : ∀ x : BitVec 32, lane VecMode.VEC_MODE32.width 0 x=x := lane_self
  rw [hself,hself,hself] at hlane
  exact hlane

/-- Rounded sums of words. -/
theorem rounded_sum (other : BitVec 32) (sub sign : Bool) (hop : i.operator_i=roundCode sub sign)
    (hmode : i.vector_mode_i=.VEC_MODE32) (hmask : i.bmask_a_i=0) :
    result_o i other=shifted sign
      ((if sub then i.operand_a_i-i.operand_b_i else i.operand_a_i+i.operand_b_i)+
        half i.bmask_b_i.toNat) i.bmask_b_i.toNat := by
  obtain ⟨o,m,a,b,c,x,n⟩ := i
  dsimp only at hop hmode hmask ⊢
  subst hop hmode hmask
  match sub,sign with
  | false,true =>
    have hround := word_rounded ⟨ALU_ADDR,.VEC_MODE32,a,b,c,0,n⟩ rfl rfl rfl rfl rfl rfl
    rw [word_add ⟨ALU_ADDR,.VEC_MODE32,a,b,c,0,n⟩ rfl rfl rfl rfl] at hround
    exact hround
  | false,false =>
    have hround := word_rounded ⟨ALU_ADDUR,.VEC_MODE32,a,b,c,0,n⟩ rfl rfl rfl rfl rfl rfl
    rw [word_add ⟨ALU_ADDUR,.VEC_MODE32,a,b,c,0,n⟩ rfl rfl rfl rfl] at hround
    exact hround
  | true,true =>
    have hround := word_rounded ⟨ALU_SUBR,.VEC_MODE32,a,b,c,0,n⟩ rfl rfl rfl rfl rfl rfl
    rw [word_sub ⟨ALU_SUBR,.VEC_MODE32,a,b,c,0,n⟩ rfl rfl rfl] at hround
    exact hround
  | true,false =>
    have hround := word_rounded ⟨ALU_SUBUR,.VEC_MODE32,a,b,c,0,n⟩ rfl rfl rfl rfl rfl rfl
    rw [word_sub ⟨ALU_SUBUR,.VEC_MODE32,a,b,c,0,n⟩ rfl rfl rfl] at hround
    exact hround

/-- Every lane of the result is the operation of the lane's width on the lanes of the operands, and
rounded sums of words are rounded by half of the weight that is shifted out. -/
theorem result_lanes :
    (∀ (i : Input) (other : BitVec 32) (op : LaneOp) (k : ℕ), i.operator_i=op.code →
      (op=.ABS → i.operand_b_i=0) → k < 32/i.vector_mode_i.width →
      lane i.vector_mode_i.width k (result_o i other)=
        op.scalar (i.bmask_b_i.toNat%i.vector_mode_i.width)
          (lane i.vector_mode_i.width k i.operand_a_i)
          (lane i.vector_mode_i.width k i.operand_b_i)) ∧
    ∀ (i : Input) (other : BitVec 32) (sub sign : Bool), i.operator_i=roundCode sub sign →
      i.vector_mode_i=.VEC_MODE32 → i.bmask_a_i=0 →
      result_o i other=shifted sign
        ((if sub then i.operand_a_i-i.operand_b_i else i.operand_a_i+i.operand_b_i)+
          half i.bmask_b_i.toNat) i.bmask_b_i.toNat :=
  ⟨fun i other op _ hop habs hk => lane_result i other op hop habs hk,
    fun i other sub sign hop hmode hmask => rounded_sum i other sub sign hop hmode hmask⟩

/-- The upper half-word of a difference, and a rounded sum. -/
theorem result_lanes_example :
    lane 16 1 (result_o ⟨ALU_SUB,.VEC_MODE16,0x00050000,0x00070001,0,0,1⟩ 0)=0xFFFF ∧
      result_o ⟨ALU_ADDR,.VEC_MODE32,5,6,0,0,2⟩ 0=3 :=
  ⟨(result_lanes.1 ⟨ALU_SUB,.VEC_MODE16,0x00050000,0x00070001,0,0,1⟩ 0 .SUB 1 rfl
      (fun h => nomatch h) (by decide)).trans rfl,
    (result_lanes.2 ⟨ALU_ADDR,.VEC_MODE32,5,6,0,0,2⟩ 0 false true rfl rfl rfl).trans rfl⟩

end Result

end Pulpissimo.Riscv.Alu

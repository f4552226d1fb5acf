import Mathlib.Data.BitVec
import Pulpissimo.Lib.BitTree
import Pulpissimo.Lib.Bits
import Pulpissimo.Riscv.AluDiv

/-!
# Division in the RI5CY arithmetic unit

`riscv_alu` counts the leading bits of the divisor, shifts it to the top and
hands both operands to the serial divider, divisor first. The conditioned
operands satisfy what restoring division needs, so the remainder is exact.
The quotient leaves the divider one bit too high, and the inputs on which that does no
harm are given exactly.
-/

namespace Pulpissimo.Riscv.Alu

open Pulpissimo.Machine Pulpissimo.Bits Pulpissimo.BitTree Pulpissimo.Division

def ALU_DIVU : BitVec 7 := 0b0110000
def ALU_DIV : BitVec 7 := 0b0110001
def ALU_REMU : BitVec 7 := 0b0110010
def ALU_REM : BitVec 7 := 0b0110011
def ALU_CLB : BitVec 7 := 0b0110101
def ALU_FF1 : BitVec 7 := 0b0110110
def ALU_FL1 : BitVec 7 := 0b0110111

/-- Bit reversal. -/
def rev (x : BitVec 32) : BitVec 32 := ofBits (fun k => x.getLsbD (31-k.val))

/-- First one of a word. -/
def first_one_o (in_i : BitVec 32) : BitVec 5 := BitVec.ofNat 5 (index_nodes in_i.getLsbD 4 0)

/-- The word is zero. -/
def no_ones_o (in_i : BitVec 32) : Bool := !sel_nodes in_i.getLsbD 4 0

/-- Population count. -/
def alu_popcnt (in_i : BitVec 32) : BitVec 6 := count_nodes in_i.getLsbD 5 0

/-- Word whose first one is looked for. -/
def ff_input (operator_i : BitVec 7) (operand_a_i : BitVec 32) : BitVec 32 :=
  if operator_i=ALU_FF1 then operand_a_i
  else if operator_i=ALU_DIVU ∨ operator_i=ALU_REMU ∨ operator_i=ALU_FL1 then rev operand_a_i
  else if operator_i=ALU_DIV ∨ operator_i=ALU_REM ∨ operator_i=ALU_CLB then
    if operand_a_i.msb then rev (~~~operand_a_i) else rev operand_a_i
  else 0

/-- Leading bits after the sign, in six bits. -/
def clb_result (operator_i : BitVec 7) (operand_a_i : BitVec 32) : BitVec 6 :=
  (first_one_o (ff_input operator_i operand_a_i)).setWidth 6-1#6

/-- The divisor is negative. -/
def div_op_a_signed (operator_i : BitVec 7) (operand_a_i : BitVec 32) : Bool :=
  operand_a_i.msb && operator_i.getLsbD 0

/-- Shift that normalises the divisor. -/
def div_shift (operator_i : BitVec 7) (operand_a_i : BitVec 32) : BitVec 6 :=
  (if no_ones_o (ff_input operator_i operand_a_i) then 31#6 else clb_result operator_i operand_a_i)+
    (if div_op_a_signed operator_i operand_a_i then 0#6 else 1#6)

/-- Division operators. -/
def div_valid (operator_i : BitVec 7) : Bool :=
  operator_i==ALU_DIV || operator_i==ALU_DIVU || operator_i==ALU_REM || operator_i==ALU_REMU

/-- The left shift of the division operators: the reversed operand goes
through the logical right shifter and back. -/
def shift_left_result (operand_a_i : BitVec 32) (shift_amt : BitVec 32) : BitVec 32 :=
  let shift_op_a_32 : BitVec 64 := 0#32++rev operand_a_i
  rev ((shift_op_a_32>>>(shift_amt.extractLsb' 0 5).toNat).extractLsb' 0 32)

/-- The divider's inputs. -/
def div_i (operator_i : BitVec 7) (operand_a_i operand_b_i : BitVec 32) (ex_ready_i : Bool) :
    AluDiv.Input where
  OpA_DI := operand_b_i
  OpB_DI := shift_left_result operand_a_i ((div_shift operator_i operand_a_i).setWidth 32)
  OpBShift_DI := div_shift operator_i operand_a_i
  OpBIsZero_SI := alu_popcnt operand_a_i == 0#6
  OpBSign_SI := div_op_a_signed operator_i operand_a_i
  OpCode_SI := operator_i.extractLsb' 0 2
  InVld_SI := div_valid operator_i
  OutRdy_SI := ex_ready_i

/-- The remainder of the RISC-V instructions, for both signednesses. -/
def remainderSpec (sign : Bool) (dividend divisor : BitVec 32) : BitVec 32 :=
  if divisor=0#32 then dividend
  else if sign=true then BitVec.ofInt 32 (dividend.toInt.tmod divisor.toInt)
  else BitVec.ofNat 32 (dividend.toNat%divisor.toNat)

/-- The quotient of the RISC-V instructions, for both signednesses. -/
def quotientSpec (sign : Bool) (dividend divisor : BitVec 32) : BitVec 32 :=
  if divisor=0#32 then BitVec.allOnes 32
  else if sign=true then BitVec.ofInt 32 (dividend.toInt.tdiv divisor.toInt)
  else BitVec.ofNat 32 (dividend.toNat/divisor.toNat)

example : remainderSpec true 0x80000000#32 0xffffffff#32=0 := by decide
example : quotientSpec true 0x80000000#32 0xffffffff#32=0x80000000#32 := by decide

/-- Magnitude of an operand. -/
def magnitude (sign : Bool) (x : BitVec 32) : ℕ :=
  if (x.msb && sign)=true then 2^32-x.toNat else x.toNat

theorem getLsbD_rev (x : BitVec 32) {k : ℕ} (hk : k<32) : (rev x).getLsbD k=x.getLsbD (31-k) :=
  getLsbD_ofBits_lt _ hk

/-- A word with its leading one at bit `m`. -/
theorem leading_bounds {x : BitVec 32} {m : ℕ} (hbit : x.getLsbD m=true)
    (habove : ∀ k, m<k → x.getLsbD k=false) : 2^m≤x.toNat ∧ x.toNat<2^(m+1) := by
  refine ⟨Nat.ge_two_pow_of_testBit hbit,Nat.lt_pow_two_of_testBit _ (fun k hk => ?_)⟩
  exact habove k (by omega)

/-- The first one of a reversed word counts its leading zeros. -/
theorem first_one_rev (x : BitVec 32) :
    (no_ones_o (rev x)=true ∧ x=0#32) ∨
      (no_ones_o (rev x)=false ∧ ∃ f, f<32 ∧ first_one_o (rev x)=BitVec.ofNat 5 f ∧
        2^(31-f)≤x.toNat ∧ x.toNat<2^(32-f)) := by
  unfold no_ones_o first_one_o
  cases hsel : sel_nodes (rev x).getLsbD 4 0 with
  | false =>
    refine Or.inl ⟨rfl,?_⟩
    have hzero := eq_false_of_not_sel hsel
    apply BitVec.eq_of_getLsbD_eq
    intro k hk
    have hbit := hzero (31-k) (by omega) (by omega)
    rw [getLsbD_rev x (by omega),show 31-(31-k)=k by omega] at hbit
    simpa using hbit
  | true =>
    obtain ⟨hlo,hhi,hbit,hfirst⟩ := index_of_sel hsel
    generalize index_nodes (rev x).getLsbD 4 0=f at hlo hhi hbit hfirst ⊢
    have hf : f<32 := by omega
    refine Or.inr ⟨rfl,f,hf,rfl,?_⟩
    rw [getLsbD_rev x hf] at hbit
    have hb := leading_bounds hbit (fun k hk => by
      rcases lt_or_ge k 32 with hk32 | hk32
      · have hz := hfirst (31-k) (by omega) (by omega)
        rw [getLsbD_rev x (by omega),show 31-(31-k)=k by omega] at hz
        exact hz
      · exact BitVec.getLsbD_of_ge x k hk32)
    rw [show 31-f+1=32-f by omega] at hb
    exact hb

/-- The population count only tells zero apart here. -/
theorem alu_popcnt_eq_zero (x : BitVec 32) : alu_popcnt x=0#6 ↔ x=0#32 := by
  refine (count_eq_zero_iff x.getLsbD 5 0).trans ⟨fun h => ?_,?_⟩
  · apply BitVec.eq_of_getLsbD_eq
    intro k hk
    simpa using h k (by omega) (by omega)
  · rintro rfl i - -
    simp

/-- The shifter of the division operators is a left shift. -/
theorem shift_left_result_eq (x amt : BitVec 32) :
    shift_left_result x amt=x<<<(amt.extractLsb' 0 5).toNat := by
  have hlt := (amt.extractLsb' 0 5).isLt
  unfold shift_left_result
  generalize (amt.extractLsb' 0 5).toNat=n at hlt ⊢
  apply BitVec.eq_of_getLsbD_eq
  intro k hk
  rw [getLsbD_rev _ hk,BitVec.getLsbD_extractLsb',BitVec.getLsbD_ushiftRight,
    BitVec.getLsbD_append,BitVec.getLsbD_shiftLeft]
  rcases lt_or_ge k n with hkn | hkn
  · simp [hkn,show ¬n+(31-k)<32 by omega]
  · rw [if_pos (by omega),getLsbD_rev _ (by omega)]
    simp [show 31-k<32 by omega,show 31-(n+(31-k))=k-n by omega,show ¬k<n by omega]
    omega

/-- The division operators. -/
theorem div_valid_cases {op : BitVec 7} (h : div_valid op=true) :
    op=ALU_DIV ∨ op=ALU_DIVU ∨ op=ALU_REM ∨ op=ALU_REMU := by
  simpa [div_valid,or_assoc] using h

/-- Leading bits of the divisor are counted on its complement when it is negative. -/
theorem ff_input_div {op : BitVec 7} (h : div_valid op=true) (a : BitVec 32) :
    ff_input op a=if div_op_a_signed op a=true then rev (~~~a) else rev a := by
  rcases div_valid_cases h with rfl | rfl | rfl | rfl <;>
    cases hm : a.msb <;> simp [ff_input,div_op_a_signed,hm,ALU_DIV,ALU_DIVU,ALU_REM,ALU_REMU,ALU_FF1,ALU_CLB,ALU_FL1]

/-- A zero divisor is shifted 32 times. -/
theorem div_shift_zero {op : BitVec 7} (h : div_valid op=true) : div_shift op 0#32=32#6 := by
  rcases div_valid_cases h with rfl | rfl | rfl | rfl <;> decide

/-- Magnitude and sign of an operand. -/
theorem magnitude_lt (sign : Bool) (x : BitVec 32) : magnitude sign x<2^32 := by
  have hx := x.isLt
  unfold magnitude
  split_ifs with h
  · have hm : x.msb=true := by simp_all
    have hge := BitVec.msb_eq_true_iff_two_mul_ge.mp hm
    omega
  · exact hx

/-- Powers of two that multiply to the word size. -/
theorem pow_mul_pow {f k : ℕ} (h : f+k=32) : 2^f*2^k=4294967296 := by
  rw [←pow_add,h]
  rfl

/-- A signed magnitude is at most half the word size. -/
theorem magnitude_signed_le (x : BitVec 32) : magnitude true x≤2^31 := by
  have hx := x.isLt
  unfold magnitude
  cases hm : x.msb with
  | true =>
    have hge := BitVec.msb_eq_true_iff_two_mul_ge.mp hm
    simp only [Bool.true_and,if_true]
    omega
  | false =>
    have hlt := BitVec.msb_eq_false_iff_two_mul_lt.mp hm
    simp only [Bool.false_and,Bool.false_eq_true,if_false]
    omega

/-- The normalised divisor: its top bit is reached without overflow. -/
theorem normalised {op : BitVec 7} (h : div_valid op=true) {a : BitVec 32} (ha : a≠0#32) :
    0 < magnitude (op.getLsbD 0) a ∧ (div_shift op a).toNat<32 ∧
      magnitude (op.getLsbD 0) a*2^(div_shift op a).toNat<2^32 ∧
      (if div_op_a_signed op a=true then
        2^31 < magnitude (op.getLsbD 0) a*2^((div_shift op a).toNat+1)
      else 2^32 ≤ magnitude (op.getLsbD 0) a*2^((div_shift op a).toNat+1)) := by
  have ha0 : a.toNat≠0 := by
    intro h0
    exact ha (BitVec.eq_of_toNat_eq (by simpa using h0))
  have halt := a.isLt
  unfold div_shift clb_result
  rw [ff_input_div h]
  cases hg : div_op_a_signed op a with
  | false =>
    have hb : magnitude (op.getLsbD 0) a=a.toNat := by
      unfold div_op_a_signed at hg
      rw [magnitude,hg]
      rfl
    simp only [Bool.false_eq_true,if_false,hb]
    rcases first_one_rev a with ⟨-,hz⟩ | ⟨hno,f,hf,hfirst,hlo,hhi⟩
    · exact absurd hz ha
    · have hn : (BitVec.setWidth 6 (BitVec.ofNat 5 f)-1#6+1#6).toNat=f := by
        rw [BitVec.sub_add_cancel,BitVec.toNat_setWidth,BitVec.toNat_ofNat]
        omega
      simp only [hno,hfirst,Bool.false_eq_true,if_false]
      rw [hn]
      have hlo' := Nat.mul_le_mul_right (2^(f+1)) hlo
      rw [pow_mul_pow (by omega)] at hlo'
      have hhi' := Nat.mul_lt_mul_of_pos_right hhi (Nat.two_pow_pos f)
      rw [pow_mul_pow (by omega)] at hhi'
      exact ⟨by omega,hf,hhi',hlo'⟩
  | true =>
    have hmsb : a.msb=true := by
      unfold div_op_a_signed at hg
      simp_all
    have hge := BitVec.msb_eq_true_iff_two_mul_ge.mp hmsb
    have hb : magnitude (op.getLsbD 0) a=2^32-a.toNat := by
      unfold div_op_a_signed at hg
      rw [magnitude,hg]
      rfl
    have hnot : (~~~a).toNat=4294967295-a.toNat := BitVec.toNat_not
    simp only [if_true,hb,BitVec.add_zero]
    rcases first_one_rev (~~~a) with ⟨hno,hz⟩ | ⟨hno,f,hf,hfirst,hlo,hhi⟩
    · have ha1 : a.toNat=4294967295 := by
        have hz' := congrArg BitVec.toNat hz
        rw [hnot,BitVec.toNat_ofNat] at hz'
        omega
      simp only [hno,if_true,ha1]
      decide
    · have hf1 : 1≤f := by
        by_contra h0
        have hf0 : f=0 := by omega
        rw [hf0] at hlo
        omega
      have hn : (BitVec.setWidth 6 (BitVec.ofNat 5 f)-1#6).toNat=f-1 := by
        rw [BitVec.toNat_sub,BitVec.toNat_setWidth,BitVec.toNat_ofNat,BitVec.toNat_ofNat]
        omega
      simp only [hno,hfirst,Bool.false_eq_true,if_false]
      rw [hn,show f-1+1=f by omega]
      rw [hnot] at hlo hhi
      have hlo' := Nat.mul_lt_mul_of_pos_right (show 2^(31-f)<2^32-a.toNat by omega) (Nat.two_pow_pos f)
      have hhi' := Nat.mul_le_mul_right (2^(f-1)) (show 2^32-a.toNat≤2^(32-f) by omega)
      have hl : 2^(31-f)*2^f=2147483648 := by
        rw [←pow_add,show 31-f+f=31 by omega]
        rfl
      have hh : 2^(32-f)*2^(f-1)=2147483648 := by
        rw [←pow_add,show 32-f+(f-1)=31 by omega]
        rfl
      rw [hl] at hlo'
      rw [hh] at hhi'
      exact ⟨by omega,by omega,by omega,hlo'⟩

/-- An operand is its magnitude under its sign. -/
theorem signed_magnitude (sign : Bool) (x : BitVec 32) :
    AluDiv.signed (x.msb && sign) (magnitude sign x)=x := by
  have hx := x.isLt
  apply BitVec.eq_of_toNat_eq
  rw [AluDiv.toNat_signed _ (magnitude_lt sign x),magnitude]
  split_ifs with hm
  · have hmsb : x.msb=true := by simp_all
    have hge := BitVec.msb_eq_true_iff_two_mul_ge.mp hmsb
    omega
  · rfl

/-- Shifting a signed magnitude. -/
theorem signed_shiftLeft (neg : Bool) (m n : ℕ) :
    AluDiv.signed neg m<<<n=AluDiv.signed neg (m*2^n) := by
  have hpos : BitVec.ofNat 32 m<<<n=BitVec.ofNat 32 (m*2^n) := by
    apply BitVec.eq_of_toNat_eq
    rw [BitVec.toNat_shiftLeft,BitVec.toNat_ofNat,BitVec.toNat_ofNat,Nat.shiftLeft_eq,
      Nat.mod_mul_mod]
  cases neg with
  | false => exact hpos
  | true =>
    simp only [AluDiv.signed,if_true]
    rw [←hpos,BitVec.shiftLeft_neg]
/-- The dividend is loaded with the divisor's sign. -/
theorem common_sign {o dm sm : Bool} {m : ℕ} {d : BitVec 32} (hd : AluDiv.signed (dm && o) m=d) :
    (if (o && (dm ^^ (sm && o)))=true then -d else d)=AluDiv.signed (sm && o) m := by
  subst hd
  cases o <;> cases dm <;> cases sm <;> simp [AluDiv.signed]

/-- The divider's zero flag. -/
theorem div_i_zero (op : BitVec 7) (dividend divisor : BitVec 32) (r : Bool) :
    (div_i op divisor dividend r).OpBIsZero_SI=true ↔ magnitude (op.getLsbD 0) divisor=0 := by
  have hlt := divisor.isLt
  have hz : divisor=0#32 ↔ divisor.toNat=0 := by
    rw [←BitVec.toNat_inj]
    rfl
  have hp : (div_i op divisor dividend r).OpBIsZero_SI=true ↔ divisor=0#32 := by
    simp only [div_i,beq_iff_eq,alu_popcnt_eq_zero]
  rw [hp,hz,magnitude]
  split_ifs with hm
  · have hmsb : divisor.msb=true := by simp_all
    have hge := BitVec.msb_eq_true_iff_two_mul_ge.mp hmsb
    omega
  · rfl

section Run

variable {op : BitVec 7} (h : div_valid op=true) (dividend divisor : BitVec 32)

include h

/-- The shifted divisor that is loaded, whether or not it is zero. -/
theorem div_i_divisor (r : Bool) :
    (div_i op divisor dividend r).OpB_DI=AluDiv.signed (div_op_a_signed op divisor)
      (magnitude (op.getLsbD 0) divisor*2^(div_shift op divisor).toNat) := by
  have hs : AluDiv.signed (div_op_a_signed op divisor) (magnitude (op.getLsbD 0) divisor)=divisor :=
    signed_magnitude _ divisor
  rw [←signed_shiftLeft,hs]
  simp only [div_i,shift_left_result_eq]
  by_cases hz : divisor=0#32
  · rw [hz]
    simp
  · have hn := (normalised h hz).2.1
    congr 1
    rw [BitVec.extractLsb'_toNat,BitVec.toNat_setWidth]
    omega

/-- The sign of the result is inverted. -/
def inverted (op : BitVec 7) (dividend divisor : BitVec 32) : Bool :=
  (divisor != 0#32 || op.getLsbD 1) && op.getLsbD 0 &&
    (dividend.msb ^^ div_op_a_signed op divisor)

/-- An idle divider takes the operands. -/
theorem load {s : AluDiv.State} (hs : s.State_SP=.IDLE) (r : Bool) :
    AluDiv.Dividing (div_op_a_signed op divisor) (magnitude (op.getLsbD 0) divisor)
      (div_shift op divisor).toNat (magnitude (op.getLsbD 0) dividend) 0 (op.getLsbD 1)
      (inverted op dividend divisor) (AluDiv.step s (div_i op divisor dividend r)) := by
  have hvld : (div_i op divisor dividend r).InVld_SI=true := h
  have hload : AluDiv.LoadEn_S s (div_i op divisor dividend r)=true := by
    simp [AluDiv.LoadEn_S,hs,hvld]
  have hd := signed_magnitude (op.getLsbD 0) dividend
  have hcode : ∀ k<2, (op.extractLsb' 0 2).getLsbD k=op.getLsbD k := by
    intro k hk
    simp [hk]
  refine ⟨?_,?_,?_,?_,?_,?_,?_,?_⟩
  · simp [AluDiv.step,AluDiv.State_SN,hs,hvld]
  · have hpm : AluDiv.PmSel_S s (div_i op divisor dividend r)=
        !(op.getLsbD 0 && (dividend.msb ^^ div_op_a_signed op divisor)) := by
      rw [AluDiv.PmSel_S,hload]
      simp [div_i]
    have hA : (AluDiv.step s (div_i op divisor dividend r)).AReg_DP=
        if (op.getLsbD 0 && (dividend.msb ^^ div_op_a_signed op divisor))=true then -dividend
        else dividend := by
      simp only [AluDiv.step,AluDiv.ARegEn_S,hs,hvld,if_true,AluDiv.AddOut_D,hload,hpm,
        AluDiv.AddMux_D]
      cases (op.getLsbD 0 && (dividend.msb ^^ div_op_a_signed op divisor)) <;> simp [div_i]
    rw [hA]
    exact common_sign hd
  · simp only [AluDiv.step,AluDiv.BRegEn_S,AluDiv.BMux_D,hs,hvld,hload,if_true]
    exact div_i_divisor h dividend divisor r
  · apply BitVec.eq_of_getLsbD_eq
    intro k hk
    simp [AluDiv.quotient,AluDiv.step,hload,getLsbD_ofBits_lt _ hk]
  · simp only [AluDiv.step,hload,if_true]
    simp [div_i]
  · simp only [AluDiv.step,hload,if_true]
    rfl
  · simp only [AluDiv.step,hload,if_true]
    exact hcode 1 (by omega)
  · have hz : (alu_popcnt divisor==0#6)=(divisor==0#32) := by
      rw [Bool.eq_iff_iff,beq_iff_eq,beq_iff_eq,alu_popcnt_eq_zero]
    simp only [AluDiv.step,hload,if_true]
    simp only [inverted,div_i,hz,hcode 0 (by omega),hcode 1 (by omega)]
    rfl

/-- Cycles in which the divider is busy: one to load and one for each pass. -/
def busyCycles (op : BitVec 7) (divisor : BitVec 32) : ℕ := (div_shift op divisor).toNat+2

/-- The raw results: what restoring division leaves in the registers. -/
theorem finish {s : AluDiv.State} (hs : s.State_SP=.IDLE) (busy : List Bool)
    (hbusy : busy.length=busyCycles op divisor) :
    Meets AluDiv.step (fun s i => AluDiv.OutVld_SO s i=false) s
        (busy.map (div_i op divisor dividend)) ∧
      AluDiv.Finished (div_op_a_signed op divisor)
        (magnitude (op.getLsbD 0) dividend%magnitude (op.getLsbD 0) divisor)
        (if divisor=0#32 then 2^33-1
          else magnitude (op.getLsbD 0) dividend/magnitude (op.getLsbD 0) divisor)
        (op.getLsbD 1) (inverted op dividend divisor)
        (after AluDiv.step s (busy.map (div_i op divisor dividend))) := by
  rcases busy with _ | ⟨r,busy⟩
  · simp [busyCycles] at hbusy
  have hlen : (busy.map (div_i op divisor dividend)).length=(div_shift op divisor).toNat+1 := by
    simpa [busyCycles] using hbusy
  have hzero : ∀ i ∈ busy.map (div_i op divisor dividend),
      i.OpBIsZero_SI=true ↔ magnitude (op.getLsbD 0) divisor=0 := by
    intro i hi
    obtain ⟨r,-,rfl⟩ := List.mem_map.mp hi
    exact div_i_zero op dividend divisor r
  have hmag0 : divisor=0#32 → magnitude (op.getLsbD 0) divisor=0 := by
    rintro rfl
    simp [magnitude]
  have hneg : div_op_a_signed op divisor=true → 0 < magnitude (op.getLsbD 0) divisor := by
    intro hg
    by_cases hz : divisor=0#32
    · simp [hz,div_op_a_signed] at hg
    · exact (normalised h hz).1
  have hshift : (div_shift op divisor).toNat<64 := (div_shift op divisor).isLt
  have hbound : magnitude (op.getLsbD 0) divisor*2^(div_shift op divisor).toNat<2^32 := by
    by_cases hz : divisor=0#32
    · rw [hmag0 hz,Nat.zero_mul]
      exact Nat.two_pow_pos 32
    · exact (normalised h hz).2.2.1
  obtain ⟨hready,hdone⟩ := AluDiv.divide_run hneg _ (load h dividend divisor hs r)
    (magnitude_lt _ dividend) hbound hshift _ hlen hzero
  have hidle : AluDiv.OutVld_SO s (div_i op divisor dividend r)=false := by
    simp [AluDiv.OutVld_SO,hs,div_i,h]
  refine ⟨⟨hidle,hready⟩,?_⟩
  rw [List.map_cons,after_cons]
  by_cases hz : divisor=0#32
  · rw [hmag0 hz,passes_zero] at hdone
    rw [hmag0 hz,if_pos hz,Nat.mod_zero]
    rw [hz,div_shift_zero h] at hdone
    rw [hz]
    exact hdone
  · obtain ⟨hpos,hn,-,htop⟩ := normalised h hz
    have hfit : magnitude (op.getLsbD 0) dividend<
        magnitude (op.getLsbD 0) divisor*2^((div_shift op divisor).toNat+1) := by
      have hlt := magnitude_lt (op.getLsbD 0) dividend
      split_ifs at htop with hg
      · have hsign : op.getLsbD 0=true := by
          unfold div_op_a_signed at hg
          simp_all
        have hhalf := magnitude_signed_le dividend
        rw [hsign] at htop ⊢
        omega
      · omega
    rw [passes_eq hpos _ _ _ hfit,Nat.zero_mul,Nat.zero_add] at hdone
    rw [if_neg hz]
    exact hdone

end Run

/-- Signed values by sign and magnitude. -/
theorem toInt_eq_magnitude (x : BitVec 32) :
    x.toInt=if x.msb=true then -(magnitude true x : ℤ) else magnitude true x := by
  have hx := x.isLt
  rw [BitVec.toInt_eq_msb_cond,magnitude]
  cases x.msb <;> simp
  omega

/-- Divider words by sign and magnitude. -/
theorem signed_eq_ofInt (neg : Bool) (m : ℕ) :
    AluDiv.signed neg m=BitVec.ofInt 32 (if neg=true then -(m : ℤ) else m) := by
  cases neg <;> simp [AluDiv.signed,BitVec.ofInt_neg]

/-- The divider's sign correction. -/
theorem signed_correct (neg inv : Bool) (m : ℕ) :
    (if inv=true then -AluDiv.signed neg m else AluDiv.signed neg m)=AluDiv.signed (inv ^^ neg) m := by
  cases neg <;> cases inv <;> simp [AluDiv.signed]

/-- The remainder of the magnitudes has the dividend's sign. -/
theorem signed_remainder (sign : Bool) (dividend divisor : BitVec 32) :
    AluDiv.signed (dividend.msb && sign) (magnitude sign dividend%magnitude sign divisor)=
      if sign=true then BitVec.ofInt 32 (dividend.toInt.tmod divisor.toInt)
      else BitVec.ofNat 32 (dividend.toNat%divisor.toNat) := by
  cases sign with
  | false => simp [AluDiv.signed,magnitude]
  | true =>
    rw [if_pos rfl,signed_eq_ofInt,toInt_eq_magnitude dividend,toInt_eq_magnitude divisor]
    cases dividend.msb <;> cases divisor.msb <;> simp [Int.tmod_eq_emod_of_nonneg]

/-- The quotient of the magnitudes has the sign in which the operands differ. -/
theorem signed_quotient (sign : Bool) (dividend divisor : BitVec 32) :
    AluDiv.signed ((dividend.msb && sign) ^^ (divisor.msb && sign))
        (magnitude sign dividend/magnitude sign divisor)=
      if sign=true then BitVec.ofInt 32 (dividend.toInt.tdiv divisor.toInt)
      else BitVec.ofNat 32 (dividend.toNat/divisor.toNat) := by
  cases sign with
  | false => simp [AluDiv.signed,magnitude]
  | true =>
    rw [if_pos rfl,signed_eq_ofInt,toInt_eq_magnitude dividend,toInt_eq_magnitude divisor]
    cases dividend.msb <;> cases divisor.msb <;> simp

/-- The remainder's sign and magnitude are those of the instruction. -/
theorem remainder_signed {op : BitVec 7} (hrem : op.getLsbD 1=true) (dividend divisor : BitVec 32) :
    AluDiv.signed (inverted op dividend divisor ^^ div_op_a_signed op divisor)
      (magnitude (op.getLsbD 0) dividend%magnitude (op.getLsbD 0) divisor)=
      remainderSpec (op.getLsbD 0) dividend divisor := by
  have hsign : (inverted op dividend divisor ^^ div_op_a_signed op divisor)=
      (dividend.msb && op.getLsbD 0) := by
    unfold inverted div_op_a_signed
    rw [hrem]
    cases op.getLsbD 0 <;> cases dividend.msb <;> cases divisor.msb <;> simp
  rw [hsign]
  unfold remainderSpec
  by_cases hz : divisor=0#32
  · have hmag : magnitude (op.getLsbD 0) divisor=0 := by
      rw [hz]
      simp [magnitude]
    rw [if_pos hz,hmag,Nat.mod_zero,signed_magnitude]
  · rw [if_neg hz]
    exact signed_remainder _ _ _

/-- The quotient's sign and magnitude are those of the instruction. -/
theorem quotient_signed {op : BitVec 7} (hquot : op.getLsbD 1=false) (dividend divisor : BitVec 32) :
    AluDiv.signed (inverted op dividend divisor)
      (if divisor=0#32 then 2^33-1
        else magnitude (op.getLsbD 0) dividend/magnitude (op.getLsbD 0) divisor)=
      quotientSpec (op.getLsbD 0) dividend divisor := by
  unfold quotientSpec
  by_cases hz : divisor=0#32
  · have hinv : inverted op dividend divisor=false := by
      unfold inverted
      rw [hquot,hz]
      simp
    rw [hinv,if_pos hz,if_pos hz]
    decide
  · have hinv : inverted op dividend divisor=
        (op.getLsbD 0 && (dividend.msb ^^ (divisor.msb && op.getLsbD 0))) := by
      have hne : (divisor != 0#32)=true := by simpa using hz
      unfold inverted div_op_a_signed
      rw [hne]
      simp
    rw [hinv,if_neg hz,if_neg hz]
    rw [←signed_quotient,Bool.and_xor_distrib_left,Bool.and_comm dividend.msb]
    cases op.getLsbD 0 <;> simp

section Results

variable {g inv : Bool} {r q : ℕ} {t : AluDiv.State} (outOfRange : Bool)

/-- The remainder leaves the divider as it is. -/
theorem Res_DO_remainder (hf : AluDiv.Finished g r q true inv t) :
    AluDiv.Res_DO outOfRange t=AluDiv.signed (inv ^^ g) r := by
  rw [AluDiv.Res_DO,AluDiv.OutMux_D,hf.remSel,hf.resInv,hf.remainder]
  exact signed_correct g inv r

/-- The quotient leaves it shifted up by one place. -/
theorem Res_DO_quotient (hf : AluDiv.Finished g r q false inv t) :
    AluDiv.Res_DO outOfRange t=AluDiv.signed inv (2*q+outOfRange.toNat) := by
  rw [AluDiv.Res_DO,AluDiv.OutMux_D,hf.remSel,hf.resInv,AluDiv.ResReg_DP_rev_eq,hf.quotient,
    AluDiv.shiftConcat_ofNat]
  rfl

end Results

/-- The result of a division, from any idle state, over any ready stream. -/
theorem finish_stalled {op : BitVec 7} (h : div_valid op=true) (dividend divisor : BitVec 32)
    {s : AluDiv.State} (hs : s.State_SP=.IDLE) {busy stall : List Bool}
    (hbusy : busy.length=busyCycles op divisor) (hstall : ∀ r ∈ stall, r=false) :
    AluDiv.Finished (div_op_a_signed op divisor)
      (magnitude (op.getLsbD 0) dividend%magnitude (op.getLsbD 0) divisor)
      (if divisor=0#32 then 2^33-1
        else magnitude (op.getLsbD 0) dividend/magnitude (op.getLsbD 0) divisor)
      (op.getLsbD 1) (inverted op dividend divisor)
      (after AluDiv.step s ((busy++stall).map (div_i op divisor dividend))) := by
  rw [List.map_append,after_append]
  refine (finish h dividend divisor hs busy hbusy).2.run (fun i hi => ?_)
  obtain ⟨r,hr,rfl⟩ := List.mem_map.mp hi
  exact hstall r hr

/-- Remainders are exact: from any idle state the ready output is low for the
busy cycles, then the remainder stands with ready high over any number of
stalled cycles, and the divider is idle again once it is taken. -/
theorem remainder_correct (outOfRange : Bool) {op : BitVec 7} (hop : op=ALU_REM ∨ op=ALU_REMU)
    {s : AluDiv.State} (hs : s.State_SP=.IDLE) (dividend divisor : BitVec 32)
    {busy stall : List Bool} (hbusy : busy.length=busyCycles op divisor)
    (hstall : ∀ r ∈ stall, r=false) (last : Bool) :
    let cycle := div_i op divisor dividend
    let t := after AluDiv.step s ((busy++stall).map cycle)
    Meets AluDiv.step (fun s i => AluDiv.OutVld_SO s i=false) s (busy.map cycle) ∧
      AluDiv.OutVld_SO t (cycle last)=true ∧
      AluDiv.Res_DO outOfRange t=remainderSpec (op==ALU_REM) dividend divisor ∧
      (last=true → (AluDiv.step t (cycle last)).State_SP=.IDLE) := by
  have hop' : div_valid op=true ∧ op.getLsbD 1=true ∧ (op==ALU_REM)=op.getLsbD 0 := by
    rcases hop with rfl | rfl <;> decide
  obtain ⟨hvalid,hrem,hsign⟩ := hop'
  have hf := finish_stalled hvalid dividend divisor hs hbusy hstall
  dsimp only
  refine ⟨(finish hvalid dividend divisor hs busy hbusy).1,?_,?_,fun hl => ?_⟩
  · rw [AluDiv.OutVld_SO,hf.state]
  · rw [hrem] at hf
    rw [Res_DO_remainder outOfRange hf,hsign]
    exact remainder_signed hrem dividend divisor
  · simp only [AluDiv.step,AluDiv.State_SN]
    rw [hf.state,hl]
    rfl

/-- The remainder of -7 by 2 with one stalled cycle. -/
theorem remainder_correct_run :
    AluDiv.Res_DO false (after AluDiv.step AluDiv.reset
      ((List.replicate 32 false++[false]).map (div_i ALU_REM 2#32 (-7#32))))=-1#32 := by
  have hbusy : (List.replicate 32 false).length=busyCycles ALU_REM 2#32 := by decide
  have hstall : ∀ r ∈ [false], r=false := by decide
  have hrun := (remainder_correct false (Or.inl rfl) (rfl : AluDiv.reset.State_SP=.IDLE) (-7#32) 2#32 hbusy hstall true).2.2.1
  exact hrun.trans (by decide)

/-- The quotient leaves the unit as the instruction defines it, for every
ready stream. -/
def QuotientCorrect (outOfRange : Bool) (op : BitVec 7) (s : AluDiv.State)
    (dividend divisor : BitVec 32) : Prop :=
  ∀ busy stall : List Bool, busy.length=busyCycles op divisor → (∀ r ∈ stall, r=false) →
    AluDiv.Res_DO outOfRange
        (after AluDiv.step s ((busy++stall).map (div_i op divisor dividend)))=
      quotientSpec (op==ALU_DIV) dividend divisor

/-- The quotient that the unit returns, and the one it should return. -/
theorem quotient_result (outOfRange : Bool) {op : BitVec 7} (hop : op=ALU_DIV ∨ op=ALU_DIVU)
    {s : AluDiv.State} (hs : s.State_SP=.IDLE) (dividend divisor : BitVec 32)
    {busy stall : List Bool} (hbusy : busy.length=busyCycles op divisor)
    (hstall : ∀ r ∈ stall, r=false) :
    let q := if divisor=0#32 then 2^33-1
      else magnitude (op==ALU_DIV) dividend/magnitude (op==ALU_DIV) divisor
    AluDiv.Res_DO outOfRange
        (after AluDiv.step s ((busy++stall).map (div_i op divisor dividend)))=
      AluDiv.signed (inverted op dividend divisor) (2*q+outOfRange.toNat) ∧
    quotientSpec (op==ALU_DIV) dividend divisor=AluDiv.signed (inverted op dividend divisor) q := by
  have hop' : div_valid op=true ∧ op.getLsbD 1=false ∧ (op==ALU_DIV)=op.getLsbD 0 := by
    rcases hop with rfl | rfl <;> decide
  obtain ⟨hvalid,hquot,hsign⟩ := hop'
  have hf := finish_stalled hvalid dividend divisor hs hbusy hstall
  rw [hquot] at hf
  rw [hsign]
  exact ⟨Res_DO_quotient outOfRange hf,(quotient_signed hquot dividend divisor).symm⟩
/-- The shifted-up quotient is the quotient only where it is all zeros or all
ones, and the bit shifted in agrees with it. -/
theorem shifted_eq_iff (inv : Bool) (q : ℕ) (x : Bool) :
    AluDiv.signed inv (2*q+x.toNat)=AluDiv.signed inv q ↔ (q+x.toNat)%2^32=0 := by
  have hcancel : AluDiv.signed inv (2*q+x.toNat)=AluDiv.signed inv q ↔
      BitVec.ofNat 32 (2*q+x.toNat)=BitVec.ofNat 32 q := by
    cases inv with
    | false => rfl
    | true =>
      simp only [AluDiv.signed,if_true]
      exact neg_inj
  rw [hcancel,←BitVec.toNat_inj,BitVec.toNat_ofNat,BitVec.toNat_ofNat]
  omega

/-- Where the quotient is all zeros or all ones. -/
theorem quotient_extreme {op : BitVec 7} (hop : op=ALU_DIV ∨ op=ALU_DIVU) (dividend divisor : BitVec 32)
    (x : Bool) :
    ((if divisor=0#32 then 2^33-1
        else magnitude (op==ALU_DIV) dividend/magnitude (op==ALU_DIV) divisor)+x.toNat)%2^32=0 ↔
      (x=false ∧ divisor≠0#32 ∧
          magnitude (op==ALU_DIV) dividend < magnitude (op==ALU_DIV) divisor) ∨
        (x=true ∧ (divisor=0#32 ∨ op=ALU_DIVU ∧ divisor=1#32 ∧ dividend=0xffffffff#32)) := by
  by_cases hz : divisor=0#32
  · cases x <;> simp [hz]
  · have hlt := magnitude_lt (op==ALU_DIV) dividend
    have hpos : 0 < magnitude (op==ALU_DIV) divisor := by
      rcases hop with rfl | rfl
      · exact (normalised (rfl : div_valid ALU_DIV=true) hz).1
      · exact (normalised (rfl : div_valid ALU_DIVU=true) hz).1
    have hq : magnitude (op==ALU_DIV) dividend/magnitude (op==ALU_DIV) divisor≤
        magnitude (op==ALU_DIV) dividend := Nat.div_le_self _ _
    rw [if_neg hz]
    cases x with
    | false =>
      simp only [Bool.toNat_false,Nat.add_zero,ne_eq,hz,not_false_eq_true,true_and,
        Bool.false_eq_true,false_and,or_false]
      rw [Nat.mod_eq_of_lt (by omega),Nat.div_eq_zero_iff]
      omega
    | true =>
      simp only [Bool.toNat_true,hz,false_or,true_and,Bool.true_eq_false,false_and]
      rcases hop with rfl | rfl
      · have hhalf := magnitude_signed_le dividend
        have hsigned : (ALU_DIV==ALU_DIV)=true := rfl
        have hne : ALU_DIV≠ALU_DIVU := by decide
        rw [hsigned] at hq ⊢
        simp only [hne,false_and,iff_false]
        generalize magnitude true dividend/magnitude true divisor=q at hq ⊢
        omega
      · have hunsigned : ∀ y : BitVec 32, magnitude (ALU_DIVU==ALU_DIV) y=y.toNat := by
          intro y
          have hf : (ALU_DIVU==ALU_DIV)=false := rfl
          simp [magnitude,hf]
        rw [hunsigned,hunsigned] at hq ⊢
        rw [hunsigned] at hlt hpos
        have h1 : divisor=1#32 ↔ divisor.toNat=1 := by rw [←BitVec.toNat_inj]; rfl
        have h2 : dividend=0xffffffff#32 ↔ dividend.toNat=4294967295 := by
          rw [←BitVec.toNat_inj]
          rfl
        simp only [h1,h2,true_and]
        constructor
        · intro hmod
          have hfull : dividend.toNat/divisor.toNat=4294967295 := by
            generalize dividend.toNat/divisor.toNat=q at hq hmod ⊢
            omega
          have hmul := Nat.div_mul_le_self dividend.toNat divisor.toNat
          rw [hfull] at hmul
          omega
        · rintro ⟨hd,hn⟩
          rw [hd,hn]
          rfl
/-- Quotients are right exactly where all their bits are zero, or all one, and
the bit read from outside the register agrees with them: the dividend smaller
than the divisor, or a zero divisor or the largest unsigned quotient. -/
theorem quotientCorrect_iff (outOfRange : Bool) {op : BitVec 7} (hop : op=ALU_DIV ∨ op=ALU_DIVU)
    {s : AluDiv.State} (hs : s.State_SP=.IDLE) (dividend divisor : BitVec 32) :
    QuotientCorrect outOfRange op s dividend divisor ↔
      (outOfRange=false ∧ divisor≠0#32 ∧
          magnitude (op==ALU_DIV) dividend < magnitude (op==ALU_DIV) divisor) ∨
        (outOfRange=true ∧
          (divisor=0#32 ∨ op=ALU_DIVU ∧ divisor=1#32 ∧ dividend=0xffffffff#32)) := by
  rw [←quotient_extreme hop,←shifted_eq_iff (inverted op dividend divisor)]
  constructor
  · intro h
    have hlen : (List.replicate (busyCycles op divisor) false).length=busyCycles op divisor :=
      List.length_replicate
    have hnone : ∀ r ∈ ([] : List Bool), r=false := by simp
    obtain ⟨hres,hspec⟩ := quotient_result outOfRange hop hs dividend divisor hlen hnone
    rw [←hres,←hspec]
    exact h _ [] hlen hnone
  · intro heq busy stall hbusy hstall
    obtain ⟨hres,hspec⟩ := quotient_result outOfRange hop hs dividend divisor hbusy hstall
    rw [hres,hspec]
    exact heq

/-- After reset, one by two is right if the missing bit reads as zero. -/
theorem quotientCorrect_iff_run : QuotientCorrect false ALU_DIV AluDiv.reset 1#32 2#32 :=
  (quotientCorrect_iff false (Or.inl rfl) rfl 1#32 2#32).mpr (Or.inl (by decide))

/-- After reset, seven by two gives six or seven, whatever the missing bit reads as. -/
theorem quotient_seven_by_two :
    ¬QuotientCorrect false ALU_DIVU AluDiv.reset 7#32 2#32 ∧
      ¬QuotientCorrect true ALU_DIVU AluDiv.reset 7#32 2#32 := by
  have hwrong : ∀ outOfRange, ¬QuotientCorrect outOfRange ALU_DIVU AluDiv.reset 7#32 2#32 := by
    intro outOfRange h
    have hlen : (List.replicate 32 false).length=busyCycles ALU_DIVU 2#32 := by decide
    have hnone : ∀ r ∈ ([] : List Bool), r=false := by simp
    obtain ⟨hres,-⟩ := quotient_result outOfRange (Or.inr (rfl : ALU_DIVU=ALU_DIVU))
      (rfl : AluDiv.reset.State_SP=.IDLE) 7#32 2#32 hlen hnone
    have hclaim := hres.symm.trans (h _ [] hlen hnone)
    revert hclaim
    cases outOfRange <;> decide
  exact ⟨hwrong false,hwrong true⟩

end Pulpissimo.Riscv.Alu

import Pulpissimo.Lib.Machine
import Pulpissimo.Riscv.AluDivision
import Pulpissimo.Riscv.Mult

/-!
# The execute block of zero-riscy with its multiplier and divider

`zeroriscy_ex_block` gives the adder of `zeroriscy_alu` to the unit that multiplies and
divides, always or for divisions only, and returns the sum to it in the same cycle. The
two units of the core are instances. What they have to compute is the M extension.
-/

namespace Pulpissimo.ZeroRiscy.ExBlock

open Pulpissimo.Machine Pulpissimo.Riscv

section Alu

def ALU_SUB : BitVec 6 := 0b011001
def ALU_LTS : BitVec 6 := 0b000000
def ALU_LTU : BitVec 6 := 0b000001
def ALU_LES : BitVec 6 := 0b000100
def ALU_LEU : BitVec 6 := 0b000101
def ALU_GTS : BitVec 6 := 0b001000
def ALU_GTU : BitVec 6 := 0b001001
def ALU_GES : BitVec 6 := 0b001010
def ALU_GEU : BitVec 6 := 0b001011
def ALU_EQ : BitVec 6 := 0b001100
def ALU_NE : BitVec 6 := 0b001101
def ALU_SLTS : BitVec 6 := 0b000010
def ALU_SLTU : BitVec 6 := 0b000011
def ALU_SLETS : BitVec 6 := 0b000110
def ALU_SLETU : BitVec 6 := 0b000111

/-- What the adder of the ALU reads. -/
structure Alu where
  operator_i : BitVec 6
  operand_a_i : BitVec 32
  operand_b_i : BitVec 32

/-- Operations that subtract. -/
def adder_op_b_negate (operator_i : BitVec 6) : Bool :=
  decide (operator_i ∈ [ALU_SUB,ALU_EQ,ALU_NE,ALU_GTU,ALU_GEU,ALU_LTU,ALU_LEU,ALU_GTS,ALU_GES,
    ALU_LTS,ALU_LES,ALU_SLTS,ALU_SLTU,ALU_SLETS,ALU_SLETU])

def adder_in_a (x : Alu) (multdiv_en_i : Bool) (multdiv_operand_a_i : BitVec 33) : BitVec 33 :=
  if multdiv_en_i then multdiv_operand_a_i else x.operand_a_i++1#1

def adder_in_b (x : Alu) (multdiv_en_i : Bool) (multdiv_operand_b_i : BitVec 33) : BitVec 33 :=
  if multdiv_en_i then multdiv_operand_b_i
  else (x.operand_b_i++0#1) ^^^ (if adder_op_b_negate x.operator_i then BitVec.allOnes 33 else 0)

/-- Results of the adder that the unit gets. -/
structure Adder where
  alu_adder_ext_i : BitVec 34
  alu_adder_i : BitVec 32
  equal_to_zero : Bool

/-- The sum of two operands of 33 bits, of which the lowest makes the carry. -/
def adder (a b : BitVec 33) : Adder :=
  let ext := a.setWidth 34+b.setWidth 34
  ⟨ext,ext.extractLsb' 1 32,ext.extractLsb' 1 32==0⟩

end Alu

section Block

/-- `MD_OP_*`. -/
inductive MdOperator where
  | MULL
  | MULH
  | DIV
  | REM
  deriving DecidableEq

/-- States of the divider. Both units have them, the slow one for multiplications too. -/
inductive MdState where
  | MD_IDLE
  | MD_ABS_A
  | MD_ABS_B
  | MD_COMP
  | MD_LAST
  | MD_CHANGE_SIGN
  | MD_FINISH
  deriving DecidableEq

/-- What the decoder asks of the unit. -/
structure Md where
  mult_en_i : Bool
  div_en_i : Bool
  operator_i : MdOperator
  signed_mode_i : BitVec 2
  op_a_i : BitVec 32
  op_b_i : BitVec 32

/-- A unit that multiplies and divides, as the block sees it. -/
structure Multdiv (σ : Type) where
  /-- Whether the unit has the adder in multiplications too, `MULT_TYPE == 0`. -/
  slow : Bool
  reset : σ
  alu_operand_a_o : σ → Md → BitVec 33
  alu_operand_b_o : σ → Md → BitVec 33
  multdiv_result_o : σ → Md → Adder → BitVec 32
  ready_o : σ → Md → Bool
  step : σ → Md → Adder → σ

/-- One cycle of inputs. -/
structure Input where
  md : Md
  alu : Alu

variable {σ : Type} (u : Multdiv σ)

def multdiv_en_sel (o : Md) : Bool := if u.slow then o.mult_en_i || o.div_en_i else o.div_en_i

/-- The adder's results in a cycle. -/
def sum (s : σ) (i : Input) : Adder :=
  adder (adder_in_a i.alu (multdiv_en_sel u i.md) (u.alu_operand_a_o s i.md))
    (adder_in_b i.alu (multdiv_en_sel u i.md) (u.alu_operand_b_o s i.md))

/-- One clock edge. -/
def step (s : σ) (i : Input) : σ := u.step s i.md (sum u s i)

def multdiv_result (s : σ) (i : Input) : BitVec 32 := u.multdiv_result_o s i.md (sum u s i)

def multdiv_ready (s : σ) (i : Input) : Bool := u.ready_o s i.md

/-- A unit that has the adder gets the sum of its operands. -/
theorem sum_eq {s : σ} {i : Input} (h : multdiv_en_sel u i.md=true) :
    sum u s i=adder (u.alu_operand_a_o s i.md) (u.alu_operand_b_o s i.md) := by
  unfold sum adder_in_a adder_in_b
  rw [h,if_pos rfl,if_pos rfl]

end Block

section Sums

/-- Zero and the carry, the first operand of a negation. -/
def zeroOperand : BitVec 33 := 0#32++1#1

/-- A word negated by its bits, and the carry. -/
def negOperand (x : BitVec 32) : BitVec 33 := ~~~x++1#1

/-- The comparison of a remainder with a divisor, from their difference. Both units have it. -/
def is_greater_equal (reminder denominator : BitVec 32) (res_adder_h : BitVec 33) : Bool :=
  if reminder.getLsbD 31 ^^ denominator.getLsbD 31 then reminder.getLsbD 31
  else !res_adder_h.getLsbD 31

theorem toNat_append_one (x : BitVec 32) : (x++1#1).toNat=2*x.toNat+1 := by
  rw [BitVec.toNat_append,Nat.shiftLeft_eq,BitVec.toNat_one (by omega),Nat.mul_comm]
  exact (Nat.two_pow_add_eq_or_of_lt (by omega) x.toNat).symm

theorem toNat_negOperand (x : BitVec 32) : (negOperand x).toNat=2*(2^32-1-x.toNat)+1 := by
  unfold negOperand
  rw [toNat_append_one,BitVec.toNat_not]

/-- The adder with a carry and a negated word subtracts. -/
theorem toNat_difference (r d : BitVec 32) :
    ((adder (r++1#1) (negOperand d)).alu_adder_ext_i.extractLsb' 1 33).toNat=
      r.toNat+(2^32-d.toNat) := by
  have hr := r.isLt
  have hd := d.isLt
  unfold adder
  rw [BitVec.extractLsb'_toNat,Nat.shiftRight_eq_div_pow,BitVec.toNat_add,BitVec.toNat_setWidth,
    BitVec.toNat_setWidth,toNat_append_one,toNat_negOperand]
  omega

/-- Without its top bit the sum is the difference. -/
theorem setWidth_difference (r d : BitVec 32) :
    ((adder (r++1#1) (negOperand d)).alu_adder_ext_i.extractLsb' 1 33).setWidth 32=r-d := by
  have hdiff := toNat_difference r d
  apply BitVec.eq_of_toNat_eq
  rw [BitVec.toNat_setWidth,hdiff,BitVec.toNat_sub]
  omega

/-- The field below the carry is the sum without the carry in. -/
theorem alu_adder_i_eq (r d : BitVec 32) : (adder (r++1#1) (negOperand d)).alu_adder_i=r-d := by
  rw [←setWidth_difference]
  apply BitVec.eq_of_getLsbD_eq
  intro k hk
  simp only [adder,BitVec.getLsbD_extractLsb',BitVec.getLsbD_setWidth,hk,decide_true,Bool.true_and]
  rw [decide_eq_true (by omega),Bool.true_and]

theorem negate (x : BitVec 32) : (adder zeroOperand (negOperand x)).alu_adder_i= -x :=
  (alu_adder_i_eq 0#32 x).trans (BitVec.zero_sub x)

/-- The negation is zero for zero only. -/
theorem equal_to_zero_iff (x : BitVec 32) :
    (adder zeroOperand (negOperand x)).equal_to_zero=true ↔ x=0#32 := by
  change ((adder zeroOperand (negOperand x)).alu_adder_i==0#32)=true ↔ _
  rw [negate,beq_iff_eq]
  exact neg_eq_zero

theorem getLsbD_31 (x : BitVec 32) : x.getLsbD 31=decide (2^31 ≤ x.toNat) := by
  have hx := x.isLt
  rw [BitVec.getLsbD,Nat.testBit_eq_decide_div_mod_eq,decide_eq_decide]
  omega

/-- The comparison by top bits and difference is that of the words. -/
theorem compare_eq (r d : BitVec 32) : is_greater_equal r d
    ((adder (r++1#1) (negOperand d)).alu_adder_ext_i.extractLsb' 1 33)=decide (d.toNat ≤ r.toNat) := by
  have hr := r.isLt
  have hd := d.isLt
  have hbit : ((adder (r++1#1) (negOperand d)).alu_adder_ext_i.extractLsb' 1 33).getLsbD 31=
      decide ((r.toNat+(2^32-d.toNat))/2^31%2=1) := by
    rw [BitVec.getLsbD,toNat_difference,Nat.testBit_eq_decide_div_mod_eq]
  unfold is_greater_equal
  rw [getLsbD_31,getLsbD_31,hbit]
  by_cases hr31 : 2^31 ≤ r.toNat <;> by_cases hd31 : 2^31 ≤ d.toNat
  · rw [decide_eq_true hr31,decide_eq_true hd31,if_neg nofun,←decide_not,decide_eq_decide]
    omega
  · rw [decide_eq_true hr31,decide_eq_false hd31,if_pos (by decide)]
    exact (decide_eq_true (by omega)).symm
  · rw [decide_eq_false hr31,decide_eq_true hd31,if_pos (by decide)]
    exact (decide_eq_false (by omega)).symm
  · rw [decide_eq_false hr31,decide_eq_false hd31,if_neg nofun,←decide_not,decide_eq_decide]
    omega

/-- Zeros in front widen. -/
theorem zero_append {v w : ℕ} (x : BitVec w) : 0#v++x=x.setWidth (v+w) := by
  apply BitVec.eq_of_toNat_eq
  rw [BitVec.toNat_append,BitVec.toNat_setWidth,BitVec.toNat_ofNat,Nat.zero_mod,Nat.zero_shiftLeft,
    Nat.zero_or,Nat.mod_eq_of_lt]
  exact Nat.lt_of_lt_of_le x.isLt (Nat.pow_le_pow_right (by omega) (by omega))

/-- A widened word is still below. -/
theorem low_setWidth {v w : ℕ} (h : w≤v) (x : BitVec w) : (x.setWidth v).extractLsb' 0 w=x := by
  rw [←BitVec.setWidth_eq_extractLsb' h,BitVec.setWidth_setWidth_of_le _ h,BitVec.setWidth_eq]

theorem low_zero_append (x : BitVec 33) : (0#1++x).extractLsb' 0 32=x.extractLsb' 0 32 := by
  rw [zero_append,←BitVec.setWidth_eq_extractLsb' (by omega),←BitVec.setWidth_eq_extractLsb' (by omega),
    BitVec.setWidth_setWidth_of_le _ (by omega)]

/-- A word moved up by a bit loses its top bit. -/
theorem low_append (x : BitVec 32) (b : BitVec 1) :
    (x++b).extractLsb' 0 32=x.extractLsb' 0 31++b := by
  have hx := x.isLt
  have hb := b.isLt
  have hword : (x++b).toNat=2*x.toNat+b.toNat := by
    rw [BitVec.toNat_append,Nat.shiftLeft_eq,Nat.mul_comm]
    exact (Nat.two_pow_add_eq_or_of_lt hb x.toNat).symm
  have hlow : (x.extractLsb' 0 31++b).toNat=2*(x.toNat%2^31)+b.toNat := by
    rw [BitVec.toNat_append,Nat.shiftLeft_eq,Nat.mul_comm,BitVec.extractLsb'_toNat]
    exact (Nat.two_pow_add_eq_or_of_lt hb _).symm
  apply BitVec.eq_of_toNat_eq
  rw [BitVec.extractLsb'_toNat,hword,hlow,Nat.shiftRight_zero]
  omega

end Sums

section Instructions

/-- The M extension. -/
inductive Instr where
  | MUL
  | MULH
  | MULHSU
  | MULHU
  | DIV
  | DIVU
  | REM
  | REMU
  deriving DecidableEq

/-- The decoder. -/
def Instr.decode (op : Instr) (a b : BitVec 32) : Md :=
  match op with
  | .MUL => ⟨true,false,.MULL,0b00,a,b⟩
  | .MULH => ⟨true,false,.MULH,0b11,a,b⟩
  | .MULHSU => ⟨true,false,.MULH,0b01,a,b⟩
  | .MULHU => ⟨true,false,.MULH,0b00,a,b⟩
  | .DIV => ⟨false,true,.DIV,0b11,a,b⟩
  | .DIVU => ⟨false,true,.DIV,0b00,a,b⟩
  | .REM => ⟨false,true,.REM,0b11,a,b⟩
  | .REMU => ⟨false,true,.REM,0b00,a,b⟩

/-- What a multiplication asks. -/
structure Multiplies (o : Md) : Prop where
  mult : o.mult_en_i=true
  div : o.div_en_i=false
  op : o.operator_i=.MULL ∨ o.operator_i=.MULH

/-- The result that RISC-V defines. -/
def Instr.result (op : Instr) (a b : BitVec 32) : BitVec 32 :=
  match op with
  | .MUL => a*b
  | .MULH => (BitVec.ofInt 64 (a.toInt*b.toInt)).extractLsb' 32 32
  | .MULHSU => (BitVec.ofInt 64 (a.toInt*b.toNat)).extractLsb' 32 32
  | .MULHU => (BitVec.ofInt 64 (a.toNat*b.toNat)).extractLsb' 32 32
  | .DIV => Riscv.Alu.quotientSpec true a b
  | .DIVU => Riscv.Alu.quotientSpec false a b
  | .REM => Riscv.Alu.remainderSpec true a b
  | .REMU => Riscv.Alu.remainderSpec false a b

example : Instr.result .MULHSU 0xFFFFFFFF 0xFFFFFFFF=0xFFFFFFFF := by decide
example : Instr.result .DIV 0x80000000 0xFFFFFFFF=0x80000000 := by decide

variable {σ : Type}

/-- A unit finishes `o` from state `s` in cycle `n`: whatever else is at the ALU, `ready_o`
rises in that cycle, the result is `r` then, and the unit ends in a state that meets `Idle`. -/
def Finishes (u : Multdiv σ) (Idle : σ → Prop) (s : σ) (o : Md) (n : ℕ) (r : BitVec 32) : Prop :=
  ∀ env : ℕ → Input, (∀ t, t≤n → (env t).md=o) →
    (∀ t, t<n → multdiv_ready u (states (step u) s env t) (env t)=false) ∧
    multdiv_ready u (states (step u) s env n) (env n)=true ∧
    multdiv_result u (states (step u) s env n) (env n)=r ∧
    Idle (states (step u) s env (n+1))

variable {u : Multdiv σ} {Idle : σ → Prop} {s : σ} {o : Md} {n : ℕ} {r : BitVec 32}

theorem finishes_zero (hready : u.ready_o s o=true)
    (hresult : ∀ i : Input, i.md=o → multdiv_result u s i=r)
    (hidle : ∀ i : Input, i.md=o → Idle (step u s i)) : Finishes u Idle s o 0 r := by
  intro env henv
  have hmd := henv 0 (Nat.le_refl 0)
  refine ⟨fun t ht => absurd ht (Nat.not_lt_zero t),?_,hresult _ hmd,hidle _ hmd⟩
  unfold multdiv_ready
  rw [hmd]
  exact hready

/-- A cycle before the result. -/
theorem finishes_succ (hready : u.ready_o s o=false)
    (hnext : ∀ i : Input, i.md=o → Finishes u Idle (step u s i) o n r) :
    Finishes u Idle s o (n+1) r := by
  intro env henv
  rcases hnext (env 0) (henv 0 (Nat.zero_le _)) (fun t => env (t+1)) fun t ht =>
    henv (t+1) (Nat.succ_le_succ ht) with ⟨hbusy,hdone,hresult,hidle⟩
  rw [states_shift,states_shift]
  refine ⟨fun t ht => ?_,hdone,hresult,hidle⟩
  cases t with
  | zero =>
    unfold multdiv_ready
    rw [henv 0 (Nat.zero_le _)]
    exact hready
  | succ t =>
    rw [states_shift]
    exact hbusy t (Nat.lt_of_succ_lt_succ ht)

end Instructions

end Pulpissimo.ZeroRiscy.ExBlock

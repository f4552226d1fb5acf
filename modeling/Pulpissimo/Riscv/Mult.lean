import Mathlib.Data.BitVec
import Pulpissimo.Lib.Machine
import Pulpissimo.Lib.Signed

/-!
# The RI5CY multiplier and its multi-cycle upper-half product

`riscv_mult` is a 17 by 17 bit multiply-accumulate path with a subword and
sign selector. The upper half of a 32 by 32 bit product takes four passes
through it, with the running sum held outside in `op_c` and its sign carried
in one register. The passes are related to exact integer sums, step by step.
-/

namespace Pulpissimo.Riscv.Mult

open Pulpissimo.Machine Pulpissimo.Signed

/-- Multiplier operations. -/
inductive MulOperator
  | MUL_MAC32 | MUL_MSU32 | MUL_I | MUL_IR | MUL_DOT8 | MUL_DOT16 | MUL_H
  deriving DecidableEq

/-- States of the upper-half sequence. -/
inductive MulhState
  | IDLE | STEP0 | STEP1 | STEP2 | FINISH
  deriving DecidableEq

/-- Registers of the multiplier. -/
structure State where
  /-- Step of the upper-half sequence. -/
  mulh_CS : MulhState
  /-- Bit 32 of the running sum. -/
  mulh_carry_q : Bool
  deriving DecidableEq

/-- One cycle of inputs. -/
structure Input where
  /-- Multiplication in the EX stage. -/
  enable_i : Bool
  /-- Operation. -/
  operator_i : MulOperator
  /-- Upper half of both operands for a short product. -/
  short_subword_i : Bool
  /-- Signedness of operand a (bit 0) and operand b (bit 1). -/
  short_signed_i : BitVec 2
  /-- First factor. -/
  op_a_i : BitVec 32
  /-- Second factor. -/
  op_b_i : BitVec 32
  /-- Accumulator. -/
  op_c_i : BitVec 32
  /-- Shift after a short product. -/
  imm_i : BitVec 5
  /-- Signedness of the dot product operands. -/
  dot_signed_i : BitVec 2
  /-- First dot product operand. -/
  dot_op_a_i : BitVec 32
  /-- Second dot product operand. -/
  dot_op_b_i : BitVec 32
  /-- Dot product accumulator. -/
  dot_op_c_i : BitVec 32
  /-- The EX stage accepts the result. -/
  ex_ready_i : Bool

/-- Outputs of the sequencer's combinational block. -/
structure Control where
  /-- Next step. -/
  mulh_NS : MulhState
  /-- Shift after this pass. -/
  mulh_imm : BitVec 5
  /-- Operand halves of this pass, a in bit 0 and b in bit 1. -/
  mulh_subword : BitVec 2
  /-- Signedness of this pass. -/
  mulh_signed : BitVec 2
  /-- Keep the sign when shifting. -/
  mulh_shift_arith : Bool
  /-- The result is final. -/
  mulh_ready : Bool
  /-- The sequence owns the datapath. -/
  mulh_active : Bool
  /-- Update the carry from this pass. -/
  mulh_save : Bool
  /-- Clear the carry instead. -/
  mulh_clearcarry : Bool
  /-- The accumulator operand takes this pass's result. -/
  multicycle_o : Bool

/-- The sequencer. -/
def control (cs : MulhState) (i : Input) : Control :=
  match cs with
  | .IDLE =>
    let start := i.operator_i==.MUL_H && i.enable_i
    ⟨if start then .STEP0 else .IDLE,0,0,0,false,!start,false,false,false,false⟩
  | .STEP0 => ⟨.STEP1,16,0,0,false,false,true,false,false,true⟩
  | .STEP1 =>
    ⟨.STEP2,0,0b10,BitVec.ofBool (i.short_signed_i.getLsbD 1)++0#1,true,false,true,true,false,true⟩
  | .STEP2 =>
    ⟨.FINISH,16,0b01,0#1++BitVec.ofBool (i.short_signed_i.getLsbD 0),true,false,true,true,true,true⟩
  | .FINISH =>
    ⟨if i.ex_ready_i then .IDLE else .FINISH,0,0b11,i.short_signed_i,false,true,true,false,false,false⟩

/-- Half of an operand. -/
def half (upper : Bool) (x : BitVec 32) : BitVec 16 :=
  if upper=true then x.extractLsb' 16 16 else x.extractLsb' 0 16

/-- Half of an operand with its gated sign bit on top. -/
def shortOp (upper sign : Bool) (x : BitVec 32) : BitVec 17 :=
  BitVec.cons (sign && (half upper x).msb) (half upper x)

/-- `short_subword` after the choice between a short product and the sequence. -/
def short_subword (c : Control) (i : Input) : BitVec 2 :=
  if c.mulh_active then c.mulh_subword else BitVec.fill 2 i.short_subword_i

/-- `short_signed` after the same choice. -/
def short_signed (c : Control) (i : Input) : BitVec 2 :=
  if c.mulh_active then c.mulh_signed else i.short_signed_i

/-- Rounding value of `MUL_IR`. -/
def short_round (i : Input) : BitVec 32 :=
  if i.operator_i=.MUL_IR then ((1#32)<<<i.imm_i)>>>1 else 0

/-- Accumulator operand, extended by the carry while the sequence runs. -/
def short_op_c (c : Control) (carry : Bool) (i : Input) : BitVec 33 :=
  if c.mulh_active then BitVec.cons carry i.op_c_i else i.op_c_i.signExtend 33

/-- The multiply-accumulate path. -/
def short_mac (c : Control) (carry : Bool) (i : Input) : BitVec 34 :=
  let short_op_a := shortOp ((short_subword c i).getLsbD 0) ((short_signed c i).getLsbD 0) i.op_a_i
  let short_op_b := shortOp ((short_subword c i).getLsbD 1) ((short_signed c i).getLsbD 1) i.op_b_i
  let short_mul := short_op_a.signExtend 34*short_op_b.signExtend 34
  (short_op_c c carry i).signExtend 34+short_mul+(short_round i).signExtend 34

/-- Bits 31 to 0 of the shifted result. -/
def short_result (c : Control) (carry : Bool) (i : Input) : BitVec 32 :=
  let mac := short_mac c carry i
  let arith := if c.mulh_active then c.mulh_shift_arith else i.short_signed_i.getLsbD 0
  let msb1 := if c.mulh_active then mac.getLsbD 33 else mac.getLsbD 31
  let msb0 := if c.mulh_active then mac.getLsbD 32 else mac.getLsbD 31
  let imm := if c.mulh_active then c.mulh_imm else i.imm_i
  let extended : BitVec 34 :=
    BitVec.cons (arith && msb1) (BitVec.cons (arith && msb0) (mac.extractLsb' 0 32))
  (extended.sshiftRight imm.toNat).extractLsb' 0 32

/-- The 32 by 32 bit product's low half with its accumulator. -/
def int_result (i : Input) : BitVec 32 :=
  let msu := BitVec.fill 32 (i.operator_i==.MUL_MSU32)
  i.op_c_i+(i.op_b_i &&& msu)+(i.op_a_i ^^^ msu)*i.op_b_i

/-- Field of a packed operand with its gated sign bit, widened to 32 bits. -/
def dotOp (sign : Bool) (x : BitVec 32) (width k : ℕ) : BitVec 32 :=
  let field := x.extractLsb' (k*width) width
  (BitVec.cons (sign && field.msb) field).signExtend 32

/-- The four byte products and the accumulator. -/
def dot_char_result (i : Input) : BitVec 32 :=
  let term (k : ℕ) := dotOp (i.dot_signed_i.getLsbD 1) i.dot_op_a_i 8 k*
    dotOp (i.dot_signed_i.getLsbD 0) i.dot_op_b_i 8 k
  term 0+term 1+term 2+term 3+i.dot_op_c_i

/-- The two half-word products and the accumulator. -/
def dot_short_result (i : Input) : BitVec 32 :=
  let term (k : ℕ) := dotOp (i.dot_signed_i.getLsbD 1) i.dot_op_a_i 16 k*
    dotOp (i.dot_signed_i.getLsbD 0) i.dot_op_b_i 16 k
  term 0+term 1+i.dot_op_c_i

/-- The result multiplexer. The dot products are absent where they are shared. -/
def result_o (SHARED_DSP_MULT : Bool) (s : State) (i : Input) : BitVec 32 :=
  match i.operator_i with
  | .MUL_MAC32 | .MUL_MSU32 => int_result i
  | .MUL_I | .MUL_IR | .MUL_H => short_result (control s.mulh_CS i) s.mulh_carry_q i
  | .MUL_DOT8 => if SHARED_DSP_MULT then 0 else dot_char_result i
  | .MUL_DOT16 => if SHARED_DSP_MULT then 0 else dot_short_result i

/-- The multiplier's ready output. -/
def ready_o (s : State) (i : Input) : Bool := (control s.mulh_CS i).mulh_ready

/-- The multiplier asks for its result back as accumulator. -/
def multicycle_o (s : State) (i : Input) : Bool := (control s.mulh_CS i).multicycle_o

/-- Values after reset. -/
def reset : State := ⟨.IDLE,false⟩

/-- One clock edge. -/
def step (s : State) (i : Input) : State :=
  let c := control s.mulh_CS i
  ⟨c.mulh_NS,
    if c.mulh_save then !c.mulh_clearcarry && (short_mac c s.mulh_carry_q i).getLsbD 32
    else if i.ex_ready_i then false
    else s.mulh_carry_q⟩

/-- Integer value of an operand under a signedness flag. -/
def operandValue (sign : Bool) (x : BitVec 32) : ℤ := if sign=true then x.toInt else x.toNat

/-- Integer value of an operand half under a signedness flag. -/
def halfValue (upper sign : Bool) (x : BitVec 32) : ℤ :=
  if sign=true then (half upper x).toInt else (half upper x).toNat

/-- A shorter signed operand is its half's value. -/
theorem shortOp_toInt (upper sign : Bool) (x : BitVec 32) :
    (shortOp upper sign x).toInt=halfValue upper sign x := toInt_cons_sign sign (half upper x)

/-- Halves stay within 17 signed bits. -/
theorem halfValue_bounds (upper sign : Bool) (x : BitVec 32) :
    -32768≤halfValue upper sign x ∧ halfValue upper sign x≤65535 := by
  have hlo := (half upper x).le_toInt
  have hhi := (half upper x).toInt_lt
  have hn := (half upper x).isLt
  unfold halfValue
  cases sign <;> simp only [Bool.false_eq_true,if_true,if_false] <;> constructor <;> omega

/-- An unsigned half is a natural number. -/
theorem halfValue_unsigned_nonneg (upper : Bool) (x : BitVec 32) : 0≤halfValue upper false x := by
  simp only [halfValue,Bool.false_eq_true,if_false]
  omega

/-- An operand is its upper half times 65536 plus its unsigned lower half. -/
theorem operandValue_split (sign : Bool) (x : BitVec 32) :
    operandValue sign x=halfValue true sign x*65536+halfValue false false x := by
  have hx := x.isLt
  have hu : (half true x).toNat=x.toNat/65536 := by
    simp only [half,if_true,BitVec.extractLsb'_toNat,Nat.shiftRight_eq_div_pow]
    omega
  have hl : (half false x).toNat=x.toNat%65536 := by
    simp [half,BitVec.extractLsb'_toNat]
  cases sign with
  | false =>
    simp only [operandValue,halfValue,Bool.false_eq_true,if_false,hu,hl]
    omega
  | true =>
    simp only [operandValue,halfValue,if_true,Bool.false_eq_true,if_false,
      BitVec.toInt_eq_toNat_cond,hu,hl]
    split_ifs <;> omega

/-- Bits 63 to 32 of the exact product. -/
def upperProduct (short_signed : BitVec 2) (a b : BitVec 32) : BitVec 32 :=
  (BitVec.ofInt 64 (operandValue (short_signed.getLsbD 0) a*
    operandValue (short_signed.getLsbD 1) b)).extractLsb' 32 32

/-- The four partial products sum to the upper half by three floor steps. -/
theorem upperProduct_eq (g : BitVec 2) (a b : BitVec 32) :
    upperProduct g a b=BitVec.ofInt 32
      (((halfValue false false a*halfValue false false b/65536+
          halfValue false false a*halfValue true (g.getLsbD 1) b)+
        halfValue true (g.getLsbD 0) a*halfValue false false b)/65536+
        halfValue true (g.getLsbD 0) a*halfValue true (g.getLsbD 1) b) := by
  unfold upperProduct
  rw [extract_ofInt _ _ (by omega),operandValue_split _ a,operandValue_split _ b]
  congr 1
  generalize halfValue true (g.getLsbD 0) a=ah
  generalize halfValue true (g.getLsbD 1) b=bh
  generalize halfValue false false a=al
  generalize halfValue false false b=bl
  have hexpand : (ah*65536+al)*(bh*65536+bl)=
      ah*bh*4294967296+(ah*bl+al*bh)*65536+al*bl := by ring
  rw [hexpand]
  omega

/-- Products of halves stay within 33 signed bits. -/
theorem halfProduct_bounds (ua sa ub sb : Bool) (a b : BitVec 32) :
    -2147450880≤halfValue ua sa a*halfValue ub sb b ∧
      halfValue ua sa a*halfValue ub sb b≤4294836225 := by
  have ha := halfValue_bounds ua sa a
  have hb := halfValue_bounds ub sb b
  constructor <;> nlinarith

/-- A pass of the sequence adds the exact product of its halves. -/
theorem short_mac_toInt {c : Control} {i : Input} (ha : c.mulh_active=true)
    (hop : i.operator_i=.MUL_H) (carry : Bool) :
    (short_mac c carry i).toInt=(BitVec.cons carry i.op_c_i).toInt+
      halfValue (c.mulh_subword.getLsbD 0) (c.mulh_signed.getLsbD 0) i.op_a_i*
        halfValue (c.mulh_subword.getLsbD 1) (c.mulh_signed.getLsbD 1) i.op_b_i := by
  have hp := halfProduct_bounds (c.mulh_subword.getLsbD 0) (c.mulh_signed.getLsbD 0)
    (c.mulh_subword.getLsbD 1) (c.mulh_signed.getLsbD 1) i.op_a_i i.op_b_i
  have hlo := (BitVec.cons carry i.op_c_i).le_toInt
  have hhi := (BitVec.cons carry i.op_c_i).toInt_lt
  have hround : (0 : BitVec 32).signExtend 34=0#34 := by decide
  simp only [short_mac,short_subword,short_signed,short_op_c,short_round,ha,hop,if_true,
    reduceCtorEq,if_false,hround,BitVec.add_zero]
  have hmul : ((shortOp (c.mulh_subword.getLsbD 0) (c.mulh_signed.getLsbD 0) i.op_a_i).signExtend 34*
      (shortOp (c.mulh_subword.getLsbD 1) (c.mulh_signed.getLsbD 1) i.op_b_i).signExtend 34).toInt=
      halfValue (c.mulh_subword.getLsbD 0) (c.mulh_signed.getLsbD 0) i.op_a_i*
        halfValue (c.mulh_subword.getLsbD 1) (c.mulh_signed.getLsbD 1) i.op_b_i := by
    rw [toInt_mul_of_fits (by omega)]
    · rw [BitVec.toInt_signExtend_of_le (by omega),BitVec.toInt_signExtend_of_le (by omega),
        shortOp_toInt,shortOp_toInt]
    · rw [BitVec.toInt_signExtend_of_le (by omega),BitVec.toInt_signExtend_of_le (by omega),
        shortOp_toInt,shortOp_toInt]
      unfold Fits
      omega
  rw [toInt_add_of_fits (by omega),hmul,BitVec.toInt_signExtend_of_le (by omega)]
  rw [hmul,BitVec.toInt_signExtend_of_le (by omega)]
  unfold Fits
  omega

/-- Rebuilding a vector from its two top bits and the rest. -/
theorem cons_cons_extract (x : BitVec 34) :
    BitVec.cons (x.getLsbD 33) (BitVec.cons (x.getLsbD 32) (x.extractLsb' 0 32))=x := by
  apply BitVec.eq_of_getLsbD_eq
  intro k hk
  simp only [BitVec.getLsbD_cons,BitVec.getLsbD_extractLsb']
  split_ifs with h0 h1
  · rw [h0]
  · rw [h1]
  · simp [show k<32 by omega]

/-- A vector below `2^32` has zeros on top. -/
theorem cons_false_extract {x : BitVec 34} (h : x.toNat<2^32) :
    BitVec.cons false (BitVec.cons false (x.extractLsb' 0 32))=x := by
  apply BitVec.eq_of_toNat_eq
  simp only [BitVec.toNat_cons',BitVec.extractLsb'_toNat,Bool.toNat_false,Nat.shiftRight_zero]
  omega

/-- The low word of an arithmetic shift is the floor quotient. -/
theorem sshiftRight_low (x : BitVec 34) (k : ℕ) :
    (x.sshiftRight k).extractLsb' 0 32=BitVec.ofInt 32 (x.toInt/2^k) := by
  rw [←BitVec.ofInt_toInt (x := x.sshiftRight k),BitVec.toInt_sshiftRight,
    Int.shiftRight_eq_div_pow,extract_ofInt _ _ (by omega)]
  simp

/-- Result of a pass: the pass's value, shifted. A pass that drops its sign
has to stay below `2^32`. -/
theorem short_result_eq {c : Control} {i : Input} (ha : c.mulh_active=true) (carry : Bool)
    (hs : c.mulh_shift_arith=true ∨ (short_mac c carry i).toNat<2^32) :
    short_result c carry i=
      BitVec.ofInt 32 ((short_mac c carry i).toInt/2^c.mulh_imm.toNat) := by
  simp only [short_result,ha,if_true]
  cases hsa : c.mulh_shift_arith with
  | true => rw [Bool.true_and,Bool.true_and,cons_cons_extract,sshiftRight_low]
  | false =>
    rw [Bool.false_and,Bool.false_and,cons_false_extract,sshiftRight_low]
    exact hs.resolve_left (by simp [hsa])

/-- Without a shift the result is the low word of the pass, whatever its sign. -/
theorem short_result_unshifted {c : Control} {i : Input} (ha : c.mulh_active=true)
    (himm : c.mulh_imm=0) (carry : Bool) :
    short_result c carry i=BitVec.ofInt 32 (short_mac c carry i).toInt := by
  have hlow : ∀ (x y : Bool) (m : BitVec 34),
      ((BitVec.cons x (BitVec.cons y (m.extractLsb' 0 32))).sshiftRight 0).extractLsb' 0 32=
        m.extractLsb' 0 32 := by
    intro x y m
    apply BitVec.eq_of_getLsbD_eq
    intro k hk
    simp [BitVec.getLsbD_cons,show k≠33 by omega,show k≠32 by omega,hk]
  simp only [short_result,ha,himm,if_true]
  rw [show (0 : BitVec 5).toNat=0 from rfl,hlow]
  have hx := extract_ofInt (w := 32) (v := 34) (short_mac c carry i).toInt 0 (by omega)
  rw [BitVec.ofInt_toInt] at hx
  simpa using hx

/-- The saved carry and the low word are the 33 bit running sum. -/
theorem cons_carry (z : ℤ) :
    BitVec.cons ((BitVec.ofInt 34 z).getLsbD 32) (BitVec.ofInt 32 z)=BitVec.ofInt 33 z := by
  have h33 : (BitVec.ofInt 34 z).setWidth 33=BitVec.ofInt 33 z := setWidth_ofInt z (by omega)
  have h32 : (BitVec.ofInt 34 z).setWidth 32=BitVec.ofInt 32 z := setWidth_ofInt z (by omega)
  rw [←h33,←h32]
  apply BitVec.eq_of_getLsbD_eq
  intro k hk
  rw [BitVec.getLsbD_cons]
  split_ifs with h
  · simp [h]
  · simp [show k<32 by omega,hk]

/-- A word extended by a zero carry adds its residue. -/
theorem ofInt_cons_false (z p : ℤ) :
    BitVec.ofInt 32 ((BitVec.cons false (BitVec.ofInt 32 z)).toInt+p)=BitVec.ofInt 32 (z+p) := by
  have hval : (BitVec.cons false (BitVec.ofInt 32 z)).toInt=z%2^32 := by
    have hc := toInt_cons_sign false (BitVec.ofInt 32 z)
    simp only [Bool.false_and,Bool.false_eq_true,if_false,BitVec.toNat_ofInt] at hc
    rw [hc]
    omega
  rw [hval]
  apply BitVec.eq_of_toNat_eq
  simp only [BitVec.toNat_ofInt]
  omega

section Sequence

variable (SHARED_DSP_MULT : Bool) (g : BitVec 2) (a b : BitVec 32)

/-- A cycle of an upper-half product with its operands held, its accumulator
fed back and every other input free. -/
def mulhInput (op_c : BitVec 32) (i : Input) : Input :=
  { i with
    enable_i := true
    operator_i := .MUL_H
    short_signed_i := g
    op_a_i := a
    op_b_i := b
    op_c_i := op_c }

/-- The multiplier with the EX operand register that its result returns to. -/
structure Loop where
  /-- Multiplier registers. -/
  mult : State
  /-- Accumulator operand in the EX stage. -/
  op_c : BitVec 32

/-- One clock edge of both: the accumulator takes the result of every cycle
in which the multiplier asks for it. -/
def Loop.step (l : Loop) (i : Input) : Loop :=
  let j := mulhInput g a b l.op_c i
  ⟨Mult.step l.mult j,
    if multicycle_o l.mult j then result_o SHARED_DSP_MULT l.mult j else l.op_c⟩

/-- Running sum after the first pass. -/
def sum0 : ℤ := halfValue false false a*halfValue false false b/65536

/-- Running sum after the second pass, a signed 33 bit value. -/
def sum1 : ℤ := sum0 a b+halfValue false false a*halfValue true (g.getLsbD 1) b

/-- Running sum after the third pass. -/
def sum2 : ℤ := (sum1 g a b+halfValue true (g.getLsbD 0) a*halfValue false false b)/65536

theorem sum0_bounds : 0 ≤ sum0 a b ∧ sum0 a b≤65535 := by
  have ha0 := halfValue_unsigned_nonneg false a
  have hb0 := halfValue_unsigned_nonneg false b
  have hp : 0≤halfValue false false a*halfValue false false b := mul_nonneg ha0 hb0
  have hq := (halfProduct_bounds false false false false a b).2
  unfold sum0
  constructor <;> omega

theorem sum1_fits : Fits 33 (sum1 g a b) := by
  have h0 := sum0_bounds a b
  have hp := halfProduct_bounds false false true (g.getLsbD 1) a b
  unfold Fits sum1
  omega

/-- Two flags packed as a two-bit vector. -/
theorem flags_getLsbD (x y : Bool) :
    (BitVec.ofBool x++BitVec.ofBool y).getLsbD 0=y ∧
      (BitVec.ofBool x++BitVec.ofBool y).getLsbD 1=x := by
  cases x <;> cases y <;> exact ⟨rfl,rfl⟩

/-- Value of one pass, from the halves and signs its step selects. -/
theorem pass_toInt (cs : MulhState) (op_c : BitVec 32) (i : Input) (carry : Bool)
    (ua ub sa sb : Bool) (hact : (control cs (mulhInput g a b op_c i)).mulh_active=true)
    (hsub : (control cs (mulhInput g a b op_c i)).mulh_subword=BitVec.ofBool ub++BitVec.ofBool ua)
    (hsgn : (control cs (mulhInput g a b op_c i)).mulh_signed=BitVec.ofBool sb++BitVec.ofBool sa) :
    (short_mac (control cs (mulhInput g a b op_c i)) carry (mulhInput g a b op_c i)).toInt=
      (BitVec.cons carry op_c).toInt+halfValue ua sa a*halfValue ub sb b := by
  rw [short_mac_toInt hact rfl,hsub,hsgn,(flags_getLsbD ub ua).1,(flags_getLsbD ub ua).2,
    (flags_getLsbD sb sa).1,(flags_getLsbD sb sa).2]
  rfl

/-- The cycle that starts the sequence leaves the accumulator alone. -/
theorem step_IDLE (op_c : BitVec 32) (i : Input) :
    Loop.step SHARED_DSP_MULT g a b ⟨⟨.IDLE,false⟩,op_c⟩ i=⟨⟨.STEP0,false⟩,op_c⟩ := by
  cases hr : i.ex_ready_i <;> simp [Loop.step,Mult.step,control,mulhInput,multicycle_o,hr]

/-- The first pass leaves the first sum in the accumulator. -/
theorem step_STEP0 (i : Input) :
    Loop.step SHARED_DSP_MULT g a b ⟨⟨.STEP0,false⟩,0⟩ i=
      ⟨⟨.STEP1,false⟩,BitVec.ofInt 32 (sum0 a b)⟩ := by
  have hmac := pass_toInt g a b .STEP0 0 i false false false false false
    rfl rfl rfl
  rw [show (BitVec.cons false (0 : BitVec 32)).toInt=0 by decide,Int.zero_add] at hmac
  have hp := sum0_bounds a b
  have hfit : (short_mac (control .STEP0 (mulhInput g a b 0 i)) false
      (mulhInput g a b 0 i)).toNat<2^32 := by
    rw [BitVec.toInt_eq_toNat_cond] at hmac
    unfold sum0 at hp
    split_ifs at hmac <;> omega
  have hres := short_result_eq (c := control .STEP0 (mulhInput g a b 0 i)) (i := mulhInput g a b 0 i) rfl false
    (Or.inr hfit)
  rw [hmac] at hres
  have hstep : Mult.step ⟨.STEP0,false⟩ (mulhInput g a b 0 i)=⟨.STEP1,false⟩ := by
    cases hr : i.ex_ready_i <;> simp [Mult.step,control,mulhInput,hr]
  exact congrArg₂ Loop.mk hstep hres

/-- The second pass leaves the second sum in the accumulator and the carry. -/
theorem step_STEP1 (i : Input) :
    Loop.step SHARED_DSP_MULT g a b ⟨⟨.STEP1,false⟩,BitVec.ofInt 32 (sum0 a b)⟩ i=
      ⟨⟨.STEP2,(BitVec.ofInt 34 (sum1 g a b)).getLsbD 32⟩,BitVec.ofInt 32 (sum1 g a b)⟩ := by
  have hmac := pass_toInt g a b .STEP1 (BitVec.ofInt 32 (sum0 a b)) i false false true false
    (g.getLsbD 1) rfl rfl rfl
  have hc : (BitVec.cons false (BitVec.ofInt 32 (sum0 a b))).toInt=sum0 a b := by
    have hs := toInt_cons_sign false (BitVec.ofInt 32 (sum0 a b))
    have h0 := sum0_bounds a b
    simp only [Bool.false_and,Bool.false_eq_true,if_false,BitVec.toNat_ofInt] at hs
    omega
  rw [hc] at hmac
  change _=sum1 g a b at hmac
  have hres := short_result_eq (c := control .STEP1 (mulhInput g a b (BitVec.ofInt 32 (sum0 a b)) i))
    (i := mulhInput g a b (BitVec.ofInt 32 (sum0 a b)) i) rfl false (Or.inl rfl)
  have hz : ((control .STEP1 (mulhInput g a b (BitVec.ofInt 32 (sum0 a b)) i)).mulh_imm).toNat=0 := rfl
  rw [hmac,hz,pow_zero,Int.ediv_one] at hres
  have hbit := congrArg (BitVec.ofInt 34) hmac
  rw [BitVec.ofInt_toInt] at hbit
  have hstep : Mult.step ⟨.STEP1,false⟩ (mulhInput g a b (BitVec.ofInt 32 (sum0 a b)) i)=
      ⟨.STEP2,(BitVec.ofInt 34 (sum1 g a b)).getLsbD 32⟩ := by
    rw [←hbit]
    rfl
  exact congrArg₂ Loop.mk hstep hres

/-- The third pass leaves the third sum in the accumulator and drops the carry. -/
theorem step_STEP2 (i : Input) :
    Loop.step SHARED_DSP_MULT g a b
        ⟨⟨.STEP2,(BitVec.ofInt 34 (sum1 g a b)).getLsbD 32⟩,BitVec.ofInt 32 (sum1 g a b)⟩ i=
      ⟨⟨.FINISH,false⟩,BitVec.ofInt 32 (sum2 g a b)⟩ := by
  have hmac := pass_toInt g a b .STEP2 (BitVec.ofInt 32 (sum1 g a b)) i
    ((BitVec.ofInt 34 (sum1 g a b)).getLsbD 32) true false (g.getLsbD 0) false rfl rfl rfl
  rw [cons_carry,toInt_ofInt_of_fits (by omega) (sum1_fits g a b)] at hmac
  have hres := short_result_eq (c := control .STEP2 (mulhInput g a b (BitVec.ofInt 32 (sum1 g a b)) i))
    (i := mulhInput g a b (BitVec.ofInt 32 (sum1 g a b)) i) rfl ((BitVec.ofInt 34 (sum1 g a b)).getLsbD 32) (Or.inl rfl)
  rw [hmac] at hres
  have hstep : Mult.step ⟨.STEP2,(BitVec.ofInt 34 (sum1 g a b)).getLsbD 32⟩
      (mulhInput g a b (BitVec.ofInt 32 (sum1 g a b)) i)=⟨.FINISH,false⟩ := by
    simp [Mult.step,control]
  exact congrArg₂ Loop.mk hstep hres

/-- The last pass presents the upper half of the product. -/
theorem result_FINISH (i : Input) :
    result_o SHARED_DSP_MULT ⟨.FINISH,false⟩ (mulhInput g a b (BitVec.ofInt 32 (sum2 g a b)) i)=
      upperProduct g a b := by
  have hg : g=BitVec.ofBool (g.getLsbD 1)++BitVec.ofBool (g.getLsbD 0) := by
    revert g
    decide
  have hmac := pass_toInt g a b .FINISH (BitVec.ofInt 32 (sum2 g a b)) i false true true
    (g.getLsbD 0) (g.getLsbD 1) rfl rfl hg
  have hres := short_result_unshifted
    (c := control .FINISH (mulhInput g a b (BitVec.ofInt 32 (sum2 g a b)) i))
    (i := mulhInput g a b (BitVec.ofInt 32 (sum2 g a b)) i) rfl rfl false
  rw [hmac,ofInt_cons_false] at hres
  rw [upperProduct_eq]
  exact hres

/-- The finished sequence waits for the EX stage. -/
theorem step_FINISH (op_c : BitVec 32) (i : Input) :
    Loop.step SHARED_DSP_MULT g a b ⟨⟨.FINISH,false⟩,op_c⟩ i=
      ⟨⟨if i.ex_ready_i then .IDLE else .FINISH,false⟩,op_c⟩ := by
  cases hr : i.ex_ready_i <;> simp [Loop.step,Mult.step,control,mulhInput,multicycle_o,hr]

end Sequence

/-- The carry is only set between the second and third pass. -/
theorem carry_run (is : List Input) :
    (after step reset is).mulh_CS≠.STEP2 → (after step reset is).mulh_carry_q=false := by
  have hstep : ∀ (s : State) (i : Input), (s.mulh_CS≠.STEP2 → s.mulh_carry_q=false) →
      ((step s i).mulh_CS≠.STEP2 → (step s i).mulh_carry_q=false) := by
    intro s i hs
    cases hcs : s.mulh_CS <;> simp [step,control,hcs] <;> simp_all
  exact after_invariant hstep (fun _ => rfl) is

/-- The upper-half product, from any idle state reached after reset: four
cycles of not ready, then the exact upper half for as long as the EX stage
stalls, and idle again after it accepts. -/
theorem mulh_correct (SHARED_DSP_MULT : Bool) (g : BitVec 2) (a b : BitVec 32)
    (history : List Input) (hidle : (after step reset history).mulh_CS=.IDLE)
    (i0 i1 i2 i3 : Input) (stall : List Input) (hstall : ∀ i ∈ stall, i.ex_ready_i=false)
    (last : Input) :
    let run := after (Loop.step SHARED_DSP_MULT g a b) ⟨after step reset history,0⟩
    let ready (l : Loop) (i : Input) := ready_o l.mult (mulhInput g a b l.op_c i)
    (ready (run []) i0=false ∧ ready (run [i0]) i1=false ∧ ready (run [i0,i1]) i2=false ∧
      ready (run [i0,i1,i2]) i3=false) ∧
    let l := run ([i0,i1,i2,i3]++stall)
    ready l last=true ∧
      result_o SHARED_DSP_MULT l.mult (mulhInput g a b l.op_c last)=upperProduct g a b ∧
      (last.ex_ready_i=true → (Loop.step SHARED_DSP_MULT g a b l last).mult=reset) := by
  have hstart : after step reset history=⟨.IDLE,false⟩ := by
    have hcarry := carry_run history (by simp [hidle])
    exact State.mk.injEq .. ▸ ⟨hidle,hcarry⟩
  have hwait : ∀ stall : List Input, (∀ i ∈ stall, i.ex_ready_i=false) →
      after (Loop.step SHARED_DSP_MULT g a b) ⟨⟨.FINISH,false⟩,BitVec.ofInt 32 (sum2 g a b)⟩ stall=
        ⟨⟨.FINISH,false⟩,BitVec.ofInt 32 (sum2 g a b)⟩ := by
    intro stall hs
    induction stall with
    | nil => rfl
    | cons i stall ih =>
      rw [after_cons,step_FINISH,hs i (by simp)]
      exact ih (fun j hj => hs j (by simp [hj]))
  have hl : after (Loop.step SHARED_DSP_MULT g a b) ⟨⟨.IDLE,false⟩,0⟩ ([i0,i1,i2,i3]++stall)=
      ⟨⟨.FINISH,false⟩,BitVec.ofInt 32 (sum2 g a b)⟩ := by
    rw [after_append]
    simp only [after_cons,after_nil,step_IDLE,step_STEP0,step_STEP1,step_STEP2]
    exact hwait stall hstall
  rw [hstart]
  dsimp only
  refine ⟨⟨rfl,?_,?_,?_⟩,?_⟩
  · rw [after_cons,after_nil,step_IDLE]
    rfl
  · simp only [after_cons,after_nil,step_IDLE,step_STEP0]
    rfl
  · simp only [after_cons,after_nil,step_IDLE,step_STEP0,step_STEP1]
    rfl
  · rw [hl]
    refine ⟨rfl,result_FINISH SHARED_DSP_MULT g a b last,fun hr => ?_⟩
    rw [step_FINISH,hr]
    rfl

/-- A multiplication cycle with every other input at zero. -/
def mulhCycle (ex_ready : Bool) : Input :=
  ⟨true,.MUL_H,false,0,0,0,0,0,0,0,0,0,ex_ready⟩

/-- `MULHSU` of the most negative and the largest operand, stalled once. -/
theorem mulh_correct_run :
    let run := after (Loop.step false 0b01 0x80000000#32 0xffffffff#32) ⟨after step reset [],0⟩
    let c := mulhCycle true
    let l := run ([c,c,c,c]++[mulhCycle false])
    result_o false l.mult (mulhInput 0b01 0x80000000#32 0xffffffff#32 l.op_c c)=0x80000000#32 ∧
      (Loop.step false 0b01 0x80000000#32 0xffffffff#32 l c).mult=reset := by
  have hrun := (mulh_correct false 0b01 0x80000000#32 0xffffffff#32 [] rfl (mulhCycle true)
    (mulhCycle true) (mulhCycle true) (mulhCycle true) [mulhCycle false] (by decide)
    (mulhCycle true)).2
  have hupper : upperProduct 0b01 0x80000000#32 0xffffffff#32=0x80000000#32 := by decide
  exact ⟨hrun.2.1.trans hupper,hrun.2.2 rfl⟩

end Pulpissimo.Riscv.Mult

import Pulpissimo.Lib.Indices
import Pulpissimo.Lib.Lanes
import Pulpissimo.Riscv.AluDivision

/-!
# Datapath of the arithmetic unit

`riscv_alu` has one adder with a break in front of every byte, one shifter to the right between
two bit reversals and one comparator for each byte, which serve words, half-words and bytes. The
bit operations use the shifter and a mask of two shifts. Packing, clipping and division are blocks
beside these, and there is no floating point unit.
-/

namespace Pulpissimo.Riscv.Alu

open Pulpissimo.Lanes

def ALU_ADD : BitVec 7 := 0b0011000
def ALU_SUB : BitVec 7 := 0b0011001
def ALU_ADDU : BitVec 7 := 0b0011010
def ALU_SUBU : BitVec 7 := 0b0011011
def ALU_ADDR : BitVec 7 := 0b0011100
def ALU_SUBR : BitVec 7 := 0b0011101
def ALU_ADDUR : BitVec 7 := 0b0011110
def ALU_SUBUR : BitVec 7 := 0b0011111
def ALU_XOR : BitVec 7 := 0b0101111
def ALU_OR : BitVec 7 := 0b0101110
def ALU_AND : BitVec 7 := 0b0010101
def ALU_SRA : BitVec 7 := 0b0100100
def ALU_SRL : BitVec 7 := 0b0100101
def ALU_ROR : BitVec 7 := 0b0100110
def ALU_SLL : BitVec 7 := 0b0100111
def ALU_BEXT : BitVec 7 := 0b0101000
def ALU_BEXTU : BitVec 7 := 0b0101001
def ALU_BINS : BitVec 7 := 0b0101010
def ALU_BCLR : BitVec 7 := 0b0101011
def ALU_BSET : BitVec 7 := 0b0101100
def ALU_CNT : BitVec 7 := 0b0110100
def ALU_LTS : BitVec 7 := 0b0000000
def ALU_LTU : BitVec 7 := 0b0000001
def ALU_LES : BitVec 7 := 0b0000100
def ALU_LEU : BitVec 7 := 0b0000101
def ALU_GTS : BitVec 7 := 0b0001000
def ALU_GTU : BitVec 7 := 0b0001001
def ALU_GES : BitVec 7 := 0b0001010
def ALU_GEU : BitVec 7 := 0b0001011
def ALU_EQ : BitVec 7 := 0b0001100
def ALU_NE : BitVec 7 := 0b0001101
def ALU_SLTS : BitVec 7 := 0b0000010
def ALU_SLTU : BitVec 7 := 0b0000011
def ALU_SLETS : BitVec 7 := 0b0000110
def ALU_SLETU : BitVec 7 := 0b0000111
def ALU_ABS : BitVec 7 := 0b0010100
def ALU_CLIP : BitVec 7 := 0b0010110
def ALU_CLIPU : BitVec 7 := 0b0010111
def ALU_MIN : BitVec 7 := 0b0010000
def ALU_MINU : BitVec 7 := 0b0010001
def ALU_MAX : BitVec 7 := 0b0010010
def ALU_MAXU : BitVec 7 := 0b0010011

/-- Widths of the lanes. -/
inductive VecMode where
  | VEC_MODE32
  | VEC_MODE16
  | VEC_MODE8
deriving DecidableEq

/-- Operands of an operation. -/
structure Input where
  operator_i : BitVec 7
  vector_mode_i : VecMode
  operand_a_i : BitVec 32
  operand_b_i : BitVec 32
  operand_c_i : BitVec 32
  bmask_a_i : BitVec 5
  bmask_b_i : BitVec 5

/-- Four bits, one for each byte. -/
abbrev PerByte := Fin 4 → Bool

section Adder

/-- An operand with a bit in front of every byte. -/
def interleave (x : BitVec 32) (c : PerByte) : BitVec 36 :=
  pack fun k : Fin 4 => lane 8 k x++BitVec.ofBool (c k)

variable (i : Input)

def adder_op_b_negate : Bool :=
  i.operator_i==ALU_SUB || i.operator_i==ALU_SUBR || i.operator_i==ALU_SUBU ||
    i.operator_i==ALU_SUBUR

def adder_op_a : BitVec 32 := if i.operator_i==ALU_ABS then ~~~i.operand_a_i else i.operand_a_i

def adder_op_b : BitVec 32 := if adder_op_b_negate i then ~~~i.operand_b_i else i.operand_b_i

/-- The operations that add one in every lane. -/
def adder_carry : Bool :=
  adder_op_b_negate i || i.operator_i==ALU_ABS || i.operator_i==ALU_CLIP

/-- The bytes in front of which a lane starts, other than the first one. -/
def breaks (m : VecMode) : PerByte :=
  match m with
  | .VEC_MODE32 => fun _ => false
  | .VEC_MODE16 => fun k => k==2
  | .VEC_MODE8 => fun k => k != 0

def adder_in_a : BitVec 36 :=
  interleave (adder_op_a i) fun k => adder_carry i || !breaks i.vector_mode_i k

def adder_in_b : BitVec 36 :=
  interleave (adder_op_b i) fun k => adder_carry i && (k==0 || breaks i.vector_mode_i k)

def adder_result_expanded : BitVec 37 := (adder_in_a i).signExtend 37+(adder_in_b i).signExtend 37

def adder_result : BitVec 32 :=
  pack fun k : Fin 4 => (adder_result_expanded i).extractLsb' (9*k+1) 8

def bmask_first : BitVec 32 := (0xFFFFFFFE : BitVec 32)<<<i.bmask_a_i

def bmask : BitVec 32 := (~~~bmask_first i)<<<i.bmask_b_i

def adder_round_value : BitVec 32 :=
  if i.operator_i==ALU_ADDR || i.operator_i==ALU_SUBR || i.operator_i==ALU_ADDUR ||
    i.operator_i==ALU_SUBUR then bmask i>>>1 else 0

def adder_round_result : BitVec 32 := adder_result i+adder_round_value i

end Adder

section Shift

variable (i : Input)

def shift_amt : BitVec 32 :=
  if div_valid i.operator_i then (div_shift i.operator_i i.operand_a_i).setWidth 32
  else i.operand_b_i

/-- The amounts in the order of the lanes of a reversed word. -/
def shift_amt_left : BitVec 32 :=
  match i.vector_mode_i with
  | .VEC_MODE16 => pack fun k : Fin 2 => lane 16 (1-k) (shift_amt i)
  | .VEC_MODE8 => pack fun k : Fin 4 => lane 8 (3-k) (shift_amt i)
  | .VEC_MODE32 => shift_amt i

def shift_left : Bool :=
  i.operator_i==ALU_SLL || i.operator_i==ALU_BINS || i.operator_i==ALU_FL1 ||
    i.operator_i==ALU_CLB || i.operator_i==ALU_DIV || i.operator_i==ALU_DIVU ||
    i.operator_i==ALU_REM || i.operator_i==ALU_REMU

def shift_use_round : Bool :=
  i.operator_i==ALU_ADD || i.operator_i==ALU_SUB || i.operator_i==ALU_ADDR ||
    i.operator_i==ALU_SUBR || i.operator_i==ALU_ADDU || i.operator_i==ALU_SUBU ||
    i.operator_i==ALU_ADDUR || i.operator_i==ALU_SUBUR

def shift_arithmetic : Bool :=
  i.operator_i==ALU_SRA || i.operator_i==ALU_BEXT || i.operator_i==ALU_ADD ||
    i.operator_i==ALU_SUB || i.operator_i==ALU_ADDR || i.operator_i==ALU_SUBR

def shift_op_a : BitVec 32 :=
  if shift_left i then rev i.operand_a_i
  else if shift_use_round i then adder_round_result i else i.operand_a_i

def shift_amt_norm : BitVec 32 :=
  pack fun _ : Fin 4 => i.bmask_b_i.setWidth 8

def shift_amt_int : BitVec 32 :=
  if shift_use_round i then shift_amt_norm i
  else if shift_left i then shift_amt_left i else shift_amt i

def shift_op_a_32 : BitVec 64 :=
  if i.operator_i==ALU_ROR then shift_op_a i++shift_op_a i
  else BitVec.fill 32 (shift_arithmetic i && (shift_op_a i).msb)++shift_op_a i

/-- A lane with its gated sign bit on top, shifted by the low bits of the amount at its place. -/
def shift_lane (w bits k : ℕ) : BitVec w :=
  ((BitVec.cons (shift_arithmetic i && (lane w k (shift_op_a i)).msb)
    (lane w k (shift_op_a i))).sshiftRight
      ((shift_amt_int i).extractLsb' (w*k) bits).toNat).setWidth w

def shift_right_result : BitVec 32 :=
  match i.vector_mode_i with
  | .VEC_MODE16 => pack fun k : Fin 2 => shift_lane i 16 4 k
  | .VEC_MODE8 => pack fun k : Fin 4 => shift_lane i 8 3 k
  | .VEC_MODE32 =>
    (shift_op_a_32 i>>>((shift_amt_int i).extractLsb' 0 5).toNat).setWidth 32

def shift_result : BitVec 32 :=
  if shift_left i then rev (shift_right_result i) else shift_right_result i

end Shift

section Compare

variable (i : Input)

/-- The operations that compare with signs. -/
def compares_signed : Bool :=
  i.operator_i==ALU_GTS || i.operator_i==ALU_GES || i.operator_i==ALU_LTS ||
    i.operator_i==ALU_LES || i.operator_i==ALU_SLTS || i.operator_i==ALU_SLETS ||
    i.operator_i==ALU_MIN || i.operator_i==ALU_MAX || i.operator_i==ALU_ABS ||
    i.operator_i==ALU_CLIP || i.operator_i==ALU_CLIPU

def cmp_signed : PerByte :=
  fun k => compares_signed i &&
    match i.vector_mode_i with
    | .VEC_MODE8 => true
    | .VEC_MODE16 => k==3 || k==1
    | .VEC_MODE32 => k==3

def is_equal_vec : PerByte := fun k => lane 8 k i.operand_a_i==lane 8 k i.operand_b_i

def is_greater_vec : PerByte := fun k =>
  let a := lane 8 k i.operand_a_i
  let b := lane 8 k i.operand_b_i
  decide ((BitVec.cons (cmp_signed i k && b.msb) b).toInt <
    (BitVec.cons (cmp_signed i k && a.msb) a).toInt)

def is_equal : PerByte :=
  match i.vector_mode_i with
  | .VEC_MODE32 => fun _ =>
    is_equal_vec i 3 && is_equal_vec i 2 && is_equal_vec i 1 && is_equal_vec i 0
  | .VEC_MODE16 => fun k =>
    if k < 2 then is_equal_vec i 0 && is_equal_vec i 1 else is_equal_vec i 2 && is_equal_vec i 3
  | .VEC_MODE8 => is_equal_vec i

def is_greater : PerByte :=
  match i.vector_mode_i with
  | .VEC_MODE32 => fun _ =>
    is_greater_vec i 3 || (is_equal_vec i 3 && (is_greater_vec i 2 ||
      (is_equal_vec i 2 && (is_greater_vec i 1 || (is_equal_vec i 1 && is_greater_vec i 0)))))
  | .VEC_MODE16 => fun k =>
    if k < 2 then is_greater_vec i 1 || (is_equal_vec i 1 && is_greater_vec i 0)
    else is_greater_vec i 3 || (is_equal_vec i 3 && is_greater_vec i 2)
  | .VEC_MODE8 => is_greater_vec i

def cmp_result (k : Fin 4) : Bool :=
  if i.operator_i=ALU_EQ then is_equal i k
  else if i.operator_i=ALU_NE then !is_equal i k
  else if i.operator_i=ALU_GTS ∨ i.operator_i=ALU_GTU then is_greater i k
  else if i.operator_i=ALU_GES ∨ i.operator_i=ALU_GEU then is_greater i k || is_equal i k
  else if i.operator_i=ALU_LTS ∨ i.operator_i=ALU_SLTS ∨ i.operator_i=ALU_LTU ∨
    i.operator_i=ALU_SLTU then !(is_greater i k || is_equal i k)
  else if i.operator_i=ALU_SLETS ∨ i.operator_i=ALU_SLETU ∨ i.operator_i=ALU_LES ∨
    i.operator_i=ALU_LEU then !is_greater i k
  else is_equal i k

def comparison_result_o : Bool := cmp_result i 3

def minmax_b : BitVec 32 := if i.operator_i==ALU_ABS then adder_result i else i.operand_b_i

def do_min : Bool :=
  i.operator_i==ALU_MIN || i.operator_i==ALU_MINU || i.operator_i==ALU_CLIP ||
    i.operator_i==ALU_CLIPU

def sel_minmax : PerByte := fun k => is_greater i k ^^ do_min i

def result_minmax : BitVec 32 :=
  pack fun k : Fin 4 => if sel_minmax i k then lane 8 k i.operand_a_i else lane 8 k (minmax_b i)

end Compare

section BitOperations

variable (i : Input)

def fl1_result : BitVec 5 := 31-first_one_o (ff_input i.operator_i i.operand_a_i)

def bitop_result : BitVec 6 :=
  let ff := ff_input i.operator_i i.operand_a_i
  if i.operator_i=ALU_FF1 then if no_ones_o ff then 32 else (first_one_o ff).setWidth 6
  else if i.operator_i=ALU_FL1 then if no_ones_o ff then 32 else (fl1_result i).setWidth 6
  else if i.operator_i=ALU_CNT then alu_popcnt i.operand_a_i
  else if i.operator_i=ALU_CLB then
    if no_ones_o ff then if i.operand_a_i.msb then 31 else 0
    else clb_result i.operator_i i.operand_a_i
  else 0

def extract_is_signed : Bool := i.operator_i==ALU_BEXT

def extract_sign : Bool := extract_is_signed i && (shift_result i).getLsbD i.bmask_a_i.toNat

def bextins_and : BitVec 32 :=
  if i.operator_i==ALU_BINS then i.operand_c_i else BitVec.fill 32 (extract_sign i)

def bextins_result : BitVec 32 := (bmask i &&& shift_result i) ||| (bextins_and i &&& ~~~bmask i)

def bclr_result : BitVec 32 := i.operand_a_i &&& ~~~bmask i

def bset_result : BitVec 32 := i.operand_a_i ||| bmask i

end BitOperations

/-- The result. Operators of the blocks beside these have the result `other`. -/
def result_o (i : Input) (other : BitVec 32) : BitVec 32 :=
  if i.operator_i=ALU_AND then i.operand_a_i &&& i.operand_b_i
  else if i.operator_i=ALU_OR then i.operand_a_i ||| i.operand_b_i
  else if i.operator_i=ALU_XOR then i.operand_a_i ^^^ i.operand_b_i
  else if i.operator_i ∈ [ALU_ADD,ALU_ADDR,ALU_ADDU,ALU_ADDUR,ALU_SUB,ALU_SUBR,ALU_SUBU,ALU_SUBUR,
    ALU_SLL,ALU_SRL,ALU_SRA,ALU_ROR] then shift_result i
  else if i.operator_i ∈ [ALU_BINS,ALU_BEXT,ALU_BEXTU] then bextins_result i
  else if i.operator_i=ALU_BCLR then bclr_result i
  else if i.operator_i=ALU_BSET then bset_result i
  else if i.operator_i ∈ [ALU_MIN,ALU_MINU,ALU_MAX,ALU_MAXU,ALU_ABS] then result_minmax i
  else if i.operator_i ∈ [ALU_EQ,ALU_NE,ALU_GTU,ALU_GEU,ALU_LTU,ALU_LEU,ALU_GTS,ALU_GES,ALU_LTS,
    ALU_LES] then
    pack fun k : Fin 4 => BitVec.fill 8 (cmp_result i k)
  else if i.operator_i ∈ [ALU_SLTS,ALU_SLTU,ALU_SLETS,ALU_SLETU] then
    (BitVec.ofBool (comparison_result_o i)).setWidth 32
  else if i.operator_i ∈ [ALU_FF1,ALU_FL1,ALU_CLB,ALU_CNT] then (bitop_result i).setWidth 32
  else other

end Pulpissimo.Riscv.Alu

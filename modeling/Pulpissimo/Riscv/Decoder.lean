import Mathlib.Data.BitVec
import Pulpissimo.Riscv.CompressedDecoder

/-!
# The RI5CY decoder

The control outputs of `riscv_decoder`, one definition for each opcode: which
registers an instruction reads and writes, which units it uses, and what
makes it illegal. Operand selection and operators are left out. The write
enables are masked in the end, the jump that the controller sees is not.
-/

namespace Pulpissimo.Riscv.Decoder

/-- Parameters of the core. The shared units are absent but for the floating
point divider. -/
structure Config where
  /-- There is a floating point unit. -/
  FPU : Bool
  /-- There is a user mode. -/
  PULP_SECURE : Bool
  /-- Kind of the floating point divider. -/
  SHARED_FP_DIVSQRT : ℕ

/-- Kinds of jumps. -/
inductive Jump
  | BRANCH_NONE | BRANCH_JAL | BRANCH_JALR | BRANCH_COND
  deriving DecidableEq

/-- CSR operations. -/
inductive CsrOp
  | CSR_OP_NONE | CSR_OP_WRITE | CSR_OP_SET | CSR_OP_CLEAR
  deriving DecidableEq

/-- Selection of the third source register. -/
inductive RegC
  | REGC_ZERO | REGC_RD | REGC_S1 | REGC_S4
  deriving DecidableEq

abbrev PRIV_LVL_M : BitVec 2 := 0b11
abbrev PRIV_LVL_U : BitVec 2 := 0b00

/-- Decoded control signals, before they are masked. -/
structure Decoded where
  /-- Illegal instruction. -/
  illegal_insn : Bool
  /-- `ebreak`. -/
  ebrk_insn : Bool
  /-- `mret`. -/
  mret_insn : Bool
  /-- `uret`. -/
  uret_insn : Bool
  /-- `ecall`. -/
  ecall_insn : Bool
  /-- `wfi`. -/
  pipe_flush : Bool
  /-- The first source register is read. -/
  rega_used : Bool
  /-- The second source register is read. -/
  regb_used : Bool
  /-- The third source register is read. -/
  regc_used : Bool
  /-- Which register is the third. -/
  regc_mux : RegC
  /-- The ALU is used. -/
  alu_en : Bool
  /-- The multiplier is used. -/
  mult_int_en : Bool
  /-- The dot product unit is used. -/
  mult_dot_en : Bool
  /-- The floating point unit is used. -/
  apu_en : Bool
  /-- A load writes a register. -/
  regfile_mem_we : Bool
  /-- A result of the EX stage writes a register. -/
  regfile_alu_we : Bool
  /-- That register is the destination, else the first source. -/
  regfile_alu_waddr_sel : Bool
  /-- A CSR is read. -/
  csr_access : Bool
  /-- It is a status register. -/
  csr_status : Bool
  /-- What happens to the CSR. -/
  csr_op : CsrOp
  /-- Data memory is accessed. -/
  data_req : Bool
  /-- The access is a store. -/
  data_we : Bool
  /-- The access is an event load. -/
  data_load_event : Bool
  /-- The address is the sum, else the first source. -/
  prepost_useincr : Bool
  /-- Writes of the hardware loop registers. -/
  hwloop_we : BitVec 3
  /-- Jump. -/
  jump_in_id : Jump

/-- Values before the opcode is looked at. -/
def base : Decoded where
  illegal_insn := false
  ebrk_insn := false
  mret_insn := false
  uret_insn := false
  ecall_insn := false
  pipe_flush := false
  rega_used := false
  regb_used := false
  regc_used := false
  regc_mux := .REGC_ZERO
  alu_en := true
  mult_int_en := false
  mult_dot_en := false
  apu_en := false
  regfile_mem_we := false
  regfile_alu_we := false
  regfile_alu_waddr_sel := true
  csr_access := false
  csr_status := false
  csr_op := .CSR_OP_NONE
  data_req := false
  data_we := false
  data_load_event := false
  prepost_useincr := true
  hwloop_we := 0
  jump_in_id := .BRANCH_NONE

/-- The values of an unknown instruction. -/
def illegal : Decoded := { base with illegal_insn := true }

section Opcodes

variable (cfg : Config) (current_priv_lvl_i : BitVec 2) (i : BitVec 32)

/-- The field that selects a variant of most opcodes. -/
def funct3 : BitVec 3 := i.extractLsb' 12 3

def decodeJAL : Decoded := { base with
  jump_in_id := .BRANCH_JAL
  regfile_alu_we := true }

def decodeJALR : Decoded :=
  let bad := funct3 i != 0
  { base with
    jump_in_id := if bad then .BRANCH_NONE else .BRANCH_JALR
    regfile_alu_we := !bad
    rega_used := true
    illegal_insn := bad }

def decodeBRANCH : Decoded := { base with
  jump_in_id := .BRANCH_COND
  rega_used := true
  regb_used := funct3 i != 0b010 && funct3 i != 0b011 }

def decodeSTORE (post : Bool) : Decoded :=
  let bad := i.extractLsb' 12 2==0b11#2
  { base with
    data_req := !bad
    data_we := !bad
    rega_used := true
    regb_used := true
    prepost_useincr := !post
    regfile_alu_waddr_sel := !post
    regfile_alu_we := post
    regc_used := i.getLsbD 14
    regc_mux := if i.getLsbD 14 then .REGC_RD else .REGC_ZERO
    illegal_insn := bad }

/-- Sizes of loads with a register offset. -/
def loadSizes : List (BitVec 7) := [0b0000000,0b0100000,0b0001000,0b0101000,0b0010000]

/-- The request and the register write stay set when a load is illegal. -/
def decodeLOAD (post : Bool) : Decoded := { base with
  data_req := true
  regfile_mem_we := true
  rega_used := true
  prepost_useincr := !post
  regfile_alu_waddr_sel := !post
  regfile_alu_we := post
  regb_used := funct3 i==0b111
  data_load_event := funct3 i==0b110
  illegal_insn := funct3 i==0b111 && !loadSizes.contains (i.extractLsb' 25 7) || funct3 i==0b011 }

def decodeLUI : Decoded := { base with regfile_alu_we := true }

def decodeAUIPC : Decoded := { base with regfile_alu_we := true }

def decodeOPIMM : Decoded :=
  let funct7 := i.extractLsb' 25 7
  { base with
    regfile_alu_we := true
    rega_used := true
    illegal_insn := funct3 i==0b001 && funct7 != 0 ||
      funct3 i==0b101 && funct7 != 0 && funct7 != 0b0100000 }

/-- Register-register operations by the signals they set. -/
inductive OpKind
  | alu | clipr | mul | mulh | div | mac | bad
  deriving DecidableEq

/-- Kind of an operation that is not a bit manipulation, from
`instr_rdata_i[30:25]` and `instr_rdata_i[14:12]`. -/
def opKind : OpKind :=
  match (i.extractLsb' 25 6).toNat,(funct3 i).toNat with
  | 0b000000,_ => .alu -- add, slt, sltu, xor, or, and, sll, srl
  | 0b100000,0b000 => .alu -- sub
  | 0b100000,0b101 => .alu -- sra
  | 0b000001,0b000 => .mul
  | 0b000001,0b001 => .mulh
  | 0b000001,0b010 => .mulh
  | 0b000001,0b011 => .mulh
  | 0b000001,_ => .div -- div, divu, rem, remu
  | 0b100001,0b000 => .mac
  | 0b100001,0b001 => .mac
  | 0b000010,0b001 => .bad
  | 0b000010,_ => .alu -- p.abs, p.slet, p.sletu, p.min, p.minu, p.max, p.maxu
  | 0b000100,0b101 => .alu -- ror
  | 0b001000,_ => .alu -- p.ff1, p.fl1, p.clb, p.cnt, p.exths, p.exthz, p.extbs, p.extbz
  | 0b001010,0b001 => .alu -- p.clip
  | 0b001010,0b010 => .alu -- p.clipu
  | 0b001010,0b101 => .clipr
  | 0b001010,0b110 => .clipr
  | _,_ => .bad

/-- Bit manipulations. -/
def decodeOPbit : Decoded :=
  let bad := 0b100#3 < funct3 i
  { base with
    regfile_alu_we := true
    rega_used := true
    regb_used := !i.getLsbD 30 && !bad
    regc_used := funct3 i==0b010
    regc_mux := if funct3 i==0b010 then .REGC_RD else .REGC_ZERO
    illegal_insn := bad }

def decodeOP : Decoded :=
  let kind := opKind i
  if i.getLsbD 31 then decodeOPbit i
  else { base with
    regfile_alu_we := true
    rega_used := kind != .div
    regb_used := kind==.div || kind==.clipr || !i.getLsbD 28
    regc_used := kind==.mulh || kind==.div || kind==.mac
    regc_mux := if kind==.div then .REGC_S1 else if kind==.mac then .REGC_RD else .REGC_ZERO
    alu_en := !(kind==.mul || kind==.mulh || kind==.mac)
    mult_int_en := kind==.mul || kind==.mulh || kind==.mac
    illegal_insn := kind==.bad }

/-- Floating point operations by the signals they set. -/
inductive FpKind
  /-- Two operands, in the floating point unit. -/
  | apu2
  /-- One operand, in the floating point unit. -/
  | cast
  /-- Two operands, in the ALU. -/
  | alu2
  /-- One operand, in the ALU. -/
  | alu1
  /-- Illegal, with the signals of two operands in the ALU. -/
  | badAlu2
  | bad
  /-- Neither decoded nor illegal. -/
  | ignored
  deriving DecidableEq

/-- Kind of a floating point operation. -/
def fpKind : FpKind :=
  let alu2 (legal : Bool) : FpKind := if legal then .alu2 else .badAlu2
  match (i.extractLsb' 25 2).toNat,(i.extractLsb' 27 5).toNat with
  | 0b00,0x00 => .apu2 -- fadd.s
  | 0b00,0x01 => .apu2 -- fsub.s
  | 0b00,0x02 => .apu2 -- fmul.s
  | 0b00,0x03 => if cfg.SHARED_FP_DIVSQRT=1 ∨ cfg.SHARED_FP_DIVSQRT=2 then .apu2 else .bad -- fdiv.s
  | 0b00,0x0b => if cfg.SHARED_FP_DIVSQRT=1 ∨ cfg.SHARED_FP_DIVSQRT=2 then .apu2 else .bad -- fsqrt.s
  | 0b00,0x04 => alu2 (funct3 i ≤ 2) -- fsgnj.s, fsgnjn.s, fsgnjx.s
  | 0b00,0x05 => alu2 (funct3 i ≤ 1) -- fmin.s, fmax.s
  | 0b00,0x08 => .alu1 -- fcvt.s.d
  | 0b00,0x14 => alu2 (funct3 i ≤ 2) -- fle.s, flt.s, feq.s
  | 0b00,0x18 => .cast -- fcvt.w.s
  | 0b00,0x1a => .cast -- fcvt.s.w
  | 0b00,0x1e => .alu2 -- fmv.s.x
  | 0b00,0x1c => if funct3 i=0 then .alu2 else if funct3 i=1 then .alu1 else .bad -- fmv.x.s, fclass
  | 0b00,_ => .bad
  | 0b01,0x08 => .alu1 -- fcvt.d.s
  | 0b01,_ => .bad
  | _,_ => .ignored

def decodeOP_FP : Decoded :=
  if cfg.FPU then
    let kind := fpKind cfg i
    { base with
      apu_en := kind==.apu2 || kind==.cast
      alu_en := kind != .apu2
      rega_used := kind != .bad && kind != .ignored
      regb_used := kind==.apu2 || kind==.alu2 || kind==.badAlu2
      regfile_alu_we := kind==.cast || kind==.alu2 || kind==.alu1 || kind==.badAlu2
      illegal_insn := kind==.bad || kind==.badAlu2 }
  else illegal

/-- The four fused operations. -/
def decodeOP_FMADD : Decoded :=
  let fused := i.extractLsb' 25 2==0b00#2
  if cfg.FPU then { base with
    apu_en := fused
    alu_en := !fused
    rega_used := fused
    regb_used := fused
    regc_used := fused
    regc_mux := if fused then .REGC_S4 else .REGC_ZERO }
  else illegal

/-- Size of a floating point access. -/
def fpSize : Bool := funct3 i==0b010 || funct3 i==0b011

def decodeSTORE_FP : Decoded :=
  if cfg.FPU && fpSize i then { base with
    data_req := true
    data_we := true
    rega_used := true
    regb_used := true }
  else illegal

def decodeLOAD_FP : Decoded :=
  if cfg.FPU && fpSize i then { base with
    data_req := true
    regfile_mem_we := true
    rega_used := true }
  else illegal

def decodePULP_OP : Decoded :=
  let multiplies := !i.getLsbD 13
  let accumulates := if multiplies then i.getLsbD 12 else i.getLsbD 30
  { base with
    regfile_alu_we := true
    rega_used := true
    regb_used := true
    regc_used := accumulates
    regc_mux := if accumulates then .REGC_RD else .REGC_ZERO
    alu_en := !multiplies
    mult_int_en := multiplies }

/-- Vector operations by the signals they set. -/
inductive VecKind
  | alu | pair | pairAcc | acc | dot | sdot | bad
  deriving DecidableEq

/-- Kind of a vector operation, from `instr_rdata_i[31:26]`. -/
def vecKind : VecKind :=
  match (i.extractLsb' 27 5).toNat,i.getLsbD 26 with
  | 0b11101,false => .pair -- pv.shuffleI1
  | 0b11110,false => .pair -- pv.shuffleI2
  | 0b11111,false => .pair -- pv.shuffleI3
  | 0b11000,false => .pair -- pv.shuffle, pv.shuffleI0
  | 0b11001,false => .pairAcc -- pv.shuffle2
  | 0b11010,false => .pair -- pv.pack
  | 0b11011,false => .pairAcc -- pv.packhi
  | 0b11100,false => .pairAcc -- pv.packlo
  | 0b10010,false => .alu -- pv.extractu
  | 0b10110,false => .acc -- pv.insert
  | 0b10000,false => .dot -- pv.dotup
  | 0b10001,false => .dot -- pv.dotusp
  | 0b10011,false => .dot -- pv.dotsp
  | 0b10100,false => .sdot -- pv.sdotup
  | 0b10101,false => .sdot -- pv.sdotusp
  | 0b10111,false => .sdot -- pv.sdotsp
  | k,false => if k ≤ 0b01111 then .alu else .bad -- pv.add to pv.abs, pv.extract
  | k,true => if k ≤ 0b01001 then .alu else .bad -- comparisons

def decodeVECOP : Decoded :=
  let kind := vecKind i
  { base with
    regfile_alu_we := true
    rega_used := true
    regb_used := kind==.pair || kind==.pairAcc || !(i.getLsbD 14 && i.getLsbD 13)
    regc_used := kind==.pairAcc || kind==.acc || kind==.sdot
    regc_mux := if kind==.pairAcc || kind==.acc || kind==.sdot then .REGC_RD else .REGC_ZERO
    alu_en := !(kind==.dot || kind==.sdot)
    mult_dot_en := kind==.dot || kind==.sdot
    illegal_insn := kind==.bad }

/-- CSR instructions. Illegal ones keep the CSR operation and the register write. -/
def decodeCSR : Decoded :=
  let csr_illegal := i.extractLsb' 12 2==0b00#2 || current_priv_lvl_i < i.extractLsb' 28 2
  let csr_addr := i.extractLsb' 20 12
  { base with
    csr_access := true
    regfile_alu_we := true
    rega_used := !i.getLsbD 14
    csr_op :=
      match (i.extractLsb' 12 2).toNat with
      | 0b01 => .CSR_OP_WRITE
      | 0b10 => .CSR_OP_SET
      | 0b11 => .CSR_OP_CLEAR
      | _ => .CSR_OP_NONE
    csr_status := !csr_illegal && (csr_addr==0x300 || csr_addr==0x000)
    illegal_insn := csr_illegal }

def decodeSYSTEM : Decoded :=
  if funct3 i=0 then
    match (i.extractLsb' 20 12).toNat with
    | 0x000 => { base with ecall_insn := true }
    | 0x001 => { base with ebrk_insn := true }
    | 0x302 =>
      let bad := cfg.PULP_SECURE && current_priv_lvl_i != PRIV_LVL_M
      { base with
        illegal_insn := bad
        mret_insn := !bad }
    | 0x002 => { base with uret_insn := cfg.PULP_SECURE }
    | 0x105 => { base with pipe_flush := true }
    | _ => illegal
  else decodeCSR current_priv_lvl_i i

def decodeHWLOOP : Decoded :=
  { base with
    hwloop_we :=
      match (funct3 i).toNat with
      | 0b000 => 0b001
      | 0b001 => 0b010
      | 0b010 => 0b100
      | 0b011 => 0b100
      | 0b100 => 0b111
      | 0b101 => 0b111
      | _ => 0
    rega_used := funct3 i==0b010 || funct3 i==0b100
    illegal_insn := 0b101#3 < funct3 i }

/-- The case over the opcodes. -/
def decodeOpcode : Decoded :=
  match (opcode i).toNat with
  | 0x6f => decodeJAL
  | 0x67 => decodeJALR i
  | 0x63 => decodeBRANCH i
  | 0x23 => decodeSTORE i false
  | 0x2b => decodeSTORE i true
  | 0x03 => decodeLOAD i false
  | 0x0b => decodeLOAD i true
  | 0x37 => decodeLUI
  | 0x17 => decodeAUIPC
  | 0x13 => decodeOPIMM i
  | 0x33 => decodeOP i
  | 0x53 => decodeOP_FP cfg i
  | 0x43 => decodeOP_FMADD cfg i
  | 0x47 => decodeOP_FMADD cfg i
  | 0x4f => decodeOP_FMADD cfg i
  | 0x4b => decodeOP_FMADD cfg i
  | 0x27 => decodeSTORE_FP cfg i
  | 0x07 => decodeLOAD_FP cfg i
  | 0x5b => decodePULP_OP i
  | 0x57 => decodeVECOP i
  | 0x73 => decodeSYSTEM cfg current_priv_lvl_i i
  | 0x7b => decodeHWLOOP i
  | _ => illegal

/-- All signals before they are masked. The second half of a misaligned access
writes no incremented address and takes its own from the adder. -/
def decode (illegal_c_insn_i data_misaligned_i : Bool) : Decoded :=
  let d := decodeOpcode cfg current_priv_lvl_i i
  { d with
    illegal_insn := d.illegal_insn || illegal_c_insn_i
    regfile_alu_we := d.regfile_alu_we && !data_misaligned_i
    prepost_useincr := d.prepost_useincr || data_misaligned_i }

end Opcodes

/-- The outputs that `deassert_we_i` clears. -/
def Decoded.masked (d : Decoded) (deassert_we_i : Bool) : Decoded :=
  if deassert_we_i then { d with
    apu_en := false
    regfile_mem_we := false
    regfile_alu_we := false
    data_req := false
    hwloop_we := 0
    csr_op := .CSR_OP_NONE
    jump_in_id := .BRANCH_NONE }
  else d

/-- No jump and no environment call, and memory only through the ALU. -/
def Plain (d : Decoded) : Prop :=
  d.jump_in_id=.BRANCH_NONE ∧ d.ecall_insn=false ∧ (d.data_req=true → d.alu_en=true)

section Plain

variable (cfg : Config) (current_priv_lvl_i : BitVec 2) (i : BitVec 32)

theorem plain_illegal : Plain illegal := ⟨rfl,rfl,nofun⟩

theorem plain_OP : Plain (decodeOP i) := by
  unfold decodeOP
  cases i.getLsbD 31 <;> exact ⟨rfl,rfl,nofun⟩

theorem plain_OP_FP : Plain (decodeOP_FP cfg i) := by
  unfold decodeOP_FP
  cases cfg.FPU <;> exact ⟨rfl,rfl,nofun⟩

theorem plain_OP_FMADD : Plain (decodeOP_FMADD cfg i) := by
  unfold decodeOP_FMADD
  cases cfg.FPU <;> exact ⟨rfl,rfl,nofun⟩

theorem plain_STORE_FP : Plain (decodeSTORE_FP cfg i) := by
  unfold decodeSTORE_FP
  cases cfg.FPU && fpSize i <;> exact ⟨rfl,rfl,fun _ => rfl⟩

theorem plain_LOAD_FP : Plain (decodeLOAD_FP cfg i) := by
  unfold decodeLOAD_FP
  cases cfg.FPU && fpSize i <;> exact ⟨rfl,rfl,fun _ => rfl⟩

/-- Most instructions are plain. -/
theorem plain_decodeOpcode (hJAL : opcode i≠OPCODE_JAL) (hJALR : opcode i≠OPCODE_JALR)
    (hBRANCH : opcode i≠OPCODE_BRANCH) (hSYSTEM : opcode i≠OPCODE_SYSTEM) :
    Plain (decodeOpcode cfg current_priv_lvl_i i) := by
  have hne : ∀ o : BitVec 7, opcode i≠o → (opcode i).toNat≠o.toNat :=
    fun o h h' => h (BitVec.eq_of_toNat_eq h')
  unfold decodeOpcode
  split
  · exact absurd ‹_› (hne _ hJAL)
  · exact absurd ‹_› (hne _ hJALR)
  · exact absurd ‹_› (hne _ hBRANCH)
  · exact ⟨rfl,rfl,fun _ => rfl⟩
  · exact ⟨rfl,rfl,fun _ => rfl⟩
  · exact ⟨rfl,rfl,fun _ => rfl⟩
  · exact ⟨rfl,rfl,fun _ => rfl⟩
  · exact ⟨rfl,rfl,nofun⟩
  · exact ⟨rfl,rfl,nofun⟩
  · exact ⟨rfl,rfl,nofun⟩
  · exact plain_OP i
  · exact plain_OP_FP cfg i
  · exact plain_OP_FMADD cfg i
  · exact plain_OP_FMADD cfg i
  · exact plain_OP_FMADD cfg i
  · exact plain_OP_FMADD cfg i
  · exact plain_STORE_FP cfg i
  · exact plain_LOAD_FP cfg i
  · exact ⟨rfl,rfl,nofun⟩
  · exact ⟨rfl,rfl,nofun⟩
  · exact absurd ‹_› (hne _ hSYSTEM)
  · exact ⟨rfl,rfl,nofun⟩
  · exact plain_illegal

theorem decodeOpcode_JAL (h : opcode i=OPCODE_JAL) :
    decodeOpcode cfg current_priv_lvl_i i=decodeJAL := by
  unfold decodeOpcode
  rw [h]
  rfl

theorem decodeOpcode_JALR (h : opcode i=OPCODE_JALR) :
    decodeOpcode cfg current_priv_lvl_i i=decodeJALR i := by
  unfold decodeOpcode
  rw [h]
  rfl

theorem decodeOpcode_BRANCH (h : opcode i=OPCODE_BRANCH) :
    decodeOpcode cfg current_priv_lvl_i i=decodeBRANCH i := by
  unfold decodeOpcode
  rw [h]
  rfl

theorem decodeOpcode_SYSTEM (h : opcode i=OPCODE_SYSTEM) :
    decodeOpcode cfg current_priv_lvl_i i=decodeSYSTEM cfg current_priv_lvl_i i := by
  unfold decodeOpcode
  rw [h]
  rfl

/-- System instructions do not jump by themselves, and `ecall` is legal. -/
theorem decodeSYSTEM_facts :
    (decodeSYSTEM cfg current_priv_lvl_i i).jump_in_id=.BRANCH_NONE ∧
    (decodeSYSTEM cfg current_priv_lvl_i i).data_req=false ∧
    ((decodeSYSTEM cfg current_priv_lvl_i i).ecall_insn=true →
      (decodeSYSTEM cfg current_priv_lvl_i i).illegal_insn=false ∧ i≠0x00100073) := by
  unfold decodeSYSTEM
  split
  · split
    · rename_i hzero
      refine ⟨rfl,rfl,fun _ => ⟨rfl,?_⟩⟩
      rintro rfl
      exact absurd hzero (by decide)
    · exact ⟨rfl,rfl,nofun⟩
    · exact ⟨rfl,rfl,nofun⟩
    · exact ⟨rfl,rfl,nofun⟩
    · exact ⟨rfl,rfl,nofun⟩
    · exact ⟨rfl,rfl,nofun⟩
  · exact ⟨rfl,rfl,nofun⟩

/-- Memory is accessed only through the ALU. -/
theorem data_req_alu (h : (decodeOpcode cfg current_priv_lvl_i i).data_req=true) :
    (decodeOpcode cfg current_priv_lvl_i i).alu_en=true := by
  by_cases hJAL : opcode i=OPCODE_JAL
  · rw [decodeOpcode_JAL _ _ _ hJAL]
    rfl
  by_cases hJALR : opcode i=OPCODE_JALR
  · rw [decodeOpcode_JALR _ _ _ hJALR]
    rfl
  by_cases hBRANCH : opcode i=OPCODE_BRANCH
  · rw [decodeOpcode_BRANCH _ _ _ hBRANCH]
    rfl
  by_cases hSYSTEM : opcode i=OPCODE_SYSTEM
  · rw [decodeOpcode_SYSTEM _ _ _ hSYSTEM] at h
    exact absurd ((decodeSYSTEM_facts cfg current_priv_lvl_i i).2.1.symm.trans h) nofun
  · exact (plain_decodeOpcode cfg current_priv_lvl_i i hJAL hJALR hBRANCH hSYSTEM).2.2 h

/-- The ALU or the multiplier is used. -/
def Decoded.uses (d : Decoded) : Bool := d.alu_en || d.mult_int_en || d.mult_dot_en

theorem uses_OP : (decodeOP i).uses=true := by
  unfold decodeOP
  cases i.getLsbD 31 with
  | true => rfl
  | false => cases opKind i <;> rfl

theorem uses_PULP_OP : (decodePULP_OP i).uses=true := by
  unfold decodePULP_OP
  cases i.getLsbD 13 <;> rfl

theorem uses_VECOP : (decodeVECOP i).uses=true := by
  unfold decodeVECOP
  cases vecKind i <;> rfl

theorem uses_SYSTEM : (decodeSYSTEM cfg current_priv_lvl_i i).uses=true := by
  unfold decodeSYSTEM
  split
  · split <;> rfl
  · rfl

theorem uses_illegal_fpu (hFPU : cfg.FPU=false) : (decodeOP_FP cfg i).uses=true ∧
    (decodeOP_FMADD cfg i).uses=true ∧ (decodeSTORE_FP cfg i).uses=true ∧
    (decodeLOAD_FP cfg i).uses=true := by
  unfold decodeOP_FP decodeOP_FMADD decodeSTORE_FP decodeLOAD_FP
  rw [hFPU]
  exact ⟨rfl,rfl,rfl,rfl⟩

/-- Without the floating point unit every instruction uses the ALU or the multiplier. -/
theorem uses_decodeOpcode (hFPU : cfg.FPU=false) :
    (decodeOpcode cfg current_priv_lvl_i i).uses=true := by
  rcases uses_illegal_fpu cfg i hFPU with ⟨hOP,hFMADD,hSTORE,hLOAD⟩
  unfold decodeOpcode
  split
  · rfl
  · rfl
  · rfl
  · rfl
  · rfl
  · rfl
  · rfl
  · rfl
  · rfl
  · rfl
  · exact uses_OP i
  · exact hOP
  · exact hFMADD
  · exact hFMADD
  · exact hFMADD
  · exact hFMADD
  · exact hSTORE
  · exact hLOAD
  · exact uses_PULP_OP i
  · exact uses_VECOP i
  · exact uses_SYSTEM cfg current_priv_lvl_i i
  · rfl
  · rfl

/-- An instruction that is flagged illegal, by itself or as a compressed one,
neither jumps nor calls the environment. -/
theorem decode_illegal {x : CompressedDecoder.Expanded} (hx : CompressedDecoder.Harmless x)
    (data_misaligned_i : Bool)
    (h : (decode cfg current_priv_lvl_i x.instr_o x.illegal_instr_o data_misaligned_i).illegal_insn
      =true) :
    (decodeOpcode cfg current_priv_lvl_i x.instr_o).jump_in_id≠.BRANCH_JAL ∧
    (decodeOpcode cfg current_priv_lvl_i x.instr_o).jump_in_id≠.BRANCH_JALR ∧
    (decodeOpcode cfg current_priv_lvl_i x.instr_o).ecall_insn=false := by
  have hflag : (decodeOpcode cfg current_priv_lvl_i x.instr_o).illegal_insn=true ∨
      x.illegal_instr_o=true := Bool.or_eq_true_iff.mp h
  by_cases hJAL : opcode x.instr_o=OPCODE_JAL
  · rw [decodeOpcode_JAL _ _ _ hJAL] at hflag
    exact absurd hJAL (hx (hflag.resolve_left nofun)).1
  by_cases hJALR : opcode x.instr_o=OPCODE_JALR
  · rw [decodeOpcode_JALR _ _ _ hJALR] at hflag ⊢
    have hbad : (funct3 x.instr_o != 0)=true :=
      hflag.resolve_right fun hc => (hx hc).2.1 hJALR
    unfold decodeJALR
    rw [hbad]
    exact ⟨nofun,nofun,rfl⟩
  by_cases hBRANCH : opcode x.instr_o=OPCODE_BRANCH
  · rw [decodeOpcode_BRANCH _ _ _ hBRANCH]
    exact ⟨nofun,nofun,rfl⟩
  by_cases hSYSTEM : opcode x.instr_o=OPCODE_SYSTEM
  · rw [decodeOpcode_SYSTEM _ _ _ hSYSTEM] at hflag ⊢
    rcases decodeSYSTEM_facts cfg current_priv_lvl_i x.instr_o with ⟨hjump,-,hecall⟩
    refine ⟨by rw [hjump]; exact nofun,by rw [hjump]; exact nofun,?_⟩
    by_contra hcall
    rcases hecall (by simpa using hcall) with ⟨hlegal,hword⟩
    rcases hflag with hill | hc
    · exact absurd (hlegal.symm.trans hill) nofun
    · exact hword ((hx hc).2.2 hSYSTEM)
  · rcases plain_decodeOpcode cfg current_priv_lvl_i x.instr_o hJAL hJALR hBRANCH hSYSTEM with
      ⟨hjump,hecall,-⟩
    exact ⟨by rw [hjump]; exact nofun,by rw [hjump]; exact nofun,hecall⟩

end Plain

/-- No CSR operation and no machine return. -/
def Unprivileged (d : Decoded) : Prop := d.csr_op=.CSR_OP_NONE ∧ d.mret_insn=false

section Csr

variable (cfg : Config) (current_priv_lvl_i : BitVec 2) (i : BitVec 32)

theorem unprivileged_OP : Unprivileged (decodeOP i) := by
  unfold decodeOP
  cases i.getLsbD 31 with
  | _ => exact ⟨rfl,rfl⟩

theorem unprivileged_FP : Unprivileged (decodeOP_FP cfg i) ∧ Unprivileged (decodeOP_FMADD cfg i) ∧
    Unprivileged (decodeSTORE_FP cfg i) ∧ Unprivileged (decodeLOAD_FP cfg i) := by
  unfold decodeOP_FP decodeOP_FMADD decodeSTORE_FP decodeLOAD_FP
  cases cfg.FPU with
  | false => exact ⟨⟨rfl,rfl⟩,⟨rfl,rfl⟩,⟨rfl,rfl⟩,⟨rfl,rfl⟩⟩
  | true => cases fpSize i with
    | _ => exact ⟨⟨rfl,rfl⟩,⟨rfl,rfl⟩,⟨rfl,rfl⟩,⟨rfl,rfl⟩⟩

/-- Only system instructions use CSRs and return to machine mode. -/
theorem unprivileged_decodeOpcode (hSYSTEM : opcode i≠OPCODE_SYSTEM) :
    Unprivileged (decodeOpcode cfg current_priv_lvl_i i) := by
  rcases unprivileged_FP cfg i with ⟨hOP,hFMADD,hSTORE,hLOAD⟩
  unfold decodeOpcode
  split
  · exact ⟨rfl,rfl⟩
  · exact ⟨rfl,rfl⟩
  · exact ⟨rfl,rfl⟩
  · exact ⟨rfl,rfl⟩
  · exact ⟨rfl,rfl⟩
  · exact ⟨rfl,rfl⟩
  · exact ⟨rfl,rfl⟩
  · exact ⟨rfl,rfl⟩
  · exact ⟨rfl,rfl⟩
  · exact ⟨rfl,rfl⟩
  · exact unprivileged_OP i
  · exact hOP
  · exact hFMADD
  · exact hFMADD
  · exact hFMADD
  · exact hFMADD
  · exact hSTORE
  · exact hLOAD
  · exact ⟨rfl,rfl⟩
  · exact ⟨rfl,rfl⟩
  · rename_i h
    exact absurd (BitVec.eq_of_toNat_eq h) hSYSTEM
  · exact ⟨rfl,rfl⟩
  · exact ⟨rfl,rfl⟩

/-- A CSR operation comes from a CSR instruction. -/
theorem decodeOpcode_csr (h : (decodeOpcode cfg current_priv_lvl_i i).csr_op≠.CSR_OP_NONE) :
    decodeOpcode cfg current_priv_lvl_i i=decodeCSR current_priv_lvl_i i := by
  by_cases hSYSTEM : opcode i=OPCODE_SYSTEM
  · rw [decodeOpcode_SYSTEM _ _ _ hSYSTEM] at h ⊢
    unfold decodeSYSTEM at h ⊢
    by_cases hcsr : funct3 i=0
    · rw [if_pos hcsr] at h
      split at h
      all_goals exact absurd rfl h
    · rw [if_neg hcsr]
  · exact absurd (unprivileged_decodeOpcode cfg current_priv_lvl_i i hSYSTEM).1 h

/-- With a user mode only machine mode decodes a machine return. -/
theorem mret_machine (hsecure : cfg.PULP_SECURE=true)
    (h : (decodeOpcode cfg current_priv_lvl_i i).mret_insn=true) : current_priv_lvl_i=PRIV_LVL_M := by
  by_cases hSYSTEM : opcode i=OPCODE_SYSTEM
  · rw [decodeOpcode_SYSTEM _ _ _ hSYSTEM] at h
    unfold decodeSYSTEM at h
    split at h
    · split at h
      · exact absurd h nofun
      · exact absurd h nofun
      · rw [hsecure,Bool.true_and] at h
        simpa using h
      · exact absurd h nofun
      · exact absurd h nofun
      · exact absurd h nofun
    · exact absurd h nofun
  · exact absurd ((unprivileged_decodeOpcode cfg current_priv_lvl_i i hSYSTEM).2.symm.trans h) nofun

/-- A conditional branch does not use the multiplier. -/
theorem cond_mult (h : (decodeOpcode cfg current_priv_lvl_i i).jump_in_id=.BRANCH_COND) :
    (decodeOpcode cfg current_priv_lvl_i i).mult_int_en=false ∧
      (decodeOpcode cfg current_priv_lvl_i i).mult_dot_en=false := by
  by_cases hJAL : opcode i=OPCODE_JAL
  · rw [decodeOpcode_JAL _ _ _ hJAL] at h
    exact absurd h nofun
  by_cases hJALR : opcode i=OPCODE_JALR
  · rw [decodeOpcode_JALR _ _ _ hJALR]
    exact ⟨rfl,rfl⟩
  by_cases hBRANCH : opcode i=OPCODE_BRANCH
  · rw [decodeOpcode_BRANCH _ _ _ hBRANCH]
    exact ⟨rfl,rfl⟩
  by_cases hSYSTEM : opcode i=OPCODE_SYSTEM
  · rw [decodeOpcode_SYSTEM _ _ _ hSYSTEM] at h
    exact absurd ((decodeSYSTEM_facts cfg current_priv_lvl_i i).1.symm.trans h) nofun
  · have hplain := (plain_decodeOpcode cfg current_priv_lvl_i i hJAL hJALR hBRANCH hSYSTEM).1
    exact absurd (hplain.symm.trans h) nofun

end Csr

end Pulpissimo.Riscv.Decoder

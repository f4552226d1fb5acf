import Mathlib.Data.BitVec
import Mathlib.Tactic.SplitIfs

/-!
# The RI5CY compressed instruction decoder

`riscv_compressed_decoder`: the expansion of each 16-bit instruction and the
flag for those that are illegal. Illegal ones still expand to some word, and
which opcodes those words can have is stated at the end.
-/

namespace Pulpissimo.Riscv

abbrev OPCODE_SYSTEM : BitVec 7 := 0x73
abbrev OPCODE_OP : BitVec 7 := 0x33
abbrev OPCODE_OPIMM : BitVec 7 := 0x13
abbrev OPCODE_STORE : BitVec 7 := 0x23
abbrev OPCODE_LOAD : BitVec 7 := 0x03
abbrev OPCODE_BRANCH : BitVec 7 := 0x63
abbrev OPCODE_JALR : BitVec 7 := 0x67
abbrev OPCODE_JAL : BitVec 7 := 0x6f
abbrev OPCODE_AUIPC : BitVec 7 := 0x17
abbrev OPCODE_LUI : BitVec 7 := 0x37
abbrev OPCODE_OP_FP : BitVec 7 := 0x53
abbrev OPCODE_OP_FMADD : BitVec 7 := 0x43
abbrev OPCODE_OP_FNMADD : BitVec 7 := 0x4f
abbrev OPCODE_OP_FMSUB : BitVec 7 := 0x47
abbrev OPCODE_OP_FNMSUB : BitVec 7 := 0x4b
abbrev OPCODE_STORE_FP : BitVec 7 := 0x27
abbrev OPCODE_LOAD_FP : BitVec 7 := 0x07
abbrev OPCODE_LOAD_POST : BitVec 7 := 0x0b
abbrev OPCODE_STORE_POST : BitVec 7 := 0x2b
abbrev OPCODE_PULP_OP : BitVec 7 := 0x5b
abbrev OPCODE_VECOP : BitVec 7 := 0x57
abbrev OPCODE_HWLOOP : BitVec 7 := 0x7b

/-- Opcode field of an instruction word. -/
def opcode (instr : BitVec 32) : BitVec 7 := instr.extractLsb' 0 7

end Pulpissimo.Riscv

namespace Pulpissimo.Riscv.CompressedDecoder

/-- Outputs of the decoder. -/
structure Expanded where
  /-- The 32-bit instruction. -/
  instr_o : BitVec 32
  /-- The compressed instruction is illegal. -/
  illegal_instr_o : Bool

section Code

variable (FPU : Bool) (i : BitVec 32)

/-- Bits `hi` down to `lo`. -/
abbrev field (hi lo : ℕ) : BitVec (hi-lo+1) := i.extractLsb' lo (hi-lo+1)

/-- Copies of a bit. -/
abbrev copies (n k : ℕ) : BitVec n := BitVec.fill n (i.getLsbD k)

/-- A floating point instruction, or an illegal one without the unit. -/
def fp (instr_o : BitVec 32) : Expanded := if FPU then ⟨instr_o,false⟩ else ⟨0,true⟩

/-- Quadrant zero. -/
def c0 : Expanded :=
  match (field i 15 13).toNat with
  | 0b000 => -- c.addi4spn
    ⟨0#2++field i 10 7++field i 12 11++field i 5 5++field i 6 6++0#2++0x02#5++0b000#3++0b01#2++
      field i 4 2++OPCODE_OPIMM,field i 12 5==0⟩
  | 0b001 => -- c.fld
    fp FPU (0#4++field i 6 5++field i 12 10++0#3++0b01#2++field i 9 7++0b011#3++0b01#2++
      field i 4 2++OPCODE_LOAD_FP)
  | 0b010 => -- c.lw
    ⟨0#5++field i 5 5++field i 12 10++field i 6 6++0#2++0b01#2++field i 9 7++0b010#3++0b01#2++
      field i 4 2++OPCODE_LOAD,false⟩
  | 0b011 => -- c.flw
    fp FPU (0#5++field i 5 5++field i 12 10++field i 6 6++0#2++0b01#2++field i 9 7++0b010#3++
      0b01#2++field i 4 2++OPCODE_LOAD_FP)
  | 0b101 => -- c.fsd
    fp FPU (0#4++field i 6 5++field i 12 12++0b01#2++field i 4 2++0b01#2++field i 9 7++0b011#3++
      field i 11 10++0#3++OPCODE_STORE_FP)
  | 0b110 => -- c.sw
    ⟨0#5++field i 5 5++field i 12 12++0b01#2++field i 4 2++0b01#2++field i 9 7++0b010#3++
      field i 11 10++field i 6 6++0#2++OPCODE_STORE,false⟩
  | 0b111 => -- c.fsw
    fp FPU (0#5++field i 5 5++field i 12 12++0b01#2++field i 4 2++0b01#2++field i 9 7++0b010#3++
      field i 11 10++field i 6 6++0#2++OPCODE_STORE_FP)
  | _ => ⟨0,true⟩

/-- `c.srli`, `c.srai`, `c.andi` and the register operations. -/
def c1alu : Expanded :=
  match (field i 11 10).toNat with
  | 0b00 | 0b01 => -- c.srli, c.srai
    ⟨0#1++field i 10 10++0#5++field i 6 2++0b01#2++field i 9 7++0b101#3++0b01#2++field i 9 7++
      OPCODE_OPIMM,i.getLsbD 12 || field i 6 2==0⟩
  | 0b10 => -- c.andi
    ⟨copies i 6 12++field i 12 12++field i 6 2++0b01#2++field i 9 7++0b111#3++0b01#2++
      field i 9 7++OPCODE_OPIMM,false⟩
  | _ =>
    match (field i 12 12++field i 6 5).toNat with
    | 0b000 => -- c.sub
      ⟨0b01#2++0#5++0b01#2++field i 4 2++0b01#2++field i 9 7++0b000#3++0b01#2++field i 9 7++
        OPCODE_OP,false⟩
    | 0b001 => -- c.xor
      ⟨0#7++0b01#2++field i 4 2++0b01#2++field i 9 7++0b100#3++0b01#2++field i 9 7++OPCODE_OP,false⟩
    | 0b010 => -- c.or
      ⟨0#7++0b01#2++field i 4 2++0b01#2++field i 9 7++0b110#3++0b01#2++field i 9 7++OPCODE_OP,false⟩
    | 0b011 => -- c.and
      ⟨0#7++0b01#2++field i 4 2++0b01#2++field i 9 7++0b111#3++0b01#2++field i 9 7++OPCODE_OP,false⟩
    | _ => ⟨0,true⟩ -- c.subw, c.addw

/-- Quadrant one. -/
def c1 : Expanded :=
  match (field i 15 13).toNat with
  | 0b000 => -- c.addi, c.nop
    ⟨copies i 6 12++field i 12 12++field i 6 2++field i 11 7++0#3++field i 11 7++OPCODE_OPIMM,false⟩
  | 0b001 | 0b101 => -- c.jal, c.j
    ⟨field i 12 12++field i 8 8++field i 10 9++field i 6 6++field i 7 7++field i 2 2++field i 11 11++
      field i 5 3++copies i 9 12++0#4++(~~~field i 15 15)++OPCODE_JAL,false⟩
  | 0b010 => -- c.li
    ⟨copies i 6 12++field i 12 12++field i 6 2++0#5++0b0#3++field i 11 7++OPCODE_OPIMM,
      field i 11 7==0⟩
  | 0b011 =>
    let zero := field i 12 12++field i 6 2==0
    if field i 11 7==0x02#5 then -- c.addi16sp
      ⟨copies i 3 12++field i 4 3++field i 5 5++field i 2 2++field i 6 6++0#4++0x02#5++0b000#3++
        0x02#5++OPCODE_OPIMM,zero⟩
    else -- c.lui
      ⟨copies i 15 12++field i 6 2++field i 11 7++OPCODE_LUI,field i 11 7==0 || zero⟩
  | 0b100 => c1alu i
  | _ => -- c.beqz, c.bnez
    ⟨copies i 4 12++field i 6 5++field i 2 2++0#5++0b01#2++field i 9 7++0b00#2++field i 13 13++
      field i 11 10++field i 4 3++field i 12 12++OPCODE_BRANCH,false⟩

/-- `c.jr`, `c.mv`, `c.ebreak`, `c.jalr` and `c.add`. -/
def c2misc : Expanded :=
  if !i.getLsbD 12 then
    if field i 6 2==0 then -- c.jr
      ⟨0#12++field i 11 7++0b0#3++0b0#5++OPCODE_JALR,false⟩
    else -- c.mv
      ⟨0#7++field i 6 2++0#5++0b0#3++field i 11 7++OPCODE_OP,false⟩
  else if field i 11 7==0 then -- c.ebreak
    ⟨0x00100073,field i 6 2!=0⟩
  else if field i 6 2==0 then -- c.jalr
    ⟨0#12++field i 11 7++0b000#3++0b00001#5++OPCODE_JALR,false⟩
  else -- c.add
    ⟨0#7++field i 6 2++field i 11 7++0b0#3++field i 11 7++OPCODE_OP,false⟩

/-- Quadrant two. -/
def c2 : Expanded :=
  match (field i 15 13).toNat with
  | 0b000 => -- c.slli
    ⟨0#7++field i 6 2++field i 11 7++0b001#3++field i 11 7++OPCODE_OPIMM,
      field i 11 7==0 || i.getLsbD 12 || field i 6 2==0⟩
  | 0b001 => -- c.fldsp
    fp FPU (0#3++field i 4 2++field i 12 12++field i 6 5++0#3++0x02#5++0b011#3++field i 11 7++
      OPCODE_LOAD_FP)
  | 0b010 => -- c.lwsp
    ⟨0#4++field i 3 2++field i 12 12++field i 6 4++0#2++0x02#5++0b010#3++field i 11 7++OPCODE_LOAD,
      field i 11 7==0⟩
  | 0b011 => -- c.flwsp
    fp FPU (0#4++field i 3 2++field i 12 12++field i 6 4++0#2++0x02#5++0b010#3++field i 11 7++
      OPCODE_LOAD_FP)
  | 0b100 => c2misc i
  | 0b101 => -- c.fsdsp
    fp FPU (0#3++field i 9 7++field i 12 12++field i 6 2++0x02#5++0b011#3++field i 11 10++0#3++
      OPCODE_STORE_FP)
  | 0b110 => -- c.swsp
    ⟨0#4++field i 8 7++field i 12 12++field i 6 2++0x02#5++0b010#3++field i 11 9++0#2++
      OPCODE_STORE,false⟩
  | _ => -- c.fswsp
    fp FPU (0#4++field i 8 7++field i 12 12++field i 6 2++0x02#5++0b010#3++field i 11 9++0#2++
      OPCODE_STORE_FP)

/-- Expansion of an instruction; 32-bit ones pass unchanged. -/
def expand : Expanded :=
  match (field i 1 0).toNat with
  | 0b00 => c0 FPU i
  | 0b01 => c1 i
  | 0b10 => c2 FPU i
  | _ => ⟨i,false⟩

/-- The instruction has 16 bits. -/
def is_compressed_o : Bool := field i 1 0 != 0b11#2

end Code

/-- What an illegal expansion can be: no jump, and of the system instructions
only `ebreak`. -/
def Harmless (x : Expanded) : Prop :=
  x.illegal_instr_o=true → opcode x.instr_o≠OPCODE_JAL ∧ opcode x.instr_o≠OPCODE_JALR ∧
    (opcode x.instr_o=OPCODE_SYSTEM → x.instr_o=0x00100073)

/-- The opcode is the last field of an expansion. -/
theorem opcode_append (x : BitVec 25) (o : BitVec 7) : opcode (x++o)=o :=
  BitVec.extractLsb'_append_eq_right

theorem harmless_legal (x : BitVec 32) : Harmless ⟨x,false⟩ := nofun

theorem harmless_append (x : BitVec 25) {o : BitVec 7} (b : Bool)
    (h : o≠OPCODE_JAL ∧ o≠OPCODE_JALR ∧ o≠OPCODE_SYSTEM) : Harmless ⟨x++o,b⟩ := by
  intro _
  have ho : opcode (x++o)=o := opcode_append x o
  rw [ho]
  exact ⟨h.1,h.2.1,fun hs => absurd hs h.2.2⟩

theorem harmless_zero : Harmless ⟨0,true⟩ := fun _ => by decide

theorem harmless_ebreak (b : Bool) : Harmless ⟨0x00100073,b⟩ :=
  fun _ => ⟨(by decide : opcode 0x00100073≠OPCODE_JAL),
    (by decide : opcode 0x00100073≠OPCODE_JALR),fun _ => rfl⟩

theorem harmless_fp (FPU : Bool) (x : BitVec 32) : Harmless (fp FPU x) := by
  unfold fp
  split_ifs
  · exact harmless_legal x
  · exact harmless_zero

section Cases

variable (FPU : Bool) (i : BitVec 32)

theorem harmless_c0 : Harmless (c0 FPU i) := by
  unfold c0
  split
  · exact harmless_append _ _ (by decide)
  · exact harmless_fp FPU _
  · exact harmless_legal _
  · exact harmless_fp FPU _
  · exact harmless_fp FPU _
  · exact harmless_legal _
  · exact harmless_fp FPU _
  · exact harmless_zero

theorem harmless_c1alu : Harmless (c1alu i) := by
  unfold c1alu
  split
  · exact harmless_append _ _ (by decide)
  · exact harmless_append _ _ (by decide)
  · exact harmless_legal _
  · split
    · exact harmless_legal _
    · exact harmless_legal _
    · exact harmless_legal _
    · exact harmless_legal _
    · exact harmless_zero

theorem harmless_c1 : Harmless (c1 i) := by
  unfold c1
  split
  · exact harmless_legal _
  · exact harmless_legal _
  · exact harmless_legal _
  · exact harmless_append _ _ (by decide)
  · split
    · exact harmless_append _ _ (by decide)
    · exact harmless_append _ _ (by decide)
  · exact harmless_c1alu i
  · exact harmless_legal _

theorem harmless_c2misc : Harmless (c2misc i) := by
  unfold c2misc
  split_ifs
  · exact harmless_legal _
  · exact harmless_legal _
  · exact harmless_ebreak _
  · exact harmless_legal _
  · exact harmless_legal _

theorem harmless_c2 : Harmless (c2 FPU i) := by
  unfold c2
  split
  · exact harmless_append _ _ (by decide)
  · exact harmless_fp FPU _
  · exact harmless_append _ _ (by decide)
  · exact harmless_fp FPU _
  · exact harmless_c2misc i
  · exact harmless_fp FPU _
  · exact harmless_legal _
  · exact harmless_fp FPU _

/-- No illegal compressed instruction expands to a jump or to `ecall`. -/
theorem harmless_expand : Harmless (expand FPU i) := by
  unfold expand
  split
  · exact harmless_c0 FPU i
  · exact harmless_c1 i
  · exact harmless_c2 FPU i
  · exact harmless_legal i

end Cases

end Pulpissimo.Riscv.CompressedDecoder

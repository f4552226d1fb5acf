import Mathlib.Data.BitVec
import Mathlib.Tactic.SplitIfs
import Pulpissimo.Lib.Machine
import Pulpissimo.Riscv.Controller
import Pulpissimo.Riscv.CsRegisters

/-!
# Illegal instructions in the RI5CY pipeline

The control path of `riscv_id_stage` with its neighbours: the IF/ID registers,
the decoder, the controller, the control part of the ID/EX registers with the
handshake of the EX stage, and the trap registers. Memory, the units of the EX
stage, the register addresses, the interrupt controller and the debugger are
inputs and may do anything. An instruction that is flagged illegal never has
an effect. Its exception is taken exactly when the EX stage reports that it is
done, which it does not do once an FPU instruction was the last to enter it.
-/

namespace Pulpissimo.Riscv.IdStage

open Pulpissimo.Riscv.Decoder Pulpissimo.Riscv.Controller

/-- IF/ID registers. -/
structure IfId where
  /-- The instruction is valid. -/
  instr_valid_id_o : Bool
  /-- The 32-bit instruction. -/
  instr_rdata_id_o : BitVec 32
  /-- It was an illegal compressed instruction. -/
  illegal_c_insn_id_o : Bool
  /-- Its address. -/
  pc_id_o : BitVec 32

/-- Control part of the ID/EX registers. -/
structure IdEx where
  /-- The ALU is used. -/
  alu_en_ex_o : Bool
  /-- The multiplier is used. -/
  mult_en_ex_o : Bool
  /-- The floating point unit is used. -/
  apu_en_ex_o : Bool
  /-- A load writes a register. -/
  regfile_we_ex_o : Bool
  /-- A result of EX writes a register. -/
  regfile_alu_we_ex_o : Bool
  /-- The address is the sum, else the first operand. -/
  prepost_useincr_ex_o : Bool
  /-- A CSR is read. -/
  csr_access_ex_o : Bool
  /-- What happens to the CSR. -/
  csr_op_ex_o : CsrOp
  /-- Data memory is accessed. -/
  data_req_ex_o : Bool
  /-- The access is a store. -/
  data_we_ex_o : Bool
  /-- The access is an event load. -/
  data_load_event_ex_o : Bool
  /-- The access is the second half of a misaligned one. -/
  data_misaligned_ex_o : Bool
  /-- A conditional branch is in EX. -/
  branch_in_ex_o : Bool

/-- Registers. -/
structure State where
  /-- Controller. -/
  ctrl : Controller.State
  /-- IF/ID registers. -/
  ifId : IfId
  /-- ID/EX registers. -/
  idEx : IdEx
  /-- Trap registers. -/
  csr : CsRegisters.State

/-- IF/ID registers after reset. -/
def IfId.reset : IfId := ⟨false,0,false,0⟩

/-- ID/EX registers after reset. -/
def IdEx.reset : IdEx :=
  ⟨false,false,false,false,false,false,false,.CSR_OP_NONE,false,false,false,false,false⟩

/-- Values after reset. -/
def reset : State := ⟨Controller.reset,.reset,.reset,CsRegisters.reset⟩

/-- One cycle of inputs. -/
structure Input where
  /-- Start the decoding. -/
  fetch_enable_i : Bool
  /-- IF has an instruction and no hardware loop jumps. -/
  fetch_valid : Bool
  /-- The fetched word. -/
  fetch_rdata : BitVec 32
  /-- Its address. -/
  fetch_addr : BitVec 32
  /-- Interrupt line. -/
  irq_i : Bool
  /-- Pending interrupt. -/
  irq_req_ctrl : Bool
  /-- It is secure. -/
  irq_sec_ctrl : Bool
  /-- Its number. -/
  irq_id_ctrl : BitVec 5
  /-- Debug request. -/
  dbg_req_i : Bool
  /-- The debugger stalls the core. -/
  dbg_stall_i : Bool
  /-- The debugger sets the program counter. -/
  dbg_jump_req_i : Bool
  /-- Which events trap to the debugger. -/
  dbg_settings_i : BitVec 6
  /-- The debugger accesses a CSR. -/
  dbg_csr_req : Bool
  /-- The debugger writes it. -/
  dbg_csr_we : Bool
  /-- Number of the accessed CSR. -/
  csr_addr : BitVec 12
  /-- Its new value. -/
  csr_wdata_int : BitVec 32
  /-- Register addresses that match, and writes of EX and WB. -/
  hazards : Hazards
  /-- The ALU is ready. -/
  alu_ready : Bool
  /-- The multiplier is ready. -/
  mult_ready : Bool
  /-- The LSU is ready for the next access. -/
  lsu_ready_ex_i : Bool
  /-- The LSU has its response. -/
  wb_ready_i : Bool
  /-- The branch in EX compares as taken. -/
  branch_decision_i : Bool
  /-- The access in EX is misaligned. -/
  data_misaligned_i : Bool
  /-- The multiplier takes several cycles. -/
  mult_multicycle_i : Bool
  /-- The floating point unit returns a result. -/
  apu_valid : Bool
  /-- It cannot take the operation in EX. -/
  apu_stall : Bool
  /-- Its result takes the write port of EX. -/
  wb_contention : Bool
  /-- ID reads a register that it still writes. -/
  apu_read_dep_i : Bool
  /-- ID writes a register that it still writes. -/
  apu_write_dep_i : Bool
  /-- Its operation in EX takes two cycles or more. -/
  apu_lat_long : Bool
  /-- It holds an operation. -/
  apu_busy_i : Bool

section Code

variable (cfg : Config) (s : State) (i : Input)

/-- Decoded instruction in ID. -/
def decoded : Decoded :=
  decode cfg s.csr.priv_lvl_q s.ifId.instr_rdata_id_o s.ifId.illegal_c_insn_id_o i.data_misaligned_i

/-- All units but the floating point unit are done. -/
def units_ready : Bool := i.alu_ready && i.mult_ready && i.lsu_ready_ex_i && i.wb_ready_i

/-- The floating point unit returns a result. -/
def apu_valid : Bool := cfg.FPU && i.apu_valid

def ex_ready_o : Bool :=
  !(cfg.FPU && i.apu_stall) && units_ready i && !(cfg.FPU && i.wb_contention) ||
    s.idEx.branch_in_ex_o

def ex_valid_o : Bool :=
  (apu_valid cfg i || s.idEx.alu_en_ex_o || s.idEx.mult_en_ex_o || s.idEx.csr_access_ex_o ||
    s.idEx.data_req_ex_o) && units_ready i

/-- What the stalls look at. -/
def hazards : Hazards := { i.hazards with
  data_req_ex_i := s.idEx.data_req_ex_o
  data_misaligned_i := i.data_misaligned_i
  mult_multicycle_i := i.mult_multicycle_i
  regfile_we_ex_i := s.idEx.regfile_we_ex_o
  wb_ready_i := i.wb_ready_i }

def jr_stall : Bool := jr_stall_o (hazards s i) (decoded cfg s i).jump_in_id

def branch_taken_ex : Bool := s.idEx.branch_in_ex_o && i.branch_decision_i

/-- Inputs of the controller. The masked jump and the readiness of ID depend on
its outputs and are given. -/
def ctrlInput (jump_in_id : Jump) (id_ready : Bool) : Controller.Input :=
  let d := decoded cfg s i
  { fetch_enable_i := i.fetch_enable_i
    illegal_insn_i := d.illegal_insn
    ecall_insn_i := d.ecall_insn
    mret_insn_i := d.mret_insn
    uret_insn_i := d.uret_insn
    pipe_flush_i := d.pipe_flush
    ebrk_insn_i := d.ebrk_insn
    csr_status_i := d.csr_status
    instr_valid_i := s.ifId.instr_valid_id_o
    data_load_event_i := d.data_load_event
    branch_taken_ex_i := branch_taken_ex s i
    jump_in_id_i := jump_in_id
    jump_in_dec_i := d.jump_in_id
    irq_i := i.irq_i
    irq_req_ctrl_i := i.irq_req_ctrl
    irq_sec_ctrl_i := i.irq_sec_ctrl
    irq_id_ctrl_i := i.irq_id_ctrl
    m_IE_i := s.csr.mstatus_q.mie && s.csr.priv_lvl_q==PRIV_LVL_M
    u_IE_i := s.csr.mstatus_q.uie && s.csr.priv_lvl_q==PRIV_LVL_U
    current_priv_lvl_i := s.csr.priv_lvl_q
    dbg_req_i := i.dbg_req_i
    dbg_stall_i := i.dbg_stall_i
    dbg_jump_req_i := i.dbg_jump_req_i
    dbg_settings_i := i.dbg_settings_i
    jr_stall := jr_stall cfg s i
    id_ready_i := id_ready
    ex_valid_i := ex_valid_o cfg s i }

/-- The controller decodes, whatever the two inputs that depend on it. -/
def is_decoding : Bool := (fsm s.ctrl (ctrlInput cfg s i .BRANCH_NONE false)).is_decoding_o

def deassert_we : Bool :=
  deassert_we_o (hazards s i) (decoded cfg s i).jump_in_id (is_decoding cfg s i)
    (decoded cfg s i).illegal_insn

/-- Masked outputs of the decoder. -/
def masked : Decoded := (decoded cfg s i).masked (deassert_we cfg s i)

/-- Stall because of a register that the floating point unit still writes. -/
def apu_stall : Bool :=
  cfg.FPU && (i.apu_read_dep_i || i.apu_write_dep_i && !(masked cfg s i).apu_en)

/-- Stall of a CSR access behind a long floating point operation. -/
def csr_apu_stall : Bool :=
  cfg.FPU && (masked cfg s i).csr_access &&
    (s.idEx.apu_en_ex_o && i.apu_lat_long || i.apu_busy_i)

def id_ready_o : Bool :=
  !i.data_misaligned_i && !jr_stall cfg s i && !load_stall_o (hazards s i) &&
    !apu_stall cfg s i && !csr_apu_stall cfg s i && ex_ready_o cfg s i

/-- Outputs of the controller. -/
def ctrl : Controller.Output :=
  fsm s.ctrl (ctrlInput cfg s i (masked cfg s i).jump_in_id (id_ready_o cfg s i))

def id_valid_o : Bool := !(ctrl cfg s i).halt_id_o && id_ready_o cfg s i

def clear_instr_valid_o : Bool :=
  id_ready_o cfg s i || (ctrl cfg s i).halt_id_o || branch_taken_ex s i

def if_valid : Bool :=
  !(ctrl cfg s i).halt_if_o && (i.fetch_valid && !(ctrl cfg s i).pc_set_o && id_ready_o cfg s i)

/-- IF/ID registers after a clock edge. -/
def stepIfId : IfId :=
  let x := CompressedDecoder.expand cfg.FPU i.fetch_rdata
  if if_valid cfg s i then ⟨true,x.instr_o,x.illegal_instr_o,i.fetch_addr⟩
  else if clear_instr_valid_o cfg s i then { s.ifId with instr_valid_id_o := false }
  else s.ifId

/-- ID/EX registers that take the instruction in ID. -/
def IdEx.load (x : IdEx) (d : Decoded) : IdEx where
  alu_en_ex_o := d.alu_en
  mult_en_ex_o := d.mult_int_en || d.mult_dot_en
  apu_en_ex_o := d.apu_en
  regfile_we_ex_o := d.regfile_mem_we
  regfile_alu_we_ex_o := d.regfile_alu_we
  prepost_useincr_ex_o := d.prepost_useincr
  csr_access_ex_o := d.csr_access
  csr_op_ex_o := d.csr_op
  data_req_ex_o := d.data_req
  data_we_ex_o := if d.data_req then d.data_we else x.data_we_ex_o
  data_load_event_ex_o := d.data_req && d.data_load_event
  data_misaligned_ex_o := false
  branch_in_ex_o := d.jump_in_id==.BRANCH_COND

/-- ID/EX registers that take no instruction although EX is ready. The enables
of the units stay as they are. -/
def IdEx.bubble (x : IdEx) : IdEx := { x with
  regfile_we_ex_o := false
  regfile_alu_we_ex_o := false
  csr_op_ex_o := .CSR_OP_NONE
  data_req_ex_o := false
  data_load_event_ex_o := false
  data_misaligned_ex_o := false
  branch_in_ex_o := false
  apu_en_ex_o := false }

/-- ID/EX registers after a clock edge. -/
def stepIdEx : IdEx :=
  if i.data_misaligned_i then
    if ex_ready_o cfg s i then { s.idEx with
      regfile_alu_we_ex_o := (masked cfg s i).regfile_alu_we
      prepost_useincr_ex_o := (masked cfg s i).prepost_useincr
      data_misaligned_ex_o := true }
    else s.idEx
  else if i.mult_multicycle_i then s.idEx
  else if id_valid_o cfg s i then s.idEx.load (masked cfg s i)
  else if ex_ready_o cfg s i then s.idEx.bubble
  else if s.idEx.csr_access_ex_o then { s.idEx with regfile_alu_we_ex_o := false }
  else s.idEx

/-- Inputs of the trap registers. -/
def csrInput : CsRegisters.Input where
  csr_we_int := if i.dbg_csr_req then i.dbg_csr_we else s.idEx.csr_op_ex_o != .CSR_OP_NONE
  csr_addr_i := i.csr_addr
  csr_wdata_int := i.csr_wdata_int
  pc_if_i := i.fetch_addr
  pc_id_i := s.ifId.pc_id_o
  csr_save_if_i := (ctrl cfg s i).csr_save_if_o
  csr_save_id_i := (ctrl cfg s i).csr_save_id_o
  csr_restore_mret_i := (ctrl cfg s i).csr_restore_mret_id_o
  csr_restore_uret_i := (ctrl cfg s i).csr_restore_uret_id_o
  csr_cause_i := (ctrl cfg s i).csr_cause_o
  csr_irq_sec_i := (ctrl cfg s i).csr_irq_sec_o
  csr_save_cause_i := (ctrl cfg s i).csr_save_cause_o

/-- One clock edge. -/
def step : State where
  ctrl := Controller.step s.ctrl (ctrlInput cfg s i (masked cfg s i).jump_in_id (id_ready_o cfg s i))
  ifId := stepIfId cfg s i
  idEx := stepIdEx cfg s i
  csr := CsRegisters.step cfg.PULP_SECURE s.csr (csrInput cfg s i)

end Code

/-- The instruction in ID is flagged illegal. -/
def Flagged (cfg : Config) (s : State) (i : Input) : Prop := (decoded cfg s i).illegal_insn=true

/-- What every reachable state satisfies. -/
structure Sound (cfg : Config) (s : State) : Prop where
  /-- An illegal compressed instruction was expanded to a harmless word. -/
  harmless : CompressedDecoder.Harmless ⟨s.ifId.instr_rdata_id_o,s.ifId.illegal_c_insn_id_o⟩
  mode : CsRegisters.Mode s.csr
  machine : cfg.PULP_SECURE=false → s.csr.priv_lvl_q=PRIV_LVL_M
  /-- Memory is accessed only with the ALU. -/
  access : s.idEx.data_req_ex_o=true → s.idEx.alu_en_ex_o=true

section Invariants

variable {cfg : Config} {s : State} {i : Input}

theorem sound_reset : Sound cfg reset where
  harmless := CompressedDecoder.harmless_legal 0
  mode := Or.inl rfl
  machine _ := rfl
  access := nofun

/-- Masking only clears the request. -/
theorem masked_access (h : (masked cfg s i).data_req=true) : (masked cfg s i).alu_en=true := by
  unfold masked Decoded.masked at h ⊢
  cases hd : deassert_we cfg s i with
  | true =>
    rw [hd] at h
    exact absurd h nofun
  | false =>
    rw [hd] at h
    exact data_req_alu _ _ _ h

/-- What a clock edge can do to the ID/EX registers. -/
theorem stepIdEx_cases (cfg : Config) (s : State) (i : Input) :
    stepIdEx cfg s i=s.idEx ∨
    stepIdEx cfg s i={ s.idEx with
      regfile_alu_we_ex_o := (masked cfg s i).regfile_alu_we
      prepost_useincr_ex_o := (masked cfg s i).prepost_useincr
      data_misaligned_ex_o := true } ∨
    id_valid_o cfg s i=true ∧ stepIdEx cfg s i=s.idEx.load (masked cfg s i) ∨
    stepIdEx cfg s i=s.idEx.bubble ∨
    stepIdEx cfg s i={ s.idEx with regfile_alu_we_ex_o := false } := by
  unfold stepIdEx
  cases i.data_misaligned_i with
  | true => cases ex_ready_o cfg s i with
    | true => exact Or.inr (Or.inl rfl)
    | false => exact Or.inl rfl
  | false => cases i.mult_multicycle_i with
    | true => exact Or.inl rfl
    | false => cases id_valid_o cfg s i with
      | true => exact Or.inr (Or.inr (Or.inl ⟨rfl,rfl⟩))
      | false => cases ex_ready_o cfg s i with
        | true => exact Or.inr (Or.inr (Or.inr (Or.inl rfl)))
        | false => cases s.idEx.csr_access_ex_o with
          | true => exact Or.inr (Or.inr (Or.inr (Or.inr rfl)))
          | false => exact Or.inl rfl

theorem stepIdEx_access (hS : s.idEx.data_req_ex_o=true → s.idEx.alu_en_ex_o=true)
    (h : (stepIdEx cfg s i).data_req_ex_o=true) : (stepIdEx cfg s i).alu_en_ex_o=true := by
  rcases stepIdEx_cases cfg s i with he | he | ⟨-,he⟩ | he | he
  · rw [he] at h ⊢
    exact hS h
  · rw [he] at h ⊢
    exact hS h
  · rw [he] at h ⊢
    exact masked_access h
  · rw [he] at h
    exact absurd h nofun
  · rw [he] at h ⊢
    exact hS h

theorem sound_step (s : State) (i : Input) (hS : Sound cfg s) : Sound cfg (step cfg s i) where
  harmless := by
    change CompressedDecoder.Harmless
      ⟨(stepIfId cfg s i).instr_rdata_id_o,(stepIfId cfg s i).illegal_c_insn_id_o⟩
    unfold stepIfId
    cases if_valid cfg s i with
    | true => exact CompressedDecoder.harmless_expand cfg.FPU i.fetch_rdata
    | false => cases clear_instr_valid_o cfg s i <;> exact hS.harmless
  mode := CsRegisters.mode_step cfg.PULP_SECURE hS.mode
  machine h := CsRegisters.priv_machine cfg.PULP_SECURE h
  access := stepIdEx_access hS.access

/-- The controller sees an illegal instruction when one is flagged. -/
theorem flagged_illegal (hS : Sound cfg s) (hF : Flagged cfg s i) (jump : Jump) (id_ready : Bool) :
    Controller.Illegal (ctrlInput cfg s i jump id_ready) := by
  rcases decode_illegal cfg s.csr.priv_lvl_q hS.harmless i.data_misaligned_i hF with
    ⟨hJAL,hJALR,hecall⟩
  have hnJALR : ((decoded cfg s i).jump_in_id==.BRANCH_JALR)=false := beq_eq_false_iff_ne.mpr hJALR
  have hnJAL : ((decoded cfg s i).jump_in_id==.BRANCH_JAL)=false := beq_eq_false_iff_ne.mpr hJAL
  exact ⟨hF,hecall,Bool.or_eq_false_iff.mpr ⟨hnJALR,hnJAL⟩⟩

/-- The outputs of the decoder are masked when an instruction is flagged. -/
theorem flagged_deassert (hF : Flagged cfg s i) : deassert_we cfg s i=true := by
  unfold deassert_we deassert_we_o
  have hflag : (decoded cfg s i).illegal_insn=true := hF
  rw [hflag,Bool.or_true,Bool.true_or,Bool.true_or]

/-- Whether the controller decodes does not depend on the inputs left open. -/
theorem ctrl_is_decoding : (ctrl cfg s i).is_decoding_o=is_decoding cfg s i := by
  unfold ctrl is_decoding
  rw [is_decoding_eq,is_decoding_eq]
  rfl

end Invariants

/-- The registers `x` enable no write, request, operation or branch that `y` do not. -/
structure IdEx.Within (x y : IdEx) : Prop where
  regfile_we : x.regfile_we_ex_o=true → y.regfile_we_ex_o=true
  regfile_alu_we : x.regfile_alu_we_ex_o=true → y.regfile_alu_we_ex_o=true
  apu_en : x.apu_en_ex_o=true → y.apu_en_ex_o=true
  data_req : x.data_req_ex_o=true → y.data_req_ex_o=true
  branch : x.branch_in_ex_o=true → y.branch_in_ex_o=true
  csr_op : x.csr_op_ex_o=.CSR_OP_NONE ∨ x.csr_op_ex_o=y.csr_op_ex_o

/-- The instruction in ID leaves no trace in the cycle: what EX does afterwards
it did before, no hardware loop register is written, the controller does not
jump for it, and it does not return from a trap. -/
structure NoEffect (cfg : Config) (s : State) (i : Input) : Prop where
  within : (step cfg s i).idEx.Within s.idEx
  hwloop_we : (masked cfg s i).hwloop_we=0
  jump : (ctrl cfg s i).pc_set_o=true →
    (ctrl cfg s i).pc_mux_o≠.PC_JUMP ∧ (ctrl cfg s i).pc_mux_o≠.PC_ERET
  restore_mret : (ctrl cfg s i).csr_restore_mret_id_o=false
  restore_uret : (ctrl cfg s i).csr_restore_uret_id_o=false

/-- The instruction in ID is decoded and flagged, and neither an interrupt nor
the debugger takes its place. -/
structure Claimed (cfg : Config) (s : State) (i : Input) : Prop where
  flagged : Flagged cfg s i
  decoding : (ctrl cfg s i).is_decoding_o=true
  irq : (i.irq_req_ctrl && irq_enable_int (ctrlInput cfg s i (masked cfg s i).jump_in_id
    (id_ready_o cfg s i)))=false
  dbg : (i.dbg_req_i && id_ready_o cfg s i)=false

/-- EX holds an instruction of the ALU, the multiplier or the CSRs. -/
def occupied (s : State) : Bool :=
  s.idEx.alu_en_ex_o || s.idEx.mult_en_ex_o || s.idEx.csr_access_ex_o

/-- Nothing that the exception depends on has changed. -/
structure Kept (s₀ s : State) : Prop where
  word : s.ifId.instr_rdata_id_o=s₀.ifId.instr_rdata_id_o
  illegal_c : s.ifId.illegal_c_insn_id_o=s₀.ifId.illegal_c_insn_id_o
  pc : s.ifId.pc_id_o=s₀.ifId.pc_id_o
  priv : s.csr.priv_lvl_q=s₀.csr.priv_lvl_q
  occupied : occupied s=IdStage.occupied s₀

theorem Kept.trans {s₁ s₂ s₃ : State} (h₁ : Kept s₁ s₂) (h₂ : Kept s₂ s₃) : Kept s₁ s₃ :=
  ⟨h₂.word.trans h₁.word,h₂.illegal_c.trans h₁.illegal_c,h₂.pc.trans h₁.pc,
    h₂.priv.trans h₁.priv,h₂.occupied.trans h₁.occupied⟩

section Steps

variable {cfg : Config} {s s₀ : State} {i : Input}

/-- A flagged instruction is harmless in every state of the controller. -/
theorem no_effect (hS : Sound cfg s) (hF : Flagged cfg s i) : NoEffect cfg s i := by
  have hm : masked cfg s i=(decoded cfg s i).masked true := by
    unfold masked
    rw [flagged_deassert hF]
  have hwithin : (stepIdEx cfg s i).Within s.idEx := by
    have hc := stepIdEx_cases cfg s i
    rw [hm] at hc
    rcases hc with he | he | ⟨-,he⟩ | he | he
    · rw [he]
      exact ⟨id,id,id,id,id,Or.inr rfl⟩
    · rw [he]
      exact ⟨id,nofun,id,id,id,Or.inr rfl⟩
    · rw [he]
      exact ⟨nofun,nofun,nofun,nofun,nofun,Or.inl rfl⟩
    · rw [he]
      exact ⟨nofun,nofun,nofun,nofun,nofun,Or.inl rfl⟩
    · rw [he]
      exact ⟨id,nofun,id,id,id,Or.inr rfl⟩
  have hhwloop : (masked cfg s i).hwloop_we=0 := by
    rw [hm]
    rfl
  rcases illegal_stays (s:=s.ctrl) (flagged_illegal hS hF (masked cfg s i).jump_in_id
    (id_ready_o cfg s i)) with ⟨hjump,hmret,huret⟩
  exact ⟨hwithin,hhwloop,hjump,hmret,huret⟩

/-- A halted pipeline keeps the instruction in ID and the units in EX. -/
theorem halted_kept (hS : Sound cfg s) (hif : (ctrl cfg s i).halt_if_o=true)
    (hid : (ctrl cfg s i).halt_id_o=true) (hsave : (ctrl cfg s i).csr_save_cause_o=false)
    (hmret : (ctrl cfg s i).csr_restore_mret_id_o=false)
    (huret : (ctrl cfg s i).csr_restore_uret_id_o=false) : Kept s (step cfg s i) := by
  have hno : if_valid cfg s i=false := by
    unfold if_valid
    rw [hif]
    rfl
  have hload : id_valid_o cfg s i=false := by
    unfold id_valid_o
    rw [hid]
    rfl
  have hpriv : (step cfg s i).csr.priv_lvl_q=s.csr.priv_lvl_q :=
    CsRegisters.priv_step cfg.PULP_SECURE hS.machine hsave hmret huret
  have hocc : occupied (step cfg s i)=occupied s := by
    have hex : (step cfg s i).idEx=stepIdEx cfg s i := rfl
    unfold occupied
    rw [hex]
    rcases stepIdEx_cases cfg s i with he | he | ⟨hvalid,-⟩ | he | he
    · rw [he]
    · rw [he]
    · exact absurd (hload.symm.trans hvalid) nofun
    · rw [he]
      rfl
    · rw [he]
  have hifId : (step cfg s i).ifId=stepIfId cfg s i := rfl
  have hword : (stepIfId cfg s i).instr_rdata_id_o=s.ifId.instr_rdata_id_o ∧
      (stepIfId cfg s i).illegal_c_insn_id_o=s.ifId.illegal_c_insn_id_o ∧
      (stepIfId cfg s i).pc_id_o=s.ifId.pc_id_o := by
    unfold stepIfId
    rw [hno]
    cases clear_instr_valid_o cfg s i <;> exact ⟨rfl,rfl,rfl⟩
  rw [←hifId] at hword
  exact ⟨hword.1,hword.2.1,hword.2.2,hpriv,hocc⟩

/-- EX is done when its units are, and one of them was used. -/
theorem ex_valid_iff (hS : Sound cfg s) :
    ex_valid_o cfg s i=true ↔
      units_ready i=true ∧ (occupied s=true ∨ apu_valid cfg i=true) := by
  have hacc := hS.access
  unfold ex_valid_o occupied
  cases units_ready i <;> cases apu_valid cfg i <;> cases hr : s.idEx.data_req_ex_o <;>
    simp_all

/-- Without the floating point unit what enters EX occupies it. -/
theorem occupied_step (hFPU : cfg.FPU=false) (hs : occupied s=true) (i : Input) :
    occupied (step cfg s i)=true := by
  have hex : (step cfg s i).idEx=stepIdEx cfg s i := rfl
  have hload : (masked cfg s i).uses=true := by
    have hu := uses_decodeOpcode cfg s.csr.priv_lvl_q s.ifId.instr_rdata_id_o hFPU
    unfold masked Decoded.masked
    cases deassert_we cfg s i <;> exact hu
  unfold occupied
  rw [hex]
  rcases stepIdEx_cases cfg s i with he | he | ⟨-,he⟩ | he | he
  · rw [he]
    exact hs
  · rw [he]
    exact hs
  · rw [he]
    unfold Decoded.uses at hload
    unfold IdEx.load
    rw [←Bool.or_assoc,hload,Bool.true_or]
  · rw [he]
    exact hs
  · rw [he]
    exact hs

/-- A kept instruction stays flagged. -/
theorem Kept.flagged {i₀ : Input} (hK : Kept s₀ s) (hF : Flagged cfg s₀ i₀) : Flagged cfg s i := by
  unfold Flagged decoded decode at hF ⊢
  rw [hK.word,hK.illegal_c,hK.priv]
  exact hF

end Steps

/-- The core waits for EX with the instruction that was in ID in state `s₀`. -/
structure Waiting (cfg : Config) (s₀ s : State) : Prop where
  sound : Sound cfg s
  kept : Kept s₀ s
  flush : s.ctrl.ctrl_fsm_cs=.FLUSH_EX

/-- The cycle ends the wait: the units are done, and EX was occupied or the
floating point unit returns a result. -/
def Done (cfg : Config) (s₀ : State) (i : Input) : Prop :=
  units_ready i=true ∧ (occupied s₀=true ∨ apu_valid cfg i=true)

/-- The state takes the exception for the instruction that was in ID in state `s₀`. -/
structure Traps (cfg : Config) (s₀ s : State) (i : Input) : Prop where
  pc_set : (ctrl cfg s i).pc_set_o=true
  pc_mux : (ctrl cfg s i).pc_mux_o=.PC_EXCEPTION
  exc_pc_mux : (ctrl cfg s i).exc_pc_mux_o=.EXC_PC_ILLINSN
  mepc : (step cfg s i).csr.mepc_q=s₀.ifId.pc_id_o
  mcause : (step cfg s i).csr.mcause_q=EXC_CAUSE_ILLEGAL_INSN
  priv : (step cfg s i).csr.priv_lvl_q=PRIV_LVL_M

section Trap

variable {cfg : Config} {s s₀ : State} {i i₀ : Input}

/-- A claimed instruction flushes the pipeline. -/
theorem claimed_waits (hS : Sound cfg s) (hC : Claimed cfg s i) :
    Waiting cfg s (step cfg s i) := by
  rcases decode_flush (flagged_illegal hS hC.flagged _ _) hC.decoding hC.irq hC.dbg with
    ⟨hflush,hif,hid,hsave⟩
  have hno := no_effect hS hC.flagged
  exact ⟨sound_step s i hS,halted_kept hS hif hid hsave hno.restore_mret hno.restore_uret,hflush⟩

/-- While the core waits it keeps what it waits with. -/
theorem waiting_step (hW : Waiting cfg s₀ s) : Sound cfg (step cfg s i) ∧ Kept s₀ (step cfg s i) ∧
    (step cfg s i).ctrl.ctrl_fsm_cs=(if ex_valid_o cfg s i then .FLUSH_WB else .FLUSH_EX) := by
  rcases flush_ex (i:=ctrlInput cfg s i (masked cfg s i).jump_in_id (id_ready_o cfg s i)) hW.flush
    with ⟨hns,hif,hid,hsave,hmret,huret,-⟩
  exact ⟨sound_step s i hW.sound,hW.kept.trans (halted_kept hW.sound hif hid hsave hmret huret),hns⟩

theorem waiting_done_iff (hW : Waiting cfg s₀ s) : ex_valid_o cfg s i=true ↔ Done cfg s₀ i := by
  unfold Done
  rw [ex_valid_iff hW.sound,hW.kept.occupied]

/-- The wait goes on until it is done. -/
theorem waiting_waits (hW : Waiting cfg s₀ s) (hD : ¬Done cfg s₀ i) :
    Waiting cfg s₀ (step cfg s i) := by
  rcases waiting_step (i:=i) hW with ⟨hS,hK,hns⟩
  rw [if_neg (mt (waiting_done_iff hW).mp hD)] at hns
  exact ⟨hS,hK,hns⟩

/-- A core that waits has not trapped. -/
theorem waiting_not_traps (hW : Waiting cfg s₀ s) : ¬Traps cfg s₀ s i := by
  intro hT
  rcases flush_ex (i:=ctrlInput cfg s i (masked cfg s i).jump_in_id (id_ready_o cfg s i)) hW.flush
    with ⟨-,-,-,-,-,-,hpc⟩
  exact absurd (hpc.symm.trans hT.pc_set) nofun

/-- After the wait the exception is taken. -/
theorem flushed_traps (hS : Sound cfg s) (hK : Kept s₀ s) (hF : Flagged cfg s₀ i₀)
    (hs : s.ctrl.ctrl_fsm_cs=.FLUSH_WB) : Traps cfg s₀ s i := by
  rcases flush_wb (flagged_illegal hS (hK.flagged hF) (masked cfg s i).jump_in_id
    (id_ready_o cfg s i)) hs with ⟨hset,hmux,hexc,hsave,hif,hcause⟩
  have hirq : (csrInput cfg s i).csr_cause_i.getLsbD 5=false := by
    have hc : (csrInput cfg s i).csr_cause_i=EXC_CAUSE_ILLEGAL_INSN := hcause
    rw [hc]
    rfl
  rcases CsRegisters.exception_step cfg.PULP_SECURE hS.mode hsave hif hirq with ⟨hpc,hc,hp⟩
  exact ⟨hset,hmux,hexc,hpc.trans hK.pc,hc.trans hcause,hp⟩

end Trap

section Runs

variable (cfg : Config) (env : ℕ → Input)

/-- Registers in cycle `n` after reset. -/
abbrev stateAt (n : ℕ) : State := Machine.states (step cfg) reset env n

/-- The exception for the instruction in ID in cycle `t` is taken in a later
cycle, and the core only waits for EX before it. -/
def TakesException (t : ℕ) : Prop :=
  ∃ n, (∀ m, m<n → (stateAt cfg env (t+1+m)).ctrl.ctrl_fsm_cs=.FLUSH_EX) ∧
    Traps cfg (stateAt cfg env t) (stateAt cfg env (t+1+n)) (env (t+1+n))

theorem sound_at (n : ℕ) : Sound cfg (stateAt cfg env n) :=
  Machine.states_invariant sound_step sound_reset env n

/-- The exception of a claimed instruction is taken if and only if some cycle
ends the wait for EX. -/
theorem takesException_iff {t : ℕ} (hC : Claimed cfg (stateAt cfg env t) (env t)) :
    TakesException cfg env t ↔ ∃ n, Done cfg (stateAt cfg env t) (env (t+1+n)) := by
  have hstart : Waiting cfg (stateAt cfg env t) (stateAt cfg env (t+1)) :=
    claimed_waits (sound_at cfg env t) hC
  have hkeep : ∀ s i, Waiting cfg (stateAt cfg env t) s → ¬Done cfg (stateAt cfg env t) i →
      Waiting cfg (stateAt cfg env t) (step cfg s i) := fun _ _ => waiting_waits
  have hwait : ∀ n, (∀ m, m<n → ¬Done cfg (stateAt cfg env t) (env (t+1+m))) →
      Waiting cfg (stateAt cfg env t) (stateAt cfg env (t+1+n)) :=
    Machine.states_wait hkeep hstart
  constructor
  · rintro ⟨n,-,hT⟩
    by_contra hD
    exact waiting_not_traps (hwait n fun m _ h => hD ⟨m,h⟩) hT
  · intro hex
    classical
    have hnever : ∀ m, m<Nat.find hex → ¬Done cfg (stateAt cfg env t) (env (t+1+m)) :=
      fun m => Nat.find_min hex
    have hW := hwait (Nat.find hex) hnever
    rcases waiting_step (i:=env (t+1+Nat.find hex)) hW with ⟨hS,hK,hns⟩
    rw [if_pos ((waiting_done_iff hW).mpr (Nat.find_spec hex))] at hns
    refine ⟨Nat.find hex+1,fun m hm => ?_,flushed_traps hS hK hC.flagged hns⟩
    exact (hwait m fun k hk => hnever k (by omega)).flush

/-- Without the floating point unit EX stays occupied once it was. -/
theorem occupied_after (hFPU : cfg.FPU=false) {t : ℕ}
    (ht : occupied (stateAt cfg env t)=true) (n : ℕ) :
    occupied (stateAt cfg env (t+n))=true := by
  induction n with
  | zero => exact ht
  | succ n ih => exact occupied_step hFPU ih (env (t+n))

/-- In every run flagged instructions have no effect, and one that is served
takes its exception if and only if the units of EX get done in a cycle in which
the floating point unit returns a result, or at all if an instruction of the ALU,
the multiplier or the CSRs was the last to enter EX. -/
theorem illegal_exception_iff :
    (∀ t, Flagged cfg (stateAt cfg env t) (env t) →
      NoEffect cfg (stateAt cfg env t) (env t)) ∧
    ∀ t, Claimed cfg (stateAt cfg env t) (env t) →
      (TakesException cfg env t ↔ ∃ n, units_ready (env (t+1+n))=true ∧
        (occupied (stateAt cfg env t)=true ∨ apu_valid cfg (env (t+1+n))=true)) :=
  ⟨fun t hF => no_effect (sound_at cfg env t) hF,fun _ hC => takesException_iff cfg env hC⟩

end Runs

/-- A cycle in which nothing happens. -/
def quiet : Input where
  fetch_enable_i := true
  fetch_valid := false
  fetch_rdata := 0
  fetch_addr := 0
  irq_i := false
  irq_req_ctrl := false
  irq_sec_ctrl := false
  irq_id_ctrl := 0
  dbg_req_i := false
  dbg_stall_i := false
  dbg_jump_req_i := false
  dbg_settings_i := 0
  dbg_csr_req := false
  dbg_csr_we := false
  csr_addr := 0
  csr_wdata_int := 0
  hazards := ⟨false,false,false,0,false,0,false,false,fun _ => false,fun _ => false,
    fun _ => false,true⟩
  alu_ready := true
  mult_ready := true
  lsu_ready_ex_i := true
  wb_ready_i := true
  branch_decision_i := false
  data_misaligned_i := false
  mult_multicycle_i := false
  apu_valid := false
  apu_stall := false
  wb_contention := false
  apu_read_dep_i := false
  apu_write_dep_i := false
  apu_lat_long := false
  apu_busy_i := false

/-- The core of the system. -/
def lFC_CORE : Config := ⟨true,false,2⟩

/-- A word, and after three cycles without a fetch one that is illegal. -/
def thenIllegal (word : BitVec 32) (apu_valid : Bool) : ℕ → Input
  | 2 => { quiet with
    fetch_valid := true
    fetch_rdata := word
    fetch_addr := 0x1A000080 }
  | 5 => { quiet with apu_valid := apu_valid }
  | 6 => { quiet with
    fetch_valid := true
    fetch_rdata := 0xFFFFFFFF
    fetch_addr := 0x1A000084 }
  | _ => quiet

/-- After an addition the exception is taken. -/
theorem illegal_exception_run :
    NoEffect lFC_CORE (stateAt lFC_CORE (thenIllegal 0x003100B3 false) 7)
      (thenIllegal 0x003100B3 false 7) ∧
    TakesException lFC_CORE (thenIllegal 0x003100B3 false) 7 := by
  rcases illegal_exception_iff lFC_CORE (thenIllegal 0x003100B3 false) with ⟨hno,htakes⟩
  have hflagged : Flagged lFC_CORE (stateAt lFC_CORE (thenIllegal 0x003100B3 false) 7)
      (thenIllegal 0x003100B3 false 7) := by
    unfold Flagged
    decide
  exact ⟨hno 7 hflagged,
    (htakes 7 ⟨hflagged,by decide,by decide,by decide⟩).mpr ⟨0,rfl,Or.inl (by decide)⟩⟩

/-- After a floating point addition it is never taken, although the addition
returned its result and no unit ever stalls. -/
theorem illegal_exception_lost :
    Claimed lFC_CORE (stateAt lFC_CORE (thenIllegal 0x003100D3 true) 7)
      (thenIllegal 0x003100D3 true 7) ∧
    (∀ n, units_ready (thenIllegal 0x003100D3 true n)=true) ∧
    ¬TakesException lFC_CORE (thenIllegal 0x003100D3 true) 7 := by
  have hflagged : Flagged lFC_CORE (stateAt lFC_CORE (thenIllegal 0x003100D3 true) 7)
      (thenIllegal 0x003100D3 true 7) := by
    unfold Flagged
    decide
  have hC : Claimed lFC_CORE (stateAt lFC_CORE (thenIllegal 0x003100D3 true) 7)
      (thenIllegal 0x003100D3 true 7) := ⟨hflagged,by decide,by decide,by decide⟩
  refine ⟨hC,fun n => ?_,fun hT => ?_⟩
  · unfold thenIllegal
    split <;> rfl
  · rcases (takesException_iff lFC_CORE _ hC).mp hT with ⟨n,-,hocc | hapu⟩
    · exact absurd hocc (by decide)
    · have hquiet : thenIllegal 0x003100D3 true (7+1+n)=quiet := by
        rw [Nat.add_comm]
        rfl
      rw [hquiet] at hapu
      exact absurd hapu (by decide)

end Pulpissimo.Riscv.IdStage

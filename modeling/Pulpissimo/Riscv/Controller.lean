import Mathlib.Data.BitVec
import Mathlib.Tactic.SplitIfs
import Pulpissimo.Lib.Indices
import Pulpissimo.Riscv.Decoder

/-!
# The RI5CY controller

The state machine of `riscv_controller` with all of its outputs, the stalls
for register hazards and the selection of forwarded operands.
-/

namespace Pulpissimo.Riscv.Controller

open Pulpissimo.Riscv.Decoder

/-- States of the controller. -/
inductive CtrlState
  | RESET | BOOT_SET | SLEEP | WAIT_SLEEP | FIRST_FETCH | DECODE | IRQ_TAKEN_ID | IRQ_TAKEN_IF
  | IRQ_FLUSH | ELW_EXE | FLUSH_EX | FLUSH_WB | DBG_SIGNAL | DBG_SIGNAL_SLEEP | DBG_SIGNAL_ELW
  | DBG_WAIT | DBG_WAIT_BRANCH | DBG_WAIT_ELW
  deriving DecidableEq

/-- Sources of the next fetch address. -/
inductive PcMux
  | PC_BOOT | PC_JUMP | PC_BRANCH | PC_EXCEPTION | PC_ERET | PC_DBG_NPC
  deriving DecidableEq

/-- Exception handlers. -/
inductive ExcPc
  | EXC_PC_ILLINSN | EXC_PC_ECALL | EXC_PC_IRQ
  deriving DecidableEq

/-- Sources of an operand. -/
inductive FwSel
  | SEL_REGFILE | SEL_FW_EX | SEL_FW_WB
  deriving DecidableEq

abbrev EXC_CAUSE_ILLEGAL_INSN : BitVec 6 := 0x02
abbrev EXC_CAUSE_BREAKPOINT : BitVec 6 := 0x03
abbrev EXC_CAUSE_ECALL_UMODE : BitVec 6 := 0x08
abbrev EXC_CAUSE_ECALL_MMODE : BitVec 6 := 0x0B

/-- Registers. -/
structure State where
  /-- State. -/
  ctrl_fsm_cs : CtrlState
  /-- The jump in ID was already made. -/
  jump_done_q : Bool
  /-- The boot address was set. -/
  boot_done_q : Bool

/-- Values after reset. -/
def reset : State := ⟨.RESET,false,false⟩

/-- Inputs of the state machine. -/
structure Input where
  /-- Start the decoding. -/
  fetch_enable_i : Bool
  /-- Illegal instruction in ID. -/
  illegal_insn_i : Bool
  /-- `ecall` in ID. -/
  ecall_insn_i : Bool
  /-- `mret` in ID. -/
  mret_insn_i : Bool
  /-- `uret` in ID. -/
  uret_insn_i : Bool
  /-- `wfi` in ID. -/
  pipe_flush_i : Bool
  /-- `ebreak` in ID. -/
  ebrk_insn_i : Bool
  /-- Access to a status register in ID. -/
  csr_status_i : Bool
  /-- The instruction in ID is valid. -/
  instr_valid_i : Bool
  /-- Event load in ID. -/
  data_load_event_i : Bool
  /-- The branch in EX is taken. -/
  branch_taken_ex_i : Bool
  /-- Jump in ID, masked. -/
  jump_in_id_i : Jump
  /-- Jump in ID, not masked. -/
  jump_in_dec_i : Jump
  /-- Interrupt line. -/
  irq_i : Bool
  /-- Pending interrupt. -/
  irq_req_ctrl_i : Bool
  /-- It is secure. -/
  irq_sec_ctrl_i : Bool
  /-- Its number. -/
  irq_id_ctrl_i : BitVec 5
  /-- Interrupts are enabled in machine mode. -/
  m_IE_i : Bool
  /-- Interrupts are enabled in user mode. -/
  u_IE_i : Bool
  /-- Privilege level. -/
  current_priv_lvl_i : BitVec 2
  /-- Debug request. -/
  dbg_req_i : Bool
  /-- The debugger stalls the core. -/
  dbg_stall_i : Bool
  /-- The debugger sets the program counter. -/
  dbg_jump_req_i : Bool
  /-- Which events trap to the debugger. -/
  dbg_settings_i : BitVec 6
  /-- Jump register stall. -/
  jr_stall : Bool
  /-- ID is ready. -/
  id_ready_i : Bool
  /-- EX is done. -/
  ex_valid_i : Bool

/-- Outputs of the state machine. -/
structure Output where
  /-- Start fetching instructions. -/
  instr_req_o : Bool
  /-- The interrupt is taken. -/
  exc_ack_o : Bool
  /-- The interrupt is dropped. -/
  exc_kill_o : Bool
  /-- Save the program counter of IF. -/
  csr_save_if_o : Bool
  /-- Save the program counter of ID. -/
  csr_save_id_o : Bool
  /-- Return from machine mode. -/
  csr_restore_mret_id_o : Bool
  /-- Return from user mode. -/
  csr_restore_uret_id_o : Bool
  /-- Save the cause. -/
  csr_save_cause_o : Bool
  /-- Cause for the debugger. -/
  exc_cause_o : BitVec 6
  /-- Exception handler. -/
  exc_pc_mux_o : ExcPc
  /-- The handler is that of user mode. -/
  trap_user : Bool
  /-- Cause. -/
  csr_cause_o : BitVec 6
  /-- The interrupt taken is secure. -/
  csr_irq_sec_o : Bool
  /-- Source of the next fetch address. -/
  pc_mux_o : PcMux
  /-- Jump to it. -/
  pc_set_o : Bool
  /-- The jump in ID is made. -/
  jump_done : Bool
  /-- Next state. -/
  ctrl_fsm_ns : CtrlState
  /-- The core is busy. -/
  ctrl_busy_o : Bool
  /-- First fetch. -/
  first_fetch_o : Bool
  /-- Halt IF. -/
  halt_if_o : Bool
  /-- Halt ID. -/
  halt_id_o : Bool
  /-- The core stopped for the debugger. -/
  dbg_ack_o : Bool
  /-- Acknowledge of the interrupt line. -/
  irq_ack_o : Bool
  /-- The boot address is set. -/
  boot_done : Bool
  /-- An instruction is decoded. -/
  is_decoding_o : Bool
  /-- Trap to the debugger. -/
  dbg_trap_o : Bool

/-- Interrupts are enabled at the current privilege level. -/
def irq_enable_int (i : Input) : Bool :=
  (i.u_IE_i || i.irq_sec_ctrl_i) && i.current_priv_lvl_i==PRIV_LVL_U ||
    i.m_IE_i && i.current_priv_lvl_i==PRIV_LVL_M

/-- An unconditional jump is in ID. -/
def jump_in_dec (i : Input) : Bool :=
  i.jump_in_dec_i==.BRANCH_JALR || i.jump_in_dec_i==.BRANCH_JAL

section Fsm

variable (s : State) (i : Input)

/-- Outputs that no state sets. -/
def defaults : Output where
  instr_req_o := true
  exc_ack_o := false
  exc_kill_o := false
  csr_save_if_o := false
  csr_save_id_o := false
  csr_restore_mret_id_o := false
  csr_restore_uret_id_o := false
  csr_save_cause_o := false
  exc_cause_o := 0
  exc_pc_mux_o := .EXC_PC_IRQ
  trap_user := false
  csr_cause_o := 0
  csr_irq_sec_o := false
  pc_mux_o := .PC_BOOT
  pc_set_o := false
  jump_done := s.jump_done_q
  ctrl_fsm_ns := s.ctrl_fsm_cs
  ctrl_busy_o := true
  first_fetch_o := false
  halt_if_o := false
  halt_id_o := false
  dbg_ack_o := false
  irq_ack_o := false
  boot_done := false
  is_decoding_o := false
  dbg_trap_o := false

/-- Single stepping. -/
def singleStep : Bool := i.dbg_settings_i.getLsbD 0

/-- One of the instructions that flush the pipeline. -/
def flushes : Bool :=
  i.mret_insn_i || i.uret_insn_i || i.ecall_insn_i || i.pipe_flush_i || i.ebrk_insn_i ||
    i.illegal_insn_i

/-- The instruction in ID, without an interrupt and before debug requests. -/
def decoding : Output :=
  let o := { defaults s with
    is_decoding_o := true
    exc_kill_o := i.irq_req_ctrl_i }
  if jump_in_dec i then
    let jumps := !i.jr_stall && !s.jump_done_q
    { o with
      pc_mux_o := .PC_JUMP
      pc_set_o := jumps
      jump_done := jumps || s.jump_done_q
      dbg_trap_o := singleStep i }
  else if flushes i then { o with
    halt_if_o := true
    halt_id_o := true
    ctrl_fsm_ns := .FLUSH_EX }
  else if i.csr_status_i then { o with
    halt_if_o := true
    ctrl_fsm_ns := if i.id_ready_i then .FLUSH_EX else .DECODE }
  else if i.data_load_event_i then { o with
    ctrl_fsm_ns := if i.id_ready_i then .ELW_EXE else .DECODE
    halt_if_o := true
    dbg_trap_o := singleStep i }
  else { o with dbg_trap_o := singleStep i }

/-- The state in which instructions are decoded. -/
def stateDECODE : Output :=
  if i.branch_taken_ex_i then { defaults s with
    pc_mux_o := .PC_BRANCH
    pc_set_o := true
    dbg_trap_o := singleStep i
    ctrl_fsm_ns := if i.dbg_req_i then .DBG_SIGNAL else .DECODE }
  else if i.instr_valid_i then
    if i.irq_req_ctrl_i && irq_enable_int i then { defaults s with
      is_decoding_o := true
      halt_if_o := true
      halt_id_o := true
      ctrl_fsm_ns := .IRQ_FLUSH }
    else if i.dbg_req_i then { decoding s i with
      halt_if_o := true
      ctrl_fsm_ns :=
        if i.id_ready_i then
          if i.jump_in_id_i==.BRANCH_COND then .DBG_WAIT_BRANCH else .DBG_SIGNAL
        else (decoding s i).ctrl_fsm_ns }
    else decoding s i
  else defaults s

/-- Entry into the interrupt handler, but for the program counter to save. -/
def irqTaken : Output := { defaults s with
  pc_set_o := true
  pc_mux_o := .PC_EXCEPTION
  exc_pc_mux_o := .EXC_PC_IRQ
  exc_cause_o := 0#1++i.irq_id_ctrl_i
  csr_irq_sec_o := i.irq_sec_ctrl_i
  csr_save_cause_o := true
  csr_cause_o := 1#1++i.irq_id_ctrl_i
  trap_user := !i.irq_sec_ctrl_i && i.current_priv_lvl_i==PRIV_LVL_U
  irq_ack_o := true
  exc_ack_o := true
  ctrl_fsm_ns := .DECODE }

/-- The state in which exceptions are taken. -/
def stateFLUSH_WB : Output :=
  let o := { defaults s with
    halt_if_o := true
    halt_id_o := true
    ctrl_fsm_ns :=
      if i.pipe_flush_i then if i.dbg_req_i then .DBG_SIGNAL_SLEEP else .WAIT_SLEEP
      else if i.dbg_req_i then .DBG_SIGNAL else .DECODE }
  if i.ecall_insn_i then { o with
    pc_mux_o := .PC_EXCEPTION
    pc_set_o := true
    csr_save_id_o := true
    csr_save_cause_o := true
    exc_pc_mux_o := .EXC_PC_ECALL
    exc_cause_o := EXC_CAUSE_ECALL_MMODE
    csr_cause_o := if i.current_priv_lvl_i==PRIV_LVL_U then EXC_CAUSE_ECALL_UMODE
      else EXC_CAUSE_ECALL_MMODE
    dbg_trap_o := i.dbg_settings_i.getLsbD 4 || singleStep i }
  else if i.illegal_insn_i then { o with
    pc_mux_o := .PC_EXCEPTION
    pc_set_o := true
    csr_save_id_o := true
    csr_save_cause_o := true
    exc_pc_mux_o := .EXC_PC_ILLINSN
    exc_cause_o := EXC_CAUSE_ILLEGAL_INSN
    csr_cause_o := EXC_CAUSE_ILLEGAL_INSN
    dbg_trap_o := i.dbg_settings_i.getLsbD 3 || singleStep i }
  else if i.mret_insn_i then { o with
    pc_mux_o := .PC_ERET
    pc_set_o := true
    csr_restore_mret_id_o := true
    dbg_trap_o := singleStep i }
  else if i.uret_insn_i then { o with
    pc_mux_o := .PC_ERET
    pc_set_o := true
    csr_restore_uret_id_o := true
    dbg_trap_o := singleStep i }
  else if i.ebrk_insn_i then { o with
    dbg_trap_o := i.dbg_settings_i.getLsbD 1 || singleStep i
    exc_cause_o := EXC_CAUSE_BREAKPOINT }
  else { o with dbg_trap_o := (i.csr_status_i || i.pipe_flush_i) && singleStep i }

/-- The state machine. -/
def fsm : Output :=
  let o := defaults s
  match s.ctrl_fsm_cs with
  | .RESET => { o with
    instr_req_o := false
    ctrl_fsm_ns := if i.fetch_enable_i then .BOOT_SET else if i.dbg_req_i then .DBG_SIGNAL else .RESET }
  | .BOOT_SET => { o with
    pc_mux_o := .PC_BOOT
    pc_set_o := true
    boot_done := true
    ctrl_fsm_ns := .FIRST_FETCH }
  | .WAIT_SLEEP => { o with
    ctrl_busy_o := false
    instr_req_o := false
    halt_if_o := true
    halt_id_o := true
    ctrl_fsm_ns := .SLEEP }
  | .SLEEP => { o with
    ctrl_busy_o := false
    instr_req_o := false
    halt_if_o := true
    halt_id_o := true
    dbg_trap_o := singleStep i
    ctrl_fsm_ns := if i.dbg_req_i then .DBG_SIGNAL_SLEEP else if i.irq_i then .FIRST_FETCH else .SLEEP }
  | .FIRST_FETCH =>
    let irq := i.irq_req_ctrl_i && irq_enable_int i
    { o with
      first_fetch_o := true
      halt_if_o := irq
      halt_id_o := irq
      ctrl_fsm_ns := if irq then .IRQ_TAKEN_IF
        else if i.id_ready_i && !i.dbg_stall_i then .DECODE else .FIRST_FETCH }
  | .DECODE => stateDECODE s i
  | .DBG_WAIT_BRANCH => { o with
    halt_if_o := true
    pc_mux_o := if i.branch_taken_ex_i then .PC_BRANCH else .PC_BOOT
    pc_set_o := i.branch_taken_ex_i
    ctrl_fsm_ns := .DBG_SIGNAL }
  | .DBG_SIGNAL => { o with
    dbg_ack_o := true
    halt_if_o := true
    ctrl_fsm_ns := .DBG_WAIT }
  | .DBG_SIGNAL_SLEEP => { o with
    dbg_ack_o := true
    halt_if_o := true
    ctrl_fsm_ns := .DBG_WAIT }
  | .DBG_SIGNAL_ELW => { o with
    dbg_ack_o := true
    halt_if_o := true
    ctrl_fsm_ns := .DBG_WAIT_ELW }
  | .DBG_WAIT_ELW => { o with
    halt_if_o := true
    pc_mux_o := if i.dbg_jump_req_i then .PC_DBG_NPC else .PC_BOOT
    pc_set_o := i.dbg_jump_req_i
    ctrl_fsm_ns := if !i.dbg_stall_i then .ELW_EXE
      else if i.dbg_jump_req_i then .DBG_WAIT else .DBG_WAIT_ELW }
  | .DBG_WAIT => { o with
    halt_if_o := true
    pc_mux_o := if i.dbg_jump_req_i then .PC_DBG_NPC else .PC_BOOT
    pc_set_o := i.dbg_jump_req_i
    ctrl_fsm_ns := if !i.dbg_stall_i then if s.boot_done_q then .DECODE else .RESET else .DBG_WAIT }
  | .FLUSH_EX => { o with
    halt_if_o := true
    halt_id_o := true
    ctrl_fsm_ns := if i.ex_valid_i then .FLUSH_WB else .FLUSH_EX }
  | .IRQ_FLUSH => { o with
    halt_if_o := true
    halt_id_o := true
    ctrl_fsm_ns := if i.irq_req_ctrl_i && irq_enable_int i then .IRQ_TAKEN_ID else .DECODE }
  | .ELW_EXE => { o with
    halt_if_o := true
    halt_id_o := true
    ctrl_fsm_ns := if i.id_ready_i then .IRQ_FLUSH
      else if i.dbg_req_i then .DBG_SIGNAL_ELW else .ELW_EXE }
  | .IRQ_TAKEN_ID => { irqTaken s i with csr_save_id_o := true }
  | .IRQ_TAKEN_IF => { irqTaken s i with csr_save_if_o := true }
  | .FLUSH_WB => stateFLUSH_WB s i

/-- One clock edge. -/
def step : State where
  ctrl_fsm_cs := (fsm s i).ctrl_fsm_ns
  jump_done_q := (fsm s i).jump_done && !i.id_ready_i
  boot_done_q := (fsm s i).boot_done || s.boot_done_q

end Fsm

/-- What the stalls and the forwarding look at. -/
structure Hazards where
  /-- A memory access is in EX. -/
  data_req_ex_i : Bool
  /-- A misaligned access is in EX. -/
  data_misaligned_i : Bool
  /-- The multiplier takes several cycles. -/
  mult_multicycle_i : Bool
  /-- Destination of the instruction in ID. -/
  regfile_alu_waddr_id_i : BitVec 6
  /-- A load is in EX. -/
  regfile_we_ex_i : Bool
  /-- Its destination. -/
  regfile_waddr_ex_i : BitVec 6
  /-- A load writes its register. -/
  regfile_we_wb_i : Bool
  /-- An EX result is written. -/
  regfile_alu_we_fw_i : Bool
  /-- Source registers that are the destination of the load in EX. -/
  reg_d_ex_is_reg_i : Fin 3 → Bool
  /-- Source registers that are the destination of the load in WB. -/
  reg_d_wb_is_reg_i : Fin 3 → Bool
  /-- Source registers that are the destination of the EX result. -/
  reg_d_alu_is_reg_i : Fin 3 → Bool
  /-- WB is ready. -/
  wb_ready_i : Bool

/-- Stall because of a load. -/
def load_stall_o (h : Hazards) : Bool :=
  (h.data_req_ex_i && h.regfile_we_ex_i || !h.wb_ready_i && h.regfile_we_wb_i) &&
    (h.reg_d_ex_is_reg_i 0 || h.reg_d_ex_is_reg_i 1 || h.reg_d_ex_is_reg_i 2 ||
      h.regfile_waddr_ex_i==h.regfile_alu_waddr_id_i)

/-- Stall because of a jump to a register that is still computed. -/
def jr_stall_o (h : Hazards) (jump_in_dec_i : Jump) : Bool :=
  jump_in_dec_i==.BRANCH_JALR &&
    (h.regfile_we_wb_i && h.reg_d_wb_is_reg_i 0 || h.regfile_we_ex_i && h.reg_d_ex_is_reg_i 0 ||
      h.regfile_alu_we_fw_i && h.reg_d_alu_is_reg_i 0)

/-- The write enables of the instruction in ID are cleared. -/
def deassert_we_o (h : Hazards) (jump_in_dec_i : Jump) (is_decoding_o illegal_insn_i : Bool) : Bool :=
  !is_decoding_o || illegal_insn_i || load_stall_o h || jr_stall_o h jump_in_dec_i

/-- Source of operand `k` without a misaligned access and a long multiplication. -/
def forward (h : Hazards) (k : Fin 3) : FwSel :=
  if h.regfile_alu_we_fw_i && h.reg_d_alu_is_reg_i k then .SEL_FW_EX
  else if h.regfile_we_wb_i && h.reg_d_wb_is_reg_i k then .SEL_FW_WB
  else .SEL_REGFILE

def operand_a_fw_mux_sel_o (h : Hazards) : FwSel :=
  if h.data_misaligned_i then .SEL_FW_EX else forward h 0

def operand_b_fw_mux_sel_o (h : Hazards) : FwSel :=
  if h.data_misaligned_i then .SEL_REGFILE else forward h 1

def operand_c_fw_mux_sel_o (h : Hazards) : FwSel :=
  if h.mult_multicycle_i && !h.data_misaligned_i then .SEL_FW_EX else forward h 2

section Decoding

variable (s : State) (i : Input)

theorem decoding_is_decoding : (decoding s i).is_decoding_o=true := by
  unfold decoding
  cases jump_in_dec i with
  | true => rfl
  | false => cases flushes i with
    | true => rfl
    | false => cases i.csr_status_i with
      | true => rfl
      | false => cases i.data_load_event_i <;> rfl

/-- A valid instruction is decoded unless an older branch is taken. -/
theorem is_decoding_eq : (fsm s i).is_decoding_o=
    (s.ctrl_fsm_cs==.DECODE && !i.branch_taken_ex_i && i.instr_valid_i) := by
  unfold fsm
  cases s.ctrl_fsm_cs with
  | DECODE =>
    dsimp only
    unfold stateDECODE
    cases i.branch_taken_ex_i with
    | true => rfl
    | false => cases i.instr_valid_i with
      | false => rfl
      | true => cases i.irq_req_ctrl_i && irq_enable_int i with
        | true => rfl
        | false => cases i.dbg_req_i <;> exact decoding_is_decoding s i
  | FLUSH_WB =>
    dsimp only
    unfold stateFLUSH_WB
    cases i.ecall_insn_i with
    | true => rfl
    | false => cases i.illegal_insn_i with
      | true => rfl
      | false => cases i.mret_insn_i with
        | true => rfl
        | false => cases i.uret_insn_i with
          | true => rfl
          | false => cases i.ebrk_insn_i <;> rfl
  | _ => rfl

/-- What an illegal instruction looks like to the controller. -/
structure Illegal : Prop where
  illegal_insn_i : i.illegal_insn_i=true
  ecall_insn_i : i.ecall_insn_i=false
  jump_in_dec : jump_in_dec i=false

variable {s i}

theorem decoding_illegal (hill : Illegal i) : decoding s i={ defaults s with
    is_decoding_o := true
    exc_kill_o := i.irq_req_ctrl_i
    halt_if_o := true
    halt_id_o := true
    ctrl_fsm_ns := .FLUSH_EX } := by
  have hflush : flushes i=true := by
    unfold flushes
    rw [hill.illegal_insn_i,Bool.or_true]
  unfold decoding
  rw [hill.jump_in_dec,hflush]
  rfl

/-- An illegal instruction neither jumps nor returns from a trap. -/
theorem illegal_stays (hill : Illegal i) :
    ((fsm s i).pc_set_o=true → (fsm s i).pc_mux_o≠.PC_JUMP ∧ (fsm s i).pc_mux_o≠.PC_ERET) ∧
      (fsm s i).csr_restore_mret_id_o=false ∧ (fsm s i).csr_restore_uret_id_o=false := by
  unfold fsm
  cases s.ctrl_fsm_cs with
  | DECODE =>
    dsimp only
    unfold stateDECODE
    rw [decoding_illegal hill]
    cases i.branch_taken_ex_i with
    | true => exact ⟨fun _ => ⟨nofun,nofun⟩,rfl,rfl⟩
    | false => cases i.instr_valid_i with
      | false => exact ⟨nofun,rfl,rfl⟩
      | true => cases i.irq_req_ctrl_i && irq_enable_int i with
        | true => exact ⟨nofun,rfl,rfl⟩
        | false => cases i.dbg_req_i <;> exact ⟨nofun,rfl,rfl⟩
  | FLUSH_WB =>
    dsimp only
    unfold stateFLUSH_WB
    rw [hill.ecall_insn_i,hill.illegal_insn_i]
    exact ⟨fun _ => ⟨nofun,nofun⟩,rfl,rfl⟩
  | DBG_WAIT_BRANCH => cases i.branch_taken_ex_i <;> exact ⟨fun _ => ⟨nofun,nofun⟩,rfl,rfl⟩
  | DBG_WAIT_ELW => cases i.dbg_jump_req_i <;> exact ⟨fun _ => ⟨nofun,nofun⟩,rfl,rfl⟩
  | DBG_WAIT => cases i.dbg_jump_req_i <;> exact ⟨fun _ => ⟨nofun,nofun⟩,rfl,rfl⟩
  | BOOT_SET => exact ⟨fun _ => ⟨nofun,nofun⟩,rfl,rfl⟩
  | IRQ_TAKEN_ID => exact ⟨fun _ => ⟨nofun,nofun⟩,rfl,rfl⟩
  | IRQ_TAKEN_IF => exact ⟨fun _ => ⟨nofun,nofun⟩,rfl,rfl⟩
  | _ => exact ⟨nofun,rfl,rfl⟩

/-- An illegal instruction that is decoded flushes the pipeline, unless an
interrupt or the debugger is served. -/
theorem decode_flush (hill : Illegal i) (hdec : (fsm s i).is_decoding_o=true)
    (hirq : (i.irq_req_ctrl_i && irq_enable_int i)=false)
    (hdbg : (i.dbg_req_i && i.id_ready_i)=false) :
    (fsm s i).ctrl_fsm_ns=.FLUSH_EX ∧ (fsm s i).halt_if_o=true ∧ (fsm s i).halt_id_o=true ∧
      (fsm s i).csr_save_cause_o=false := by
  rw [is_decoding_eq] at hdec
  have hparts : (s.ctrl_fsm_cs=.DECODE ∧ i.branch_taken_ex_i=false) ∧ i.instr_valid_i=true := by
    simpa using hdec
  unfold fsm
  rw [hparts.1.1]
  dsimp only
  unfold stateDECODE
  rw [hparts.1.2,hparts.2,hirq,decoding_illegal hill]
  cases hreq : i.dbg_req_i with
  | false => exact ⟨rfl,rfl,rfl,rfl⟩
  | true =>
    rw [hreq,Bool.true_and] at hdbg
    rw [hdbg]
    exact ⟨rfl,rfl,rfl,rfl⟩

/-- The pipeline is flushed until EX is done. -/
theorem flush_ex (hs : s.ctrl_fsm_cs=.FLUSH_EX) :
    (fsm s i).ctrl_fsm_ns=(if i.ex_valid_i then .FLUSH_WB else .FLUSH_EX) ∧
      (fsm s i).halt_if_o=true ∧ (fsm s i).halt_id_o=true ∧ (fsm s i).csr_save_cause_o=false ∧
      (fsm s i).csr_restore_mret_id_o=false ∧ (fsm s i).csr_restore_uret_id_o=false ∧
      (fsm s i).pc_set_o=false := by
  unfold fsm
  rw [hs]
  exact ⟨rfl,rfl,rfl,rfl,rfl,rfl,rfl⟩

/-- After the flush an illegal instruction traps. -/
theorem flush_wb (hill : Illegal i) (hs : s.ctrl_fsm_cs=.FLUSH_WB) :
    (fsm s i).pc_set_o=true ∧ (fsm s i).pc_mux_o=.PC_EXCEPTION ∧
      (fsm s i).exc_pc_mux_o=.EXC_PC_ILLINSN ∧ (fsm s i).csr_save_cause_o=true ∧
      (fsm s i).csr_save_if_o=false ∧ (fsm s i).csr_cause_o=EXC_CAUSE_ILLEGAL_INSN := by
  unfold fsm
  rw [hs]
  dsimp only
  unfold stateFLUSH_WB
  rw [hill.ecall_insn_i,hill.illegal_insn_i]
  exact ⟨rfl,rfl,rfl,rfl,rfl,rfl⟩

end Decoding

section Fetching

variable (s : State) (i : Input)

theorem decoding_requests : (decoding s i).instr_req_o=true := by
  unfold decoding
  cases jump_in_dec i with
  | true => rfl
  | false => cases flushes i with
    | true => rfl
    | false => cases i.csr_status_i with
      | true => rfl
      | false => cases i.data_load_event_i <;> rfl

theorem stateDECODE_requests : (stateDECODE s i).instr_req_o=true := by
  unfold stateDECODE
  cases i.branch_taken_ex_i with
  | true => rfl
  | false => cases i.instr_valid_i with
    | false => rfl
    | true => cases i.irq_req_ctrl_i && irq_enable_int i with
      | true => rfl
      | false => cases i.dbg_req_i <;> exact decoding_requests s i

theorem stateFLUSH_WB_requests : (stateFLUSH_WB s i).instr_req_o=true := by
  unfold stateFLUSH_WB
  cases i.ecall_insn_i with
  | true => rfl
  | false => cases i.illegal_insn_i with
    | true => rfl
    | false => cases i.mret_insn_i with
      | true => rfl
      | false => cases i.uret_insn_i with
        | true => rfl
        | false => cases i.ebrk_insn_i <;> rfl

/-- A state that sets the program counter also fetches. -/
theorem pc_set_requests (h : (fsm s i).pc_set_o=true) : (fsm s i).instr_req_o=true := by
  unfold fsm at h ⊢
  cases hs : s.ctrl_fsm_cs with
  | RESET => rw [hs] at h; exact absurd h nofun
  | WAIT_SLEEP => rw [hs] at h; exact absurd h nofun
  | SLEEP => rw [hs] at h; exact absurd h nofun
  | DECODE => exact stateDECODE_requests s i
  | FLUSH_WB => exact stateFLUSH_WB_requests s i
  | _ => rfl

end Fetching

section Flushing

variable (s : State) (i : Input)

/-- What decoding leaves to the flush. -/
structure Undisturbed (o : Output) : Prop where
  mret : o.csr_restore_mret_id_o=false
  uret : o.csr_restore_uret_id_o=false
  save : o.csr_save_cause_o=false
  next : o.ctrl_fsm_ns≠.FLUSH_WB

theorem decoding_undisturbed (hs : s.ctrl_fsm_cs=.DECODE) : Undisturbed (decoding s i) := by
  have hstay : s.ctrl_fsm_cs≠.FLUSH_WB := by
    rw [hs]
    exact nofun
  unfold decoding
  cases jump_in_dec i with
  | true => exact ⟨rfl,rfl,rfl,hstay⟩
  | false => cases flushes i with
    | true => exact ⟨rfl,rfl,rfl,nofun⟩
    | false => cases i.csr_status_i with
      | true => cases i.id_ready_i with
        | _ => exact ⟨rfl,rfl,rfl,nofun⟩
      | false => cases i.data_load_event_i with
        | true => cases i.id_ready_i with
          | _ => exact ⟨rfl,rfl,rfl,nofun⟩
        | false => exact ⟨rfl,rfl,rfl,hstay⟩

theorem stateDECODE_undisturbed (hs : s.ctrl_fsm_cs=.DECODE) : Undisturbed (stateDECODE s i) := by
  have hdec := decoding_undisturbed s i hs
  have hstay : s.ctrl_fsm_cs≠.FLUSH_WB := by
    rw [hs]
    exact nofun
  unfold stateDECODE
  cases i.branch_taken_ex_i with
  | true => cases i.dbg_req_i with
    | _ => exact ⟨rfl,rfl,rfl,nofun⟩
  | false => cases i.instr_valid_i with
    | false => exact ⟨rfl,rfl,rfl,hstay⟩
    | true => cases i.irq_req_ctrl_i && irq_enable_int i with
      | true => exact ⟨rfl,rfl,rfl,nofun⟩
      | false => cases i.dbg_req_i with
        | false => exact hdec
        | true => cases i.id_ready_i with
          | false => exact ⟨hdec.mret,hdec.uret,hdec.save,hdec.next⟩
          | true => cases i.jump_in_id_i==.BRANCH_COND with
            | _ => exact ⟨hdec.mret,hdec.uret,hdec.save,nofun⟩

/-- The end of a flush makes a machine return only for its instruction. -/
theorem flush_wb_mret (h : i.mret_insn_i=false) :
    (stateFLUSH_WB s i).csr_restore_mret_id_o=false := by
  unfold stateFLUSH_WB
  rw [h]
  cases i.ecall_insn_i with
  | true => rfl
  | false => cases i.illegal_insn_i with
    | true => rfl
    | false => cases i.uret_insn_i with
      | true => rfl
      | false => cases i.ebrk_insn_i with
        | _ => rfl

/-- Every end of a flush goes on in the same way, with ID halted. -/
theorem flush_wb_ends : (stateFLUSH_WB s i).ctrl_fsm_ns=
    (if i.pipe_flush_i then if i.dbg_req_i then .DBG_SIGNAL_SLEEP else .WAIT_SLEEP
      else if i.dbg_req_i then .DBG_SIGNAL else .DECODE) ∧
    (stateFLUSH_WB s i).halt_id_o=true := by
  unfold stateFLUSH_WB
  cases i.ecall_insn_i with
  | true => exact ⟨rfl,rfl⟩
  | false => cases i.illegal_insn_i with
    | true => exact ⟨rfl,rfl⟩
    | false => cases i.mret_insn_i with
      | true => exact ⟨rfl,rfl⟩
      | false => cases i.uret_insn_i with
        | true => exact ⟨rfl,rfl⟩
        | false => cases i.ebrk_insn_i with
          | _ => exact ⟨rfl,rfl⟩

/-- Returns are made at the end of a flush, a machine return for its instruction. -/
theorem restore_flush_wb :
    ((fsm s i).csr_restore_mret_id_o=true → s.ctrl_fsm_cs=.FLUSH_WB ∧ i.mret_insn_i=true) ∧
      ((fsm s i).csr_restore_uret_id_o=true → s.ctrl_fsm_cs=.FLUSH_WB) := by
  unfold fsm
  cases hs : s.ctrl_fsm_cs with
  | DECODE =>
    have hdec := stateDECODE_undisturbed s i hs
    exact ⟨fun h => absurd (hdec.mret.symm.trans h) nofun,
      fun h => absurd (hdec.uret.symm.trans h) nofun⟩
  | FLUSH_WB =>
    refine ⟨fun h => ⟨rfl,?_⟩,fun _ => rfl⟩
    cases hmret : i.mret_insn_i with
    | true => rfl
    | false =>
      exact absurd ((flush_wb_mret s i hmret).symm.trans h) nofun
  | _ => exact ⟨nofun,nofun⟩

/-- The end of a flush comes when EX is done. -/
theorem enters_flush_wb (h : (fsm s i).ctrl_fsm_ns=.FLUSH_WB) :
    s.ctrl_fsm_cs=.FLUSH_EX ∧ i.ex_valid_i=true := by
  unfold fsm at h
  cases hs : s.ctrl_fsm_cs with
  | DECODE =>
    rw [hs] at h
    exact absurd h (stateDECODE_undisturbed s i hs).next
  | FLUSH_EX =>
    rw [hs] at h
    cases hv : i.ex_valid_i with
    | true => exact ⟨rfl,rfl⟩
    | false =>
      rw [hv] at h
      exact absurd h nofun
  | FLUSH_WB =>
    rw [hs] at h
    dsimp only at h
    rw [(flush_wb_ends s i).1] at h
    split_ifs at h
  | BOOT_SET | WAIT_SLEEP | IRQ_TAKEN_ID | IRQ_TAKEN_IF | DBG_SIGNAL | DBG_SIGNAL_SLEEP
  | DBG_SIGNAL_ELW | DBG_WAIT_BRANCH =>
    rw [hs] at h
    exact absurd h nofun
  | _ =>
    rw [hs] at h
    dsimp only at h
    split_ifs at h

/-- Nothing leaves ID during a flush. -/
theorem flush_halts (hs : s.ctrl_fsm_cs=.FLUSH_EX ∨ s.ctrl_fsm_cs=.FLUSH_WB) :
    (fsm s i).halt_id_o=true := by
  unfold fsm
  rcases hs with hs | hs
  · rw [hs]
  · rw [hs]
    exact (flush_wb_ends s i).2

/-- In the cycle of an instruction that is decoded there is no trap and no return. -/
theorem decoding_keeps (h : (fsm s i).is_decoding_o=true) :
    (fsm s i).csr_save_cause_o=false ∧ (fsm s i).csr_restore_mret_id_o=false ∧
      (fsm s i).csr_restore_uret_id_o=false := by
  rw [is_decoding_eq,Bool.and_eq_true,Bool.and_eq_true,beq_iff_eq] at h
  have hdec := stateDECODE_undisturbed s i h.1.1
  unfold fsm
  rw [h.1.1]
  exact ⟨hdec.save,hdec.mret,hdec.uret⟩

end Flushing

end Pulpissimo.Riscv.Controller

import Pulpissimo.Lib.Indices
import Pulpissimo.Lib.Machine
import Pulpissimo.Riscv.CsRegisters

/-!
# The RI5CY control and status registers

All of `riscv_cs_registers`: the trap registers with those of the floating
point unit, the trap vectors, the write port of the hardware loops and the
performance counters, in the variant with one register for each counter. CSR
instructions and the debug unit share the access port. The ordinary registers
take set and clear from one operand; the performance registers compute their own.
-/

namespace Pulpissimo.Riscv.CsrFile

open Pulpissimo.Riscv Pulpissimo.Riscv.Decoder

/-- Parameters of the module. -/
structure Params where
  /-- Floating point unit. -/
  FPU : Bool
  /-- User mode. -/
  PULP_SECURE : Bool
  /-- Auxiliary processing unit. -/
  APU : Bool
  /-- Number of external counters. -/
  N_EXT_CNT : ℕ

/-- Number of performance counters. -/
def Params.N_PERF_COUNTERS (p : Params) : ℕ := 12+p.N_EXT_CNT+if p.APU then 4 else 0

/-- What the core puts on the access port. -/
inductive Access
  /-- Nothing. -/
  | idle
  /-- A CSR instruction in EX. -/
  | instruction (op : CsrOp) (addr : BitVec 12) (wdata : BitVec 32)
  /-- The debug unit reads or writes. -/
  | debug (we : Bool) (addr : BitVec 12) (wdata : BitVec 32)

def Access.csr_access_i : Access → Bool
  | .idle => false
  | .instruction _ _ _ | .debug _ _ _ => true

def Access.csr_addr_i : Access → BitVec 12
  | .idle => 0
  | .instruction _ addr _ | .debug _ addr _ => addr

def Access.csr_wdata_i : Access → BitVec 32
  | .idle => 0
  | .instruction _ _ wdata | .debug _ _ wdata => wdata

def Access.csr_op_i : Access → CsrOp
  | .idle => .CSR_OP_NONE
  | .instruction op _ _ => op
  | .debug we _ _ => if we then .CSR_OP_WRITE else .CSR_OP_NONE

/-- Registers, with `n` performance counters. -/
structure State (n : ℕ) where
  /-- Privilege level, status, and the registers of the traps. -/
  trap : CsRegisters.State
  /-- Floating point flags. -/
  fflags_q : BitVec 5
  /-- Rounding mode. -/
  frm_q : BitVec 3
  /-- Precision. -/
  fprec_q : BitVec 5
  /-- Trap vector of machine mode. -/
  mtvec_reg_q : BitVec 24
  /-- Trap vector of user mode. -/
  utvec_q : BitVec 24
  /-- ID was done in the last cycle. -/
  id_valid_q : Bool
  /-- Counters to increase. -/
  PCCR_inc_q : Fin n → Bool
  /-- Counters. -/
  PCCR_q : Fin n → BitVec 32
  /-- Mode: saturation and enable. -/
  PCMR_q : BitVec 2
  /-- Enabled counters. -/
  PCER_q : BitVec n

/-- One cycle of inputs. -/
structure Input where
  /-- The access port. -/
  access : Access
  /-- Traps and returns; its CSR fields are those of the access. -/
  ctrl : CsRegisters.Input
  /-- Flags of a floating point operation. -/
  fflags_i : BitVec 5
  /-- There are such flags. -/
  fflags_we_i : Bool
  /-- Cluster number. -/
  cluster_id_i : BitVec 6
  /-- Core number. -/
  core_id_i : BitVec 4
  /-- Boot address. -/
  boot_addr_i : BitVec 24
  /-- Starts of the hardware loops. -/
  hwlp_start_i : Fin 2 → BitVec 32
  /-- Ends of the hardware loops. -/
  hwlp_end_i : Fin 2 → BitVec 32
  /-- Counters of the hardware loops. -/
  hwlp_cnt_i : Fin 2 → BitVec 32
  /-- ID is done. -/
  id_valid_i : Bool
  /-- Compressed instruction in ID. -/
  is_compressed_i : Bool
  /-- The controller decodes. -/
  is_decoding_i : Bool
  /-- Instruction fetch waits. -/
  imiss_i : Bool
  /-- The program counter is set. -/
  pc_set_i : Bool
  /-- Jump. -/
  jump_i : Bool
  /-- Branch. -/
  branch_i : Bool
  /-- The branch is taken. -/
  branch_taken_i : Bool
  /-- Load-use hazard. -/
  ld_stall_i : Bool
  /-- Jump-register hazard. -/
  jr_stall_i : Bool
  /-- Type conflict of the APU. -/
  apu_typeconflict_i : Bool
  /-- Contention of the APU. -/
  apu_contention_i : Bool
  /-- Dependency of the APU. -/
  apu_dep_i : Bool
  /-- Write-back of the APU. -/
  apu_wb_i : Bool
  /-- Load. -/
  mem_load_i : Bool
  /-- Store. -/
  mem_store_i : Bool
  /-- External counters. -/
  ext_counters_i : ℕ → Bool

section Code

variable (p : Params) (s : State p.N_PERF_COUNTERS) (i : Input)

/-- Trap vector of machine mode. -/
def mtvec_q : BitVec 24 := if p.PULP_SECURE then s.mtvec_reg_q else i.boot_addr_i

/-- The status register as a word. -/
def statusWord (m : CsRegisters.Status) : BitVec 32 :=
  0#19++m.mpp++0#3++BitVec.ofBool m.mpie++0#2++BitVec.ofBool m.upie++BitVec.ofBool m.mie++0#2++
    BitVec.ofBool m.uie

/-- A cause as a word. -/
def causeWord (c : BitVec 6) : BitVec 32 := c.extractLsb' 5 1++0#26++c.extractLsb' 0 5

/-- The hart number as a word. -/
def hartWord : BitVec 32 := 0#21++i.cluster_id_i++0#1++i.core_id_i

/-- The ordinary register of a number. The user registers are read in both variants. -/
def ordinary (csr_addr_i : BitVec 12) : BitVec 32 :=
  match csr_addr_i.toNat with
  | 0x001 => if p.FPU then s.fflags_q.setWidth 32 else 0
  | 0x002 => if p.FPU then s.frm_q.setWidth 32 else 0
  | 0x003 => if p.FPU then 0#24++s.frm_q++s.fflags_q else 0
  | 0x006 => if p.FPU then s.fprec_q.setWidth 32 else 0
  | 0x300 => statusWord s.trap.mstatus_q
  | 0x305 => mtvec_q p s i++0#8
  | 0x341 => s.trap.mepc_q
  | 0x342 => causeWord s.trap.mcause_q
  | 0xF14 => hartWord i
  | 0x7B0 => i.hwlp_start_i 0
  | 0x7B1 => i.hwlp_end_i 0
  | 0x7B2 => i.hwlp_cnt_i 0
  | 0x7B4 => i.hwlp_start_i 1
  | 0x7B5 => i.hwlp_end_i 1
  | 0x7B6 => i.hwlp_cnt_i 1
  | 0x000 => 0#27++BitVec.ofBool s.trap.mstatus_q.upie++0#3++BitVec.ofBool s.trap.mstatus_q.uie
  | 0x005 => s.utvec_q++0#8
  | 0x014 => hartWord i
  | 0x041 => s.trap.uepc_q
  | 0x042 => causeWord s.trap.ucause_q
  | 0xC10 => s.trap.priv_lvl_q.setWidth 32
  | _ => 0

/-- Read of an ordinary register. -/
def csr_rdata_int : BitVec 32 := ordinary p s i i.access.csr_addr_i

/-- The access is to the enable register of the counters. -/
def is_pcer : Bool := i.access.csr_access_i && i.access.csr_addr_i==0x7A0

/-- The access is to the mode register of the counters. -/
def is_pcmr : Bool := i.access.csr_access_i && i.access.csr_addr_i==0x7A1

/-- The access is to a counter. -/
def is_pccr : Bool := i.access.csr_access_i && i.access.csr_addr_i.extractLsb' 5 7==0b0111100#7

/-- The access is to all counters. -/
def pccr_all_sel : Bool := i.access.csr_access_i && i.access.csr_addr_i==0x79F

/-- Number of the counter. -/
def pccr_index : ℕ := (i.access.csr_addr_i.extractLsb' 0 5).toNat

/-- Read of a performance register. -/
def perf_rdata : BitVec 32 :=
  if is_pccr i then
    if h : pccr_index i<p.N_PERF_COUNTERS then s.PCCR_q ⟨pccr_index i,h⟩ else 0
  else if is_pcer i then s.PCER_q.setWidth 32
  else if is_pcmr i then s.PCMR_q.setWidth 32
  else 0

/-- Word read. -/
def csr_rdata_o : BitVec 32 :=
  if is_pccr i || is_pcer i || is_pcmr i then perf_rdata p s i else csr_rdata_int p s i

/-- Word to write to an ordinary register. -/
def csr_wdata_int : BitVec 32 :=
  match i.access.csr_op_i with
  | .CSR_OP_NONE | .CSR_OP_WRITE => i.access.csr_wdata_i
  | .CSR_OP_SET => i.access.csr_wdata_i ||| csr_rdata_o p s i
  | .CSR_OP_CLEAR => ~~~i.access.csr_wdata_i &&& csr_rdata_o p s i

/-- An ordinary register is written. -/
def csr_we_int : Bool := i.access.csr_op_i != .CSR_OP_NONE

/-- The operation on a performance register: `idle` is its value without one. -/
def perfUpdate {w : ℕ} (op : CsrOp) (idle old wdata : BitVec w) : BitVec w :=
  match op with
  | .CSR_OP_NONE => idle
  | .CSR_OP_WRITE => wdata
  | .CSR_OP_SET => wdata ||| old
  | .CSR_OP_CLEAR => wdata &&& ~~~old

/-- Inputs of the counters. No signal drives the one before those of the APU. -/
def PCCR_in (k : ℕ) : Bool :=
  match k with
  | 0 => true
  | 1 => i.id_valid_i && i.is_decoding_i
  | 2 => i.ld_stall_i && s.id_valid_q
  | 3 => i.jr_stall_i && s.id_valid_q
  | 4 => i.imiss_i && !i.pc_set_i
  | 5 => i.mem_load_i
  | 6 => i.mem_store_i
  | 7 => i.jump_i && s.id_valid_q
  | 8 => i.branch_i && s.id_valid_q
  | 9 => i.branch_i && i.branch_taken_i && s.id_valid_q
  | 10 => i.id_valid_i && i.is_decoding_i && i.is_compressed_i
  | k =>
    if k<11+p.N_EXT_CNT then i.ext_counters_i (k-11)
    else if p.APU then
      match k-(11+p.N_EXT_CNT) with
      | 1 => i.apu_typeconflict_i && !i.apu_dep_i
      | 2 => i.apu_contention_i
      | 3 => i.apu_dep_i && !i.apu_contention_i
      | 4 => i.apu_wb_i
      | _ => false
    else false

/-- A counter after its own count. -/
def counted (k : Fin p.N_PERF_COUNTERS) : BitVec 32 :=
  if s.PCCR_inc_q k && (s.PCCR_q k != 0xFFFFFFFF || !s.PCMR_q.getLsbD 1) then s.PCCR_q k+1
  else s.PCCR_q k

/-- Next value of a counter. -/
def PCCR_n (k : Fin p.N_PERF_COUNTERS) : BitVec 32 :=
  if is_pccr i && (pccr_all_sel i || pccr_index i==k.val) then
    perfUpdate i.access.csr_op_i (counted p s k) (s.PCCR_q k) i.access.csr_wdata_i
  else counted p s k

/-- Next flags. A write goes before the flags of an operation. -/
def fflags_n : BitVec 5 :=
  if csr_we_int i && (i.access.csr_addr_i==0x001 || i.access.csr_addr_i==0x003) then
    (csr_wdata_int p s i).extractLsb' 0 5
  else if i.fflags_we_i then i.fflags_i ||| s.fflags_q
  else s.fflags_q

/-- Next rounding mode. -/
def frm_n : BitVec 3 :=
  if csr_we_int i && i.access.csr_addr_i==0x002 then (csr_wdata_int p s i).extractLsb' 0 3
  else if csr_we_int i && i.access.csr_addr_i==0x003 then (csr_wdata_int p s i).extractLsb' 5 3
  else s.frm_q

/-- The inputs of the trap registers. -/
def trapInput : CsRegisters.Input := { i.ctrl with
  csr_we_int := csr_we_int i
  csr_addr_i := i.access.csr_addr_i
  csr_wdata_int := csr_wdata_int p s i }

/-- One clock edge. -/
def step : State p.N_PERF_COUNTERS where
  trap := CsRegisters.step p.PULP_SECURE s.trap (trapInput p s i)
  fflags_q := if p.FPU then fflags_n p s i else s.fflags_q
  frm_q := if p.FPU then frm_n p s i else s.frm_q
  fprec_q :=
    if p.FPU && csr_we_int i && i.access.csr_addr_i==0x006 then
      (csr_wdata_int p s i).extractLsb' 0 5
    else s.fprec_q
  mtvec_reg_q :=
    if p.PULP_SECURE && csr_we_int i && i.access.csr_addr_i==0x305 then
      (csr_wdata_int p s i).extractLsb' 8 24
    else s.mtvec_reg_q
  utvec_q :=
    if p.PULP_SECURE && csr_we_int i && i.access.csr_addr_i==0x005 then
      (csr_wdata_int p s i).extractLsb' 8 24
    else s.utvec_q
  id_valid_q := i.id_valid_i
  PCCR_inc_q := fun k => PCCR_in p s i k && s.PCER_q.getLsbD k && s.PCMR_q.getLsbD 0
  PCCR_q := PCCR_n p s i
  PCMR_q :=
    if is_pcmr i then
      perfUpdate i.access.csr_op_i s.PCMR_q s.PCMR_q (i.access.csr_wdata_i.extractLsb' 0 2)
    else s.PCMR_q
  PCER_q :=
    if is_pcer i then
      perfUpdate i.access.csr_op_i s.PCER_q s.PCER_q
        (i.access.csr_wdata_i.extractLsb' 0 p.N_PERF_COUNTERS)
    else s.PCER_q

/-- Write enables of the hardware loops: start, end, counter. -/
def hwlp_we_o : BitVec 3 :=
  if csr_we_int i then
    match i.access.csr_addr_i.toNat with
    | 0x7B0 | 0x7B4 => 0b001
    | 0x7B1 | 0x7B5 => 0b010
    | 0x7B2 | 0x7B6 => 0b100
    | _ => 0
  else 0

/-- Number of the hardware loop. -/
def hwlp_regid_o : Fin 2 :=
  if csr_we_int i then
    match i.access.csr_addr_i.toNat with
    | 0x7B4 | 0x7B5 | 0x7B6 => 1
    | _ => 0
  else 0

/-- Word for the hardware loop. -/
def hwlp_data_o : BitVec 32 := csr_wdata_int p s i

end Code

/-- Values after reset. -/
def reset {n : ℕ} : State n where
  trap := CsRegisters.reset
  fflags_q := 0
  frm_q := 0
  fprec_q := 0
  mtvec_reg_q := 0
  utvec_q := 0
  id_valid_q := false
  PCCR_inc_q := fun _ => false
  PCCR_q := fun _ => 0
  PCMR_q := 0b11
  PCER_q := 0

/-- A cycle with an access and nothing else. -/
def quiet (access : Access) : Input :=
  { access,
    ctrl := ⟨false,0,0,0,0,false,false,false,false,0,false,false⟩,
    fflags_i := 0, fflags_we_i := false, cluster_id_i := 0, core_id_i := 0, boot_addr_i := 0,
    hwlp_start_i := fun _ => 0, hwlp_end_i := fun _ => 0, hwlp_cnt_i := fun _ => 0,
    id_valid_i := false, is_compressed_i := false, is_decoding_i := false, imiss_i := false,
    pc_set_i := false, jump_i := false, branch_i := false, branch_taken_i := false,
    ld_stall_i := false, jr_stall_i := false, apu_typeconflict_i := false,
    apu_contention_i := false, apu_dep_i := false, apu_wb_i := false, mem_load_i := false,
    mem_store_i := false, ext_counters_i := fun _ => false }

/-- The same cycle without an access: what the hardware does by itself. -/
def Input.alone (i : Input) : Input := { i with access := .idle }

/-- There is a trap or a return in the cycle. -/
def Input.traps (i : Input) : Bool :=
  i.ctrl.csr_save_cause_i || i.ctrl.csr_restore_mret_i || i.ctrl.csr_restore_uret_i

end Pulpissimo.Riscv.CsrFile

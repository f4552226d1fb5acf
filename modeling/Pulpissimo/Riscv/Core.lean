import Pulpissimo.Riscv.CsrFile
import Pulpissimo.Riscv.IdStage
import Pulpissimo.Riscv.Mult

/-!
# CSR accesses in the RI5CY core

The ID stage with the blocks that decide when a CSR instruction executes and which
register it accesses: the second ALU operand of the ID/EX registers, the multiplier,
the dispatcher of the floating point unit and all status registers. An access is that
of the instruction in EX or, in its place, that of the debugger.
-/

namespace Pulpissimo.Riscv.Core

open Pulpissimo.Machine Pulpissimo.Riscv.Decoder

/-- Parameters of the core. -/
structure Params where
  /-- Those of the ID stage. -/
  cfg : Config
  /-- Number of external performance counters. -/
  N_EXT_PERF_COUNTERS : ℕ

/-- Parameters of the status registers. -/
abbrev Params.csr (p : Params) : CsrFile.Params :=
  ⟨p.cfg.FPU,p.cfg.PULP_SECURE,p.cfg.FPU,p.N_EXT_PERF_COUNTERS⟩

/-- Registers of `riscv_apu_disp` but for the addresses. -/
structure ApuDisp where
  /-- An operation is on its way. -/
  valid_inflight : Bool
  /-- An older operation waits for its result. -/
  valid_waiting : Bool
  /-- Latency of the last request. -/
  apu_lat : BitVec 2

namespace ApuDisp

variable (s : ApuDisp) (enable_i : Bool) (apu_lat_i : BitVec 2) (apu_gnt apu_valid : Bool)

/-- An operation has not returned. -/
def active_o : Bool := s.valid_inflight || s.valid_waiting

/-- No more operations can be outstanding. -/
def stall_full : Bool := s.valid_inflight && s.valid_waiting

/-- The operation would overtake another. -/
def stall_type : Bool :=
  enable_i && s.active_o &&
    (apu_lat_i==1 || apu_lat_i==2 && s.apu_lat==3 || apu_lat_i==3)

def valid_req : Bool := enable_i && !(s.stall_full || s.stall_type enable_i apu_lat_i)

def stall_o : Bool :=
  s.stall_full || s.stall_type enable_i apu_lat_i || s.valid_req enable_i apu_lat_i && !apu_gnt

/-- There is an operation that a result can be for. -/
def expects : Bool := s.valid_req enable_i apu_lat_i || s.valid_inflight || s.valid_waiting

/-- A result comes for an operation without latency. -/
def apu_singlecycle_o : Bool := !(s.valid_inflight || s.valid_waiting)

/-- The last request takes more than two cycles. -/
def apu_multicycle_o : Bool := s.apu_lat==3

/-- One clock edge. -/
def step : ApuDisp :=
  let req := s.valid_req enable_i apu_lat_i
  let returned_req := req && apu_valid && !s.valid_inflight && !s.valid_waiting
  let returned_inflight := s.valid_inflight && apu_valid && !s.valid_waiting
  let returned_waiting := s.valid_waiting && apu_valid
  let apu_lat := if req then apu_lat_i else s.apu_lat
  if req && apu_gnt && !returned_req then
    ⟨true,s.valid_waiting || s.valid_inflight && !returned_inflight || returned_waiting,apu_lat⟩
  else if returned_inflight then ⟨false,false,apu_lat⟩
  else if returned_waiting then ⟨s.valid_inflight,false,apu_lat⟩
  else ⟨s.valid_inflight,s.valid_waiting,apu_lat⟩

/-- The latency is that of the last request. -/
theorem step_apu_lat : (s.step enable_i apu_lat_i apu_gnt apu_valid).apu_lat=
    if s.valid_req enable_i apu_lat_i then apu_lat_i else s.apu_lat := by
  unfold step
  dsimp only
  split_ifs
  all_goals rfl

/-- What is on its way was before, or is requested. -/
theorem step_inflight (h : (s.step enable_i apu_lat_i apu_gnt apu_valid).valid_inflight=true) :
    s.valid_req enable_i apu_lat_i=true ∨ s.valid_inflight=true := by
  by_contra hno
  rw [not_or,Bool.not_eq_true,Bool.not_eq_true] at hno
  have hnone : (s.step enable_i apu_lat_i apu_gnt apu_valid).valid_inflight=false := by
    unfold step
    rw [hno.1,hno.2]
    cases s.valid_waiting && apu_valid with
    | _ => rfl
  exact absurd (hnone.symm.trans h) nofun

/-- Nothing waits behind a dispatcher with at most one operation. -/
theorem step_waiting (hw : s.valid_waiting=false)
    (hone : s.valid_inflight=false ∨ s.valid_req enable_i apu_lat_i=false) :
    (s.step enable_i apu_lat_i apu_gnt apu_valid).valid_waiting=false := by
  unfold step
  dsimp only
  rcases hone with hi | hreq
  · rw [hw,hi]
    split_ifs
    all_goals rfl
  · rw [hreq,hw]
    cases s.valid_inflight && apu_valid && !false with
    | _ => rfl

end ApuDisp

/-- Registers, with `n` performance counters. -/
structure State (n : ℕ) where
  /-- Controller. -/
  ctrl : Controller.State
  /-- IF/ID registers. -/
  ifId : IdStage.IfId
  /-- Control part of the ID/EX registers. -/
  idEx : IdStage.IdEx
  /-- Second ALU operand in EX. -/
  alu_operand_b_ex_o : BitVec 32
  /-- Latency of the floating point operation in EX. -/
  apu_lat_ex_o : BitVec 2
  /-- Multiplier. -/
  mult : Mult.State
  /-- Dispatcher. -/
  apu_disp : ApuDisp
  /-- Status registers. -/
  cs_registers : CsrFile.State n

/-- Values after reset. -/
def reset {n : ℕ} : State n :=
  ⟨Controller.reset,.reset,.reset,0,0,Mult.reset,⟨false,false,0⟩,CsrFile.reset⟩

/-- One cycle of inputs. Of the three records the model replaces what the core itself drives. -/
structure Input where
  /-- ID stage. -/
  id : IdStage.Input
  /-- Multiplier. -/
  mult : Mult.Input
  /-- Status registers. -/
  cs_registers : CsrFile.Input
  /-- First ALU operand in EX. -/
  alu_operand_a_ex : BitVec 32
  /-- Second ALU operand in ID where it is not the number of a CSR. -/
  alu_operand_b : BitVec 32
  /-- Address bits and access type in EX are those of a misaligned access. -/
  misaligned : Bool
  /-- Latency of the floating point operation in ID. -/
  apu_lat : BitVec 2
  /-- The floating point unit takes the request. -/
  apu_gnt : Bool
  /-- Number of the CSR that the debugger accesses. -/
  dbg_csr_addr : BitVec 12
  /-- What it writes there. -/
  dbg_csr_wdata : BitVec 32


section Code

variable (p : Params) (s : State p.csr.N_PERF_COUNTERS) (i : Input)

/-- Number of the CSR that the instruction in EX accesses. -/
def csr_addr_int : BitVec 12 :=
  if s.idEx.csr_access_ex_o then s.alu_operand_b_ex_o.extractLsb' 0 12 else 0

/-- The access to the status registers. Without one the instruction in EX has the number 0,
which is no performance register. -/
def access : CsrFile.Access :=
  if i.id.dbg_csr_req then .debug i.id.dbg_csr_we i.dbg_csr_addr i.dbg_csr_wdata
  else .instruction s.idEx.csr_op_ex_o (csr_addr_int p s) i.alu_operand_a_ex

/-- Inputs of the status registers that do not depend on the ID stage. -/
def csrRead : CsrFile.Input := { i.cs_registers with access := access p s i }

/-- Inputs of the multiplier. -/
def multInput (ex_ready : Bool) : Mult.Input := { i.mult with
  enable_i := s.idEx.mult_en_ex_o
  ex_ready_i := ex_ready }

/-- A result comes back for the ALU port of the register file. -/
def wb_contention : Bool :=
  i.id.apu_valid && (s.apu_disp.apu_singlecycle_o || s.apu_disp.apu_multicycle_o) &&
    s.idEx.regfile_alu_we_ex_o && !s.idEx.apu_en_ex_o

/-- Inputs of the ID stage. -/
def idInput : IdStage.Input := { i.id with
  csr_addr := (access p s i).csr_addr_i
  csr_wdata_int := CsrFile.csr_wdata_int p.csr s.cs_registers (csrRead p s i)
  mult_ready := Mult.ready_o s.mult (multInput p s i false)
  mult_multicycle_i := Mult.multicycle_o s.mult (multInput p s i false)
  data_misaligned_i :=
    s.idEx.data_req_ex_o && !s.idEx.data_misaligned_ex_o && i.misaligned
  apu_stall := s.apu_disp.stall_o s.idEx.apu_en_ex_o s.apu_lat_ex_o i.apu_gnt
  wb_contention := wb_contention p s i
  apu_lat_long := s.apu_lat_ex_o.getLsbD 1
  apu_busy_i := s.apu_disp.active_o }

/-- Registers of the ID stage and its neighbours. -/
def pipe : IdStage.State := ⟨s.ctrl,s.ifId,s.idEx,s.cs_registers.trap⟩

/-- Inputs of the status registers. -/
def csrInput : CsrFile.Input := { csrRead p s i with
  ctrl := IdStage.csrInput p.cfg (pipe p s) (idInput p s i) }

/-- The immediate of an instruction of type I. -/
def imm_i_type : BitVec 32 := (s.ifId.instr_rdata_id_o.extractLsb' 20 12).signExtend 32

/-- Second ALU operand after a clock edge. A CSR instruction takes its immediate. -/
def stepOperandB : BitVec 32 :=
  let q := pipe p s
  let j := idInput p s i
  if j.data_misaligned_i then
    if IdStage.ex_ready_o p.cfg q j then i.alu_operand_b else s.alu_operand_b_ex_o
  else if j.mult_multicycle_i then s.alu_operand_b_ex_o
  else if IdStage.id_valid_o p.cfg q j && (IdStage.masked p.cfg q j).alu_en then
    if (IdStage.masked p.cfg q j).csr_access then imm_i_type p s else i.alu_operand_b
  else s.alu_operand_b_ex_o

/-- Latency after a clock edge. -/
def stepApuLat : BitVec 2 :=
  let q := pipe p s
  let j := idInput p s i
  if !j.data_misaligned_i && !j.mult_multicycle_i && IdStage.id_valid_o p.cfg q j &&
      (IdStage.masked p.cfg q j).apu_en then i.apu_lat
  else s.apu_lat_ex_o

/-- One clock edge. -/
def step : State p.csr.N_PERF_COUNTERS :=
  let q := pipe p s
  let j := idInput p s i
  let next := IdStage.step p.cfg q j
  { ctrl := next.ctrl
    ifId := next.ifId
    idEx := next.idEx
    alu_operand_b_ex_o := stepOperandB p s i
    apu_lat_ex_o := stepApuLat p s i
    mult := Mult.step s.mult (multInput p s i (IdStage.ex_ready_o p.cfg q j))
    apu_disp := s.apu_disp.step s.idEx.apu_en_ex_o s.apu_lat_ex_o i.apu_gnt i.id.apu_valid
    cs_registers := CsrFile.step p.csr s.cs_registers (csrInput p s i) }

end Code

/-- The access port of the status registers as the ID stage sees it. -/
theorem trapInput_eq (p : Params) (s : State p.csr.N_PERF_COUNTERS) (i : Input) :
    CsrFile.trapInput p.csr s.cs_registers (csrInput p s i)=
      IdStage.csrInput p.cfg (pipe p s) (idInput p s i) := by
  have hwe : CsrFile.csr_we_int (csrInput p s i)=
      (IdStage.csrInput p.cfg (pipe p s) (idInput p s i)).csr_we_int := by
    unfold CsrFile.csr_we_int csrInput csrRead access IdStage.csrInput idInput pipe
    cases i.id.dbg_csr_req with
    | true => cases i.id.dbg_csr_we with
      | true => rfl
      | false => rfl
    | false => rfl
  unfold CsrFile.trapInput
  rw [hwe]
  rfl

/-- The registers of the ID stage and its neighbours step as the ID stage does. -/
theorem pipe_step (p : Params) (s : State p.csr.N_PERF_COUNTERS) (i : Input) :
    pipe p (step p s i)=IdStage.step p.cfg (pipe p s) (idInput p s i) := by
  have htrap : (step p s i).cs_registers.trap=
      (IdStage.step p.cfg (pipe p s) (idInput p s i)).csr := by
    change CsRegisters.step p.csr.PULP_SECURE s.cs_registers.trap
      (CsrFile.trapInput p.csr s.cs_registers (csrInput p s i))=_
    rw [trapInput_eq]
    rfl
  unfold pipe
  rw [htrap]
  rfl

end Pulpissimo.Riscv.Core

import Mathlib.Data.BitVec
import Pulpissimo.Lib.Machine

/-!
# The RI5CY debug unit

`riscv_debug_unit`: the access controller of the debug bus, the state machine
that halts and resumes the core, and the tracking of the program counter.
Accesses to the register file are made in the cycle of their request, those to
the CSRs and the jump one cycle later, when the core may have been resumed.
-/

namespace Pulpissimo.Riscv.DebugUnit

open Pulpissimo.Machine

/-- Sources of read data. -/
inductive RdataSel
  | RD_NONE | RD_CSR | RD_GPR | RD_DBGA | RD_DBGS
  deriving DecidableEq

/-- Cycles of a CSR write. -/
inductive Phase
  | FIRST | SECOND
  deriving DecidableEq

/-- States of the core for the debugger. -/
inductive Stall
  | RUNNING | HALT_REQ | HALT
  deriving DecidableEq

/-- Where the previous and the next program counter are found. -/
inductive Tracking
  | IFID | IFEX | IDEX
  deriving DecidableEq

/-- Events that halt the core. -/
structure Settings where
  /-- `DBG_SETS_ECALL`. -/
  ecall : Bool
  /-- `DBG_SETS_EILL`. -/
  eill : Bool
  /-- `DBG_SETS_ELSU`. -/
  elsu : Bool
  /-- `DBG_SETS_EBRK`. -/
  ebrk : Bool
  /-- `DBG_SETS_SSTE`, single stepping. -/
  sste : Bool

abbrev DBG_CAUSE_HALT : BitVec 6 := 0x1F

/-- Registers. -/
structure State where
  /-- Address of the last request. -/
  addr_q : BitVec 15
  /-- Data of the last request. -/
  wdata_q : BitVec 32
  /-- Cycle of a CSR write. -/
  state_q : Phase
  /-- Source of the read data. -/
  rdata_sel_q : RdataSel
  /-- Read of the register file. -/
  regfile_rreq_q : Bool
  /-- It reads a floating point register. -/
  regfile_fp_sel_q : Bool
  /-- CSR access. -/
  csr_req_q : Bool
  /-- Jump. -/
  jump_req_q : Bool
  /-- Response. -/
  debug_rvalid_o : Bool
  /-- State of the core. -/
  stall_cs : Stall
  /-- Why it was halted. -/
  dbg_cause_q : BitVec 6
  /-- It was halted by a single step. -/
  dbg_ssth_q : Bool
  /-- Settings. -/
  settings_q : Settings
  /-- Program counters. -/
  pc_tracking_fsm_cs : Tracking

/-- Values after reset. -/
def reset : State := ⟨0,0,.FIRST,.RD_NONE,false,false,false,false,false,.RUNNING,DBG_CAUSE_HALT,
  false,⟨false,false,false,false,false⟩,.IFID⟩

/-- One cycle of inputs. -/
structure Input where
  /-- Bus request. -/
  debug_req_i : Bool
  /-- Its address. -/
  debug_addr_i : BitVec 15
  /-- It is a write. -/
  debug_we_i : Bool
  /-- Data to write. -/
  debug_wdata_i : BitVec 32
  /-- Halt from outside. -/
  debug_halt_i : Bool
  /-- Resume from outside. -/
  debug_resume_i : Bool
  /-- Trap to the debugger. -/
  trap_i : Bool
  /-- Its cause. -/
  exc_cause_i : BitVec 6
  /-- The core stopped. -/
  dbg_ack_i : Bool
  /-- Register that was read. -/
  regfile_rdata_i : BitVec 32
  /-- CSR that was read. -/
  csr_rdata_i : BitVec 32
  /-- Program counter of IF. -/
  pc_if_i : BitVec 32
  /-- Program counter of ID. -/
  pc_id_i : BitVec 32
  /-- Program counter of EX. -/
  pc_ex_i : BitVec 32
  /-- An event load is in EX. -/
  data_load_event_i : Bool
  /-- The instruction in ID is valid. -/
  instr_valid_id_i : Bool
  /-- The core sleeps. -/
  sleeping_i : Bool
  /-- A branch is in EX. -/
  branch_in_ex_i : Bool
  /-- It is taken. -/
  branch_taken_i : Bool

/-- What the access controller decides in a cycle. -/
structure Access where
  /-- Next source of read data. -/
  rdata_sel_n : RdataSel
  /-- Next cycle of a CSR write. -/
  state_n : Phase
  /-- Grant. -/
  debug_gnt_o : Bool
  /-- Register read in the next cycle. -/
  regfile_rreq_n : Bool
  /-- It reads a floating point register. -/
  regfile_fp_sel_n : Bool
  /-- Register write. -/
  regfile_wreq : Bool
  /-- It writes a floating point register. -/
  regfile_fp_wr : Bool
  /-- CSR access in the next cycle. -/
  csr_req_n : Bool
  /-- The CSR access is a write. -/
  csr_we_o : Bool
  /-- Jump in the next cycle. -/
  jump_req_n : Bool
  /-- Resume the core. -/
  dbg_resume : Bool
  /-- Halt the core. -/
  dbg_halt : Bool
  /-- Next settings. -/
  settings_n : Settings
  /-- Forget the single step. -/
  ssth_clear : Bool

section Code

variable (s : State) (i : Input)

/-- The core is halted in debug mode. -/
def debug_halted_o : Bool := s.stall_cs==.HALT

/-- What happens without a request. -/
def noAccess : Access :=
  ⟨.RD_NONE,.FIRST,false,false,false,false,false,false,false,false,false,false,s.settings_q,false⟩

/-- Group of registers that a request addresses. -/
def page : ℕ := (i.debug_addr_i.extractLsb' 8 6).toNat

/-- Register in its group. -/
def register : ℕ := (i.debug_addr_i.extractLsb' 2 5).toNat

/-- Writes of the registers that are always accessible. -/
def writeDebug : Access :=
  let a := { noAccess s with debug_gnt_o := true }
  match register i with
  | 0x0 => { a with -- DBG_CTRL
    dbg_halt := i.debug_wdata_i.getLsbD 16 && !debug_halted_o s
    dbg_resume := !i.debug_wdata_i.getLsbD 16 && debug_halted_o s
    settings_n := { s.settings_q with sste := i.debug_wdata_i.getLsbD 0 } }
  | 0x1 => { a with ssth_clear := i.debug_wdata_i.getLsbD 0 } -- DBG_HIT
  | 0x2 => { a with settings_n := { s.settings_q with -- DBG_IE
    ecall := i.debug_wdata_i.getLsbD 11
    elsu := i.debug_wdata_i.getLsbD 7 || i.debug_wdata_i.getLsbD 5
    ebrk := i.debug_wdata_i.getLsbD 3
    eill := i.debug_wdata_i.getLsbD 2 } }
  | _ => a

def writeAccess : Access :=
  let a := noAccess s
  if i.debug_addr_i.getLsbD 14 then
    match s.state_q with
    | .FIRST => { a with
      state_n := .SECOND
      csr_req_n := debug_halted_o s }
    | .SECOND => { a with
      debug_gnt_o := true
      csr_we_o := true }
  else match page i with
    | 0b000000 => writeDebug s i
    | 0b100000 => { a with
      debug_gnt_o := true
      jump_req_n := debug_halted_o s && register i==0 } -- DNPC
    | 0b000100 => { a with
      debug_gnt_o := true
      regfile_wreq := debug_halted_o s }
    | 0b000101 => { a with
      debug_gnt_o := true
      regfile_wreq := debug_halted_o s
      regfile_fp_wr := debug_halted_o s }
    | _ => { a with debug_gnt_o := true }

def readAccess : Access :=
  let a := { noAccess s with debug_gnt_o := true }
  let halted := debug_halted_o s
  if i.debug_addr_i.getLsbD 14 then { a with
    csr_req_n := halted
    rdata_sel_n := if halted then .RD_CSR else .RD_NONE }
  else match page i with
    | 0b000000 => { a with rdata_sel_n := .RD_DBGA }
    | 0b100000 => { a with rdata_sel_n := .RD_DBGS }
    | 0b000100 => { a with
      regfile_rreq_n := halted
      rdata_sel_n := if halted then .RD_GPR else .RD_NONE }
    | 0b000101 => { a with
      regfile_rreq_n := halted
      regfile_fp_sel_n := halted
      rdata_sel_n := if halted then .RD_GPR else .RD_NONE }
    | _ => a

/-- The access controller. -/
def access : Access :=
  if i.debug_req_i then if i.debug_we_i then writeAccess s i else readAccess s i
  else noAccess s

/-- The core is told to resume. -/
def resume : Bool := (access s i).dbg_resume || i.debug_resume_i

def dbg_req_o : Bool :=
  match s.stall_cs with
  | .RUNNING => (access s i).dbg_halt || i.debug_halt_i || i.trap_i
  | .HALT_REQ => true
  | .HALT => false

def stall_o : Bool := debug_halted_o s && !resume s i

def stall_ns : Stall :=
  match s.stall_cs with
  | .RUNNING => if dbg_req_o s i then .HALT_REQ else .RUNNING
  | .HALT_REQ => if resume s i then .RUNNING else if i.dbg_ack_i then .HALT else .HALT_REQ
  | .HALT => if resume s i then .RUNNING else .HALT

def dbg_cause_n : BitVec 6 :=
  if s.stall_cs==.RUNNING && dbg_req_o s i then
    if i.trap_i then i.exc_cause_i else DBG_CAUSE_HALT
  else s.dbg_cause_q

def dbg_ssth_n : Bool :=
  if (access s i).ssth_clear then false
  else if s.stall_cs==.RUNNING then i.trap_i && s.settings_q.sste
  else s.dbg_ssth_q

/-- Previous program counter. -/
def ppc_int : BitVec 32 := if s.pc_tracking_fsm_cs==.IFID then i.pc_id_i else i.pc_ex_i

/-- Next program counter. -/
def npc_int : BitVec 32 := if s.pc_tracking_fsm_cs==.IDEX then i.pc_id_i else i.pc_if_i

def pc_tracking_fsm_ns : Tracking :=
  if i.dbg_ack_i then
    if i.branch_in_ex_i then if i.branch_taken_i then .IFEX else .IDEX
    else if i.data_load_event_i then if i.instr_valid_id_i then .IDEX else .IFEX
    else .IFID
  else if s.pc_tracking_fsm_cs==.IDEX && s.jump_req_q then .IFEX
  else s.pc_tracking_fsm_cs

/-- A word with single bits set. -/
def bit (k : ℕ) (b : Bool) : BitVec 32 := if b then 1#32<<<k else 0

/-- Registers that are always accessible. -/
def dbg_rdata : BitVec 32 :=
  let t := s.settings_q
  match (s.addr_q.extractLsb' 2 5).toNat with
  | 0x00 => bit 16 (debug_halted_o s) ||| bit 0 t.sste
  | 0x01 => bit 16 i.sleeping_i ||| bit 0 s.dbg_ssth_q
  | 0x02 => bit 11 t.ecall ||| bit 7 t.elsu ||| bit 5 t.elsu ||| bit 3 t.ebrk ||| bit 2 t.eill
  | 0x03 => s.dbg_cause_q.extractLsb' 5 1++0#26++s.dbg_cause_q.extractLsb' 0 5
  | _ => 0

/-- Read data. -/
def debug_rdata_o : BitVec 32 :=
  match s.rdata_sel_q with
  | .RD_NONE => 0
  | .RD_CSR => i.csr_rdata_i
  | .RD_GPR => i.regfile_rdata_i
  | .RD_DBGA => dbg_rdata s i
  | .RD_DBGS => if s.addr_q.getLsbD 2 then ppc_int s i else npc_int s i

/-- One clock edge. The registers of an access wait for a request or a response. -/
def step : State :=
  let a := access s i
  let set := i.debug_req_i || s.debug_rvalid_o
  { addr_q := if i.debug_req_i then i.debug_addr_i else s.addr_q
    wdata_q := if i.debug_req_i then i.debug_wdata_i else s.wdata_q
    state_q := if i.debug_req_i then a.state_n else s.state_q
    rdata_sel_q := if set then a.rdata_sel_n else s.rdata_sel_q
    regfile_rreq_q := if set then a.regfile_rreq_n else s.regfile_rreq_q
    regfile_fp_sel_q := if set then a.regfile_fp_sel_n else s.regfile_fp_sel_q
    csr_req_q := if set then a.csr_req_n else s.csr_req_q
    jump_req_q := if set then a.jump_req_n else s.jump_req_q
    debug_rvalid_o := a.debug_gnt_o
    stall_cs := stall_ns s i
    dbg_cause_q := dbg_cause_n s i
    dbg_ssth_q := dbg_ssth_n s i
    settings_q := a.settings_n
    pc_tracking_fsm_cs := pc_tracking_fsm_ns s i }

/-- Write of a register, with its number and its data. -/
def regfile_write : Option (BitVec 6×BitVec 32) :=
  let a := access s i
  if a.regfile_wreq then
    some (BitVec.ofBool a.regfile_fp_wr++i.debug_addr_i.extractLsb' 2 5,i.debug_wdata_i)
  else none

/-- CSR access, with its number and the data of a write. -/
def csr_request : Option (BitVec 12×Option (BitVec 32)) :=
  if s.csr_req_q then
    some (s.addr_q.extractLsb' 2 12,if (access s i).csr_we_o then some s.wdata_q else none)
  else none

/-- Jump, with its target. -/
def jump_request : Option (BitVec 32) := if s.jump_req_q then some s.wdata_q else none

end Code

/-- No access to the core is made while it is not halted. -/
def Guarded (s : State) (i : Input) : Prop :=
  debug_halted_o s=false →
    regfile_write s i=none ∧ csr_request s i=none ∧ jump_request s=none

/-- The request on the bus is an access that is made in the next cycle: a CSR
read, the first cycle of a CSR write, or a write of the next program counter. -/
def deferred (s : State) (i : Input) : Bool :=
  if i.debug_addr_i.getLsbD 14 then !i.debug_we_i || s.state_q==.FIRST
  else i.debug_we_i && page i==0b100000 && register i==0

/-- An access of a halted core is still to be made after the cycle. Without a
request that is one that was made before and has not been answered. -/
def pending (s : State) (i : Input) : Bool :=
  if i.debug_req_i then deferred s i else !s.debug_rvalid_o && (s.csr_req_q || s.jump_req_q)

/-- The core is resumed from outside although an access is still to be made. -/
def Overtaken (s : State) (i : Input) : Prop :=
  debug_halted_o s=true ∧ i.debug_resume_i=true ∧ pending s i=true

section Steps

variable (s : State) (i : Input)

/-- A CSR access or a jump is made in the cycle. -/
def busy : Bool := s.csr_req_q || s.jump_req_q

theorem writeDebug_idle : (writeDebug s i).regfile_wreq=false ∧
    (writeDebug s i).csr_req_n=false ∧ (writeDebug s i).jump_req_n=false := by
  unfold writeDebug
  split <;> exact ⟨rfl,rfl,rfl⟩

/-- Registers are written only while the core is halted. -/
theorem wreq_halted (h : (access s i).regfile_wreq=true) : debug_halted_o s=true := by
  unfold access at h
  split at h
  · split at h
    · unfold writeAccess at h
      split at h
      · split at h
        · exact absurd h nofun
        · exact absurd h nofun
      · split at h
        · exact absurd ((writeDebug_idle s i).1.symm.trans h) nofun
        · exact absurd h nofun
        · exact h
        · exact h
        · exact absurd h nofun
    · unfold readAccess at h
      split at h
      · exact absurd h nofun
      · split at h <;> exact absurd h nofun
  · exact absurd h nofun

/-- Which requests lead to a CSR access or to a jump. -/
theorem access_busy : ((access s i).csr_req_n || (access s i).jump_req_n)=
    (i.debug_req_i && debug_halted_o s && deferred s i) := by
  unfold access deferred
  cases i.debug_req_i with
  | false => rfl
  | true => cases i.debug_we_i with
    | true =>
      unfold writeAccess
      cases i.debug_addr_i.getLsbD 14 with
      | true => cases s.state_q <;> simp [noAccess]
      | false =>
        simp only [Bool.false_eq_true,if_false,if_true]
        split
        · rename_i hpage
          simp [hpage,writeDebug_idle s i]
        · rename_i hpage
          simp [hpage,noAccess]
        · rename_i hpage
          simp [hpage,noAccess]
        · rename_i hpage
          simp [hpage,noAccess]
        · rename_i hpage _ _
          have hnpc : page i≠32 := hpage
          simp [hnpc,noAccess]
    | false =>
      unfold readAccess
      cases i.debug_addr_i.getLsbD 14 with
      | true => simp [noAccess]
      | false =>
        simp only [Bool.false_eq_true,if_false,if_true]
        split <;> simp [noAccess]

/-- A request that resumes the core leaves nothing to be made. -/
theorem dbg_resume_deferred (h : (access s i).dbg_resume=true) :
    i.debug_req_i=true ∧ deferred s i=false := by
  unfold access at h
  split at h
  · rename_i hreq
    refine ⟨hreq,?_⟩
    split at h
    · unfold writeAccess at h
      split at h
      · split at h <;> exact absurd h nofun
      · rename_i haddr
        split at h
        · rename_i hpage
          unfold deferred
          rw [if_neg haddr,hpage]
          simp
        all_goals exact absurd h nofun
    · unfold readAccess at h
      split at h
      · exact absurd h nofun
      · split at h <;> exact absurd h nofun
  · exact absurd h nofun

/-- What the next cycle makes was requested now, or is still pending. -/
theorem step_busy : busy (step s i)=
    if i.debug_req_i then debug_halted_o s && deferred s i else pending s i := by
  have ha := access_busy s i
  unfold busy pending
  cases hreq : i.debug_req_i with
  | true =>
    rw [hreq,Bool.true_and] at ha
    simpa [step,hreq] using ha
  | false =>
    rw [hreq,Bool.false_and,Bool.false_and] at ha
    have hnone := Bool.or_eq_false_iff.mp ha
    cases hvalid : s.debug_rvalid_o <;> simp [step,hreq,hvalid,hnone.1,hnone.2]

/-- A halted core stays halted until it is resumed. -/
theorem step_halted (h : debug_halted_o s=true) :
    debug_halted_o (step s i)=!resume s i := by
  have hs : s.stall_cs=.HALT := by simpa [debug_halted_o] using h
  unfold debug_halted_o step stall_ns
  rw [hs]
  cases resume s i <;> rfl

theorem guarded_iff : Guarded s i ↔ (busy s=true → debug_halted_o s=true) := by
  unfold Guarded busy csr_request jump_request regfile_write
  cases hh : debug_halted_o s with
  | true => simp
  | false =>
    have hw : (access s i).regfile_wreq=false := by
      by_contra hne
      exact absurd (hh.symm.trans (wreq_halted s i (by simpa using hne))) nofun
    cases hc : s.csr_req_q <;> cases hj : s.jump_req_q <;> simp [hw]

/-- From a guarded cycle the next one is guarded unless the core is resumed too early. -/
theorem guarded_step_iff (j : Input) (hG : Guarded s i) :
    Guarded (step s i) j ↔ ¬Overtaken s i := by
  rw [guarded_iff] at hG ⊢
  have hbusy := step_busy s i
  have hhalted : busy (step s i)=true → debug_halted_o s=true ∧ pending s i=true := by
    intro hb
    rw [hbusy] at hb
    unfold pending at hb ⊢
    cases hreq : i.debug_req_i with
    | true => simpa [hreq] using hb
    | false =>
      have hp : (!s.debug_rvalid_o && (s.csr_req_q || s.jump_req_q))=true := by simpa [hreq] using hb
      exact ⟨hG (Bool.and_eq_true_iff.mp hp).2,by simpa using hp⟩
  constructor
  · rintro hnext ⟨hh,hresume,hp⟩
    have hb : busy (step s i)=true := by
      rw [hbusy]
      unfold pending at hp ⊢
      cases hreq : i.debug_req_i with
      | true => simpa [hreq,hh] using hp
      | false => simpa [hreq] using hp
    have hstop := step_halted s i hh
    unfold resume at hstop
    rw [hnext hb,hresume,Bool.or_true] at hstop
    exact absurd hstop nofun
  · intro hO hb
    rcases hhalted hb with ⟨hh,hp⟩
    have hext : i.debug_resume_i=false := by
      by_contra hne
      exact hO ⟨hh,by simpa using hne,hp⟩
    have hbus : (access s i).dbg_resume=false := by
      by_contra hne
      rcases dbg_resume_deferred s i (by simpa using hne) with ⟨hreq,hdef⟩
      unfold pending at hp
      rw [if_pos hreq,hdef] at hp
      exact absurd hp nofun
    rw [step_halted s i hh]
    unfold resume
    rw [hbus,hext]
    rfl

end Steps

section Runs

variable (env : ℕ → Input)

/-- Registers in cycle `n` after reset. -/
abbrev stateAt (n : ℕ) : State := states step reset env n

/-- Requests granted before cycle `n`. -/
def accepted : ℕ → ℕ
  | 0 => 0
  | n+1 => accepted n+if (access (stateAt env n) (env n)).debug_gnt_o then 1 else 0

/-- Responses given before cycle `n`. -/
def answered : ℕ → ℕ
  | 0 => 0
  | n+1 => answered n+if (stateAt env n).debug_rvalid_o then 1 else 0

/-- Every request granted so far has been answered once, the last one in the
next cycle. -/
theorem answered_succ (n : ℕ) : answered env (n+1)=accepted env n := by
  induction n with
  | zero => rfl
  | succ n ih =>
    rw [answered,ih,accepted]
    rfl

/-- In every run each granted request gets one response in the next cycle, and
all accesses are made while the core is halted if and only if the core is never
resumed from outside while an access is still to be made. -/
theorem access_guarded_iff :
    (∀ n, answered env (n+1)=accepted env n) ∧
    ((∀ n, Guarded (stateAt env n) (env n)) ↔ ∀ n, ¬Overtaken (stateAt env n) (env n)) := by
  refine ⟨answered_succ env,fun hG n => ?_,fun hO n => ?_⟩
  · exact (guarded_step_iff _ _ (env (n+1)) (hG n)).mp (hG (n+1))
  · induction n with
    | zero => exact (guarded_iff reset (env 0)).mpr nofun
    | succ n ih => exact (guarded_step_iff _ _ (env (n+1)) ih).mpr (hO n)

end Runs

/-- A cycle in which nothing happens. -/
def quiet : Input := ⟨false,0,false,0,false,false,false,0,false,0,0,0,0,0,false,false,false,false,
  false⟩

/-- A halted core is resumed in the first cycle of a write of `mstatus`. -/
def resumedEarly : ℕ → Input
  | 0 => { quiet with debug_halt_i := true }
  | 1 => { quiet with dbg_ack_i := true }
  | 2 => { quiet with
    debug_req_i := true
    debug_addr_i := 0x4C00
    debug_we_i := true
    debug_wdata_i := 0x1800
    debug_resume_i := true }
  | 3 => { quiet with
    debug_req_i := true
    debug_addr_i := 0x4C00
    debug_we_i := true
    debug_wdata_i := 0x1800 }
  | _ => quiet

/-- The write is made while the core runs. -/
theorem access_unguarded :
    debug_halted_o (stateAt resumedEarly 3)=false ∧
    csr_request (stateAt resumedEarly 3) (resumedEarly 3)=some (0x300,some 0x1800) ∧
    ¬∀ n, Guarded (stateAt resumedEarly n) (resumedEarly n) := by
  have hhalted : debug_halted_o (stateAt resumedEarly 3)=false := by decide
  have hcsr : csr_request (stateAt resumedEarly 3) (resumedEarly 3)=some (0x300,some 0x1800) := by
    decide
  refine ⟨hhalted,hcsr,fun hG => ?_⟩
  rw [(hG 3 hhalted).2.1] at hcsr
  exact absurd hcsr nofun

end Pulpissimo.Riscv.DebugUnit

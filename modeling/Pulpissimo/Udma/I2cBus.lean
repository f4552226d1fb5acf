import Mathlib.Data.BitVec
import Pulpissimo.Lib.Machine

/-!
# The bits of the I2C bus

`udma_i2c_bus_ctrl`. Each bus command is four phases, which a divider paces. The lines are open
drain, so a phase says which of them are released, and the two lines are read back through
synchronisers and a filter for clock stretching, clock synchronisation and lost arbitration.
-/

namespace Pulpissimo.Udma.I2cBus

open Pulpissimo.Machine

def I2C_CMD_START : BitVec 3 := 0b001#3
def I2C_CMD_STOP : BitVec 3 := 0b010#3
def I2C_CMD_WRITE : BitVec 3 := 0b011#3
def I2C_CMD_READ : BitVec 3 := 0b100#3
def I2C_CMD_WAIT : BitVec 3 := 0b101#3

inductive Fsm where
  | S_IDLE
  | S_START_PHASE1 | S_START_PHASE2 | S_START_PHASE3 | S_START_PHASE4
  | S_STOP_PHASE1 | S_STOP_PHASE2 | S_STOP_PHASE3 | S_STOP_PHASE4
  | S_RD_PHASE1 | S_RD_PHASE2 | S_RD_PHASE3 | S_RD_PHASE4
  | S_WAIT_PHASE1 | S_WAIT_PHASE2 | S_WAIT_PHASE3 | S_WAIT_PHASE4
  | S_WR_PHASE1 | S_WR_PHASE2 | S_WR_PHASE3 | S_WR_PHASE4
deriving DecidableEq

/-- Registers. -/
structure State where
  r_sync_scl : BitVec 2
  r_sync_sda : BitVec 2
  r_filter_scl : BitVec 3
  r_filter_sda : BitVec 3
  /-- Lines after synchroniser and filter. -/
  sSCL : Bool
  sSDA : Bool
  /-- The same a cycle ago. -/
  dSCL : Bool
  dSDA : Bool
  dscl_oen : Bool
  sda_chk : Bool
  clk_en : Bool
  slave_wait : Bool
  cnt : BitVec 16
  r_filter_cnt : BitVec 14
  r_start : Bool
  r_stop : Bool
  r_cmd_stop : Bool
  busy_o : Bool
  al_o : Bool
  dout_o : Bool
  CS : Fsm
  cmd_ack_o : Bool
  scl_oen : Bool
  sda_oen : Bool

/-- Values after reset. -/
def reset : State where
  r_sync_scl := 0
  r_sync_sda := 0
  r_filter_scl := 0b111#3
  r_filter_sda := 0b111#3
  sSCL := true
  sSDA := true
  dSCL := true
  dSDA := true
  dscl_oen := true
  sda_chk := false
  clk_en := true
  slave_wait := false
  cnt := 0
  r_filter_cnt := 0
  r_start := false
  r_stop := false
  r_cmd_stop := false
  busy_o := false
  al_o := false
  dout_o := true
  CS := .S_IDLE
  cmd_ack_o := false
  scl_oen := true
  sda_oen := true

/-- One cycle of inputs. -/
structure Input where
  ena_i : Bool
  sw_rst_i : Bool
  clk_cnt_i : BitVec 16
  cmd_i : BitVec 3
  cmd_valid_i : Bool
  din_i : Bool
  scl_i : Bool
  sda_i : Bool

/-- Registers that the state machine writes. -/
structure Drive where
  CS : Fsm
  cmd_ack_o : Bool
  scl_oen : Bool
  sda_oen : Bool
  sda_chk : Bool

/-- Majority of the three samples of a filter. -/
def majority (r_filter : BitVec 3) : Bool :=
  (r_filter.getLsbD 2 && r_filter.getLsbD 1) || (r_filter.getLsbD 1 && r_filter.getLsbD 0) ||
    (r_filter.getLsbD 2 && r_filter.getLsbD 0)

section Code

variable (s : State) (i : Input)

def scl_sync : Bool := s.dSCL && !s.sSCL && s.scl_oen

/-- First phase of a command. -/
def first (cmd_i : BitVec 3) : Fsm :=
  if cmd_i=I2C_CMD_START then .S_START_PHASE1
  else if cmd_i=I2C_CMD_STOP then .S_STOP_PHASE1
  else if cmd_i=I2C_CMD_WRITE then .S_WR_PHASE1
  else if cmd_i=I2C_CMD_READ then .S_RD_PHASE1
  else if cmd_i=I2C_CMD_WAIT then .S_WAIT_PHASE1
  else .S_IDLE

/-- A phase before the last one of its command. -/
def phase (next : Fsm) (scl_oen sda_oen sda_chk : Bool) : Drive :=
  ⟨if s.clk_en then next else s.CS,false,scl_oen,sda_oen,sda_chk⟩

/-- The last phase of a command. -/
def lastPhase (scl_oen sda_oen : Bool) : Drive :=
  ⟨if s.clk_en then .S_IDLE else s.CS,s.clk_en,scl_oen,sda_oen,false⟩

/-- The state machine, while arbitration is not lost. -/
def drive : Drive :=
  match s.CS with
  | .S_IDLE =>
    ⟨if i.cmd_valid_i then first i.cmd_i else .S_IDLE,false,s.scl_oen,s.sda_oen,false⟩
  | .S_WAIT_PHASE1 => phase s .S_WAIT_PHASE2 true true false
  | .S_WAIT_PHASE2 => phase s .S_WAIT_PHASE3 true true false
  | .S_WAIT_PHASE3 => phase s .S_WAIT_PHASE4 true true false
  | .S_WAIT_PHASE4 => lastPhase s true true
  | .S_START_PHASE1 => phase s .S_START_PHASE2 s.scl_oen true false
  | .S_START_PHASE2 => phase s .S_START_PHASE3 true true false
  | .S_START_PHASE3 => phase s .S_START_PHASE4 true false false
  | .S_START_PHASE4 => lastPhase s false false
  | .S_STOP_PHASE1 => phase s .S_STOP_PHASE2 false false false
  | .S_STOP_PHASE2 => phase s .S_STOP_PHASE3 true false false
  | .S_STOP_PHASE3 => phase s .S_STOP_PHASE4 true false false
  | .S_STOP_PHASE4 => lastPhase s true true
  | .S_RD_PHASE1 => phase s .S_RD_PHASE2 false true false
  | .S_RD_PHASE2 => phase s .S_RD_PHASE3 true true false
  | .S_RD_PHASE3 => phase s .S_RD_PHASE4 true true false
  | .S_RD_PHASE4 => lastPhase s false true
  | .S_WR_PHASE1 => phase s .S_WR_PHASE2 false i.din_i false
  | .S_WR_PHASE2 => phase s .S_WR_PHASE3 true i.din_i false
  | .S_WR_PHASE3 => phase s .S_WR_PHASE4 true i.din_i true
  | .S_WR_PHASE4 => lastPhase s false i.din_i

/-- The state machine gives the bus up when arbitration is lost. -/
def fsm : Drive :=
  if s.al_o || i.sw_rst_i then ⟨.S_IDLE,false,true,true,false⟩ else drive s i

/-- The divider starts again. -/
def reload : Bool := s.cnt==0#16 || !i.ena_i || scl_sync s

def cnt_next : BitVec 16 :=
  if i.sw_rst_i then 0
  else if reload s i then i.clk_cnt_i
  else if s.slave_wait then s.cnt
  else s.cnt-1#16

def clk_en_next : Bool := i.sw_rst_i || reload s i

def r_filter_cnt_next : BitVec 14 :=
  if !i.ena_i || i.sw_rst_i then 0
  else if s.r_filter_cnt=0#14 then (i.clk_cnt_i >>> 2).setWidth 14
  else s.r_filter_cnt-1#14

/-- Next value of a filter's samples. -/
def r_filter_next (r_filter : BitVec 3) (r_sync : BitVec 2) : BitVec 3 :=
  if i.sw_rst_i then 0b111#3
  else if s.r_filter_cnt=0#14 then (r_filter.setWidth 2).concat (r_sync.getLsbD 1)
  else r_filter

/-- One clock edge. -/
def step : State :=
  let d := fsm s i
  { r_sync_scl := if i.sw_rst_i then 0 else (s.r_sync_scl.setWidth 1).concat i.scl_i
    r_sync_sda := if i.sw_rst_i then 0 else (s.r_sync_sda.setWidth 1).concat i.sda_i
    r_filter_scl := r_filter_next s i s.r_filter_scl s.r_sync_scl
    r_filter_sda := r_filter_next s i s.r_filter_sda s.r_sync_sda
    sSCL := i.sw_rst_i || majority s.r_filter_scl
    sSDA := i.sw_rst_i || majority s.r_filter_sda
    dSCL := i.sw_rst_i || s.sSCL
    dSDA := i.sw_rst_i || s.sSDA
    dscl_oen := s.scl_oen
    sda_chk := d.sda_chk
    clk_en := clk_en_next s i
    slave_wait := !i.sw_rst_i && (s.scl_oen && !s.dscl_oen && !s.sSCL || s.slave_wait && !s.sSCL)
    cnt := cnt_next s i
    r_filter_cnt := r_filter_cnt_next s i
    r_start := !i.sw_rst_i && (!s.sSDA && s.dSDA && s.sSCL)
    r_stop := !i.sw_rst_i && (s.sSDA && !s.dSDA && s.sSCL)
    r_cmd_stop :=
      !i.sw_rst_i && if i.cmd_valid_i then i.cmd_i==I2C_CMD_STOP else s.r_cmd_stop
    busy_o := !i.sw_rst_i && ((s.r_start || s.busy_o) && !s.r_stop)
    al_o :=
      !i.sw_rst_i && (s.sda_chk && !s.sSDA && s.sda_oen ||
        s.CS != .S_IDLE && s.r_stop && !s.r_cmd_stop)
    dout_o := if s.sSCL && !s.dSCL then s.sSDA else s.dout_o
    CS := d.CS
    cmd_ack_o := d.cmd_ack_o
    scl_oen := d.scl_oen
    sda_oen := d.sda_oen }

end Code

/-- Command of a phase. -/
def cmdOf : Fsm → BitVec 3
  | .S_IDLE => 0
  | .S_START_PHASE1 | .S_START_PHASE2 | .S_START_PHASE3 | .S_START_PHASE4 => I2C_CMD_START
  | .S_STOP_PHASE1 | .S_STOP_PHASE2 | .S_STOP_PHASE3 | .S_STOP_PHASE4 => I2C_CMD_STOP
  | .S_RD_PHASE1 | .S_RD_PHASE2 | .S_RD_PHASE3 | .S_RD_PHASE4 => I2C_CMD_READ
  | .S_WAIT_PHASE1 | .S_WAIT_PHASE2 | .S_WAIT_PHASE3 | .S_WAIT_PHASE4 => I2C_CMD_WAIT
  | .S_WR_PHASE1 | .S_WR_PHASE2 | .S_WR_PHASE3 | .S_WR_PHASE4 => I2C_CMD_WRITE

variable {s : State} {i : Input}

theorem fsm_keep (hal : s.al_o=false) (hrst : i.sw_rst_i=false) : fsm s i=drive s i := by
  simp only [fsm,hal,hrst,Bool.or_self,Bool.false_eq_true,if_false]

theorem fsm_giveUp (hup : (s.al_o || i.sw_rst_i)=true) :
    fsm s i=⟨.S_IDLE,false,true,true,false⟩ :=
  if_pos hup

/-- Between commands the controller takes the next one. -/
theorem drive_idle (hidle : s.CS=.S_IDLE) :
    (drive s i).CS=(if i.cmd_valid_i then first i.cmd_i else .S_IDLE) ∧
      (drive s i).cmd_ack_o=false := by
  simp only [drive,hidle,and_self]

/-- A command goes on, or ends with its acknowledge. -/
theorem drive_busy (hbusy : s.CS≠.S_IDLE) :
    (cmdOf (drive s i).CS=cmdOf s.CS ∧ (drive s i).cmd_ack_o=false) ∨
      ((drive s i).CS=.S_IDLE ∧ (drive s i).cmd_ack_o=true) := by
  cases hcs : s.CS with
  | S_IDLE => exact absurd hcs hbusy
  | _ =>
    simp only [drive,hcs,phase,lastPhase]
    cases s.clk_en <;> simp only [Bool.false_eq_true,if_false,if_true,cmdOf,and_self,true_or,or_true]

theorem cmdOf_eq_zero {CS : Fsm} : cmdOf CS=0 ↔ CS=.S_IDLE := by
  cases CS <;> decide

end Pulpissimo.Udma.I2cBus

import Pulpissimo.Udma.I2cBus

/-!
# The I2C command interpreter

`udma_i2c_control` with its bus controller. Bytes of one stream are commands and their operands.
The interpreter turns them into bus commands, one at a time, and waits for the acknowledge of
each. Writes, reads and waits share the bit counter, writes and reads the data register.
-/

namespace Pulpissimo.Udma.I2cControl

open Pulpissimo.Machine

def I2C_CMD_START : BitVec 4 := 0x0#4
def I2C_CMD_STOP : BitVec 4 := 0x2#4
def I2C_CMD_RD_ACK : BitVec 4 := 0x4#4
def I2C_CMD_RD_NACK : BitVec 4 := 0x6#4
def I2C_CMD_WR : BitVec 4 := 0x8#4
def I2C_CMD_WAIT : BitVec 4 := 0xA#4
def I2C_CMD_RPT : BitVec 4 := 0xC#4
def I2C_CMD_CFG : BitVec 4 := 0xE#4
def I2C_CMD_WAIT_EV : BitVec 4 := 0x1#4

def BUS_CMD_NONE : BitVec 3 := 0b000#3
def BUS_CMD_START : BitVec 3 := 0b001#3
def BUS_CMD_STOP : BitVec 3 := 0b010#3
def BUS_CMD_WRITE : BitVec 3 := 0b011#3
def BUS_CMD_READ : BitVec 3 := 0b100#3
def BUS_CMD_WAIT : BitVec 3 := 0b101#3

inductive Fsm where
  | ST_WAIT_IN_CMD | ST_WAIT_EV | ST_CMD_DONE | ST_READ | ST_WRITE | ST_STORE_DATA | ST_SKIP_CMD
  | ST_GET_DATA | ST_GET_WAIT | ST_GET_WAIT_EV | ST_GET_RPT | ST_GET_CFG_MSB | ST_GET_CFG_LSB
deriving DecidableEq

/-- Registers, with those of the bus controller. -/
structure State where
  CS : Fsm
  r_rpt_num : BitVec 7
  r_data : BitVec 8
  r_bits : BitVec 8
  r_rd_ack : Bool
  r_div_num : BitVec 16
  r_busy : Bool
  r_al : Bool
  r_ev_sel : BitVec 2
  bus_controller : I2cBus.State

/-- Values after reset. -/
def reset : State :=
  ⟨.ST_WAIT_IN_CMD,0,0,0,false,0x100#16,false,false,0,I2cBus.reset⟩

/-- One cycle of inputs. -/
structure Input where
  ext_events_i : BitVec 4
  data_tx_i : BitVec 8
  data_tx_valid_i : Bool
  data_rx_ready_i : Bool
  sw_rst_i : Bool
  scl_i : Bool
  sda_i : Bool

/-- The interpreter's signals in one cycle, with their defaults. -/
structure Comb where
  NS : Fsm
  s_data_tx_ready : Bool := false
  s_data_rx_valid : Bool := false
  s_bus_if_cmd : BitVec 3 := BUS_CMD_NONE
  s_bus_if_cmd_valid : Bool := false
  s_rd_ack : Bool
  s_rpt_num : BitVec 7
  s_bits : BitVec 8
  s_data : BitVec 8
  s_en_bus_ctrl : Bool := true
  s_div_num : BitVec 16
  s_sample_div : Bool := false
  s_sample_rpt : Bool := false
  s_sample_ev : Bool := false

section Code

variable (s : State) (i : Input)

/-- The acknowledge of the bus controller. -/
def s_cmd_done : Bool := s.bus_controller.cmd_ack_o

/-- The bit the bus controller received. -/
def s_core_rxd : Bool := s.bus_controller.dout_o

def s_al : Bool := s.bus_controller.al_o

def s_event : Bool := i.ext_events_i.getLsbD s.r_ev_sel.toNat

/-- A command byte. -/
def decode (c : Comb) : Comb :=
  let cmd := i.data_tx_i.extractLsb' 4 4
  if cmd=I2C_CMD_START then
    { c with s_bus_if_cmd := BUS_CMD_START, s_bus_if_cmd_valid := true, NS := .ST_CMD_DONE }
  else if cmd=I2C_CMD_STOP then
    { c with s_bus_if_cmd := BUS_CMD_STOP, s_bus_if_cmd_valid := true, NS := .ST_CMD_DONE }
  else if cmd=I2C_CMD_WAIT then { c with NS := .ST_GET_WAIT }
  else if cmd=I2C_CMD_WAIT_EV then { c with s_sample_ev := true, NS := .ST_WAIT_EV }
  else if cmd=I2C_CMD_RD_ACK then
    { c with
      s_bus_if_cmd := BUS_CMD_READ, s_bus_if_cmd_valid := true, s_rd_ack := false
      s_bits := 8#8, NS := .ST_READ }
  else if cmd=I2C_CMD_RD_NACK then
    { c with
      s_bus_if_cmd := BUS_CMD_READ, s_bus_if_cmd_valid := true, s_rd_ack := true
      s_bits := 8#8, NS := .ST_READ }
  else if cmd=I2C_CMD_WR then { c with NS := .ST_GET_DATA }
  else if cmd=I2C_CMD_RPT then { c with NS := .ST_GET_RPT }
  else if cmd=I2C_CMD_CFG then { c with NS := .ST_GET_CFG_MSB }
  else c

/-- The signals when nothing happens. -/
def rest : Comb where
  NS := s.CS
  s_rd_ack := s.r_rd_ack
  s_rpt_num := s.r_rpt_num
  s_bits := s.r_bits
  s_data := s.r_data
  s_div_num := s.r_div_num

/-- The interpreter. -/
def comb : Comb :=
  let c := rest s
  match s.CS with
  | .ST_WAIT_IN_CMD =>
    let c := { c with s_data_tx_ready := true }
    if i.data_tx_valid_i then decode i c else c
  | .ST_CMD_DONE =>
    if s_cmd_done s && s.r_bits==0#8 then { c with NS := .ST_WAIT_IN_CMD }
    else if s_cmd_done s && !(s.r_bits==0#8) then
      { c with
        s_bus_if_cmd := BUS_CMD_WAIT, s_bus_if_cmd_valid := true, s_bits := s.r_bits-1#8
        NS := .ST_CMD_DONE }
    else c
  | .ST_WAIT_EV =>
    if s_event s i && s.r_bits==0#8 then { c with NS := .ST_WAIT_IN_CMD }
    else if s_event s i && !(s.r_bits==0#8) then
      { c with s_bits := s.r_bits-1#8, NS := .ST_WAIT_EV }
    else c
  | .ST_READ =>
    if s_cmd_done s && s.r_bits==1#8 then
      { c with
        s_bus_if_cmd := BUS_CMD_WRITE, s_bus_if_cmd_valid := true, s_bits := s.r_bits-1#8
        s_data := (s.r_data.setWidth 7).concat (s_core_rxd s), NS := .ST_READ }
    else if s_cmd_done s && !(s.r_bits==0#8) then
      { c with
        s_bus_if_cmd := BUS_CMD_READ, s_bus_if_cmd_valid := true, s_bits := s.r_bits-1#8
        s_data := (s.r_data.setWidth 7).concat (s_core_rxd s), NS := .ST_READ }
    else if s_cmd_done s && s.r_bits==0#8 then { c with NS := .ST_STORE_DATA }
    else c
  | .ST_STORE_DATA =>
    let c := { c with s_data_rx_valid := true }
    if i.data_rx_ready_i then
      if s.r_rpt_num=0#7 then { c with NS := .ST_WAIT_IN_CMD }
      else
        { c with
          s_bus_if_cmd := BUS_CMD_READ, s_bus_if_cmd_valid := true, s_bits := 8#8
          s_sample_rpt := true, s_rpt_num := s.r_rpt_num-1#7, NS := .ST_READ }
    else c
  | .ST_GET_DATA =>
    let c := { c with s_data_tx_ready := true }
    if i.data_tx_valid_i then
      { c with
        s_bus_if_cmd := BUS_CMD_WRITE, s_bus_if_cmd_valid := true, s_data := i.data_tx_i
        s_bits := 8#8, NS := .ST_WRITE }
    else c
  | .ST_SKIP_CMD => { c with s_data_tx_ready := true, NS := .ST_WAIT_IN_CMD }
  | .ST_GET_RPT =>
    let c := { c with s_data_tx_ready := true }
    if i.data_tx_valid_i then
      if i.data_tx_i=0#8 then { c with s_sample_rpt := true, s_rpt_num := 0, NS := .ST_SKIP_CMD }
      else
        { c with
          s_sample_rpt := true, s_rpt_num := (i.data_tx_i-1#8).setWidth 7, NS := .ST_WAIT_IN_CMD }
    else c
  | .ST_GET_CFG_MSB =>
    let c := { c with s_data_tx_ready := true }
    if i.data_tx_valid_i then
      { c with
        s_sample_div := true, s_div_num := i.data_tx_i++s.r_div_num.setWidth 8
        NS := .ST_GET_CFG_LSB }
    else c
  | .ST_GET_CFG_LSB =>
    let c := { c with s_data_tx_ready := true }
    if i.data_tx_valid_i then
      { c with
        s_sample_div := true, s_div_num := s.r_div_num.extractLsb' 8 8++i.data_tx_i
        NS := .ST_WAIT_IN_CMD }
    else c
  | .ST_GET_WAIT =>
    let c := { c with s_data_tx_ready := true }
    if i.data_tx_valid_i then
      { c with
        s_bus_if_cmd := BUS_CMD_WAIT, s_bus_if_cmd_valid := true, s_bits := i.data_tx_i
        NS := .ST_CMD_DONE }
    else c
  | .ST_WRITE =>
    if s_cmd_done s && s.r_bits==1#8 then
      { c with
        s_bus_if_cmd := BUS_CMD_READ, s_bus_if_cmd_valid := true
        s_data := (s.r_data.setWidth 7).concat false, s_bits := s.r_bits-1#8, NS := .ST_WRITE }
    else if s_cmd_done s && !(s.r_bits==0#8) then
      { c with
        s_bus_if_cmd := BUS_CMD_WRITE, s_bus_if_cmd_valid := true
        s_data := (s.r_data.setWidth 7).concat false, s_bits := s.r_bits-1#8, NS := .ST_WRITE }
    else if s_cmd_done s && s.r_bits==0#8 && !(s.r_rpt_num==0#7) then
      { c with
        s_bits := 8#8, s_sample_rpt := true, s_rpt_num := s.r_rpt_num-1#7, NS := .ST_GET_DATA }
    else if s_cmd_done s && s.r_bits==0#8 && s.r_rpt_num==0#7 then { c with NS := .ST_WAIT_IN_CMD }
    else c
  | .ST_GET_WAIT_EV => { c with NS := .ST_WAIT_IN_CMD, s_en_bus_ctrl := false }

/-- The bit the bus controller sends. -/
def s_core_txd : Bool := if s.CS=.ST_READ then s.r_rd_ack else (comb s i).s_data.getLsbD 7

def data_tx_ready_o : Bool := i.sw_rst_i || (comb s i).s_data_tx_ready

def data_rx_valid_o : Bool := i.sw_rst_i || (comb s i).s_data_rx_valid

def data_rx_o : BitVec 8 := s.r_data

def err_o : Bool := (!s.r_busy && s.bus_controller.busy_o) || (!s.r_al && s_al s)

/-- The bus controller's inputs. -/
def busInput : I2cBus.Input where
  ena_i := (comb s i).s_en_bus_ctrl
  sw_rst_i := i.sw_rst_i
  clk_cnt_i := s.r_div_num
  cmd_i := (comb s i).s_bus_if_cmd
  cmd_valid_i := (comb s i).s_bus_if_cmd_valid
  din_i := s_core_txd s i
  scl_i := i.scl_i
  sda_i := i.sda_i

/-- One clock edge. -/
def step : State :=
  let c := comb s i
  let bus_controller := I2cBus.step s.bus_controller (busInput s i)
  if i.sw_rst_i then { reset with bus_controller }
  else
    { CS := c.NS
      r_rpt_num := if c.s_sample_rpt then c.s_rpt_num else s.r_rpt_num
      r_data := c.s_data
      r_bits := c.s_bits
      r_rd_ack := c.s_rd_ack
      r_div_num := if c.s_sample_div then c.s_div_num else s.r_div_num
      r_busy := s.bus_controller.busy_o
      r_al := s_al s
      r_ev_sel := if c.s_sample_ev then i.data_tx_i.setWidth 2 else s.r_ev_sel
      bus_controller }

end Code

/-- States that wait for the bus controller's acknowledge. -/
def waits (CS : Fsm) : Bool := CS == .ST_CMD_DONE || CS == .ST_READ || CS == .ST_WRITE

variable {s : State} {i : Input}

/-- Without its acknowledge a waiting interpreter does nothing. -/
theorem comb_wait (hwait : waits s.CS=true) (hdone : s_cmd_done s=false) : comb s i=rest s := by
  cases hcs : s.CS <;> simp_all [waits,comb]

/-- A command that the bus controller takes. -/
def isCmd (cmd_i : BitVec 3) : Bool := I2cBus.first cmd_i != .S_IDLE

/-- The signals issue a command and wait for it, or do neither. -/
def Issues (c : Comb) : Prop :=
  (waits c.NS=true ∧ c.s_bus_if_cmd_valid=true ∧ isCmd c.s_bus_if_cmd=true) ∨
    (waits c.NS=false ∧ c.s_bus_if_cmd_valid=false)

theorem issues_ite {p : Prop} [Decidable p] {c d : Comb} (hc : Issues c) (hd : Issues d) :
    Issues (if p then c else d) := by
  split
  · exact hc
  · exact hd

theorem decode_issues {c : Comb} (hwait : waits c.NS=false) (hvalid : c.s_bus_if_cmd_valid=false) :
    Issues (decode i c) := by
  have hquiet : ∀ d : Comb, waits d.NS=false → d.s_bus_if_cmd_valid=false → Issues d :=
    fun _ hw hv => .inr ⟨hw,hv⟩
  unfold decode
  refine issues_ite (.inl ⟨rfl,rfl,rfl⟩) (issues_ite (.inl ⟨rfl,rfl,rfl⟩) ?_)
  refine issues_ite (hquiet _ rfl hvalid) (issues_ite (hquiet _ rfl hvalid) ?_)
  refine issues_ite (.inl ⟨rfl,rfl,rfl⟩) (issues_ite (.inl ⟨rfl,rfl,rfl⟩) ?_)
  exact issues_ite (hquiet _ rfl hvalid) (issues_ite (hquiet _ rfl hvalid)
    (issues_ite (hquiet _ rfl hvalid) (hquiet _ hwait hvalid)))

/-- Otherwise it issues a command and waits for it, or does neither. -/
theorem comb_go (hgo : waits s.CS=true → s_cmd_done s=true) : Issues (comb s i) := by
  cases hcs : s.CS with
  | ST_WAIT_IN_CMD =>
    simp only [comb,hcs]
    split_ifs
    · exact decode_issues (by rw [rest,hcs]; rfl) rfl
    · exact .inr ⟨by rw [rest,hcs]; rfl,rfl⟩
  | ST_CMD_DONE | ST_READ | ST_WRITE =>
    have hdone : s_cmd_done s=true := hgo (by rw [hcs]; rfl)
    simp only [comb,hcs,hdone,Bool.true_and]
    split_ifs
    all_goals first | exact .inr ⟨rfl,rfl⟩ | exact .inl ⟨rfl,rfl,rfl⟩ | simp_all
  | ST_SKIP_CMD | ST_GET_WAIT_EV =>
    rw [comb,hcs]
    exact .inr ⟨rfl,rfl⟩
  | _ =>
    simp only [comb,hcs,rest]
    repeat' split
    all_goals first | exact .inr ⟨rfl,rfl⟩ | exact .inl ⟨rfl,rfl,rfl⟩

end Pulpissimo.Udma.I2cControl

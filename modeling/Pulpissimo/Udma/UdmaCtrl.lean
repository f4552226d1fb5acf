import Mathlib.Data.BitVec
import Mathlib.Data.Fintype.Basic
import Mathlib.Logic.Function.Basic
import Pulpissimo.Lib.Bits
import Pulpissimo.Lib.Indices

/-!
# The control registers of the micro DMA

`udma_ctrl` holds the clock gates, the events and the configuration of the filter. Its write and
its read are two case statements. The registers of the receiving channel are vectors, but several
places index them as if there were two of them, and so take a bit.
-/

namespace Pulpissimo.Udma.UdmaCtrl

/-- Parameters for which the part selects of the code are in range. -/
structure Config where
  L2_AWIDTH_NOAL : ℕ
  TRANS_SIZE : ℕ
  two_le_addr : 2 ≤ L2_AWIDTH_NOAL
  addr_le : L2_AWIDTH_NOAL ≤ 32
  two_le_size : 2 ≤ TRANS_SIZE
  size_le : TRANS_SIZE ≤ 32

/-- Registers. -/
structure State (c : Config) where
  r_cg : BitVec 16
  r_rst : BitVec 16
  r_cmp_evt : Fin 4 → BitVec 8
  r_filter_tx_start_addr : Fin 2 → BitVec c.L2_AWIDTH_NOAL
  r_filter_tx_datasize : Fin 2 → BitVec 2
  r_filter_tx_mode : Fin 2 → BitVec 2
  r_filter_tx_len0 : Fin 2 → BitVec c.TRANS_SIZE
  r_filter_tx_len1 : Fin 2 → BitVec c.TRANS_SIZE
  r_filter_tx_len2 : Fin 2 → BitVec c.TRANS_SIZE
  r_filter_rx_start_addr : BitVec c.L2_AWIDTH_NOAL
  r_filter_rx_datasize : BitVec 2
  r_filter_rx_mode : BitVec 2
  r_filter_rx_len0 : BitVec c.TRANS_SIZE
  r_filter_rx_len1 : BitVec c.TRANS_SIZE
  r_filter_rx_len2 : BitVec c.TRANS_SIZE
  r_au_use_signed : Bool
  r_au_bypass : Bool
  r_au_mode : BitVec 4
  r_au_shift : BitVec 5
  r_au_reg0 : BitVec 32
  r_au_reg1 : BitVec 32
  r_bincu_threshold : BitVec 32
  r_bincu_counter : BitVec c.TRANS_SIZE
  r_filter_mode : BitVec 3
  r_filter_start : Bool

variable {c : Config}

/-- Values after reset. -/
def reset : State c :=
  ⟨0,0,fun _ => 0,fun _ => 0,fun _ => 0,fun _ => 0,fun _ => 0,fun _ => 0,fun _ => 0,0,0,0,0,0,0,false,
    false,0,0,0,0,0,0,0,false⟩

/-- One cycle of inputs. -/
structure Input where
  cfg_data_i : BitVec 32
  cfg_addr_i : BitVec 5
  cfg_valid_i : Bool
  cfg_rwn_i : Bool
  event_valid_i : Bool
  event_data_i : BitVec 8

section Code

def REG_CG : BitVec 5 := 0b00000#5
def REG_CFG_EVT : BitVec 5 := 0b00001#5
def REG_RST : BitVec 5 := 0b00010#5
def REG_RFU : BitVec 5 := 0b00011#5
def REG_TX_CH0_ADD : BitVec 5 := 0b00100#5
def REG_TX_CH0_CFG : BitVec 5 := 0b00101#5
def REG_TX_CH0_LEN0 : BitVec 5 := 0b00110#5
def REG_TX_CH0_LEN1 : BitVec 5 := 0b00111#5
def REG_TX_CH0_LEN2 : BitVec 5 := 0b01000#5
def REG_TX_CH1_ADD : BitVec 5 := 0b01001#5
def REG_TX_CH1_CFG : BitVec 5 := 0b01010#5
def REG_TX_CH1_LEN0 : BitVec 5 := 0b01011#5
def REG_TX_CH1_LEN1 : BitVec 5 := 0b01100#5
def REG_TX_CH1_LEN2 : BitVec 5 := 0b01101#5
def REG_RX_CH_ADD : BitVec 5 := 0b01110#5
def REG_RX_CH_CFG : BitVec 5 := 0b01111#5
def REG_RX_CH_LEN0 : BitVec 5 := 0b10000#5
def REG_RX_CH_LEN1 : BitVec 5 := 0b10001#5
def REG_RX_CH_LEN2 : BitVec 5 := 0b10010#5
def REG_AU_CFG : BitVec 5 := 0b10011#5
def REG_AU_REG0 : BitVec 5 := 0b10100#5
def REG_AU_REG1 : BitVec 5 := 0b10101#5
def REG_BINCU_TH : BitVec 5 := 0b10110#5
def REG_BINCU_CNT : BitVec 5 := 0b10111#5
def REG_FILT : BitVec 5 := 0b11000#5
def REG_FILT_CMD : BitVec 5 := 0b11001#5

/-- An entry of an array is written. -/
def put {n : ℕ} {α : Type} (f : Fin n → α) (k : Fin n) (x : α) : Fin n → α := Function.update f k x

variable (s : State c) (i : Input)

def s_wr_addr : BitVec 5 := if i.cfg_valid_i && !i.cfg_rwn_i then i.cfg_addr_i else 0

def s_rd_addr : BitVec 5 := if i.cfg_valid_i && i.cfg_rwn_i then i.cfg_addr_i else 0

/-- The registers with a cycle's write. -/
def write : State c :=
  let addr := s_wr_addr i
  let d := i.cfg_data_i
  if addr=REG_CG then {s with r_cg := d.extractLsb' 0 16}
  else if addr=REG_RST then {s with r_rst := d.extractLsb' 0 16}
  else if addr=REG_CFG_EVT then {s with r_cmp_evt := fun k => d.extractLsb' (8*k) 8}
  else if addr=REG_TX_CH0_ADD then
    {s with r_filter_tx_start_addr := put s.r_filter_tx_start_addr 0 (d.setWidth _)}
  else if addr=REG_TX_CH0_CFG then
    {s with
      r_filter_tx_datasize := put s.r_filter_tx_datasize 0 (d.extractLsb' 0 2)
      r_filter_tx_mode := put s.r_filter_tx_mode 0 (d.extractLsb' 8 2)}
  else if addr=REG_TX_CH0_LEN0 then
    {s with r_filter_tx_len0 := put s.r_filter_tx_len0 0 (d.setWidth _)}
  else if addr=REG_TX_CH0_LEN1 then
    {s with r_filter_tx_len1 := put s.r_filter_tx_len1 0 (d.setWidth _)}
  else if addr=REG_TX_CH0_LEN2 then
    {s with r_filter_tx_len2 := put s.r_filter_tx_len2 0 (d.setWidth _)}
  else if addr=REG_TX_CH1_ADD then
    {s with r_filter_tx_start_addr := put s.r_filter_tx_start_addr 1 (d.setWidth _)}
  else if addr=REG_TX_CH1_CFG then
    {s with
      r_filter_tx_datasize := put s.r_filter_tx_datasize 1 (d.extractLsb' 0 2)
      r_filter_tx_mode := put s.r_filter_tx_mode 1 (d.extractLsb' 8 2)}
  else if addr=REG_TX_CH1_LEN0 then
    {s with r_filter_tx_len0 := put s.r_filter_tx_len0 1 (d.setWidth _)}
  else if addr=REG_TX_CH1_LEN1 then
    {s with r_filter_tx_len1 := put s.r_filter_tx_len1 1 (d.setWidth _)}
  else if addr=REG_TX_CH1_LEN2 then
    -- a bit of the receiving channel's length
    {s with r_filter_rx_len2 := Bits.setBit s.r_filter_rx_len2 1 (d.getLsbD 0)}
  else if addr=REG_RX_CH_ADD then {s with r_filter_rx_start_addr := d.setWidth _}
  else if addr=REG_RX_CH_CFG then
    {s with r_filter_rx_datasize := d.extractLsb' 0 2, r_filter_rx_mode := d.extractLsb' 8 2}
  else if addr=REG_RX_CH_LEN0 then {s with r_filter_rx_len0 := (d.extractLsb' 0 16).setWidth _}
  else if addr=REG_RX_CH_LEN1 then {s with r_filter_rx_len1 := (d.extractLsb' 0 16).setWidth _}
  else if addr=REG_RX_CH_LEN2 then {s with r_filter_rx_len2 := (d.extractLsb' 0 16).setWidth _}
  else if addr=REG_AU_CFG then
    {s with
      r_au_use_signed := d.getLsbD 0
      r_au_bypass := d.getLsbD 1
      r_au_mode := d.extractLsb' 8 4
      r_au_shift := d.extractLsb' 16 5}
  else if addr=REG_AU_REG0 then {s with r_au_reg0 := d}
  else if addr=REG_AU_REG1 then {s with r_au_reg1 := d}
  else if addr=REG_BINCU_TH then {s with r_bincu_threshold := d}
  else if addr=REG_BINCU_CNT then {s with r_bincu_counter := d.setWidth _}
  else if addr=REG_FILT then {s with r_filter_mode := d.extractLsb' 0 3}
  else s

/-- One clock edge. -/
def step : State c :=
  let next := {s with r_filter_start :=
    i.cfg_valid_i && !i.cfg_rwn_i && s_wr_addr i==REG_FILT_CMD && i.cfg_data_i.getLsbD 0}
  if i.cfg_valid_i && !i.cfg_rwn_i then write next i else next

/-- A word with the mode and the size of a channel. -/
def cfgWord (mode datasize : BitVec 2) : BitVec 32 := 0#22++mode++0#6++datasize

/-- A word with the configuration of the arithmetic unit. -/
def auWord (shift : BitVec 5) (mode : BitVec 4) (bypass use_signed : Bool) : BitVec 32 :=
  0#11++shift++0#4++mode++0#6++BitVec.ofBool bypass++BitVec.ofBool use_signed

/-- One bit of a register, in place of the register. -/
def bitOne {n : ℕ} (v : BitVec n) : Bool := v.getLsbD 1

/-- Read data. -/
def cfg_data_o : BitVec 32 :=
  let addr := s_rd_addr i
  if addr=REG_CG then s.r_cg.setWidth 32
  else if addr=REG_RST then s.r_rst.setWidth 32
  else if addr=REG_CFG_EVT then s.r_cmp_evt 3++s.r_cmp_evt 2++s.r_cmp_evt 1++s.r_cmp_evt 0
  else if addr=REG_TX_CH0_ADD then (s.r_filter_tx_start_addr 0).setWidth 32
  else if addr=REG_TX_CH0_CFG then cfgWord (s.r_filter_tx_mode 0) (s.r_filter_tx_datasize 0)
  else if addr=REG_TX_CH0_LEN0 then (s.r_filter_tx_len0 0).setWidth 32
  else if addr=REG_TX_CH0_LEN1 then (s.r_filter_tx_len1 0).setWidth 32
  else if addr=REG_TX_CH0_LEN2 then (s.r_filter_tx_len2 0).setWidth 32
  else if addr=REG_TX_CH1_ADD then (s.r_filter_tx_start_addr 1).setWidth 32
  else if addr=REG_TX_CH1_CFG then cfgWord (s.r_filter_tx_mode 1) (s.r_filter_tx_datasize 1)
  else if addr=REG_TX_CH1_LEN0 then (s.r_filter_tx_len0 1).setWidth 32
  else if addr=REG_TX_CH1_LEN1 then (s.r_filter_tx_len1 1).setWidth 32
  else if addr=REG_TX_CH1_LEN2 then (BitVec.ofBool (bitOne s.r_filter_rx_len2)).setWidth 32
  else if addr=REG_RX_CH_ADD then (BitVec.ofBool (bitOne s.r_filter_rx_start_addr)).setWidth 32
  else if addr=REG_RX_CH_CFG then
    cfgWord ((BitVec.ofBool (bitOne s.r_filter_rx_mode)).setWidth 2)
      ((BitVec.ofBool (bitOne s.r_filter_rx_datasize)).setWidth 2)
  else if addr=REG_RX_CH_LEN0 then (BitVec.ofBool (bitOne s.r_filter_rx_len0)).setWidth 32
  else if addr=REG_RX_CH_LEN1 then (BitVec.ofBool (bitOne s.r_filter_rx_len1)).setWidth 32
  else if addr=REG_RX_CH_LEN2 then (BitVec.ofBool (bitOne s.r_filter_rx_len2)).setWidth 32
  else if addr=REG_AU_CFG then auWord s.r_au_shift s.r_au_mode s.r_au_bypass s.r_au_use_signed
  else if addr=REG_AU_REG0 then s.r_au_reg0
  else if addr=REG_AU_REG1 then s.r_au_reg1
  else if addr=REG_BINCU_TH then s.r_bincu_threshold
  else if addr=REG_BINCU_CNT then s.r_bincu_counter.setWidth 32
  else if addr=REG_FILT then s.r_filter_mode.setWidth 32
  else 0

/-- The top is clocked if any peripheral is. -/
def cg_core_o : Bool := s.r_cg != 0

def event_o (k : Fin 4) : Bool := i.event_valid_i && i.event_data_i==s.r_cmp_evt k

end Code

/-- The documented registers. -/
inductive Reg where
  | CG | CFG_EVT | RST | RFU
  | TX_CH0_ADD | TX_CH0_CFG | TX_CH0_LEN0 | TX_CH0_LEN1 | TX_CH0_LEN2
  | TX_CH1_ADD | TX_CH1_CFG | TX_CH1_LEN0 | TX_CH1_LEN1 | TX_CH1_LEN2
  | RX_CH_ADD | RX_CH_CFG | RX_CH_LEN0 | RX_CH_LEN1 | RX_CH_LEN2
  | AU_CFG | AU_REG0 | AU_REG1 | BINCU_TH | BINCU_CNT | FILT | FILT_CMD
deriving DecidableEq

namespace Reg

/-- The registers in the order of their addresses. -/
def all : List Reg :=
  [CG,CFG_EVT,RST,RFU,TX_CH0_ADD,TX_CH0_CFG,TX_CH0_LEN0,TX_CH0_LEN1,TX_CH0_LEN2,TX_CH1_ADD,TX_CH1_CFG,
    TX_CH1_LEN0,TX_CH1_LEN1,TX_CH1_LEN2,RX_CH_ADD,RX_CH_CFG,RX_CH_LEN0,RX_CH_LEN1,RX_CH_LEN2,AU_CFG,
    AU_REG0,AU_REG1,BINCU_TH,BINCU_CNT,FILT,FILT_CMD]

/-- Documented address of a register. -/
def number : Reg → BitVec 5
  | CG => REG_CG
  | CFG_EVT => REG_CFG_EVT
  | RST => REG_RST
  | RFU => REG_RFU
  | TX_CH0_ADD => REG_TX_CH0_ADD
  | TX_CH0_CFG => REG_TX_CH0_CFG
  | TX_CH0_LEN0 => REG_TX_CH0_LEN0
  | TX_CH0_LEN1 => REG_TX_CH0_LEN1
  | TX_CH0_LEN2 => REG_TX_CH0_LEN2
  | TX_CH1_ADD => REG_TX_CH1_ADD
  | TX_CH1_CFG => REG_TX_CH1_CFG
  | TX_CH1_LEN0 => REG_TX_CH1_LEN0
  | TX_CH1_LEN1 => REG_TX_CH1_LEN1
  | TX_CH1_LEN2 => REG_TX_CH1_LEN2
  | RX_CH_ADD => REG_RX_CH_ADD
  | RX_CH_CFG => REG_RX_CH_CFG
  | RX_CH_LEN0 => REG_RX_CH_LEN0
  | RX_CH_LEN1 => REG_RX_CH_LEN1
  | RX_CH_LEN2 => REG_RX_CH_LEN2
  | AU_CFG => REG_AU_CFG
  | AU_REG0 => REG_AU_REG0
  | AU_REG1 => REG_AU_REG1
  | BINCU_TH => REG_BINCU_TH
  | BINCU_CNT => REG_BINCU_CNT
  | FILT => REG_FILT
  | FILT_CMD => REG_FILT_CMD

/-- The registers with a word written to one of them. The command starts the filter. -/
def store (w : BitVec 32) (s : State c) : Reg → State c
  | CG => {s with r_cg := w.extractLsb' 0 16}
  | CFG_EVT => {s with r_cmp_evt := fun k => w.extractLsb' (8*k) 8}
  | RST => {s with r_rst := w.extractLsb' 0 16}
  | RFU => s
  | TX_CH0_ADD => {s with r_filter_tx_start_addr := put s.r_filter_tx_start_addr 0 (w.setWidth _)}
  | TX_CH0_CFG =>
    {s with
      r_filter_tx_datasize := put s.r_filter_tx_datasize 0 (w.extractLsb' 0 2)
      r_filter_tx_mode := put s.r_filter_tx_mode 0 (w.extractLsb' 8 2)}
  | TX_CH0_LEN0 => {s with r_filter_tx_len0 := put s.r_filter_tx_len0 0 (w.setWidth _)}
  | TX_CH0_LEN1 => {s with r_filter_tx_len1 := put s.r_filter_tx_len1 0 (w.setWidth _)}
  | TX_CH0_LEN2 => {s with r_filter_tx_len2 := put s.r_filter_tx_len2 0 (w.setWidth _)}
  | TX_CH1_ADD => {s with r_filter_tx_start_addr := put s.r_filter_tx_start_addr 1 (w.setWidth _)}
  | TX_CH1_CFG =>
    {s with
      r_filter_tx_datasize := put s.r_filter_tx_datasize 1 (w.extractLsb' 0 2)
      r_filter_tx_mode := put s.r_filter_tx_mode 1 (w.extractLsb' 8 2)}
  | TX_CH1_LEN0 => {s with r_filter_tx_len0 := put s.r_filter_tx_len0 1 (w.setWidth _)}
  | TX_CH1_LEN1 => {s with r_filter_tx_len1 := put s.r_filter_tx_len1 1 (w.setWidth _)}
  | TX_CH1_LEN2 => {s with r_filter_tx_len2 := put s.r_filter_tx_len2 1 (w.setWidth _)}
  | RX_CH_ADD => {s with r_filter_rx_start_addr := w.setWidth _}
  | RX_CH_CFG =>
    {s with r_filter_rx_datasize := w.extractLsb' 0 2, r_filter_rx_mode := w.extractLsb' 8 2}
  | RX_CH_LEN0 => {s with r_filter_rx_len0 := w.setWidth _}
  | RX_CH_LEN1 => {s with r_filter_rx_len1 := w.setWidth _}
  | RX_CH_LEN2 => {s with r_filter_rx_len2 := w.setWidth _}
  | AU_CFG =>
    {s with
      r_au_use_signed := w.getLsbD 0
      r_au_bypass := w.getLsbD 1
      r_au_mode := w.extractLsb' 8 4
      r_au_shift := w.extractLsb' 16 5}
  | AU_REG0 => {s with r_au_reg0 := w}
  | AU_REG1 => {s with r_au_reg1 := w}
  | BINCU_TH => {s with r_bincu_threshold := w}
  | BINCU_CNT => {s with r_bincu_counter := w.setWidth _}
  | FILT => {s with r_filter_mode := w.extractLsb' 0 3}
  | FILT_CMD => {s with r_filter_start := w.getLsbD 0}

/-- What a written word reads as, over the width of the register. There is nothing to read of a
command, or where no register is. -/
def kept (c : Config) (w : BitVec 32) : Reg → Option (BitVec 32)
  | CG | RST => some ((w.extractLsb' 0 16).setWidth 32)
  | CFG_EVT | AU_REG0 | AU_REG1 | BINCU_TH => some w
  | RFU | FILT_CMD => none
  | TX_CH0_ADD | TX_CH1_ADD | RX_CH_ADD => some ((w.setWidth c.L2_AWIDTH_NOAL).setWidth 32)
  | TX_CH0_CFG | TX_CH1_CFG | RX_CH_CFG => some (cfgWord (w.extractLsb' 8 2) (w.extractLsb' 0 2))
  | TX_CH0_LEN0 | TX_CH0_LEN1 | TX_CH0_LEN2 | TX_CH1_LEN0 | TX_CH1_LEN1 | TX_CH1_LEN2
  | RX_CH_LEN0 | RX_CH_LEN1 | RX_CH_LEN2 | BINCU_CNT =>
    some ((w.setWidth c.TRANS_SIZE).setWidth 32)
  | AU_CFG =>
    some (auWord (w.extractLsb' 16 5) (w.extractLsb' 8 4) (w.getLsbD 1) (w.getLsbD 0))
  | FILT => some ((w.extractLsb' 0 3).setWidth 32)

/-- The registers as a write leaves them. -/
def written (w : BitVec 32) (s : State c) : Reg → State c
  | TX_CH1_LEN2 => {s with r_filter_rx_len2 := Bits.setBit s.r_filter_rx_len2 1 (w.getLsbD 0)}
  | RX_CH_LEN0 => {s with r_filter_rx_len0 := (w.extractLsb' 0 16).setWidth _}
  | RX_CH_LEN1 => {s with r_filter_rx_len1 := (w.extractLsb' 0 16).setWidth _}
  | RX_CH_LEN2 => {s with r_filter_rx_len2 := (w.extractLsb' 0 16).setWidth _}
  | r => r.store w s

/-- The word that a register reads as. -/
def shown (s : State c) : Reg → BitVec 32
  | CG => s.r_cg.setWidth 32
  | CFG_EVT => s.r_cmp_evt 3++s.r_cmp_evt 2++s.r_cmp_evt 1++s.r_cmp_evt 0
  | RST => s.r_rst.setWidth 32
  | RFU | FILT_CMD => 0
  | TX_CH0_ADD => (s.r_filter_tx_start_addr 0).setWidth 32
  | TX_CH0_CFG => cfgWord (s.r_filter_tx_mode 0) (s.r_filter_tx_datasize 0)
  | TX_CH0_LEN0 => (s.r_filter_tx_len0 0).setWidth 32
  | TX_CH0_LEN1 => (s.r_filter_tx_len1 0).setWidth 32
  | TX_CH0_LEN2 => (s.r_filter_tx_len2 0).setWidth 32
  | TX_CH1_ADD => (s.r_filter_tx_start_addr 1).setWidth 32
  | TX_CH1_CFG => cfgWord (s.r_filter_tx_mode 1) (s.r_filter_tx_datasize 1)
  | TX_CH1_LEN0 => (s.r_filter_tx_len0 1).setWidth 32
  | TX_CH1_LEN1 => (s.r_filter_tx_len1 1).setWidth 32
  | TX_CH1_LEN2 | RX_CH_LEN2 => (BitVec.ofBool (bitOne s.r_filter_rx_len2)).setWidth 32
  | RX_CH_ADD => (BitVec.ofBool (bitOne s.r_filter_rx_start_addr)).setWidth 32
  | RX_CH_CFG =>
    cfgWord ((BitVec.ofBool (bitOne s.r_filter_rx_mode)).setWidth 2)
      ((BitVec.ofBool (bitOne s.r_filter_rx_datasize)).setWidth 2)
  | RX_CH_LEN0 => (BitVec.ofBool (bitOne s.r_filter_rx_len0)).setWidth 32
  | RX_CH_LEN1 => (BitVec.ofBool (bitOne s.r_filter_rx_len1)).setWidth 32
  | AU_CFG => auWord s.r_au_shift s.r_au_mode s.r_au_bypass s.r_au_use_signed
  | AU_REG0 => s.r_au_reg0
  | AU_REG1 => s.r_au_reg1
  | BINCU_TH => s.r_bincu_threshold
  | BINCU_CNT => s.r_bincu_counter.setWidth 32
  | FILT => s.r_filter_mode.setWidth 32

/-- Where a write to a register goes right: the registers of the receiving channel read as one of
their bits, and so does the last length of the second transmitting channel, which is not written at
all. -/
def Fits (w : BitVec 32) (s : State c) : Reg → Prop
  | TX_CH1_LEN2 => s.r_filter_tx_len2 1=w.setWidth c.TRANS_SIZE ∧
      bitOne s.r_filter_rx_len2=w.getLsbD 0 ∧ (w.setWidth c.TRANS_SIZE).toNat < 2
  | RX_CH_ADD => w.setWidth c.L2_AWIDTH_NOAL=0
  | RX_CH_CFG => w.extractLsb' 8 2=0 ∧ w.extractLsb' 0 2=0
  | RX_CH_LEN0 | RX_CH_LEN1 => w.setWidth c.TRANS_SIZE=0
  | RX_CH_LEN2 => w.setWidth c.TRANS_SIZE=0 ∧ bitOne s.r_filter_rx_len2=false
  | _ => True

end Reg

/-- The access writes. -/
def Writes (i : Input) : Prop := i.cfg_valid_i=true ∧ i.cfg_rwn_i=false

/-- The access reads. -/
def Reads (i : Input) : Prop := i.cfg_valid_i=true ∧ i.cfg_rwn_i=true

/-- The cycle without the access. -/
def quiet (i : Input) : Input := {i with cfg_valid_i := false}

/-- A write to a register changes this register and nothing else, and reads of it, and of all other
addresses, are as they should be. -/
structure WriteRight (s : State c) (i : Input) (r : Reg) : Prop where
  effect : step s i=r.store i.cfg_data_i (step s (quiet i))
  readback : ∀ v ∈ r.kept c i.cfg_data_i, ∀ j, Reads j → j.cfg_addr_i=r.number →
    cfg_data_o (step s i) j=v
  others : ∀ j, Reads j → j.cfg_addr_i ≠ r.number →
    cfg_data_o (step s i) j=cfg_data_o (step s (quiet i)) j

section Decode

variable (s : State c) {i : Input} {r : Reg}

theorem cfg_data_o_eq (h : Reads i) (hr : i.cfg_addr_i=r.number) : cfg_data_o s i=r.shown s := by
  have haddr : s_rd_addr i=r.number := by
    unfold s_rd_addr
    rw [h.1,h.2]
    exact hr
  unfold cfg_data_o
  rw [haddr]
  cases r <;> rfl

/-- Other addresses read as zero. -/
theorem cfg_data_o_none (h : Reads i) (hr : ∀ r : Reg, i.cfg_addr_i ≠ r.number) :
    cfg_data_o s i=0 := by
  have haddr : s_rd_addr i=i.cfg_addr_i := by
    unfold s_rd_addr
    rw [h.1,h.2]
    rfl
  have hall : ∀ v : BitVec 5, (∀ r ∈ Reg.all, v ≠ r.number) →
      v=26#5 ∨ v=27#5 ∨ v=28#5 ∨ v=29#5 ∨ v=30#5 ∨ v=31#5 := by decide
  unfold cfg_data_o
  rw [haddr]
  rcases hall _ (fun r _ => hr r) with h | h | h | h | h | h <;> rw [h] <;> rfl

theorem write_eq (h : Writes i) (hr : i.cfg_addr_i=r.number) (hcmd : r ≠ .FILT_CMD) :
    write s i=r.written i.cfg_data_i s := by
  have haddr : s_wr_addr i=r.number := by
    unfold s_wr_addr
    rw [h.1,h.2]
    exact hr
  unfold write
  rw [haddr]
  cases r <;> first | rfl | exact absurd rfl hcmd

/-- A write is what it makes of the cycle without the access. -/
theorem step_write (h : Writes i) (hr : i.cfg_addr_i=r.number) :
    step s i=r.written i.cfg_data_i (step s (quiet i)) := by
  have haddr : s_wr_addr i=r.number := by
    unfold s_wr_addr
    rw [h.1,h.2]
    exact hr
  have hquiet : step s (quiet i)={s with r_filter_start := false} := rfl
  rw [hquiet]
  unfold step
  rw [h.1,h.2,haddr]
  by_cases hcmd : r=.FILT_CMD
  · subst hcmd
    unfold write
    rw [haddr]
    rfl
  · have hstart : (r.number==REG_FILT_CMD)=false := by
      rw [beq_eq_false_iff_ne]
      cases r <;> first | exact absurd rfl hcmd | decide
    rw [hstart]
    exact write_eq _ h hr hcmd

end Decode

section Effect

variable {s : State c} {i : Input} {w : BitVec 32}

theorem setWidth_word_inj {n : ℕ} (hn : n ≤ 32) {x y : BitVec n} :
    x.setWidth 32=y.setWidth 32 ↔ x=y := by
  refine ⟨fun h => ?_,fun h => h ▸ rfl⟩
  have hback := congrArg (BitVec.setWidth n) h
  rwa [BitVec.setWidth_setWidth_of_le _ hn,BitVec.setWidth_setWidth_of_le _ hn,BitVec.setWidth_eq,
    BitVec.setWidth_eq] at hback

/-- A register reads as its bit exactly if it is zero. -/
theorem bitOne_iff {m n : ℕ} (hn : 2 ≤ n) (hm : n ≤ m) (v : BitVec n) :
    (BitVec.ofBool (bitOne v)).setWidth m=v.setWidth m ↔ v=0 := by
  have hlow : ∀ b : Bool, ((BitVec.ofBool b).setWidth m).getLsbD 1=false := by
    intro b
    rw [BitVec.getLsbD_setWidth]
    cases b <;> simp
  constructor
  · intro h
    have hbit : bitOne v=false := by
      have hone : ((BitVec.ofBool (bitOne v)).setWidth m).getLsbD 1=(v.setWidth m).getLsbD 1 := by
        rw [h]
      rw [hlow,BitVec.getLsbD_setWidth,decide_eq_true (by omega),Bool.true_and] at hone
      exact hone.symm
    rw [hbit] at h
    have hval := congrArg BitVec.toNat h
    rw [BitVec.toNat_setWidth_of_le hm] at hval
    apply BitVec.eq_of_toNat_eq
    rw [←hval]
    simp
  · rintro rfl
    have hzero : bitOne (0 : BitVec n)=false := BitVec.getLsbD_zero
    rw [hzero]
    apply BitVec.eq_of_toNat_eq
    simp

theorem cfgWord_inj {m m' d d' : BitVec 2} : cfgWord m d=cfgWord m' d' ↔ m=m' ∧ d=d' := by
  unfold cfgWord
  rw [Bits.append_inj,Bits.append_inj,Bits.append_inj]
  exact ⟨fun h => ⟨h.1.1.2,h.2⟩,fun h => ⟨⟨⟨rfl,h.1⟩,rfl⟩,h.2⟩⟩

/-- The four events of a word. -/
theorem join_events (w : BitVec 32) :
    w.extractLsb' 24 8++w.extractLsb' 16 8++w.extractLsb' 8 8++w.extractLsb' 0 8=w := by
  have hw := w.isLt
  apply BitVec.eq_of_toNat_eq
  rw [Bits.toNat_join,Bits.toNat_join,Bits.toNat_join]
  simp only [BitVec.extractLsb'_toNat,Nat.shiftRight_eq_div_pow]
  omega

/-- What a write has to do, in terms of the registers that it changes. -/
structure Reg.Right (r : Reg) (w : BitVec 32) (s : State c) : Prop where
  effect : r.written w s=r.store w s
  readback : ∀ v ∈ r.kept c w, r.shown (r.written w s)=v
  others : ∀ q, q ≠ r → q.shown (r.written w s)=q.shown s

/-- The registers for which write and read have the right places. -/
def Reg.plain : Reg → Bool
  | .TX_CH1_LEN2 | .RX_CH_ADD | .RX_CH_CFG | .RX_CH_LEN0 | .RX_CH_LEN1 | .RX_CH_LEN2 => false
  | _ => true

theorem Reg.right_plain {r : Reg} (h : r.plain=true) : r.Right w s := by
  refine ⟨?_,fun v hv => ?_,fun q hq => ?_⟩
  · cases r <;> first | rfl | exact absurd h Bool.false_ne_true
  · cases r with
    | CFG_EVT =>
      obtain rfl := Option.mem_some_iff.mp hv
      exact join_events w
    | RFU | FILT_CMD => exact nomatch hv
    | TX_CH1_LEN2 | RX_CH_ADD | RX_CH_CFG | RX_CH_LEN0 | RX_CH_LEN1 | RX_CH_LEN2 =>
      exact absurd h Bool.false_ne_true
    | _ =>
      obtain rfl := Option.mem_some_iff.mp hv
      rfl
  · cases r <;> first
    | exact absurd h Bool.false_ne_true
    | cases q <;> first | rfl | exact absurd rfl hq

/-- A length of the receiving channel is written and read right exactly if it is zero. -/
theorem length_iff (c : Config) (w : BitVec 32) :
    (w.extractLsb' 0 16).setWidth c.TRANS_SIZE=w.setWidth c.TRANS_SIZE ∧
        (BitVec.ofBool (bitOne ((w.extractLsb' 0 16).setWidth c.TRANS_SIZE))).setWidth 32=
          (w.setWidth c.TRANS_SIZE).setWidth 32 ↔
      w.setWidth c.TRANS_SIZE=0 := by
  have hiff := bitOne_iff c.two_le_size c.size_le (w.setWidth c.TRANS_SIZE)
  constructor
  · rintro ⟨hstore,hread⟩
    rw [hstore] at hread
    exact hiff.mp hread
  · intro hzero
    have hlow : (w.extractLsb' 0 16).setWidth c.TRANS_SIZE=0 := by
      apply BitVec.eq_of_toNat_eq
      have hval := congrArg BitVec.toNat hzero
      rw [BitVec.toNat_setWidth] at hval
      rw [BitVec.toNat_setWidth,BitVec.extractLsb'_toNat,Nat.shiftRight_zero]
      change w.toNat%2^c.TRANS_SIZE=0 at hval
      change w.toNat%2^16%2^c.TRANS_SIZE=0
      rcases Nat.le_total c.TRANS_SIZE 16 with hle | hle
      · rw [Nat.mod_mod_of_dvd _ (Nat.pow_dvd_pow 2 hle)]
        exact hval
      · have hdvd : 2^16 ∣ 2^c.TRANS_SIZE := Nat.pow_dvd_pow 2 hle
        have hzero16 : w.toNat%2^16=0 :=
          Nat.mod_eq_zero_of_dvd (hdvd.trans (Nat.dvd_of_mod_eq_zero hval))
        rw [hzero16,Nat.zero_mod]
    refine ⟨hlow.trans hzero.symm,?_⟩
    rw [hlow]
    exact (bitOne_iff c.two_le_size c.size_le 0).mpr rfl |>.trans (by rw [hzero])

theorem ofBool_word_inj {a b : Bool} :
    (BitVec.ofBool a).setWidth 32=(BitVec.ofBool b).setWidth 32 ↔ a=b := by
  revert a b
  decide

theorem bitOne_setBit {n : ℕ} (hn : 2 ≤ n) (v : BitVec n) (b : Bool) :
    bitOne (Bits.setBit v 1 b)=b :=
  (Bits.getLsbD_setBit v 1 b hn).trans (if_pos rfl)

theorem setBit_bitOne {n : ℕ} (v : BitVec n) : Bits.setBit v 1 (bitOne v)=v := by
  apply BitVec.eq_of_getLsbD_eq
  intro k hk
  rw [Bits.getLsbD_setBit _ _ _ hk]
  split_ifs with h
  · rw [h]
    rfl
  · rfl

/-- The lowest bit is the whole length exactly if it is less than two. -/
theorem bit_iff (c : Config) (w : BitVec 32) :
    (BitVec.ofBool (w.getLsbD 0)).setWidth 32=(w.setWidth c.TRANS_SIZE).setWidth 32 ↔
      (w.setWidth c.TRANS_SIZE).toNat < 2 := by
  have hpow : 2 ∣ 2^c.TRANS_SIZE := dvd_pow_self 2 (by have := c.two_le_size; omega)
  have hmod : w.toNat%2^c.TRANS_SIZE%2=w.toNat%2 := Nat.mod_mod_of_dvd _ hpow
  have hbit : ((BitVec.ofBool (w.getLsbD 0)).setWidth 32).toNat=w.toNat%2 := by
    rw [BitVec.getLsbD,Nat.testBit_zero]
    rcases Nat.mod_two_eq_zero_or_one w.toNat with h | h <;> rw [h] <;> rfl
  rw [←BitVec.toNat_inj,hbit,BitVec.toNat_setWidth_of_le c.size_le,BitVec.toNat_setWidth]
  omega

/-- A write to a register goes right exactly where it fits. -/
theorem Reg.right_iff (r : Reg) : r.Right w s ↔ r.Fits w s := by
  cases r with
  | RX_CH_ADD =>
    have hiff := bitOne_iff c.two_le_addr c.addr_le (w.setWidth c.L2_AWIDTH_NOAL)
    refine ⟨fun h => hiff.mp (h.readback _ rfl),fun h => ⟨rfl,fun v hv => ?_,fun q hq => ?_⟩⟩
    · obtain rfl := Option.mem_some_iff.mp hv
      exact hiff.mpr h
    · cases q <;> first | rfl | exact absurd rfl hq
  | RX_CH_CFG =>
    have hiff : ∀ v : BitVec 2, (BitVec.ofBool (bitOne v)).setWidth 2=v ↔ v=0 := by decide
    refine ⟨fun h => ?_,fun h => ⟨rfl,fun v hv => ?_,fun q hq => ?_⟩⟩
    · obtain ⟨hmode,hsize⟩ := cfgWord_inj.mp (h.readback _ rfl)
      exact ⟨(hiff _).mp hmode,(hiff _).mp hsize⟩
    · obtain rfl := Option.mem_some_iff.mp hv
      exact cfgWord_inj.mpr ⟨(hiff _).mpr h.1,(hiff _).mpr h.2⟩
    · cases q <;> first | rfl | exact absurd rfl hq
  | RX_CH_LEN0 =>
    refine ⟨fun h => (length_iff c w).mp ⟨congrArg State.r_filter_rx_len0 h.effect,
      h.readback _ rfl⟩,fun h => ?_⟩
    obtain ⟨hstore,hread⟩ := (length_iff c w).mpr h
    refine ⟨?_,fun v hv => ?_,fun q hq => ?_⟩
    · simp only [Reg.written,Reg.store,hstore]
    · obtain rfl := Option.mem_some_iff.mp hv
      exact hread
    · cases q <;> first | rfl | exact absurd rfl hq
  | RX_CH_LEN1 =>
    refine ⟨fun h => (length_iff c w).mp ⟨congrArg State.r_filter_rx_len1 h.effect,
      h.readback _ rfl⟩,fun h => ?_⟩
    obtain ⟨hstore,hread⟩ := (length_iff c w).mpr h
    refine ⟨?_,fun v hv => ?_,fun q hq => ?_⟩
    · simp only [Reg.written,Reg.store,hstore]
    · obtain rfl := Option.mem_some_iff.mp hv
      exact hread
    · cases q <;> first | rfl | exact absurd rfl hq
  | RX_CH_LEN2 =>
    constructor
    · intro h
      have hzero := (length_iff c w).mp ⟨congrArg State.r_filter_rx_len2 h.effect,h.readback _ rfl⟩
      have hother := (ofBool_word_inj.mp (h.others .TX_CH1_LEN2 (by decide)))
      have hstore : (w.extractLsb' 0 16).setWidth c.TRANS_SIZE=0 :=
        (congrArg State.r_filter_rx_len2 h.effect).trans hzero
      refine ⟨hzero,hother.symm.trans ?_⟩
      change bitOne ((w.extractLsb' 0 16).setWidth c.TRANS_SIZE)=false
      rw [hstore]
      exact BitVec.getLsbD_zero
    · rintro ⟨hzero,hbit⟩
      obtain ⟨hstore,hread⟩ := (length_iff c w).mpr hzero
      refine ⟨?_,fun v hv => ?_,fun q hq => ?_⟩
      · simp only [Reg.written,Reg.store,hstore]
      · obtain rfl := Option.mem_some_iff.mp hv
        exact hread
      · cases q with
        | TX_CH1_LEN2 =>
          refine ofBool_word_inj.mpr (Eq.trans ?_ hbit.symm)
          change bitOne ((w.extractLsb' 0 16).setWidth c.TRANS_SIZE)=false
          rw [hstore,hzero]
          exact BitVec.getLsbD_zero
        | RX_CH_LEN2 => exact absurd rfl hq
        | _ => rfl
  | TX_CH1_LEN2 =>
    have hread : Reg.TX_CH1_LEN2.shown (Reg.TX_CH1_LEN2.written w s)=
        (BitVec.ofBool (w.getLsbD 0)).setWidth 32 := by
      change (BitVec.ofBool (bitOne (Bits.setBit s.r_filter_rx_len2 1 (w.getLsbD 0)))).setWidth 32=_
      rw [bitOne_setBit c.two_le_size]
    constructor
    · intro h
      refine ⟨?_,?_,(bit_iff c w).mp (hread.symm.trans (h.readback _ rfl))⟩
      · have hput := congrFun (congrArg State.r_filter_tx_len2 h.effect) 1
        exact hput
      · have hbit := congrArg bitOne (congrArg State.r_filter_rx_len2 h.effect)
        exact hbit.symm.trans (bitOne_setBit c.two_le_size _ _)
    · rintro ⟨hlen,hbit,hsmall⟩
      have hsame : Reg.TX_CH1_LEN2.written w s=s := by
        change {s with r_filter_rx_len2 := Bits.setBit s.r_filter_rx_len2 1 (w.getLsbD 0)}=s
        rw [←hbit,setBit_bitOne]
      have hstore : Reg.TX_CH1_LEN2.store w s=s := by
        change {s with r_filter_tx_len2 := put s.r_filter_tx_len2 1 (w.setWidth _)}=s
        rw [←hlen,put,Function.update_eq_self]
      refine ⟨hsame.trans hstore.symm,fun v hv => ?_,fun q _ => congrArg (fun s => q.shown s) hsame⟩
      obtain rfl := Option.mem_some_iff.mp hv
      exact hread.trans ((bit_iff c w).mpr hsmall)
  | _ => exact iff_of_true (Reg.right_plain rfl) trivial

end Effect

theorem Reg.number_injective {q r : Reg} (h : q.number=r.number) : q=r := by
  have hat : ∀ r : Reg, Reg.all[r.number.toNat]?=some r := by
    intro r
    cases r <;> rfl
  have hq := hat q
  rw [h,hat r] at hq
  exact (Option.some.inj hq).symm

/-- A read of an address. -/
def readOf (addr : BitVec 5) : Input := ⟨0,addr,true,true,false,0⟩

/-- In every state, a write of every word to a register changes this register only and is read back
exactly if the register is none of the receiving channel and not the last length of the second
transmitting channel, or the word and the state hide that these are read by one of their bits. -/
theorem registerRight_iff (s : State c) {i : Input} (h : Writes i) {r : Reg}
    (hr : i.cfg_addr_i=r.number) : WriteRight s i r ↔ r.Fits i.cfg_data_i s := by
  have hfits : r.Fits i.cfg_data_i (step s (quiet i)) ↔ r.Fits i.cfg_data_i s := by
    cases r <;> exact Iff.rfl
  have hstep := step_write s h hr
  rw [←hfits,←r.right_iff]
  constructor
  · intro hw
    refine ⟨hstep.symm.trans hw.effect,fun v hv => ?_,fun q hq => ?_⟩
    · rw [←hstep,←cfg_data_o_eq (i:=readOf r.number) _ ⟨rfl,rfl⟩ rfl]
      exact hw.readback v hv _ ⟨rfl,rfl⟩ rfl
    · rw [←hstep,←cfg_data_o_eq (i:=readOf q.number) _ ⟨rfl,rfl⟩ rfl,
        ←cfg_data_o_eq (i:=readOf q.number) _ ⟨rfl,rfl⟩ rfl]
      exact hw.others _ ⟨rfl,rfl⟩ fun hsame => hq (Reg.number_injective hsame)
  · intro hw
    refine ⟨hstep.trans hw.effect,fun v hv j hj hr' => ?_,fun j hj hne => ?_⟩
    · rw [cfg_data_o_eq _ hj hr',hstep]
      exact hw.readback v hv
    · by_cases hreg : ∃ q : Reg, j.cfg_addr_i=q.number
      · obtain ⟨q,hq⟩ := hreg
        rw [cfg_data_o_eq _ hj hq,cfg_data_o_eq _ hj hq,hstep]
        exact hw.others q fun hsame => hne (hsame ▸ hq)
      · have hnone : ∀ q : Reg, j.cfg_addr_i ≠ q.number := fun q hq => hreg ⟨q,hq⟩
        rw [cfg_data_o_none _ hj hnone,cfg_data_o_none _ hj hnone]

/-- A write of a word to a register. -/
def writeOf (r : Reg) (w : BitVec 32) : Input := ⟨w,r.number,true,false,false,0⟩

/-- The parameters' defaults. -/
def defaults : Config := ⟨15,15,by decide,by decide,by decide,by decide⟩

/-- The threshold is written and read back. -/
theorem registerRight_iff_example : WriteRight (reset : State defaults) (writeOf .BINCU_TH 5) .BINCU_TH :=
  (registerRight_iff reset ⟨rfl,rfl⟩ rfl).mpr trivial

/-- The start address of the receiving channel is not read back. -/
theorem not_registerRight_rx : ¬WriteRight (reset : State defaults) (writeOf .RX_CH_ADD 4) .RX_CH_ADD := by
  intro h
  exact absurd (h.readback _ rfl (readOf REG_RX_CH_ADD) ⟨rfl,rfl⟩ rfl) (by decide)

end Pulpissimo.Udma.UdmaCtrl

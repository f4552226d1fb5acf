import Pulpissimo.Lib.Select
import Pulpissimo.Udma.Arbiter
import Pulpissimo.Udma.ChAddrgen
import Pulpissimo.Udma.IoFifo
import Pulpissimo.Udma.L2Lanes

/-!
# Receive channels

`udma_rx_channels` takes the data of the channels and of the filter's port one by one. A datum
waits in a register stage, where it gets the address of its channel, and goes from there into
the queue of the memory or into the queue of the filter.
-/

namespace Pulpissimo.Udma.RxChannels

open Pulpissimo.Select Pulpissimo.Soc Pulpissimo.Udma.L2Lanes

/-- Parameters. -/
structure Params where
  L2_ADDR_WIDTH : ℕ
  L2_AWIDTH_NOAL : ℕ
  L2_DATA_WIDTH : Width
  N_CHANNELS : ℕ
  TRANS_SIZE : ℕ

namespace Params

variable (P : Params)

def L2_SIZE : ℕ := P.L2_ADDR_WIDTH+P.L2_DATA_WIDTH.ALIGN_BITS

/-- The ports of the arbiter: the channels, and the filter's port behind them. -/
abbrev N_CHANNELS_RX : ℕ := P.N_CHANNELS+1

def LOG_N_CHANNELS : ℕ := Arbiter.log2 P.N_CHANNELS_RX

def FILTER_ID_WIDTH : ℕ := Nat.clog 2 (P.N_CHANNELS+1)

end Params

variable {P : Params}

/-- An entry of the memory's queue, `s_fifoin`. -/
structure FifoIn (P : Params) where
  size : BitVec 2
  addr : BitVec P.L2_SIZE
  data : BitVec 32

instance : Inhabited (FifoIn P) := ⟨⟨0,0,0⟩⟩

/-- An entry of the filter's queue, `s_fifoin_filter`. -/
structure FilterFifoIn (P : Params) where
  sot : Bool
  event : Bool
  grant_log : BitVec P.FILTER_ID_WIDTH
  data : BitVec 32

instance : Inhabited (FilterFifoIn P) := ⟨⟨false,false,0,0⟩⟩

/-- Registers. -/
structure State (P : Params) where
  u_arbiter : EventArbiter.State P.N_CHANNELS_RX
  u_rx_ch_ctrl : Fin P.N_CHANNELS → ChAddrgen.State P.L2_AWIDTH_NOAL P.TRANS_SIZE
  u_fifo : IoFifo.State 4 (FifoIn P)
  u_filter_fifo : IoFifo.State 4 (FilterFifoIn P)
  r_data : BitVec 32
  r_grant : Fin P.N_CHANNELS_RX → Bool
  r_anygrant : Bool
  r_size : BitVec 2
  r_addr : BitVec P.L2_AWIDTH_NOAL

/-- One cycle of inputs. -/
structure Input (P : Params) where
  l2_gnt_i : Bool
  filter_ready_i : Bool
  filter_ch_valid_i : Bool
  filter_ch_addr_i : BitVec P.L2_AWIDTH_NOAL
  filter_ch_data_i : BitVec 32
  filter_ch_datasize_i : BitVec 2
  ch_valid_i : Fin P.N_CHANNELS → Bool
  ch_data_i : Fin P.N_CHANNELS → BitVec 32
  ch_datasize_i : Fin P.N_CHANNELS → BitVec 2
  cfg_startaddr_i : Fin P.N_CHANNELS → BitVec P.L2_AWIDTH_NOAL
  cfg_size_i : Fin P.N_CHANNELS → BitVec P.TRANS_SIZE
  cfg_continuous_i : Fin P.N_CHANNELS → Bool
  cfg_en_i : Fin P.N_CHANNELS → Bool
  cfg_filter_i : Fin P.N_CHANNELS → Bool
  cfg_clr_i : Fin P.N_CHANNELS → Bool

/-- Values after reset. -/
def reset : State P where
  u_arbiter := EventArbiter.reset
  u_rx_ch_ctrl := fun _ => ChAddrgen.reset
  u_fifo := IoFifo.reset
  u_filter_fifo := IoFifo.reset
  r_data := 0
  r_grant := fun _ => false
  r_anygrant := false
  r_size := 0
  r_addr := 0

/-- The value of the granted channel, which the filter's port overrides. -/
def pick {α : Type*} {n : ℕ} (grant : Fin (n+1) → Bool) (x : Fin n → α) (y init : α) : α :=
  if grant (Fin.last n) then y else muxLoop (fun j => grant j.castSucc) x init

section Code

variable (s : State P) (i : Input P)

def s_sample_indata_l2 : Bool := IoFifo.ready_o s.u_fifo

def s_sample_indata_filter : Bool := IoFifo.ready_o s.u_filter_fifo

def s_sample_indata : Bool := s_sample_indata_filter s && s_sample_indata_l2 s

/-- Inputs of the address generator of a channel. -/
def ctrlInput (j : Fin P.N_CHANNELS) : ChAddrgen.Input P.L2_AWIDTH_NOAL P.TRANS_SIZE where
  cfg_startaddr_i := i.cfg_startaddr_i j
  cfg_size_i := i.cfg_size_i j
  cfg_continuous_i := i.cfg_continuous_i j
  cfg_en_i := i.cfg_en_i j
  cfg_filter_i := i.cfg_filter_i j
  cfg_clr_i := i.cfg_clr_i j
  int_not_stall_i := s_sample_indata s
  int_datasize_i := s.r_size
  int_ch_grant_i := s.r_grant j.castSucc

def s_ch_en (j : Fin P.N_CHANNELS) : Bool :=
  ChAddrgen.int_ch_en_prev_o (s.u_rx_ch_ctrl j) (ctrlInput s i j)

def s_req : Fin P.N_CHANNELS_RX → Bool :=
  Fin.snoc (fun j => i.ch_valid_i j && s_ch_en s i j) i.filter_ch_valid_i

def s_grant : Fin P.N_CHANNELS_RX → Bool := Arbiter.gnt P.LOG_N_CHANNELS s.u_arbiter (s_req s i)

def s_anygrant : Bool := Arbiter.anyGnt P.LOG_N_CHANNELS s.u_arbiter (s_req s i)

/-- Outputs of the address generators, and of the register stage in their place. -/
def s_addr : BitVec P.L2_AWIDTH_NOAL :=
  pick s.r_grant (fun j => ChAddrgen.int_ch_curr_addr_o (s.u_rx_ch_ctrl j)) s.r_addr 0

def s_is_filter : Bool :=
  pick s.r_grant (fun j => ChAddrgen.int_filter_o (s.u_rx_ch_ctrl j)) false false

def s_grant_log : BitVec P.FILTER_ID_WIDTH :=
  muxLoop (fun j => s.r_grant j.castSucc) (fun j => BitVec.ofNat _ j.val) 0

def s_event : Bool :=
  muxLoop (fun j => s.r_grant j.castSucc) (fun j => ChAddrgen.int_ch_events_o (s.u_rx_ch_ctrl j)) false

def s_sot : Bool :=
  muxLoop (fun j => s.r_grant j.castSucc) (fun j => ChAddrgen.int_ch_sot_o (s.u_rx_ch_ctrl j)) false

def s_data : BitVec 32 := pick (s_grant s i) i.ch_data_i i.filter_ch_data_i 0

def s_size : BitVec 2 := pick (s_grant s i) i.ch_datasize_i i.filter_ch_datasize_i 0

def s_push_l2 : Bool := s.r_anygrant && !s_is_filter s

def s_push_filter : Bool := s.r_anygrant && s_is_filter s

def s_fifoin : FifoIn P := ⟨s.r_size,(s_addr s).setWidth _,s.r_data⟩

def s_fifoin_filter : FilterFifoIn P := ⟨s_sot s,s_event s,s_grant_log s,s.r_data⟩

def ch_ready_o (j : Fin P.N_CHANNELS) : Bool := s_grant s i j.castSucc && s_sample_indata s

def filter_ch_ready_o : Bool := s_grant s i (Fin.last _) && s_sample_indata s

def l2_req_o : Bool := IoFifo.valid_o s.u_fifo

/-- Byte address at the head of the memory's queue. -/
def s_l2_addr : BitVec P.L2_SIZE := (IoFifo.data_o s.u_fifo).addr

def l2_addr_o : BitVec P.L2_ADDR_WIDTH :=
  (s_l2_addr s).extractLsb' P.L2_DATA_WIDTH.ALIGN_BITS P.L2_ADDR_WIDTH

def l2_be_o : BitVec P.L2_DATA_WIDTH.lanes :=
  s_l2_be P.L2_DATA_WIDTH (IoFifo.data_o s.u_fifo).size ((s_l2_addr s).setWidth _)

def l2_wdata_o : BitVec (8*P.L2_DATA_WIDTH.lanes) :=
  L2Lanes.l2_wdata_o P.L2_DATA_WIDTH (l2_be_o s) (IoFifo.data_o s.u_fifo).data

def filter_valid_o : Bool := IoFifo.valid_o s.u_filter_fifo

def filter_id_o : BitVec P.FILTER_ID_WIDTH := (IoFifo.data_o s.u_filter_fifo).grant_log

def filter_data_o : BitVec 32 := (IoFifo.data_o s.u_filter_fifo).data

/-- One clock edge. -/
def step : State P :=
  let sampled := s_sample_indata s
  { u_arbiter := Arbiter.step P.LOG_N_CHANNELS s.u_arbiter (s_req s i) sampled
    u_rx_ch_ctrl := fun j => ChAddrgen.step (s.u_rx_ch_ctrl j) (ctrlInput s i j)
    u_fifo := IoFifo.step s.u_fifo ⟨false,i.l2_gnt_i,s_push_l2 s,s_fifoin s⟩
    u_filter_fifo := IoFifo.step s.u_filter_fifo
      ⟨false,i.filter_ready_i,s_push_filter s,s_fifoin_filter s⟩
    r_data := if sampled then s_data s i else s.r_data
    r_size := if sampled then s_size s i else s.r_size
    r_grant := if sampled then s_grant s i else s.r_grant
    r_anygrant := if sampled then s_anygrant s i else s.r_anygrant
    r_addr := if sampled && s_grant s i (Fin.last _) then i.filter_ch_addr_i else s.r_addr }

end Code

end Pulpissimo.Udma.RxChannels

import Mathlib.Data.Fin.Tuple.Basic
import Pulpissimo.Lib.Select
import Pulpissimo.Udma.Arbiter
import Pulpissimo.Udma.ChAddrgen
import Pulpissimo.Udma.IoFifo
import Pulpissimo.Udma.L2Lanes

/-!
# Transmit channels

`udma_tx_channels` grants the requests of the channels and of the two filter ports one by one. A
request waits in a register stage, where it gets the address of its channel, and goes from there
into the queue of the memory. The memory answers in the cycle after it grants, and the answer
passes two registers on its way to the port of the request.
-/

namespace Pulpissimo.Udma.TxChannels

open Pulpissimo.Select Pulpissimo.Soc Pulpissimo.Udma.L2Lanes

/-- Parameters. -/
structure Params where
  L2_ADDR_WIDTH : ℕ
  L2_AWIDTH_NOAL : ℕ
  L2_DATA_WIDTH : Width
  N_CHANNELS : ℕ
  TRANS_SIZE : ℕ

namespace Params

variable (P : Params)

def L2_SIZE : ℕ := P.L2_ADDR_WIDTH+P.L2_DATA_WIDTH.ALIGN_BITS

/-- The ports of the arbiter: the channels, and the two filter ports behind them. -/
abbrev N_CHANNELS_TX : ℕ := P.N_CHANNELS+2

def LOG_N_CHANNELS : ℕ := Nat.clog 2 P.N_CHANNELS_TX

end Params

variable {P : Params}

/-- An entry of the queue, `s_fifoin`. -/
structure FifoIn (P : Params) where
  grant_log : BitVec P.LOG_N_CHANNELS
  size : BitVec 2
  addr : BitVec P.L2_SIZE

instance : Inhabited (FifoIn P) := ⟨⟨0,0,0⟩⟩

/-- Registers. -/
structure State (P : Params) where
  u_arbiter : EventArbiter.State P.N_CHANNELS_TX
  u_tx_ch_ctrl : Fin P.N_CHANNELS → ChAddrgen.State P.L2_AWIDTH_NOAL P.TRANS_SIZE
  u_fifo : IoFifo.State 4 (FifoIn P)
  r_grant : Fin P.N_CHANNELS_TX → Bool
  r_anygrant : Bool
  r_in_size : BitVec 2
  r_in_addr : BitVec P.L2_AWIDTH_NOAL
  /-- The request that the memory granted last. -/
  r_resp : BitVec P.LOG_N_CHANNELS
  r_size : BitVec 2
  r_addr : BitVec P.L2_DATA_WIDTH.ALIGN_BITS
  r_resp_dly : BitVec P.LOG_N_CHANNELS
  r_valid : Bool
  r_data : BitVec 32

/-- One cycle of inputs. -/
structure Input (P : Params) where
  l2_gnt_i : Bool
  l2_rdata_i : BitVec (8*P.L2_DATA_WIDTH.lanes)
  l2_rvalid_i : Bool
  filter_ch_req_i : Fin 2 → Bool
  filter_ch_addr_i : Fin 2 → BitVec P.L2_AWIDTH_NOAL
  filter_ch_datasize_i : Fin 2 → BitVec 2
  filter_ch_ready_i : Fin 2 → Bool
  ch_datasize_i : Fin P.N_CHANNELS → BitVec 2
  ch_req_i : Fin P.N_CHANNELS → Bool
  ch_ready_i : Fin P.N_CHANNELS → Bool
  cfg_startaddr_i : Fin P.N_CHANNELS → BitVec P.L2_AWIDTH_NOAL
  cfg_size_i : Fin P.N_CHANNELS → BitVec P.TRANS_SIZE
  cfg_continuous_i : Fin P.N_CHANNELS → Bool
  cfg_en_i : Fin P.N_CHANNELS → Bool
  cfg_clr_i : Fin P.N_CHANNELS → Bool

/-- Values after reset. -/
def reset : State P where
  u_arbiter := EventArbiter.reset
  u_tx_ch_ctrl := fun _ => ChAddrgen.reset
  u_fifo := IoFifo.reset
  r_grant := fun _ => false
  r_anygrant := false
  r_in_size := 0
  r_in_addr := 0
  r_resp := 0
  r_size := 0
  r_addr := 0
  r_resp_dly := 0
  r_valid := false
  r_data := 0

section Code

variable (s : State P) (i : Input P)

def s_sample_indata : Bool := IoFifo.ready_o s.u_fifo

/-- Inputs of the address generator of a channel. -/
def ctrlInput (j : Fin P.N_CHANNELS) : ChAddrgen.Input P.L2_AWIDTH_NOAL P.TRANS_SIZE where
  cfg_startaddr_i := i.cfg_startaddr_i j
  cfg_size_i := i.cfg_size_i j
  cfg_continuous_i := i.cfg_continuous_i j
  cfg_en_i := i.cfg_en_i j
  cfg_filter_i := false
  cfg_clr_i := i.cfg_clr_i j
  int_not_stall_i := s_sample_indata s
  int_datasize_i := s.r_in_size
  int_ch_grant_i := s.r_grant (Fin.castAdd 2 j)

def s_ch_en (j : Fin P.N_CHANNELS) : Bool :=
  ChAddrgen.int_ch_en_prev_o (s.u_tx_ch_ctrl j) (ctrlInput s i j)

def s_req : Fin P.N_CHANNELS_TX → Bool :=
  Fin.append (fun j => i.ch_req_i j && s_ch_en s i j) i.filter_ch_req_i

def s_grant : Fin P.N_CHANNELS_TX → Bool := Arbiter.gnt P.LOG_N_CHANNELS s.u_arbiter (s_req s i)

def s_anygrant : Bool := Arbiter.anyGnt P.LOG_N_CHANNELS s.u_arbiter (s_req s i)

/-- Grants to the channels and to the filter ports. -/
def s_gnt (k : Fin P.N_CHANNELS_TX) : Bool := if s_sample_indata s then s_grant s i k else false

def ch_gnt_o (j : Fin P.N_CHANNELS) : Bool := s_gnt s i (Fin.castAdd 2 j)

def filter_ch_gnt_o (k : Fin 2) : Bool := s_gnt s i (Fin.natAdd P.N_CHANNELS k)

def s_grant_log : BitVec P.LOG_N_CHANNELS := muxLoop s.r_grant (fun k => BitVec.ofNat _ k.val) 0

/-- Address of the request in the register stage. The loop over the channels and what overrides
it behind the loop are one loop over all ports. -/
def s_addr : BitVec P.L2_AWIDTH_NOAL :=
  muxLoop s.r_grant
    (Fin.append (fun j => ChAddrgen.int_ch_curr_addr_o (s.u_tx_ch_ctrl j)) fun _ => s.r_in_addr) 0

def s_in_size : BitVec 2 :=
  muxLoop (s_grant s i) (Fin.append i.ch_datasize_i i.filter_ch_datasize_i) 0

/-- Address of the granted filter port, the first one if there were two. -/
def s_in_addr : BitVec P.L2_AWIDTH_NOAL :=
  ((List.finRange 2).find? fun k => s_grant s i (Fin.natAdd P.N_CHANNELS k)).elim s.r_in_addr
    i.filter_ch_addr_i

def s_fifoin : FifoIn P := ⟨s_grant_log s,s.r_in_size,(s_addr s).setWidth _⟩

def s_l2_req_o : Bool := IoFifo.valid_o s.u_fifo

def s_ch_ready : Fin P.N_CHANNELS_TX → Bool := Fin.append i.ch_ready_i i.filter_ch_ready_i

/-- The ports' readiness, masked by the number of a port. -/
def s_stall : Bool :=
  (List.finRange P.N_CHANNELS_TX).any (fun k => !s_ch_ready i k && s.r_resp.getLsbD k.val) && s.r_valid

def l2_req_o : Bool := s_l2_req_o s && !s_stall s i

/-- Entry in front of the queue. -/
def s_fifoout : FifoIn P := IoFifo.data_o s.u_fifo

def l2_addr_o : BitVec P.L2_ADDR_WIDTH :=
  (s_fifoout s).addr.extractLsb' P.L2_DATA_WIDTH.ALIGN_BITS P.L2_ADDR_WIDTH

def filter_ch_valid_o (k : Fin 2) : Bool :=
  if s.r_resp_dly.toNat=P.N_CHANNELS+k.val then s.r_valid else false

def filter_ch_data_o (k : Fin 2) : BitVec 32 :=
  if s.r_resp_dly.toNat=P.N_CHANNELS+k.val then s.r_data else 0xDEADBEEF

/-- The response is for a filter port. -/
def toFilter : Bool := s.r_resp_dly.toNat==P.N_CHANNELS || s.r_resp_dly.toNat==P.N_CHANNELS+1

def ch_valid_o (j : Fin P.N_CHANNELS) : Bool :=
  if toFilter s then false else if s.r_resp_dly.toNat=j.val then s.r_valid else false

def ch_data_o (j : Fin P.N_CHANNELS) : BitVec 32 :=
  if toFilter s then 0xDEADBEEF else if s.r_resp_dly.toNat=j.val then s.r_data else 0xDEADBEEF

/-- One clock edge. -/
def step : State P :=
  let sampled := s_sample_indata s
  let granted := l2_req_o s i && i.l2_gnt_i
  { u_arbiter := Arbiter.step P.LOG_N_CHANNELS s.u_arbiter (s_req s i) sampled
    u_tx_ch_ctrl := fun j => ChAddrgen.step (s.u_tx_ch_ctrl j) (ctrlInput s i j)
    u_fifo := IoFifo.step s.u_fifo ⟨false,i.l2_gnt_i,s.r_anygrant,s_fifoin s⟩
    r_grant := if sampled then s_grant s i else s.r_grant
    r_anygrant := if sampled then s_anygrant s i else s.r_anygrant
    r_in_size := if sampled then s_in_size s i else s.r_in_size
    r_in_addr := if sampled then s_in_addr s i else s.r_in_addr
    r_resp := if granted then (s_fifoout s).grant_log else s.r_resp
    r_size := if granted then (s_fifoout s).size else s.r_size
    r_addr := if granted then (s_fifoout s).addr.setWidth _ else s.r_addr
    r_resp_dly := s.r_resp
    r_valid := i.l2_rvalid_i
    r_data := if i.l2_rvalid_i then s_data P.L2_DATA_WIDTH s.r_size s.r_addr i.l2_rdata_i else s.r_data }

end Code

end Pulpissimo.Udma.TxChannels

import Pulpissimo.Axi.NodeArb
import Pulpissimo.Axi.NodeDecode
import Pulpissimo.CommonCells.GenericFifo
import Pulpissimo.Lib.Bits
import Pulpissimo.Lib.Indices

/-!
# Writes through the crossbar

The write address and write data paths of `axi_node`. Each master has an
`axi_response_block` with `axi_address_decoder_AW`, `axi_address_decoder_DW` and
`axi_BW_allocator`; each slave has an `axi_request_block` with `axi_AW_allocator`
and `axi_DW_allocator`. The way of a burst is kept in a queue of slaves at its master
and in a queue of masters at its slave. Responses of the slaves come in from the
tree that merges them.
-/

namespace Pulpissimo.Axi.NodeWrite

open Pulpissimo.Axi.NodeDecode Pulpissimo.Bits Pulpissimo.CommonCells

/-- Parameters of the crossbar. `generic_fifo` is for depths that are powers of two. -/
structure Widths where
  ADDR_WIDTH : ℕ
  N_REGION : ℕ
  N_INIT_PORT : ℕ
  N_TARG_PORT : ℕ
  FIFO_DEPTH : ℕ
  AXI_DATA_W : ℕ
  AXI_USER_W : ℕ
  AXI_ID_IN : ℕ
  masters : 2 ≤ N_TARG_PORT
  depth_one : 1<FIFO_DEPTH
  depth_pow : 2^GenericFifo.ADDR_DEPTH FIFO_DEPTH=FIFO_DEPTH

/-- Two places are a depth for a queue. -/
theorem depth_two : 2^GenericFifo.ADDR_DEPTH 2=2 := by decide

variable {w : Widths}

/-- `AXI_NUMBYTES`. -/
def Widths.AXI_NUMBYTES (w : Widths) : ℕ := w.AXI_DATA_W/8

/-- Width of a master's number. -/
abbrev Widths.LOG_N_TARG (w : Widths) : ℕ := NodeArb.LOG_MASTER w.N_TARG_PORT

/-- States of `axi_address_decoder_AW`. -/
inductive AwFsm where
  | OPERATIVE
  | COMPLETE_PENDING
  | ACCEPT_WDATA
  | COMPLETE_ERROR_RESP
deriving DecidableEq

/-- States of `axi_BW_allocator`. -/
inductive BwFsm where
  | OPERATIVE
  | ERROR_SINGLE
  | ERROR_BURST
deriving DecidableEq

/-- States of `axi_DW_allocator`. -/
inductive DwFsm where
  | SINGLE_IDLE
  | BURST
deriving DecidableEq

/-- A transfer of write data. -/
structure WBeat (w : Widths) where
  wdata : BitVec w.AXI_DATA_W
  wstrb : BitVec w.AXI_NUMBYTES
  wlast : Bool
  wuser : BitVec w.AXI_USER_W
deriving DecidableEq

/-- A write response. -/
structure BBeat (w : Widths) where
  bid : BitVec w.AXI_ID_IN
  bresp : BitVec 2
  buser : BitVec w.AXI_USER_W
deriving DecidableEq

/-- Registers of a master's `axi_response_block`. -/
structure Resp (w : Widths) where
  /-- State of `axi_address_decoder_AW`. -/
  aw_CS : AwFsm
  /-- State of `axi_BW_allocator`. -/
  bw_CS : BwFsm
  outstanding_counter : BitVec 10
  error_user_S : BitVec w.AXI_USER_W
  error_id_S : BitVec w.AXI_ID_IN
  /-- `MASTER_ID_FIFO` of `axi_address_decoder_DW`. -/
  DEST_FIFO : GenericFifo.State w.N_INIT_PORT w.FIFO_DEPTH

/-- Registers of a slave's `axi_request_block`. -/
structure Req (w : Widths) where
  RR_FLAG : BitVec w.LOG_N_TARG
  CS : DwFsm
  /-- `MASTER_ID_FIFO` of `axi_DW_allocator`. -/
  ID_FIFO : GenericFifo.State (w.LOG_N_TARG+w.N_TARG_PORT) w.FIFO_DEPTH

/-- Registers of the crossbar. -/
structure Node (w : Widths) where
  resp : Fin w.N_TARG_PORT → Resp w
  req : Fin w.N_INIT_PORT → Req w

/-- Inputs of a master port. -/
structure MasterIn (w : Widths) where
  awvalid_i : Bool
  awaddr_i : BitVec w.ADDR_WIDTH
  awid_i : BitVec w.AXI_ID_IN
  awuser_i : BitVec w.AXI_USER_W
  wvalid_i : Bool
  w_i : WBeat w
  bready_i : Bool
  /-- A response of a slave port. -/
  bvalid_ARB_TREE : Bool
  b_ARB_TREE : BBeat w
  regions : Regions w.ADDR_WIDTH w.N_REGION w.N_INIT_PORT

/-- Inputs of a slave port. -/
structure SlaveIn where
  awready_i : Bool
  wready_i : Bool

/-- One cycle of inputs. -/
structure Input (w : Widths) where
  master : Fin w.N_TARG_PORT → MasterIn w
  slave : Fin w.N_INIT_PORT → SlaveIn

/-- Values after reset. -/
def reset : Node w where
  resp := fun _ => ⟨.OPERATIVE,.OPERATIVE,0,0,0,GenericFifo.reset⟩
  req := fun _ => ⟨0,.SINGLE_IDLE,GenericFifo.reset⟩

section Address

variable (r : Resp w) (i : MasterIn w)

/-- Slave ports for the address on the channel. -/
def masked (k : Fin w.N_INIT_PORT) : Bool := match_region_masked i.regions i.awaddr_i k

def grant_FIFO_DEST : Bool := GenericFifo.grant_o r.DEST_FIFO

def error_detected : Bool :=
  grant_FIFO_DEST r && i.awvalid_i && match_error i.regions i.awaddr_i

/-- Requests of a master to the slave ports. -/
def awvalid_o (k : Fin w.N_INIT_PORT) : Bool :=
  r.aw_CS==.OPERATIVE && !error_detected r i && (grant_FIFO_DEST r && i.awvalid_i && masked i k)

/-- Slave ports for the write data, the connections not looked at. -/
def DEST_o : BitVec w.N_INIT_PORT := ofBits fun k => match_region i.regions i.awaddr_i k

/-- A failing write is accepted. -/
def sample_awdata_info_o : Bool := r.aw_CS==.OPERATIVE && error_detected r i

def error_req_o : Bool := r.aw_CS==.COMPLETE_ERROR_RESP

/-- Write data are thrown away. -/
def handle_error_o : Bool := r.aw_CS==.ACCEPT_WDATA

def error_gnt_o : Bool := r.bw_CS==.ERROR_SINGLE

def outstanding_trans_o : Bool := r.outstanding_counter != 0#10

end Address

section Slave

variable (n : Node w) (i : Input w) (j : Fin w.N_INIT_PORT)

/-- Requests at slave port `j`. -/
def reqs (m : Fin w.N_TARG_PORT) : Bool := awvalid_o (n.resp m) (i.master m) j

/-- The master whose request gets through. -/
def chosen : Option (Fin w.N_TARG_PORT) := NodeArb.chosen (n.req j).RR_FLAG (reqs n i j)

def grant_FIFO_ID : Bool := GenericFifo.grant_o (n.req j).ID_FIFO

/-- `awready_o` of the `axi_AW_allocator`. -/
def awready_req (m : Fin w.N_TARG_PORT) : Bool :=
  grant_FIFO_ID n j &&
    NodeArb.data_gnt_o (n.req j).RR_FLAG (reqs n i j) (i.slave j).awready_i m

/-- `awvalid_o` at the slave port. -/
def awvalid_slave : Bool := NodeArb.data_req_o (reqs n i j) && grant_FIFO_ID n j

def push_ID_o : Bool := awvalid_slave n i j && (i.slave j).awready_i && grant_FIFO_ID n j

/-- Number of a master, binary and one bit for each. -/
def ID_in (m : Fin w.N_TARG_PORT) : BitVec (w.LOG_N_TARG+w.N_TARG_PORT) :=
  BitVec.ofNat w.LOG_N_TARG m.val++BitVec.twoPow w.N_TARG_PORT m.val

def ID_o : BitVec (w.LOG_N_TARG+w.N_TARG_PORT) :=
  NodeArb.data_o (n.req j).RR_FLAG (reqs n i j) ID_in 0

/-- The identifier at the slave port, with the number of the master in front. -/
def awid_o : BitVec (w.LOG_N_TARG+w.AXI_ID_IN) :=
  (ID_o n i j).extractLsb' w.N_TARG_PORT w.LOG_N_TARG++
    NodeArb.data_o (n.req j).RR_FLAG (reqs n i j) (fun m => (i.master m).awid_i) 0

end Slave

section Master

variable (n : Node w) (i : Input w) (m : Fin w.N_TARG_PORT)

/-- `awready_int` of the `axi_address_decoder_AW`. -/
def awready_int : Bool :=
  grant_FIFO_DEST (n.resp m) &&
    (error_gnt_o (n.resp m) && match_error (i.master m).regions (i.master m).awaddr_i ||
      any fun k => awready_req n i k m && masked (i.master m) k)

def awready_o : Bool :=
  (n.resp m).aw_CS==.OPERATIVE && (error_detected (n.resp m) (i.master m) || awready_int n i m)

def push_DEST_o : Bool :=
  (i.master m).awvalid_i && awready_o n i m && !error_detected (n.resp m) (i.master m)

def incr_req_o : Bool :=
  (n.resp m).aw_CS==.OPERATIVE &&
    any fun k => awvalid_o (n.resp m) (i.master m) k && awready_req n i k m

def DEST_int : BitVec w.N_INIT_PORT := GenericFifo.data_o (n.resp m).DEST_FIFO

/-- `wvalid_o` of the `axi_address_decoder_DW`. -/
def wvalid_o (k : Fin w.N_INIT_PORT) : Bool :=
  !handle_error_o (n.resp m) && ((i.master m).wvalid_i &&
    GenericFifo.valid_o (n.resp m).DEST_FIFO && (DEST_int n m).getLsbD k.val)

end Master

section Data

variable (n : Node w) (i : Input w) (j : Fin w.N_INIT_PORT)

def valid_ID : Bool := GenericFifo.valid_o (n.req j).ID_FIFO

def ID_int : BitVec (w.LOG_N_TARG+w.N_TARG_PORT) := GenericFifo.data_o (n.req j).ID_FIFO

def ID_int_BIN : BitVec w.LOG_N_TARG := (ID_int n j).extractLsb' w.N_TARG_PORT w.LOG_N_TARG

def ID_int_OH : BitVec w.N_TARG_PORT := (ID_int n j).setWidth w.N_TARG_PORT

/-- A master's signal, by the number in front of the queue. -/
def select {α : Type} (x : Fin w.N_TARG_PORT → α) (dummy : α) : α :=
  if h : (ID_int_BIN n j).toNat<w.N_TARG_PORT then x ⟨_,h⟩ else dummy

/-- `wvalid_o` at the slave port. -/
def wvalid_slave : Bool :=
  ((n.req j).CS==.BURST || valid_ID n j) && select n j (fun m => wvalid_o n i m j) false

/-- Write data at the slave port. -/
def w_o : WBeat w := select n j (fun m => (i.master m).w_i) ⟨0,0,false,0⟩

/-- `wready_o` of the `axi_DW_allocator`. -/
def wready_req (m : Fin w.N_TARG_PORT) : Bool :=
  (i.slave j).wready_i && (ID_int_OH n j).getLsbD m.val && valid_ID n j

/-- A transfer at the slave port. -/
def w_given : Bool := wvalid_slave n i j && (i.slave j).wready_i

def pop_from_ID_FIFO : Bool := w_given n i j && (w_o n i j).wlast

/-- Next state of the `axi_DW_allocator`. -/
def dw_NS : DwFsm :=
  if w_given n i j then if (w_o n i j).wlast then .SINGLE_IDLE else .BURST else (n.req j).CS

end Data

section Step

variable (n : Node w) (i : Input w)

/-- `wready_o` of the `axi_address_decoder_DW`. -/
def wready_o (m : Fin w.N_TARG_PORT) : Bool :=
  if handle_error_o (n.resp m) then true
  else any fun k => wready_req n i k m && (DEST_int n m).getLsbD k.val

def pop_from_DEST_FIFO (m : Fin w.N_TARG_PORT) : Bool :=
  (i.master m).w_i.wlast && (i.master m).wvalid_i && wready_o n i m

def wdata_error_completed_o (m : Fin w.N_TARG_PORT) : Bool :=
  handle_error_o (n.resp m) && ((i.master m).w_i.wlast && (i.master m).wvalid_i)

/-- Next state of the `axi_address_decoder_AW`. -/
def aw_NS (m : Fin w.N_TARG_PORT) : AwFsm := match (n.resp m).aw_CS with
  | .OPERATIVE =>
    if error_detected (n.resp m) (i.master m) then .COMPLETE_PENDING else .OPERATIVE
  | .COMPLETE_PENDING =>
    if outstanding_trans_o (n.resp m) then .COMPLETE_PENDING else .ACCEPT_WDATA
  | .ACCEPT_WDATA => if wdata_error_completed_o n i m then .COMPLETE_ERROR_RESP else .ACCEPT_WDATA
  | .COMPLETE_ERROR_RESP => if error_gnt_o (n.resp m) then .OPERATIVE else .COMPLETE_ERROR_RESP

/-- `DECERR` of `defines.v`. -/
def DECERR : BitVec 2 := 3#2

/-- Response of a master port. The error response takes the user bits and the number that
were sampled. -/
def b_o (m : Fin w.N_TARG_PORT) : BBeat w :=
  if error_gnt_o (n.resp m) then ⟨(n.resp m).error_id_S,DECERR,(n.resp m).error_user_S⟩
  else (i.master m).b_ARB_TREE

def bvalid_o (m : Fin w.N_TARG_PORT) : Bool :=
  error_gnt_o (n.resp m) || (i.master m).bvalid_ARB_TREE

def bready_ARB_TREE (m : Fin w.N_TARG_PORT) : Bool :=
  !error_gnt_o (n.resp m) && (i.master m).bready_i

def decr_req (m : Fin w.N_TARG_PORT) : Bool := bvalid_o n i m && (i.master m).bready_i

/-- Next state of the `axi_BW_allocator`. -/
def bw_NS (m : Fin w.N_TARG_PORT) : BwFsm := match (n.resp m).bw_CS with
  | .OPERATIVE =>
    if error_req_o (n.resp m) && !outstanding_trans_o (n.resp m) then .ERROR_SINGLE
    else .OPERATIVE
  | .ERROR_SINGLE => if (i.master m).bready_i then .OPERATIVE else .ERROR_SINGLE
  | .ERROR_BURST => .OPERATIVE

/-- Registers of a master port after a clock edge. -/
def resp_next (m : Fin w.N_TARG_PORT) : Resp w :=
  let sample := sample_awdata_info_o (n.resp m) (i.master m)
  { aw_CS := aw_NS n i m
    bw_CS := bw_NS n i m
    outstanding_counter := outstanding_next (incr_req_o n i m) (decr_req n i m)
      (n.resp m).outstanding_counter
    error_user_S := if sample then (i.master m).awuser_i else (n.resp m).error_user_S
    error_id_S := if sample then (i.master m).awid_i else (n.resp m).error_id_S
    DEST_FIFO := GenericFifo.step (n.resp m).DEST_FIFO
      ⟨DEST_o (i.master m),push_DEST_o n i m,pop_from_DEST_FIFO n i m⟩ }

/-- Registers of a slave port after a clock edge. -/
def req_next (j : Fin w.N_INIT_PORT) : Req w where
  RR_FLAG := NodeArb.RR_FLAG_next (n.req j).RR_FLAG (reqs n i j) (i.slave j).awready_i
  CS := dw_NS n i j
  ID_FIFO := GenericFifo.step (n.req j).ID_FIFO
    ⟨ID_o n i j,push_ID_o n i j,pop_from_ID_FIFO n i j⟩

/-- One clock edge. -/
def step : Node w := ⟨resp_next n i,req_next n i⟩

end Step

end Pulpissimo.Axi.NodeWrite

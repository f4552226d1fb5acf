import Mathlib.Data.BitVec
import Mathlib.Data.Fintype.Basic
import Pulpissimo.Hwpe.AddressGen
import Pulpissimo.Hwpe.Tcdm
import Pulpissimo.Lib.Bits

/-!
# The source streamer

`hwpe_stream_source` reads the words of a transfer over its TCDM ports, all of
them at once, and puts the answers of all ports together to the items of a
stream. A realigner shifts the items of a transfer that is not aligned.
-/

namespace Pulpissimo.Hwpe.Source

open Pulpissimo.Bits Pulpissimo.Hwpe.AddressGen Pulpissimo.Hwpe.Tcdm

variable {P : ℕ}

section Realigner

/-- Bits of a number of bytes. -/
abbrev rotateBits (P : ℕ) : ℕ := Nat.clog 2 (4*P)+1

/-- Registers of the realigner. -/
structure Realigner (P : ℕ) where
  /-- Bytes of the first word of a line. -/
  strb_rotate_q : BitVec (rotateBits P)
  /-- The other bytes. -/
  strb_rotate_inv_q : BitVec (rotateBits P)
  /-- The last word. -/
  stream_data_q : BitVec (32*P)

/-- A stream without its strobes, which are all set. -/
structure Stream (P : ℕ) where
  /-- There is an item. -/
  valid : Bool
  /-- The item. -/
  data : BitVec (32*P)

variable (s : Realigner P) (f : RealignFlags) (strb_i : BitVec (4*P)) (stream_i : Stream P)
  (ready : Bool)

/-- Number of bytes. -/
def strb_rotate_d : BitVec (rotateBits P) :=
  BitVec.ofNat _ ((List.range (4*P)).countP strb_i.getLsbD)

/-- Number of the other bytes. -/
def strb_rotate_inv_d : BitVec (rotateBits P) :=
  BitVec.ofNat _ (2^Nat.clog 2 (4*P)-1)-strb_rotate_d strb_i+1#_

/-- The stream that is put out. -/
def Realigner.stream_o : Stream P where
  valid :=
    if !f.realign then stream_i.valid
    else if f.last_packet then stream_i.valid
    else stream_i.valid && !f.first && (f.last || strb_i != 0#(4*P))
  data :=
    if f.realign && (s.strb_rotate_q != BitVec.allOnes _ && s.strb_rotate_q != 0#_) then
      stream_i.data <<< (s.strb_rotate_q.toNat*8) |||
        s.stream_data_q >>> (s.strb_rotate_inv_q.toNat*8)
    else stream_i.data

/-- The stream that comes in is taken. -/
def Realigner.ready_i : Bool :=
  if !f.realign then ready
  else if f.last_packet then (s.stream_o f strb_i stream_i).valid && ready
  else ready || f.first

/-- One edge of the gated clock. -/
def Realigner.step (clear_i : Bool) : Realigner P :=
  if clear_i then ⟨0#_,0#_,0#_⟩
  else
    { strb_rotate_q := if !f.last_packet && f.first then strb_rotate_d strb_i else s.strb_rotate_q
      strb_rotate_inv_q :=
        if !f.last_packet && f.first then strb_rotate_inv_d strb_i else s.strb_rotate_inv_q
      stream_data_q :=
        if !f.last_packet && stream_i.valid && s.ready_i f strb_i stream_i ready then stream_i.data
        else s.stream_data_q }

end Realigner

/-- States of the source. -/
inductive Fsm
  | STREAM_IDLE
  | STREAM_WORKING
  deriving DecidableEq

/-- Answer of a port that was not taken. -/
structure Port where
  /-- There is one. -/
  stream_valid_r : Bool
  /-- Its word. -/
  stream_data_r : BitVec 32

/-- Registers. -/
structure State (P : ℕ) where
  /-- State. -/
  cs : Fsm
  /-- The transfer was done in the last cycle. -/
  done : Bool
  /-- The address generator. -/
  gen : Gen
  /-- The realigner. -/
  realign : Realigner P
  /-- The ports. -/
  ports : Fin P → Port

/-- Values after reset. -/
def reset : State P := ⟨.STREAM_IDLE,false,cleared,⟨0#_,0#_,0#_⟩,fun _ => ⟨false,0#32⟩⟩

/-- One cycle of inputs. -/
structure Input (P : ℕ) where
  /-- Sets everything back. -/
  clear_i : Bool
  /-- Test mode. -/
  test_mode_i : Bool
  /-- Starts a transfer. -/
  req_start : Bool
  /-- Its configuration. -/
  cfg : Ctrl
  /-- The stream is taken. -/
  ready : Bool
  /-- Grants of the ports. -/
  gnt : Fin P → Bool
  /-- Answers of the ports. -/
  r_valid : Fin P → Bool
  /-- Their words. -/
  r_data : Fin P → BitVec 32

/-- The instance of the address generator. -/
def params (P : ℕ) : Params := ⟨.SOURCE,4*P,false⟩

/-- Words of all ports as one item. -/
def merge (words : Fin P → BitVec 32) : BitVec (32*P) :=
  ofBits fun b => (words ⟨b/32,by have := b.isLt; omega⟩).getLsbD (b%32)

section Code

variable (s : State P) (i : Input P)

/-- What a port has for the stream. -/
def split_valid (k : Fin P) : Bool := i.r_valid k || (s.ports k).stream_valid_r

/-- Its word. -/
def split_data (k : Fin P) : BitVec 32 :=
  if i.r_valid k then i.r_data k else (s.ports k).stream_data_r

/-- The stream of the ports together. -/
def misaligned_stream : Stream P := ⟨decide (∀ k, split_valid s i k=true),merge (split_data s i)⟩

/-- Flags of the address generator. -/
def flags : RealignFlags := realign_flags s.gen i.cfg

/-- Strobes of the address generator. -/
def gen_strb : BitVec (4*P) := gen_strb_o (params P) s.gen i.cfg

/-- The stream that is put out. -/
def stream_o : Stream P := s.realign.stream_o (flags s i) (gen_strb s i) (misaligned_stream s i)

/-- The answers of the ports are taken. -/
def split_ready : Bool :=
  s.realign.ready_i (flags s i) (gen_strb s i) (misaligned_stream s i) i.ready

/-- All ports are granted. -/
def tcdm_int_gnt : Bool := decide (∀ k, i.gnt k=true)

/-- All ports request. -/
def tcdm_int_req : Bool := s.cs==.STREAM_WORKING && i.ready

/-- The generator moves on. -/
def address_gen_en : Bool := tcdm_int_req s i && tcdm_int_gnt i

/-- The transfer is done. The second half of the condition to go on is never true here. -/
def ends : Bool :=
  s.cs==.STREAM_WORKING && tcdm_int_gnt i &&
    !(in_progress_o (params P) s.gen || !tcdm_int_gnt i && tcdm_int_req s i)

/-- Next state. -/
def ns : Fsm :=
  match s.cs with
  | .STREAM_IDLE => if i.req_start then .STREAM_WORKING else .STREAM_IDLE
  | .STREAM_WORKING => if ends s i then .STREAM_IDLE else .STREAM_WORKING

/-- A transfer can be started. -/
def ready_start : Bool := s.cs==.STREAM_IDLE

/-- Requests of the ports. -/
def tcdm (k : Fin P) : Request where
  req := tcdm_int_req s i
  add := gen_addr_o s.gen i.cfg+BitVec.ofNat 32 (k*4)
  wen := true
  be := 0#4
  data := 0#32

/-- Next registers of a port. -/
def Port.step (t : Port) (clear_i r_valid ready : Bool) (r_data : BitVec 32) : Port :=
  if clear_i then ⟨false,0#32⟩
  else
    { stream_valid_r :=
        if r_valid && ready then false
        else if r_valid then true
        else if t.stream_valid_r && ready then false
        else t.stream_valid_r
      stream_data_r := if r_valid then r_data else t.stream_data_r }

/-- One clock edge. -/
def step : State P where
  cs := if i.clear_i then .STREAM_IDLE else ns s i
  done := if i.clear_i then false else ends s i
  gen := AddressGen.step (params P) s.gen i.cfg (address_gen_en s i) (i.clear_i || ends s i)
  realign :=
    if (flags s i).enable || i.test_mode_i then
      s.realign.step (flags s i) (gen_strb s i) (misaligned_stream s i) i.ready i.clear_i
    else s.realign
  ports k := (s.ports k).step i.clear_i (i.r_valid k) (split_ready s i) (i.r_data k)

end Code

section Memory

variable (mem : BitVec 32 → BitVec 8)

/-- Bytes of the memory from an address on, to `n` bits. -/
def bytes (n : ℕ) (add : BitVec 32) : BitVec n :=
  ofBits fun b => (mem (add+BitVec.ofNat 32 (b/8))).getLsbD (b%8)

/-- Words of all ports side by side are the bytes of an item. -/
theorem merge_words (add : BitVec 32) :
    merge (fun k : Fin P => bytes mem 32 (add+BitVec.ofNat 32 (k*4)))=bytes mem (32*P) add := by
  apply BitVec.eq_of_getLsbD_eq
  intro i hi
  have hbit : i%32<32 := Nat.mod_lt _ (by decide)
  have hplace : i/32*4+i%32/8=i/8 := by omega
  have hmod : i%32%8=i%8 := by omega
  unfold merge bytes
  rw [getLsbD_ofBits_lt _ hi,getLsbD_ofBits_lt _ hi,getLsbD_ofBits_lt _ hbit]
  dsimp only
  rw [BitVec.add_assoc,←BitVec.ofNat_add,hplace,hmod]

end Memory

/-- One cycle of a source at a memory: the inputs, and which ports the memory answers. -/
structure Cycle (P : ℕ) where
  /-- Sets everything back. -/
  clear_i : Bool
  /-- Test mode. -/
  test_mode_i : Bool
  /-- Starts a transfer. -/
  req_start : Bool
  /-- Its configuration. -/
  cfg : Ctrl
  /-- The stream is taken. -/
  ready : Bool
  /-- Grants of the ports. -/
  gnt : Fin P → Bool
  /-- The memory answers the oldest access of a port, if there is one. -/
  answers : Fin P → Bool

/-- A source and the words that the memory owes to its ports. -/
structure System (P : ℕ) where
  /-- The source. -/
  source : State P
  /-- Words of the accesses that were granted and not answered. -/
  waiting : Fin P → List (BitVec 32)

section System

variable (mem : BitVec 32 → BitVec 8) (s : System P) (c : Cycle P)

/-- Inputs of the source. -/
def System.input : Input P where
  clear_i := c.clear_i
  test_mode_i := c.test_mode_i
  req_start := c.req_start
  cfg := c.cfg
  ready := c.ready
  gnt := c.gnt
  r_valid k := c.answers k && !(s.waiting k).isEmpty
  r_data k := (s.waiting k).headD 0#32

/-- Word of an access that is granted. -/
def System.access (k : Fin P) : List (BitVec 32) :=
  if (tcdm s.source (s.input c) k).req && c.gnt k then
    [bytes mem 32 (tcdm s.source (s.input c) k).add]
  else []

/-- One cycle. -/
def System.step : System P where
  source := Source.step s.source (s.input c)
  waiting k :=
    (if (s.input c).r_valid k then (s.waiting k).tail else s.waiting k)++s.access mem c k

/-- A source after reset. -/
def idle : System P := ⟨reset,fun _ => []⟩

end System

end Pulpissimo.Hwpe.Source

import Mathlib.Data.BitVec
import Pulpissimo.Lib.Machine
import Pulpissimo.Lib.WordAddr

/-!
# The RI5CY load-store unit over a byte memory

Byte enables, store rotation, load merging and the request state machine of
`riscv_load_store_unit`, with the EX registers that repeat a misaligned
access at the next word, over a memory that grants and answers after any
delay. The exact effect of a run is that of its accesses performed one after
the other, byte by byte in little-endian order.
-/

namespace Pulpissimo.Riscv.LoadStore

open Pulpissimo.Machine Pulpissimo.WordAddr

/-- States of the request machine. -/
inductive FsmState
  | IDLE | WAIT_RVALID | WAIT_RVALID_EX_STALL | IDLE_EX_STALL
  deriving DecidableEq

/-- Registers of the unit. -/
structure State where
  /-- Request state. -/
  CS : FsmState
  /-- Size of the access in flight: 00 word, 01 half word, else byte. -/
  data_type_q : BitVec 2
  /-- Byte offset of the access in flight. -/
  rdata_offset_q : BitVec 2
  /-- Sign extension of the access in flight. -/
  data_sign_ext_q : Bool
  /-- The access in flight is a store. -/
  data_we_q : Bool
  /-- First word of a misaligned load, else the last value loaded. -/
  rdata_q : BitVec 32

/-- ID/EX registers that the unit reads. -/
structure Ex where
  /-- Memory instruction in EX. -/
  data_req_ex_i : Bool
  /-- Store. -/
  data_we_ex_i : Bool
  /-- Access size. -/
  data_type_ex_i : BitVec 2
  /-- Store data. -/
  data_wdata_ex_i : BitVec 32
  /-- Byte offset in the source register. -/
  data_reg_offset_ex_i : BitVec 2
  /-- Sign extension. -/
  data_sign_ext_ex_i : Bool
  /-- Base address. -/
  operand_a_ex_i : BitVec 32
  /-- Address offset. -/
  operand_b_ex_i : BitVec 32
  /-- Add the offset before the access. -/
  addr_useincr_ex_i : Bool
  /-- Second transaction of a misaligned access. -/
  data_misaligned_ex_i : Bool

/-- Data bus inputs. -/
structure Bus where
  /-- Request granted. -/
  data_gnt_i : Bool
  /-- Response valid. -/
  data_rvalid_i : Bool
  /-- Protection error on the granted request. -/
  data_err_i : Bool
  /-- Word read. -/
  data_rdata_i : BitVec 32

/-- Address of the transaction. -/
def data_addr_int (e : Ex) : BitVec 32 :=
  if e.addr_useincr_ex_i then e.operand_a_ex_i+e.operand_b_ex_i else e.operand_a_ex_i

/-- Byte offset of the transaction. -/
def offset (e : Ex) : BitVec 2 := (data_addr_int e).extractLsb' 0 2

/-- Byte enables. -/
def data_be (e : Ex) : BitVec 4 :=
  match e.data_type_ex_i with
  | 0b00#2 =>
    if e.data_misaligned_ex_i=false then
      match offset e with
      | 0b00#2 => 0b1111
      | 0b01#2 => 0b1110
      | 0b10#2 => 0b1100
      | 0b11#2 => 0b1000
    else
      match offset e with
      | 0b00#2 => 0b0000
      | 0b01#2 => 0b0001
      | 0b10#2 => 0b0011
      | 0b11#2 => 0b0111
  | 0b01#2 =>
    if e.data_misaligned_ex_i=false then
      match offset e with
      | 0b00#2 => 0b0011
      | 0b01#2 => 0b0110
      | 0b10#2 => 0b1100
      | 0b11#2 => 0b1000
    else 0b0001
  | 0b10#2 | 0b11#2 =>
    match offset e with
    | 0b00#2 => 0b0001
    | 0b01#2 => 0b0010
    | 0b10#2 => 0b0100
    | 0b11#2 => 0b1000

/-- Store data, rotated to the byte lanes. -/
def data_wdata (e : Ex) : BitVec 32 :=
  let w := e.data_wdata_ex_i
  match offset e-e.data_reg_offset_ex_i with
  | 0b00#2 => w
  | 0b01#2 => w.extractLsb' 0 24++w.extractLsb' 24 8
  | 0b10#2 => w.extractLsb' 0 16++w.extractLsb' 16 16
  | 0b11#2 => w.extractLsb' 0 8++w.extractLsb' 8 24

/-- Zero or sign extension to a register. -/
def extend {w : ℕ} (sign : Bool) (x : BitVec w) : BitVec 32 :=
  if sign=true then x.signExtend 32 else x.setWidth 32

/-- Word read, joined with the first word of a misaligned load. -/
def rdata_w_ext (s : State) (data_rdata_i : BitVec 32) : BitVec 32 :=
  match s.rdata_offset_q with
  | 0b00#2 => data_rdata_i
  | 0b01#2 => data_rdata_i.extractLsb' 0 8++s.rdata_q.extractLsb' 8 24
  | 0b10#2 => data_rdata_i.extractLsb' 0 16++s.rdata_q.extractLsb' 16 16
  | 0b11#2 => data_rdata_i.extractLsb' 0 24++s.rdata_q.extractLsb' 24 8

/-- Half word read, extended. -/
def rdata_h_ext (s : State) (data_rdata_i : BitVec 32) : BitVec 32 :=
  match s.rdata_offset_q with
  | 0b00#2 => extend s.data_sign_ext_q (data_rdata_i.extractLsb' 0 16)
  | 0b01#2 => extend s.data_sign_ext_q (data_rdata_i.extractLsb' 8 16)
  | 0b10#2 => extend s.data_sign_ext_q (data_rdata_i.extractLsb' 16 16)
  | 0b11#2 => extend s.data_sign_ext_q
      (data_rdata_i.extractLsb' 0 8++s.rdata_q.extractLsb' 24 8)

/-- Byte read, extended. -/
def rdata_b_ext (s : State) (data_rdata_i : BitVec 32) : BitVec 32 :=
  match s.rdata_offset_q with
  | 0b00#2 => extend s.data_sign_ext_q (data_rdata_i.extractLsb' 0 8)
  | 0b01#2 => extend s.data_sign_ext_q (data_rdata_i.extractLsb' 8 8)
  | 0b10#2 => extend s.data_sign_ext_q (data_rdata_i.extractLsb' 16 8)
  | 0b11#2 => extend s.data_sign_ext_q (data_rdata_i.extractLsb' 24 8)

/-- Value loaded, by access size. -/
def data_rdata_ext (s : State) (data_rdata_i : BitVec 32) : BitVec 32 :=
  match s.data_type_q with
  | 0b00#2 => rdata_w_ext s data_rdata_i
  | 0b01#2 => rdata_h_ext s data_rdata_i
  | 0b10#2 | 0b11#2 => rdata_b_ext s data_rdata_i

/-- Value for the register file. -/
def data_rdata_ex_o (s : State) (b : Bus) : BitVec 32 :=
  if b.data_rvalid_i then data_rdata_ext s b.data_rdata_i else s.rdata_q

/-- The access crosses a word and needs a second transaction. -/
def data_misaligned_o (e : Ex) : Bool :=
  e.data_req_ex_i && !e.data_misaligned_ex_i &&
    match e.data_type_ex_i with
    | 0b00#2 => offset e != 0b00#2
    | 0b01#2 => offset e == 0b11#2
    | _ => false

/-- Bus request. -/
def data_req_o (s : State) (e : Ex) (data_rvalid_i : Bool) : Bool :=
  match s.CS with
  | .IDLE => e.data_req_ex_i
  | .WAIT_RVALID => data_rvalid_i && e.data_req_ex_i
  | .WAIT_RVALID_EX_STALL | .IDLE_EX_STALL => false

/-- Ready for a new instruction in EX. -/
def lsu_ready_ex_o (s : State) (e : Ex) (b : Bus) : Bool :=
  match s.CS with
  | .IDLE => !e.data_req_ex_i || b.data_gnt_i
  | .WAIT_RVALID => !(b.data_rvalid_i && e.data_req_ex_i) || b.data_gnt_i
  | .WAIT_RVALID_EX_STALL | .IDLE_EX_STALL => true

/-- Ready for a new instruction in WB. -/
def lsu_ready_wb_o (s : State) (b : Bus) : Bool :=
  match s.CS with
  | .WAIT_RVALID => b.data_rvalid_i
  | .IDLE | .WAIT_RVALID_EX_STALL | .IDLE_EX_STALL => true

/-- Protection error of a load. -/
def load_err_o (e : Ex) (b : Bus) : Bool := b.data_gnt_i && b.data_err_i && !e.data_we_ex_i

/-- Protection error of a store. -/
def store_err_o (e : Ex) (b : Bus) : Bool := b.data_gnt_i && b.data_err_i && e.data_we_ex_i

/-- Activity flag. -/
def busy_o (s : State) (e : Ex) (b : Bus) : Bool :=
  s.CS==.WAIT_RVALID || s.CS==.WAIT_RVALID_EX_STALL || s.CS==.IDLE_EX_STALL ||
    data_req_o s e b.data_rvalid_i

/-- Next request state. -/
def NS (s : State) (e : Ex) (b : Bus) (ex_valid_i : Bool) : FsmState :=
  match s.CS with
  | .IDLE =>
    if e.data_req_ex_i && b.data_gnt_i then
      (if ex_valid_i then .WAIT_RVALID else .WAIT_RVALID_EX_STALL)
    else .IDLE
  | .WAIT_RVALID =>
    if b.data_rvalid_i then
      if e.data_req_ex_i && b.data_gnt_i then
        (if ex_valid_i then .WAIT_RVALID else .WAIT_RVALID_EX_STALL)
      else .IDLE
    else .WAIT_RVALID
  | .WAIT_RVALID_EX_STALL =>
    if b.data_rvalid_i then (if ex_valid_i then .IDLE else .IDLE_EX_STALL)
    else (if ex_valid_i then .WAIT_RVALID else .WAIT_RVALID_EX_STALL)
  | .IDLE_EX_STALL => if ex_valid_i then .IDLE else .IDLE_EX_STALL

/-- Values after reset. -/
def reset : State := ⟨.IDLE,0,0,false,false,0⟩

/-- One clock edge. -/
def step (s : State) (e : Ex) (b : Bus) (ex_valid_i : Bool) : State where
  CS := NS s e b ex_valid_i
  data_type_q := if b.data_gnt_i then e.data_type_ex_i else s.data_type_q
  rdata_offset_q := if b.data_gnt_i then offset e else s.rdata_offset_q
  data_sign_ext_q := if b.data_gnt_i then e.data_sign_ext_ex_i else s.data_sign_ext_q
  data_we_q := if b.data_gnt_i then e.data_we_ex_i else s.data_we_q
  rdata_q :=
    if b.data_rvalid_i && !s.data_we_q then
      -- the first word of a misaligned load is kept as it came
      if e.data_misaligned_ex_i || data_misaligned_o e then b.data_rdata_i
      else data_rdata_ext s b.data_rdata_i
    else s.rdata_q

/-- Byte memory. -/
abbrev Memory := BitVec 32 → BitVec 8

/-- Address of byte `k` in the word of an address. -/
def byteAddr (addr : BitVec 32) (k : BitVec 2) : BitVec 32 := addr.extractLsb' 2 30++k

/-- The word that a data memory returns for an address. -/
def Memory.word (m : Memory) (addr : BitVec 32) : BitVec 32 :=
  m (byteAddr addr 3)++m (byteAddr addr 2)++m (byteAddr addr 1)++m (byteAddr addr 0)

/-- A data memory writes the enabled byte lanes of the addressed word. -/
def Memory.writeWord (m : Memory) (addr : BitVec 32) (be : BitVec 4) (wdata : BitVec 32) :
    Memory := fun x =>
  let lane := (x.extractLsb' 0 2).toNat
  if x.extractLsb' 2 30=addr.extractLsb' 2 30 ∧ be.getLsbD lane=true then
    wdata.extractLsb' (8*lane) 8
  else m x

/-- A load or store as the ID stage issues it. The decoder always gives the
register offset zero. -/
structure Access where
  /-- Store. -/
  we : Bool
  /-- Access size. -/
  data_type : BitVec 2
  /-- Sign extension. -/
  sign_ext : Bool
  /-- Store data. -/
  wdata : BitVec 32
  /-- Base register. -/
  operand_a : BitVec 32
  /-- Immediate or index register. -/
  operand_b : BitVec 32
  /-- Add before the access, not after it. -/
  useincr : Bool

/-- The EX registers of a newly issued access. -/
def Access.ex (a : Access) : Ex :=
  ⟨true,a.we,a.data_type,a.wdata,0,a.sign_ext,a.operand_a,a.operand_b,a.useincr,false⟩

/-- The EX registers for the second transaction. The forwarded ALU sum
replaces the base unless the base itself was the address. -/
def Ex.second (e : Ex) : Ex :=
  { e with
    operand_a_ex_i :=
      if e.addr_useincr_ex_i then e.operand_a_ex_i+e.operand_b_ex_i else e.operand_a_ex_i
    operand_b_ex_i := 4
    addr_useincr_ex_i := true
    data_misaligned_ex_i := true }

/-- The ID stage issues an access or a bubble. -/
def Ex.issue (e : Ex) (next : Option Access) : Ex :=
  match next with
  | some a => a.ex
  | none => { e with data_req_ex_i := false, data_misaligned_ex_i := false }

/-- A granted transaction whose response is due. -/
structure Pending where
  /-- Store. -/
  we : Bool
  /-- Word read. -/
  rdata : BitVec 32
  /-- Completes its access. -/
  last : Bool

/-- The unit between its EX registers and the data memory. -/
structure System where
  /-- The unit. -/
  lsu : State
  /-- EX registers. -/
  ex : Ex
  /-- Response due. -/
  pending : Option Pending
  /-- Memory contents. -/
  mem : Memory
  /-- Accesses that entered EX, oldest first. -/
  issued : List Access
  /-- Accesses whose last transaction was granted, oldest first. -/
  done : List Access
  /-- Values handed to the register file by completed loads, oldest first. -/
  loaded : List (BitVec 32)

/-- One cycle of the environment. -/
structure Cycle where
  /-- The memory would grant a request. -/
  gnt : Bool
  /-- The memory answers if a response is due. -/
  rvalid : Bool
  /-- Protection error flag. -/
  err : Bool
  /-- Read data when the memory has none to return. -/
  junk : BitVec 32
  /-- What the ID stage issues when EX takes a new instruction. -/
  issue : Option Access

/-- The bus as the unit sees it: a grant needs a request and a response needs
a granted transaction. -/
def System.bus (s : System) (c : Cycle) : Bus :=
  let rvalid := c.rvalid && s.pending.isSome
  { data_gnt_i := c.gnt && data_req_o s.lsu s.ex rvalid
    data_rvalid_i := rvalid
    data_err_i := c.err
    data_rdata_i := match s.pending with
      | some ⟨false,rdata,_⟩ => if rvalid then rdata else c.junk
      | _ => c.junk }

/-- The EX stage's valid and, for a memory instruction, ready signal. The ALU
and the multiplier are ready while a memory instruction is in EX. -/
def System.ex_valid (s : System) (c : Cycle) : Bool :=
  s.ex.data_req_ex_i && (lsu_ready_ex_o s.lsu s.ex (s.bus c) && lsu_ready_wb_o s.lsu (s.bus c))

/-- One clock edge of the unit, its EX registers and the memory. -/
def System.step (s : System) (c : Cycle) : System :=
  let b := s.bus c
  let misaligned := data_misaligned_o s.ex
  let leaves := s.ex_valid c && !misaligned
  let enters := !s.ex.data_req_ex_i || leaves
  { lsu := LoadStore.step s.lsu s.ex b (s.ex_valid c)
    ex :=
      if enters then s.ex.issue c.issue
      else if misaligned && s.ex_valid c then s.ex.second else s.ex
    pending :=
      if b.data_gnt_i then
        some ⟨s.ex.data_we_ex_i,s.mem.word (data_addr_int s.ex),!misaligned⟩
      else if b.data_rvalid_i then none else s.pending
    mem :=
      if b.data_gnt_i && s.ex.data_we_ex_i then
        s.mem.writeWord (data_addr_int s.ex) (data_be s.ex) (data_wdata s.ex)
      else s.mem
    issued := if enters then s.issued++c.issue.toList else s.issued
    done := if leaves then s.issued else s.done
    loaded := match s.pending with
      | some ⟨false,_,true⟩ =>
        if b.data_rvalid_i then s.loaded++[data_rdata_ex_o s.lsu b] else s.loaded
      | _ => s.loaded }

/-- After reset, with any memory contents. -/
def System.start (m : Memory) : System :=
  ⟨reset,⟨false,false,0,0,0,false,0,0,false,false⟩,none,m,[],[],[]⟩

/-- Number of bytes of an access. -/
def size (data_type : BitVec 2) : ℕ :=
  if data_type=0b00#2 then 4 else if data_type=0b01#2 then 2 else 1

/-- Little-endian store of the low `n` bytes of a register. -/
def Memory.store (m : Memory) (addr : BitVec 32) (n : ℕ) (data : BitVec 32) : Memory := fun x =>
  let k := (x-addr).toNat
  if k<n then data.extractLsb' (8*k) 8 else m x

/-- Little-endian load of `n` bytes. -/
def Memory.load (m : Memory) (addr : BitVec 32) : (n : ℕ) → BitVec (8*n)
  | 0 => 0#0
  | n+1 => (m (addr+BitVec.ofNat 32 n)++m.load addr n).cast (by omega)

/-- Address of an access. -/
def Access.addr (a : Access) : BitVec 32 := data_addr_int a.ex

/-- The byte-wise meaning of one access: the memory it leaves and the values
it adds to those loaded. -/
def Access.perform (a : Access) (m : Memory) : Memory × List (BitVec 32) :=
  if a.we=true then (m.store a.addr (size a.data_type) a.wdata,[])
  else (m,[extend a.sign_ext (m.load a.addr (size a.data_type))])

/-- The accesses of a program, one after the other. -/
def performAll (m : Memory) : List Access → Memory × List (BitVec 32)
  | [] => (m,[])
  | a::as =>
    let (m',out) := a.perform m
    let (m'',outs) := performAll m' as
    (m'',out++outs)

/-- Adding an access at the end. -/
theorem performAll_concat (m : Memory) (as : List Access) (a : Access) :
    performAll m (as++[a])=((a.perform (performAll m as).1).1,
      (performAll m as).2++(a.perform (performAll m as).1).2) := by
  induction as generalizing m with
  | nil => simp [performAll]
  | cons b bs ih => simp [performAll,ih]

section Lanes

variable (m : Memory) (q p : BitVec 30) (r t : BitVec 2)

/-- A store by word and lane: it covers lanes of its first word and of the next. -/
theorem store_lane {n : ℕ} (hn : n≤4) (data : BitVec 32) :
    m.store (q++r) n data (p++t)=
      if p=q ∧ r.toNat≤t.toNat ∧ t.toNat-r.toNat<n then data.extractLsb' (8*(t-r).toNat) 8
      else if p=q+1#30 ∧ 4+t.toNat-r.toNat<n then data.extractLsb' (8*(t-r).toNat) 8
      else m (p++t) := by
  have hq := q.isLt
  have hp := p.isLt
  have hr := r.isLt
  have ht := t.isLt
  have hk : ((p++t)-(q++r)).toNat=(4294967296-(4*q.toNat+r.toNat)+(4*p.toNat+t.toNat))%4294967296 := by
    rw [BitVec.toNat_sub,toNat_append,toNat_append]
  have hpq : p=q ↔ p.toNat=q.toNat := BitVec.toNat_inj.symm
  have hpq1 : p=q+1#30 ↔ p.toNat=(q.toNat+1)%1073741824 := by
    rw [←BitVec.toNat_inj,BitVec.toNat_add]
    rfl
  have hlane : (t-r).toNat=(4-r.toNat+t.toNat)%4 := BitVec.toNat_sub t r
  simp only [Memory.store,hk,hpq,hpq1,hlane]
  have hmod : (4294967296-(4*q.toNat+r.toNat)+(4*p.toNat+t.toNat))%4294967296%4=
      (4-r.toNat+t.toNat)%4 := by
    rw [Nat.mod_mod_of_dvd _ (by decide)]
    omega
  have hdist : ∀ j, (4294967296-(4*q.toNat+r.toNat)+(4*p.toNat+t.toNat))%4294967296=j → j<4 →
      (4-r.toNat+t.toNat)%4=j := by
    rintro j rfl hj
    rw [←hmod,Nat.mod_eq_of_lt hj]
  split_ifs with h1 h2 h3
  · rw [hdist _ rfl (by omega)]
  · rw [hdist _ rfl (by omega)]
  · omega
  · omega
  · omega
  · rfl

/-- A bus write by word and lane. -/
theorem writeWord_lane (be : BitVec 4) (w : BitVec 32) :
    m.writeWord (q++r) be w (p++t)=
      if p=q ∧ be.getLsbD t.toNat=true then w.extractLsb' (8*t.toNat) 8 else m (p++t) := by
  simp only [Memory.writeWord,wordAddr_append,lane_append]

/-- A word read by lane. -/
theorem word_append :
    m.word (q++r)=m (q++3#2)++m (q++2#2)++m (q++1#2)++m (q++0#2) := by
  simp only [Memory.word,byteAddr,wordAddr_append]
  rfl

end Lanes

/-- The access crosses into the next word. -/
def Crosses (data_type r : BitVec 2) : Prop := 4 < r.toNat+size data_type

instance (data_type r : BitVec 2) : Decidable (Crosses data_type r) :=
  inferInstanceAs (Decidable (4<_))

/-- The unit detects exactly the crossing accesses. -/
theorem misaligned_iff {e : Ex} (hreq : e.data_req_ex_i=true) (hm : e.data_misaligned_ex_i=false) :
    data_misaligned_o e=true ↔ Crosses e.data_type_ex_i (offset e) := by
  unfold data_misaligned_o
  rw [hreq,hm]
  generalize e.data_type_ex_i=ty
  generalize offset e=r
  revert ty r
  decide

/-- Byte enables of the first transaction: the bytes up to the end of the word. -/
theorem data_be_first {e : Ex} (hm : e.data_misaligned_ex_i=false) (t : BitVec 2) :
    (data_be e).getLsbD t.toNat=true ↔ (offset e).toNat≤t.toNat ∧
      t.toNat-(offset e).toNat < size e.data_type_ex_i := by
  unfold data_be
  rw [hm]
  generalize e.data_type_ex_i=ty
  generalize offset e=r
  revert ty r t
  decide

/-- Byte enables of the second transaction: the bytes left over. -/
theorem data_be_second {e : Ex} (hm : e.data_misaligned_ex_i=true)
    (hc : Crosses e.data_type_ex_i (offset e)) (t : BitVec 2) :
    (data_be e).getLsbD t.toNat=true ↔ 4+t.toNat-(offset e).toNat < size e.data_type_ex_i := by
  revert hc
  unfold data_be
  rw [hm]
  generalize e.data_type_ex_i=ty
  generalize offset e=r
  revert ty r t
  decide

/-- The rotated store data puts each byte in its lane. -/
theorem data_wdata_lane {e : Ex} (ho : e.data_reg_offset_ex_i=0) (t : BitVec 2) :
    (data_wdata e).extractLsb' (8*t.toNat) 8=
      e.data_wdata_ex_i.extractLsb' (8*(t-offset e).toNat) 8 := by
  unfold data_wdata
  rw [ho]
  generalize offset e=r
  generalize e.data_wdata_ex_i=w
  apply BitVec.eq_of_getLsbD_eq
  intro i hi
  rcases lane_cases r with rfl | rfl | rfl | rfl <;>
    rcases lane_cases t with rfl | rfl | rfl | rfl <;> simp [hi] <;> grind

@[simp] theorem second_addr (e : Ex) : data_addr_int e.second=data_addr_int e+4#32 := rfl

theorem offset_append {e : Ex} {q : BitVec 30} {r : BitVec 2} (h : data_addr_int e=q++r) :
    offset e=r := by
  rw [offset,h,lane_append]

/-- The second transaction keeps the byte offset. -/
theorem offset_second (e : Ex) : offset e.second=offset e := by
  obtain ⟨q,r,h⟩ := split_addr (data_addr_int e)
  have h2 : data_addr_int e.second=(q+1#30)++r := by rw [second_addr,h,append_add_four]
  rw [offset_append h,offset_append h2]

theorem size_le (ty : BitVec 2) : size ty≤4 := by
  revert ty
  decide

/-- A store within a word is one bus write. -/
theorem store_single (m : Memory) {e : Ex} (hm : e.data_misaligned_ex_i=false)
    (ho : e.data_reg_offset_ex_i=0) (hc : ¬Crosses e.data_type_ex_i (offset e)) :
    m.writeWord (data_addr_int e) (data_be e) (data_wdata e)=
      m.store (data_addr_int e) (size e.data_type_ex_i) e.data_wdata_ex_i := by
  obtain ⟨q,r,h⟩ := split_addr (data_addr_int e)
  funext x
  obtain ⟨p,t,rfl⟩ := split_addr x
  have hr := offset_append h
  have ht := t.isLt
  rw [h,store_lane m q p r t (size_le _),writeWord_lane,data_wdata_lane ho,hr]
  simp only [data_be_first hm,hr]
  rw [hr] at hc
  unfold Crosses at hc
  have hnext : ¬(p=q+1#30 ∧ 4+t.toNat-r.toNat < size e.data_type_ex_i) := by
    rintro ⟨-,hlt⟩
    omega
  rw [if_neg hnext]

/-- A store across a word is its two bus writes. -/
theorem store_split (m : Memory) {e : Ex} (hm : e.data_misaligned_ex_i=false)
    (ho : e.data_reg_offset_ex_i=0) (hc : Crosses e.data_type_ex_i (offset e)) :
    (m.writeWord (data_addr_int e) (data_be e) (data_wdata e)).writeWord
        (data_addr_int e.second) (data_be e.second) (data_wdata e.second)=
      m.store (data_addr_int e) (size e.data_type_ex_i) e.data_wdata_ex_i := by
  obtain ⟨q,r,h⟩ := split_addr (data_addr_int e)
  funext x
  obtain ⟨p,t,rfl⟩ := split_addr x
  have hr := offset_append h
  have hr2 : offset e.second=r := (offset_second e).trans hr
  have hc2 : Crosses e.second.data_type_ex_i (offset e.second) := by
    rw [hr2,←hr]
    exact hc
  have hne : q≠q+1#30 := by
    intro hq
    have hnat := congrArg BitVec.toNat hq
    rw [BitVec.toNat_add,BitVec.toNat_ofNat] at hnat
    have hlt := q.isLt
    omega
  have hwdata := data_wdata_lane (e := e.second) ho t
  rw [hr2] at hwdata
  rw [second_addr,h,append_add_four,store_lane m q p r t (size_le _),writeWord_lane,writeWord_lane,
    hwdata,data_wdata_lane ho,hr]
  simp only [data_be_first hm,data_be_second rfl hc2,hr,hr2]
  by_cases hp : p=q
  · simp [hp,hne]
  · simp only [hp,false_and,if_false]
    rfl

/-- Bits of one byte more. -/
theorem bits_succ (n : ℕ) : 8+8*n=8*(n+1) := by omega

/-- The last byte comes first. -/
theorem load_succ (m : Memory) (addr : BitVec 32) (n : ℕ) :
    m.load addr (n+1)=(m (addr+BitVec.ofNat 32 n)++m.load addr n).cast (bits_succ n) := rfl

/-- Loaded bytes of a word. -/
theorem load_word (m : Memory) (addr : BitVec 32) :
    m.load addr 4=m (addr+3#32)++m (addr+2#32)++m (addr+1#32)++m (addr+0#32) := by
  apply BitVec.eq_of_getLsbD_eq
  intro i hi
  simp only [load_succ,BitVec.getLsbD_append,BitVec.getLsbD_cast]
  grind

/-- Loaded bytes of a half word. -/
theorem load_half (m : Memory) (addr : BitVec 32) :
    m.load addr 2=m (addr+1#32)++m (addr+0#32) := by
  simp [load_succ]

/-- A loaded byte. -/
theorem load_byte (m : Memory) (addr : BitVec 32) : m.load addr 1=m (addr+0#32) := by
  simp [load_succ]

/-- Extension to the same width. -/
theorem extend_word (sign : Bool) (x : BitVec 32) : extend sign x=x := by
  cases sign <;> simp [extend]

/-- Fields of a word by its bytes. -/
theorem bytes_field (b3 b2 b1 b0 : BitVec 8) :
    ((b3++b2++b1++b0).extractLsb' 0 8=b0 ∧ (b3++b2++b1++b0).extractLsb' 8 8=b1 ∧
      (b3++b2++b1++b0).extractLsb' 16 8=b2 ∧ (b3++b2++b1++b0).extractLsb' 24 8=b3) ∧
    ((b3++b2++b1++b0).extractLsb' 0 16=b1++b0 ∧ (b3++b2++b1++b0).extractLsb' 8 16=b2++b1 ∧
      (b3++b2++b1++b0).extractLsb' 16 16=b3++b2) ∧
    (b3++b2++b1++b0).extractLsb' 0 24=b2++b1++b0 ∧ (b3++b2++b1++b0).extractLsb' 8 24=b3++b2++b1 := by
  refine ⟨⟨?_,?_,?_,?_⟩,⟨?_,?_,?_⟩,?_,?_⟩ <;>
    (apply BitVec.eq_of_getLsbD_eq
     intro i hi
     simp only [BitVec.getLsbD_extractLsb',BitVec.getLsbD_append]
     grind)

/-- A word joined from parts of two words. -/
theorem join_bytes (b3 b2 b1 b0 : BitVec 8) :
    (b3++(b2++b1++b0) : BitVec 32)=b3++b2++b1++b0 ∧
      ((b3++b2)++(b1++b0) : BitVec 32)=b3++b2++b1++b0 := by
  constructor <;>
    (apply BitVec.eq_of_getLsbD_eq
     intro i hi
     simp only [BitVec.getLsbD_append]
     grind)

/-- A load within a word extends the addressed lanes of the word read. -/
theorem load_single (m : Memory) (s : State) (addr : BitVec 32)
    (ho : s.rdata_offset_q=addr.extractLsb' 0 2) (hc : ¬Crosses s.data_type_q s.rdata_offset_q) :
    data_rdata_ext s (m.word addr)=
      extend s.data_sign_ext_q (m.load addr (size s.data_type_q)) := by
  obtain ⟨q,r,rfl⟩ := split_addr addr
  rw [lane_append] at ho
  obtain ⟨⟨h0,h1,h2,h3⟩,⟨k0,k1,k2⟩,-⟩ := bytes_field (m (q++3#2)) (m (q++2#2)) (m (q++1#2)) (m (q++0#2))
  unfold data_rdata_ext rdata_w_ext rdata_h_ext rdata_b_ext
  rw [ho] at hc ⊢
  rw [word_append]
  generalize s.data_type_q=ty at hc ⊢
  rcases lane_cases ty with rfl | rfl | rfl | rfl
  · rcases lane_cases r with rfl | rfl | rfl | rfl
    · change _=extend _ (m.load (q++0#2) 4)
      simp [load_word,extend_word,append_add]
    all_goals exact absurd (by decide) hc
  · rcases lane_cases r with rfl | rfl | rfl | rfl
    · change _=extend _ (m.load (q++0#2) 2)
      simp [load_half,append_add,k0]
    · change _=extend _ (m.load (q++1#2) 2)
      simp [load_half,append_add,k1]
    · change _=extend _ (m.load (q++2#2) 2)
      simp [load_half,append_add,k2]
    · exact absurd (by decide) hc
  · change _=extend _ (m.load (q++r) 1)
    rcases lane_cases r with rfl | rfl | rfl | rfl <;> simp [load_byte,h0,h1,h2,h3]
  · change _=extend _ (m.load (q++r) 1)
    rcases lane_cases r with rfl | rfl | rfl | rfl <;> simp [load_byte,h0,h1,h2,h3]

/-- A load across a word joins the first word's upper lanes below the second
word's lower lanes. -/
theorem load_split (m : Memory) (s : State) (addr : BitVec 32)
    (ho : s.rdata_offset_q=addr.extractLsb' 0 2) (hc : Crosses s.data_type_q s.rdata_offset_q)
    (hq : s.rdata_q=m.word addr) :
    data_rdata_ext s (m.word (addr+4#32))=
      extend s.data_sign_ext_q (m.load addr (size s.data_type_q)) := by
  obtain ⟨q,r,rfl⟩ := split_addr addr
  rw [lane_append] at ho
  obtain ⟨⟨-,-,-,h3⟩,⟨-,-,k2⟩,-,l1⟩ :=
    bytes_field (m (q++3#2)) (m (q++2#2)) (m (q++1#2)) (m (q++0#2))
  obtain ⟨⟨i0,-⟩,⟨j0,-⟩,l0,-⟩ :=
    bytes_field (m ((q+1#30)++3#2)) (m ((q+1#30)++2#2)) (m ((q+1#30)++1#2)) (m ((q+1#30)++0#2))
  unfold data_rdata_ext rdata_w_ext rdata_h_ext rdata_b_ext
  rw [hq,append_add_four,word_append,word_append]
  rw [ho] at hc ⊢
  generalize s.data_type_q=ty at hc ⊢
  rcases lane_cases ty with rfl | rfl | rfl | rfl
  · change _=extend _ (m.load (q++r) 4)
    rcases lane_cases r with rfl | rfl | rfl | rfl
    · exact absurd hc (by decide)
    · simp [load_word,extend_word,append_add]
      rw [i0,l1,(join_bytes _ _ _ _).1]
    · simp [load_word,extend_word,append_add]
      rw [j0,k2,(join_bytes _ _ _ _).2]
    · simp [load_word,extend_word,append_add]
      rw [l0,h3]
  · change _=extend _ (m.load (q++r) 2)
    rcases lane_cases r with rfl | rfl | rfl | rfl
    iterate 3 exact absurd hc (by decide)
    simp [load_half,append_add,h3,i0]
  all_goals rcases lane_cases r with rfl | rfl | rfl | rfl <;> exact absurd hc (by decide)

/-- EX holds the second transaction of a misaligned access. -/
def System.halfway (s : System) : Bool := s.ex.data_req_ex_i && s.ex.data_misaligned_ex_i

/-- A cycle's response, if one is due and given. -/
def System.respond (s : System) (c : Cycle) : System :=
  match s.pending with
  | none => s
  | some p =>
    if c.rvalid=true then
      { s with
        lsu := { s.lsu with
          CS := .IDLE
          rdata_q :=
            if p.we=true then s.lsu.rdata_q
            else if (s.ex.data_misaligned_ex_i || data_misaligned_o s.ex)=true then p.rdata
            else data_rdata_ext s.lsu p.rdata }
        pending := none
        loaded :=
          if p.we=false ∧ p.last=true then s.loaded++[data_rdata_ext s.lsu p.rdata]
          else s.loaded }
    else s

/-- A granted request. -/
def System.grant (s : System) (c : Cycle) : System :=
  let misaligned := data_misaligned_o s.ex
  { s with
    lsu := ⟨.WAIT_RVALID,s.ex.data_type_ex_i,offset s.ex,s.ex.data_sign_ext_ex_i,
      s.ex.data_we_ex_i,s.lsu.rdata_q⟩
    ex := if misaligned=true then s.ex.second else s.ex.issue c.issue
    pending := some ⟨s.ex.data_we_ex_i,s.mem.word (data_addr_int s.ex),!misaligned⟩
    mem := if s.ex.data_we_ex_i=true then
        s.mem.writeWord (data_addr_int s.ex) (data_be s.ex) (data_wdata s.ex)
      else s.mem
    issued := if misaligned=true then s.issued else s.issued++c.issue.toList
    done := if misaligned=true then s.done else s.issued }

/-- A cycle's request, or a new instruction where EX makes none. -/
def System.request (s : System) (c : Cycle) : System :=
  if s.ex.data_req_ex_i=true then
    if s.pending.isNone=true ∧ c.gnt=true then s.grant c else s
  else { s with ex := s.ex.issue c.issue, issued := s.issued++c.issue.toList }

/-- The request state says whether a response is due. -/
def System.Tracks (s : System) : Prop :=
  match s.pending with
  | none => s.lsu.CS=.IDLE
  | some p => s.lsu.CS=.WAIT_RVALID ∧ s.lsu.data_we_q=p.we

/-- No request, no misalignment. -/
theorem misaligned_of_no_req {e : Ex} (h : e.data_req_ex_i=false) : data_misaligned_o e=false := by
  simp [data_misaligned_o,h]

/-- The second transaction is not repeated. -/
theorem misaligned_second (e : Ex) : data_misaligned_o e.second=false := by
  simp [data_misaligned_o,Ex.second]

/-- A cycle is its response and then its request. -/
theorem step_phases {s : System} (hs : s.Tracks) (c : Cycle) :
    s.step c=(s.respond c).request c := by
  obtain ⟨lsu,ex,pending,mem,issued,done,loaded⟩ := s
  obtain ⟨CS,ty,off,sign,we,rdata⟩ := lsu
  rcases pending with _ | ⟨pwe,prdata,last⟩
  · simp only [System.Tracks] at hs
    subst hs
    cases hreq : ex.data_req_ex_i
    · have hmis := misaligned_of_no_req hreq
      simp [System.step,System.respond,System.request,System.bus,System.ex_valid,data_req_o,
        lsu_ready_ex_o,lsu_ready_wb_o,step,NS,hreq]
    · cases hgnt : c.gnt <;> cases hmis : data_misaligned_o ex <;> cases hwe : ex.data_we_ex_i <;>
        simp [System.step,System.respond,System.request,System.bus,System.ex_valid,data_req_o,
          lsu_ready_ex_o,lsu_ready_wb_o,step,NS,System.grant,hreq,hgnt,hmis,hwe]
  · simp only [System.Tracks] at hs
    obtain ⟨rfl,rfl⟩ := hs
    cases hrv : c.rvalid
    · cases hreq : ex.data_req_ex_i <;> cases we <;> cases last <;>
        simp [System.step,System.respond,System.request,System.bus,System.ex_valid,data_req_o,
          lsu_ready_ex_o,lsu_ready_wb_o,step,NS,hreq,hrv]
    · cases hreq : ex.data_req_ex_i
      · have hmis := misaligned_of_no_req hreq
        cases we <;> cases last <;>
        simp [System.step,System.respond,System.request,System.bus,System.ex_valid,data_req_o,
          lsu_ready_ex_o,lsu_ready_wb_o,step,NS,hreq,hrv,hmis,data_rdata_ex_o,data_rdata_ext]
      · cases hgnt : c.gnt <;> cases hmis : data_misaligned_o ex <;>
          cases hwe : ex.data_we_ex_i <;> cases we <;> cases last <;>
        simp [System.step,System.respond,System.request,System.bus,System.ex_valid,data_req_o,
          lsu_ready_ex_o,lsu_ready_wb_o,step,NS,System.grant,hreq,hgnt,hrv,hmis,hwe,data_rdata_ex_o]
/-- What EX holds and how far memory is, given the memory after the accesses
done so far. -/
inductive Stage (m : Memory) (s : System) : Prop
  | free (hreq : s.ex.data_req_ex_i=false) (hissued : s.issued=s.done) (hmem : s.mem=m)
      (hlast : ∀ p, s.pending=some p → p.last=true)
  | first (a : Access) (hex : s.ex=a.ex) (hissued : s.issued=s.done++[a]) (hmem : s.mem=m)
      (hlast : ∀ p, s.pending=some p → p.last=true)
  | second (a : Access) (hex : s.ex=a.ex.second) (hissued : s.issued=s.done++[a])
      (hc : Crosses a.data_type (offset a.ex))
      (hmem : s.mem=if a.we=true then m.writeWord a.addr (data_be a.ex) (data_wdata a.ex) else m)
      (hfirst : match s.pending with
        | none => a.we=false → s.lsu.rdata_q=m.word a.addr
        | some p => p.last=false ∧ p.we=a.we ∧ (a.we=false → p.rdata=m.word a.addr))

/-- The values loaded so far, with the one whose response is due. -/
def System.delivered (s : System) : List (BitVec 32) :=
  match s.pending with
  | some ⟨false,rdata,true⟩ => s.loaded++[data_rdata_ext s.lsu rdata]
  | _ => s.loaded

/-- Every run keeps the memory and the loaded values of the accesses done. -/
structure Valid (m : Memory) (s : System) : Prop where
  /-- Request state and bus agree. -/
  tracks : s.Tracks
  /-- EX and memory agree with the accesses done. -/
  stage : Stage (performAll m s.done).1 s
  /-- Loads return the values of the accesses done. -/
  loads : s.delivered=(performAll m s.done).2

/-- A response delivers its load and keeps everything else. -/
theorem Valid.respond {m : Memory} {s : System} (hs : Valid m s) (c : Cycle) :
    Valid m (s.respond c) := by
  obtain ⟨htracks,hstage,hloads⟩ := hs
  unfold System.respond
  rcases hp : s.pending with _ | p
  · exact ⟨htracks,hstage,hloads⟩
  by_cases hrv : c.rvalid=true
  · simp only [hrv,if_true]
    refine ⟨rfl,?_,?_⟩
    · cases hstage with
      | free hreq hissued hmem hlast => exact .free hreq hissued hmem (by simp)
      | first a hex hissued hmem hlast => exact .first a hex hissued hmem (by simp)
      | second a hex hissued hc hmem hfirst =>
        refine .second a hex hissued hc hmem (fun hwe => ?_)
        simp only [hp] at hfirst
        have hload : p.we=false := hfirst.2.1.trans hwe
        have hsecond : s.ex.data_misaligned_ex_i=true := by rw [hex]; rfl
        simp only [hload,hsecond,Bool.true_or,if_true,Bool.false_eq_true,if_false]
        exact hfirst.2.2 hwe
    · obtain ⟨we,rdata,last⟩ := p
      simp only [System.delivered,hp] at hloads ⊢
      cases we <;> cases last <;> simpa using hloads
  · simp only [hrv]
    exact ⟨htracks,hstage,hloads⟩

/-- A new instruction enters EX. -/
theorem Stage.issue {m : Memory} {s : System} (next : Option Access) (hissued : s.issued=s.done)
    (hmem : s.mem=m) (hlast : ∀ p, s.pending=some p → p.last=true) :
    Stage m { s with ex := s.ex.issue next, issued := s.issued++next.toList } := by
  cases next with
  | none => exact .free rfl (by simpa using hissued) hmem hlast
  | some a => exact .first a rfl (by simp [hissued]) hmem hlast

/-- The grant of an access's last transaction completes it. -/
theorem complete {m : Memory} {s : System} (c : Cycle) (a : Access)
    (hissued : s.issued=s.done++[a]) (hloads : s.loaded=(performAll m s.done).2)
    (hmis : data_misaligned_o s.ex=false) (hwe : s.ex.data_we_ex_i=a.we)
    (hstore : a.we=true → s.mem.writeWord (data_addr_int s.ex) (data_be s.ex) (data_wdata s.ex)=
      (performAll m s.done).1.store a.addr (size a.data_type) a.wdata)
    (hmem : a.we=false → s.mem=(performAll m s.done).1)
    (hload : a.we=false → data_rdata_ext (s.grant c).lsu (s.mem.word (data_addr_int s.ex))=
      extend a.sign_ext ((performAll m s.done).1.load a.addr (size a.data_type))) :
    Valid m (s.grant c) := by
  have hdone : (s.grant c).done=s.issued := by simp [System.grant,hmis]
  have hperform : performAll m s.issued=((a.perform (performAll m s.done).1).1,
      (performAll m s.done).2++(a.perform (performAll m s.done).1).2) := by
    rw [hissued,performAll_concat]
  have hmem' : (s.grant c).mem=(a.perform (performAll m s.done).1).1 := by
    cases ha : a.we with
    | true => simpa [System.grant,hwe,ha,Access.perform] using hstore ha
    | false => simpa [System.grant,hwe,ha,Access.perform] using hmem ha
  refine ⟨⟨rfl,rfl⟩,?_,?_⟩
  · rw [hdone,hperform]
    have hex : (s.grant c).ex=s.ex.issue c.issue := by simp [System.grant,hmis]
    have hissued' : (s.grant c).issued=(s.grant c).done++c.issue.toList := by
      simp [System.grant,hmis]
    have hlast : ∀ p, (s.grant c).pending=some p → p.last=true := by
      simp [System.grant,hmis]
    cases hn : c.issue with
    | none => exact .free (by rw [hex,hn]; rfl) (by simpa [hn] using hissued') hmem' hlast
    | some next => exact .first next (by rw [hex,hn]; rfl) (by simpa [hn] using hissued') hmem' hlast
  · rw [hdone,hperform]
    cases ha : a.we with
    | true => simp [System.delivered,System.grant,hwe,ha,Access.perform,hloads]
    | false =>
      have hl := hload ha
      simp only [System.delivered,System.grant,hwe,ha,hmis,Bool.not_false,Access.perform,
        Bool.false_eq_true,if_false,hloads] at hl ⊢
      rw [hl]

/-- A grant starts a misaligned access or completes the access in EX. -/
theorem Valid.grant {m : Memory} {s : System} (hs : Valid m s) (c : Cycle)
    (hreq : s.ex.data_req_ex_i=true) (hp : s.pending=none) : Valid m (s.grant c) := by
  obtain ⟨htracks,hstage,hloads⟩ := hs
  simp only [System.delivered,hp] at hloads
  cases hstage with
  | free hfree hissued hmem hlast => simp [hreq] at hfree
  | first a hex hissued hmem hlast =>
    cases hmis : data_misaligned_o s.ex with
    | true =>
      have hc : Crosses a.data_type (offset a.ex) := by
        rw [hex] at hmis
        exact (misaligned_iff rfl rfl).mp hmis
      have hdone : (s.grant c).done=s.done := by simp [System.grant,hmis]
      refine ⟨⟨rfl,rfl⟩,?_,?_⟩
      · rw [hdone]
        refine .second a (by rw [←hex]; simp [System.grant,hmis]) (by simp [System.grant,hmis,hissued]) hc
          ?_ ⟨by simp [hmis],by rw [hex]; rfl,fun _ => by rw [hmem,hex]; rfl⟩
        simp only [System.grant,hmem,hex]
        rfl
      · rw [hdone,←hloads]
        simp [System.delivered,System.grant,hmis]
    | false =>
      have hc : ¬Crosses a.data_type (offset a.ex) := by
        intro hc
        rw [hex,(misaligned_iff rfl rfl).mpr hc] at hmis
        cases hmis
      refine complete c a hissued hloads hmis (by rw [hex]; rfl) (fun _ => ?_) (fun _ => hmem)
        (fun _ => ?_)
      · rw [hmem,hex]
        exact store_single _ rfl rfl hc
      · have hlsu : (s.grant c).lsu=
            ⟨.WAIT_RVALID,a.data_type,offset a.ex,a.sign_ext,a.we,s.lsu.rdata_q⟩ := by
          simp only [System.grant,hex]
          rfl
        rw [hlsu,hmem,hex]
        exact load_single _ ⟨_,_,_,_,_,_⟩ a.addr rfl hc
  | second a hex hissued hc hmem hfirst =>
    have hmis : data_misaligned_o s.ex=false := by rw [hex,misaligned_second]
    simp only [hp] at hfirst
    refine complete c a hissued hloads hmis (by rw [hex]; rfl) (fun hwe => ?_) (fun hwe => ?_)
      (fun hwe => ?_)
    · rw [hmem,if_pos hwe,hex]
      exact store_split _ rfl rfl hc
    · rw [hmem,hwe]
      rfl
    · have hm : s.mem=(performAll m s.done).1 := by
        rw [hmem,hwe]
        rfl
      have hlsu : (s.grant c).lsu=
          ⟨.WAIT_RVALID,a.data_type,offset a.ex,a.sign_ext,a.we,s.lsu.rdata_q⟩ := by
        simp only [System.grant,hex,offset_second]
        rfl
      rw [hlsu,hm,hex]
      exact load_split _ ⟨_,_,_,_,_,_⟩ a.addr rfl hc (hfirst hwe)

/-- A request phase keeps the invariant. -/
theorem Valid.request {m : Memory} {s : System} (hs : Valid m s) (c : Cycle) :
    Valid m (s.request c) := by
  unfold System.request
  by_cases hreq : s.ex.data_req_ex_i=true
  · rw [if_pos hreq]
    split_ifs with hg
    · exact hs.grant c hreq (Option.isNone_iff_eq_none.mp hg.1)
    · exact hs
  · rw [if_neg hreq]
    obtain ⟨htracks,hstage,hloads⟩ := hs
    refine ⟨htracks,?_,hloads⟩
    cases hstage with
    | free hfree hissued hmem hlast => exact Stage.issue c.issue hissued hmem hlast
    | first a hex hissued hmem hlast => exact absurd (by rw [hex]; rfl) hreq
    | second a hex hissued hc hmem hfirst => exact absurd (by rw [hex]; rfl) hreq

/-- Every cycle keeps the invariant. -/
theorem Valid.step {m : Memory} {s : System} (hs : Valid m s) (c : Cycle) : Valid m (s.step c) := by
  rw [step_phases hs.tracks]
  exact (hs.respond c).request c

theorem valid_start (m : Memory) : Valid m (System.start m) :=
  ⟨rfl,.free rfl rfl rfl (by simp [System.start]),rfl⟩

/-- Every reachable state is valid. -/
theorem valid_run (m : Memory) (cycles : List Cycle) :
    Valid m (after System.step (System.start m) cycles) :=
  after_invariant (fun _ c hs => hs.step c) (valid_start m) cycles
/-- Grants and responses that EX and the bus still wait for. -/
def System.work (s : System) : ℕ :=
  (if s.pending.isSome=true then 1 else 0)+
    (if s.ex.data_req_ex_i=true then (if data_misaligned_o s.ex=true then 4 else 2) else 0)

/-- The memory gives what is waited for: the response due, or else a grant. -/
def System.answered (s : System) (c : Cycle) : Bool :=
  if s.pending.isSome=true then c.rvalid else c.gnt

/-- A response is one piece of work less. -/
theorem respond_work (s : System) (c : Cycle) :
    (s.respond c).work=s.work-(if s.pending.isSome=true ∧ c.rvalid=true then 1 else 0) := by
  unfold System.respond System.work
  cases hp : s.pending <;> cases hrv : c.rvalid <;> simp [hp]

/-- A grant is at least one piece of work less, and nothing adds work while
the ID stage issues bubbles. -/
theorem request_work (s : System) {c : Cycle} (hn : c.issue=none) :
    (s.request c).work ≤ s.work ∧
      (s.pending=none → c.gnt=true → 0 < s.work → (s.request c).work < s.work) := by
  unfold System.request
  cases hreq : s.ex.data_req_ex_i with
  | false =>
    simp only [Bool.false_eq_true,if_false]
    have hwork : s.work=if s.pending.isSome=true then 1 else 0 := by simp [System.work,hreq]
    have hwork' : System.work
        { s with ex := s.ex.issue c.issue, issued := s.issued++c.issue.toList }=
        if s.pending.isSome=true then 1 else 0 := by simp [System.work,hn,Ex.issue]
    rw [hwork,hwork']
    refine ⟨Nat.le_refl _,fun hp _ hpos => ?_⟩
    simp [hp] at hpos
  | true =>
    simp only [if_true]
    cases hp : s.pending with
    | some p => simp
    | none =>
      cases hg : c.gnt with
      | false => simp
      | true =>
        have hlt : (s.grant c).work < s.work := by
          cases hmis : data_misaligned_o s.ex with
          | true =>
            have hsecond := misaligned_second s.ex
            have hreq2 : s.ex.second.data_req_ex_i=true := hreq
            simp [System.work,System.grant,hmis,hp,hreq,hreq2,hsecond]
          | false => simp [System.work,System.grant,hmis,hp,hreq,hn,Ex.issue]
        simp only [Option.isNone_none,and_self,if_true]
        exact ⟨hlt.le,fun _ _ _ => hlt⟩

/-- A cycle without a new instruction never adds work, and one that the
memory answers takes some away. -/
theorem step_work {s : System} (hs : s.Tracks) {c : Cycle} (hn : c.issue=none) :
    (s.step c).work ≤ s.work ∧ (s.answered c=true → 0 < s.work → (s.step c).work < s.work) := by
  have hr := respond_work s c
  obtain ⟨hle,hlt⟩ := request_work (s.respond c) hn
  rw [step_phases hs]
  refine ⟨by omega,fun ha hpos => ?_⟩
  unfold System.answered at ha
  cases hp : s.pending with
  | some p =>
    simp only [hp,Option.isSome_some,if_true] at ha
    simp only [hp,Option.isSome_some,ha,and_self,if_true] at hr
    omega
  | none =>
    have hsame : s.respond c=s := by simp [System.respond,hp]
    simp only [hp,Option.isSome_none,Bool.false_eq_true,if_false] at ha
    rw [hsame] at hle hlt ⊢
    exact hlt hp ha hpos

/-- Without a new instruction the program stays as it was. -/
theorem step_issued {s : System} (hs : s.Tracks) {c : Cycle} (hn : c.issue=none) :
    (s.step c).issued=s.issued := by
  rw [step_phases hs]
  unfold System.request System.respond System.grant
  rcases s.pending with _ | p <;> cases c.rvalid <;> simp [hn] <;> split_ifs <;> simp

/-- With no work left every issued access is done. -/
theorem Valid.drained {m : Memory} {s : System} (hs : Valid m s) (hw : s.work=0) :
    s.mem=(performAll m s.issued).1 ∧ s.loaded=(performAll m s.issued).2 := by
  obtain ⟨htracks,hstage,hloads⟩ := hs
  have hp : s.pending=none := by
    cases hp : s.pending with
    | none => rfl
    | some p => simp [System.work,hp] at hw
  have hreq : s.ex.data_req_ex_i=false := by
    cases hreq : s.ex.data_req_ex_i with
    | false => rfl
    | true =>
      simp only [System.work,hreq,if_true] at hw
      split_ifs at hw
  simp only [System.delivered,hp] at hloads
  cases hstage with
  | free _ hissued hmem _ =>
    rw [hissued]
    exact ⟨hmem,hloads⟩
  | first a hex _ _ _ =>
    rw [hex] at hreq
    cases hreq
  | second a hex _ _ _ _ =>
    rw [hex] at hreq
    cases hreq

/-- Loads and stores are byte-wise little-endian accesses, performed one after
the other, for every program, memory and bus latency: between accesses memory
is that of the accesses done, with no response due their loads have returned,
and once the memory has given five answers everything issued is done. -/
theorem access_effect (m : Memory) (cycles : List Cycle) :
    let s := after System.step (System.start m) cycles
    (s.halfway=false → s.mem=(performAll m s.done).1) ∧
      (s.pending=none → s.loaded=(performAll m s.done).2) ∧
      ∀ drain : List Cycle, (∀ c ∈ drain, c.issue=none) →
        5 ≤ count System.step System.answered s drain →
        let t := after System.step s drain
        t.mem=(performAll m s.issued).1 ∧ t.loaded=(performAll m s.issued).2 := by
  dsimp only
  have hs := valid_run m cycles
  generalize after System.step (System.start m) cycles=s at hs ⊢
  refine ⟨fun hh => ?_,fun hp => ?_,fun drain hn hcount => ?_⟩
  · cases hs.stage with
    | free hreq hissued hmem hlast => exact hmem
    | first a hex hissued hmem hlast => exact hmem
    | second a hex hissued hc hmem hfirst =>
      rw [System.halfway,hex] at hh
      cases hh
  · simpa [System.delivered,hp] using hs.loads
  · obtain ⟨⟨hvalid,hissued⟩,hle⟩ := measure_after (C := System.answered)
      (P := fun t => Valid m t ∧ t.issued=s.issued) (Q := fun c => c.issue=none) System.work
      (fun t c ht hc => ⟨ht.1.step c,(step_issued ht.1.tracks hc).trans ht.2⟩)
      (fun t c ht hc => (step_work ht.1.tracks hc).1)
      (fun t c ht hc => (step_work ht.1.tracks hc).2) ⟨hs,rfl⟩ hn
    have hbound : s.work≤5 := by
      unfold System.work
      split_ifs <;> omega
    rw [←hissued]
    exact hvalid.drained (by omega)

end Pulpissimo.Riscv.LoadStore

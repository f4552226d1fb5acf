import Mathlib.Data.BitVec
import Pulpissimo.Lib.Machine
import Pulpissimo.Riscv.LoadStore

/-!
# The zero-riscy load-store unit over a byte memory

The request state machine of `zeroriscy_load_store_unit`, which repeats a
misaligned access at the next word by itself, over a memory that grants and
answers after any delay. Byte lanes, store rotation and load merging are those
of the RI5CY unit. Every access makes one or two transactions, answers once,
and has its byte-wise little-endian effect.
-/

namespace Pulpissimo.ZeroRiscy.LoadStore

open Pulpissimo.Machine Pulpissimo.WordAddr
open Pulpissimo.Riscv.LoadStore (Memory Crosses extend size performAll performAll_concat)

/-- States of the request machine. -/
inductive FsmState
  | IDLE | WAIT_GNT_MIS | WAIT_RVALID_MIS | WAIT_GNT | WAIT_RVALID
  deriving DecidableEq

/-- Registers of the unit. -/
structure State where
  /-- Request state. -/
  CS : FsmState
  /-- Size of the granted access: 00 word, 01 half word, else byte. -/
  data_type_q : BitVec 2
  /-- Byte offset of the granted access. -/
  rdata_offset_q : BitVec 2
  /-- Sign extension of the granted access. -/
  data_sign_ext_q : Bool
  /-- The granted access is a store. -/
  data_we_q : Bool
  /-- First word of a misaligned load, else the last value loaded. -/
  rdata_q : BitVec 32
  /-- The second transaction of a misaligned access is to be made. -/
  data_misaligned_q : Bool
  /-- Address of the first transaction of a misaligned access. -/
  misaligned_addr_o : BitVec 32

/-- Values after reset. -/
def reset : State := ⟨.IDLE,0,0,false,false,0,false,0⟩

/-- What the ID and EX stages give. -/
structure Ex where
  /-- Store. -/
  data_we_ex_i : Bool
  /-- Access size. -/
  data_type_ex_i : BitVec 2
  /-- Store data. -/
  data_wdata_ex_i : BitVec 32
  /-- Byte offset in the source register. -/
  data_reg_offset_ex_i : BitVec 2
  /-- Sign extension. -/
  data_sign_ext_ex_i : Bool
  /-- Access wanted. -/
  data_req_ex_i : Bool
  /-- Address, the sum that the ALU makes. -/
  adder_result_ex_i : BitVec 32

/-- Data bus inputs. -/
structure Bus where
  /-- Request granted. -/
  data_gnt_i : Bool
  /-- Response valid. -/
  data_rvalid_i : Bool
  /-- Word read. -/
  data_rdata_i : BitVec 32

section Code

variable (s : State) (e : Ex) (b : Bus)

/-- Address of the transaction. -/
def data_addr_int : BitVec 32 := e.adder_result_ex_i

/-- The RI5CY unit at the same transaction. -/
def wide : Riscv.LoadStore.Ex :=
  ⟨e.data_req_ex_i,e.data_we_ex_i,e.data_type_ex_i,e.data_wdata_ex_i,e.data_reg_offset_ex_i,
    e.data_sign_ext_ex_i,data_addr_int e,0,false,s.data_misaligned_q⟩

/-- Its registers for the loaded data. -/
def State.wide : Riscv.LoadStore.State :=
  ⟨.IDLE,s.data_type_q,s.rdata_offset_q,s.data_sign_ext_q,s.data_we_q,s.rdata_q⟩

/-- Byte enables: the tables of RI5CY, for the second half of a misaligned
access if `misaligned_st` is set. -/
def data_be : BitVec 4 := Riscv.LoadStore.data_be (wide s e)

/-- Store data, rotated by `wdata_offset`. -/
def data_wdata : BitVec 32 := Riscv.LoadStore.data_wdata (wide s e)

/-- Value loaded: the tables of RI5CY for words, half words and bytes. -/
def data_rdata_ext : BitVec 32 := Riscv.LoadStore.data_rdata_ext s.wide b.data_rdata_i

/-- Value for the register file. -/
def data_rdata_ex_o : BitVec 32 := if b.data_rvalid_i then data_rdata_ext s b else s.rdata_q

/-- The access crosses a word, and its second transaction is still to come. -/
def data_misaligned : Bool :=
  e.data_req_ex_i && !s.data_misaligned_q &&
    match e.data_type_ex_i with
    | 0b00#2 => (data_addr_int e).extractLsb' 0 2 != 0b00#2
    | 0b01#2 => (data_addr_int e).extractLsb' 0 2 == 0b11#2
    | _ => false

/-- Bus request. -/
def data_req_o (data_rvalid_i : Bool) : Bool :=
  match s.CS with
  | .IDLE => e.data_req_ex_i
  | .WAIT_GNT_MIS => true
  | .WAIT_RVALID_MIS => data_rvalid_i
  | .WAIT_GNT => true
  | .WAIT_RVALID => false

/-- The controller gives the address of the second transaction. -/
def data_misaligned_o : Bool :=
  match s.CS with
  | .WAIT_RVALID_MIS => true
  | .WAIT_GNT => s.data_misaligned_q
  | .IDLE | .WAIT_GNT_MIS | .WAIT_RVALID => false

/-- The misaligned flag is taken over. -/
def lsu_update_addr_o : Bool :=
  match s.CS with
  | .IDLE => e.data_req_ex_i && b.data_gnt_i
  | .WAIT_GNT_MIS | .WAIT_RVALID_MIS | .WAIT_GNT => b.data_gnt_i
  | .WAIT_RVALID => false

/-- The address of the first transaction is kept. -/
def increase_address : Bool :=
  match s.CS with
  | .IDLE => e.data_req_ex_i && b.data_gnt_i && data_misaligned s e
  | .WAIT_GNT_MIS => b.data_gnt_i && data_misaligned s e
  | .WAIT_RVALID_MIS | .WAIT_GNT | .WAIT_RVALID => false

/-- The access is complete. -/
def data_valid_o : Bool :=
  match s.CS with
  | .WAIT_RVALID => b.data_rvalid_i
  | .IDLE | .WAIT_GNT_MIS | .WAIT_RVALID_MIS | .WAIT_GNT => false

/-- Activity flag. -/
def busy_o : Bool := s.CS == .WAIT_RVALID || data_req_o s e b.data_rvalid_i

/-- Next request state. -/
def NS : FsmState :=
  match s.CS with
  | .IDLE =>
    if e.data_req_ex_i then
      if b.data_gnt_i then (if data_misaligned s e then .WAIT_RVALID_MIS else .WAIT_RVALID)
      else (if data_misaligned s e then .WAIT_GNT_MIS else .WAIT_GNT)
    else .IDLE
  | .WAIT_GNT_MIS => if b.data_gnt_i then .WAIT_RVALID_MIS else .WAIT_GNT_MIS
  | .WAIT_RVALID_MIS =>
    if b.data_rvalid_i then (if b.data_gnt_i then .WAIT_RVALID else .WAIT_GNT)
    else .WAIT_RVALID_MIS
  | .WAIT_GNT => if b.data_gnt_i then .WAIT_RVALID else .WAIT_GNT
  | .WAIT_RVALID => if b.data_rvalid_i then .IDLE else .WAIT_RVALID

/-- One clock edge. -/
def step : State where
  CS := NS s e b
  data_type_q := if b.data_gnt_i then e.data_type_ex_i else s.data_type_q
  rdata_offset_q := if b.data_gnt_i then (data_addr_int e).extractLsb' 0 2 else s.rdata_offset_q
  data_sign_ext_q := if b.data_gnt_i then e.data_sign_ext_ex_i else s.data_sign_ext_q
  data_we_q := if b.data_gnt_i then e.data_we_ex_i else s.data_we_q
  rdata_q :=
    if b.data_rvalid_i && !s.data_we_q then
      -- the first word of a misaligned load is kept as it came
      if s.data_misaligned_q || data_misaligned s e then b.data_rdata_i else data_rdata_ext s b
    else s.rdata_q
  data_misaligned_q :=
    if lsu_update_addr_o s e b then data_misaligned s e else s.data_misaligned_q
  misaligned_addr_o :=
    if lsu_update_addr_o s e b && increase_address s e b then data_addr_int e
    else s.misaligned_addr_o

end Code

/-- A load or store as the ID stage holds it. The decoder always gives the
register offset zero. -/
structure Access where
  /-- Store. -/
  we : Bool
  /-- Access size. -/
  data_type : BitVec 2
  /-- Sign extension. -/
  sign_ext : Bool
  /-- Store data. -/
  wdata : BitVec 32
  /-- Address. -/
  addr : BitVec 32
  deriving DecidableEq

/-- The same access on RI5CY. -/
def Access.wide (a : Access) : Riscv.LoadStore.Access :=
  ⟨a.we,a.data_type,a.sign_ext,a.wdata,a.addr,0,false⟩

/-- The access crosses into the next word. -/
def Access.Crosses (a : Access) : Prop :=
  Riscv.LoadStore.Crosses a.data_type (a.addr.extractLsb' 0 2)

instance (a : Access) : Decidable a.Crosses := inferInstanceAs (Decidable (Riscv.LoadStore.Crosses _ _))

/-- The addresses of its transactions. -/
def Access.transactions (a : Access) : List (BitVec 32) :=
  if a.Crosses then [a.addr,a.addr+4] else [a.addr]

/-- A granted transaction whose response is due. -/
structure Pending where
  /-- Store. -/
  we : Bool
  /-- Word read. -/
  rdata : BitVec 32

/-- What a cycle with `data_valid_o` reports. -/
structure Report where
  /-- The access held by the ID stage. -/
  access : Option Access
  /-- Transactions granted since the report before. -/
  granted : List (BitVec 32)
  /-- The value for the register file. -/
  rdata : BitVec 32

/-- The unit between the ID stage and the data memory. -/
structure System where
  /-- The unit. -/
  lsu : State
  /-- The access that the ID stage holds. -/
  held : Option Access
  /-- Responses due, oldest first. -/
  pending : List Pending
  /-- Memory contents. -/
  mem : Memory
  /-- Accesses that the ID stage took up, oldest first. -/
  issued : List Access
  /-- Transactions granted since the last report. -/
  granted : List (BitVec 32)
  /-- A report for every cycle with `data_valid_o`, oldest first. -/
  log : List Report

/-- One cycle of the environment. -/
structure Cycle where
  /-- The memory would grant a request. -/
  gnt : Bool
  /-- The memory answers if a response is due. -/
  rvalid : Bool
  /-- Read data when the memory has none to return. -/
  junk : BitVec 32
  /-- The other lines of the ID stage while it holds no access. -/
  idle : Access
  /-- What the ID stage takes up once it is free. -/
  issue : Option Access

section System

variable (s : System) (c : Cycle)

/-- The lines from the ID stage, which holds the access and adds four to the
address of a misaligned one when it is told to. -/
def System.ex : Ex :=
  let a := s.held.getD c.idle
  ⟨a.we,a.data_type,a.wdata,0,a.sign_ext,s.held.isSome,
    if data_misaligned_o s.lsu then s.lsu.misaligned_addr_o+4 else a.addr⟩

/-- The bus as the unit sees it: a grant needs a request and a response needs
a granted transaction. -/
def System.bus : Bus :=
  let rvalid := c.rvalid && !s.pending.isEmpty
  { data_gnt_i := c.gnt && data_req_o s.lsu (s.ex c) rvalid
    data_rvalid_i := rvalid
    data_rdata_i := match s.pending with
      | ⟨false,rdata⟩::_ => if rvalid then rdata else c.junk
      | _ => c.junk }

/-- One clock edge of the unit, the ID stage and the memory. -/
def System.step : System :=
  let e := s.ex c
  let b := s.bus c
  let valid := data_valid_o s.lsu b
  let granted := s.granted++if b.data_gnt_i then [data_addr_int e] else []
  let enters := valid || s.held.isNone
  { lsu := LoadStore.step s.lsu e b
    held := if enters then c.issue else s.held
    pending := (if b.data_rvalid_i then s.pending.tail else s.pending)++
      if b.data_gnt_i then [⟨e.data_we_ex_i,s.mem.word (data_addr_int e)⟩] else []
    mem :=
      if b.data_gnt_i && e.data_we_ex_i then
        s.mem.writeWord (data_addr_int e) (data_be s.lsu e) (data_wdata s.lsu e)
      else s.mem
    issued := if enters then s.issued++c.issue.toList else s.issued
    granted := if valid then [] else granted
    log := if valid then s.log++[⟨s.held,granted,data_rdata_ex_o s.lsu b⟩] else s.log }

/-- Accesses that were reported, oldest first. -/
def System.served : List Access := s.log.filterMap Report.access

/-- Values reported for loads, oldest first. -/
def System.loaded : List (BitVec 32) :=
  (s.log.filter fun r => r.access.any fun a => !a.we).map Report.rdata

end System

/-- After reset, with any memory contents. -/
def System.start (m : Memory) : System := ⟨reset,none,[],m,[],[],[]⟩

/-- The accesses of a program performed one after the other, byte by byte. -/
def performed (m : Memory) (as : List Access) : Memory×List (BitVec 32) :=
  performAll m (as.map Access.wide)

/-- A request is misaligned exactly if it crosses and its first half is not done. -/
theorem data_misaligned_iff {s : State} {e : Ex} (hreq : e.data_req_ex_i=true) :
    data_misaligned s e=true ↔ s.data_misaligned_q=false ∧
      Crosses e.data_type_ex_i ((data_addr_int e).extractLsb' 0 2) := by
  unfold data_misaligned
  rw [hreq]
  generalize e.data_type_ex_i=ty
  generalize (data_addr_int e).extractLsb' 0 2=r
  generalize s.data_misaligned_q=q
  revert ty r q
  decide

section Access

variable (m : Memory) (a : Access)

/-- Memory after the first of two transactions. -/
def Access.half : Memory :=
  if a.we=true then m.writeWord a.addr (Riscv.LoadStore.data_be a.wide.ex)
    (Riscv.LoadStore.data_wdata a.wide.ex) else m

/-- The lines of the ID stage in the first transaction. -/
def Access.lines : Ex := ⟨a.we,a.data_type,a.wdata,0,a.sign_ext,true,a.addr⟩

/-- The lines of the ID stage in the second transaction. -/
def Access.again : Ex := { a.lines with adder_result_ex_i := a.addr+4 }

variable {a}

/-- The second transaction is the second one of RI5CY. -/
theorem again_lanes {s : State} (hq : s.data_misaligned_q=true) :
    data_be s a.again=Riscv.LoadStore.data_be a.wide.ex.second ∧
      data_wdata s a.again=Riscv.LoadStore.data_wdata a.wide.ex.second := by
  unfold data_be data_wdata wide
  rw [hq]
  exact ⟨rfl,rfl⟩

/-- The memory and the value that one access leaves. -/
theorem perform_eq : (a.wide.perform m).1=
      (if a.we=true then m.store a.addr (size a.data_type) a.wdata else m) ∧
    (a.wide.perform m).2=if a.we=true then [] else
      [extend a.sign_ext (m.load a.addr (size a.data_type))] := by
  unfold Riscv.LoadStore.Access.perform
  cases hwe : a.we with
  | true =>
    have hwide : a.wide.we=true := hwe
    rw [hwide]
    exact ⟨rfl,rfl⟩
  | false =>
    have hwide : a.wide.we=false := hwe
    rw [hwide]
    exact ⟨rfl,rfl⟩

end Access

/-- How far the held access is, given the memory after those before it. -/
inductive Stage (m : Memory) (s : System) : Prop
  | free (hheld : s.held=none) (hCS : s.lsu.CS=.IDLE) (hq : s.lsu.data_misaligned_q=false)
      (hpending : s.pending=[]) (hgranted : s.granted=[]) (hmem : s.mem=m)
  | fresh (a : Access) (hheld : s.held=some a) (hCS : s.lsu.CS=.IDLE ∨
        s.lsu.CS=.WAIT_GNT ∧ ¬a.Crosses ∨ s.lsu.CS=.WAIT_GNT_MIS ∧ a.Crosses)
      (hq : s.lsu.data_misaligned_q=false) (hpending : s.pending=[]) (hgranted : s.granted=[])
      (hmem : s.mem=m)
  | first (a : Access) (hheld : s.held=some a) (hCS : s.lsu.CS=.WAIT_RVALID_MIS) (hc : a.Crosses)
      (hq : s.lsu.data_misaligned_q=true) (haddr : s.lsu.misaligned_addr_o=a.addr)
      (hwe : s.lsu.data_we_q=a.we) (hpending : s.pending=[⟨a.we,m.word a.addr⟩])
      (hgranted : s.granted=[a.addr]) (hmem : s.mem=a.half m)
  | between (a : Access) (hheld : s.held=some a) (hCS : s.lsu.CS=.WAIT_GNT) (hc : a.Crosses)
      (hq : s.lsu.data_misaligned_q=true) (haddr : s.lsu.misaligned_addr_o=a.addr)
      (hpending : s.pending=[]) (hgranted : s.granted=[a.addr]) (hmem : s.mem=a.half m)
      (hrdata : a.we=false → s.lsu.rdata_q=m.word a.addr)
  | last (a : Access) (w : BitVec 32) (hheld : s.held=some a) (hCS : s.lsu.CS=.WAIT_RVALID)
      (hq : s.lsu.data_misaligned_q=false) (hpending : s.pending=[⟨a.we,w⟩])
      (hgranted : s.granted=a.transactions) (hmem : s.mem=(a.wide.perform m).1)
      (hload : a.we=false → Riscv.LoadStore.data_rdata_ext s.lsu.wide w=
        extend a.sign_ext (m.load a.addr (size a.data_type)))

section Step

variable {m : Memory} {s : System} {c : Cycle}

/-- With no response due the bus answers nothing. -/
theorem bus_empty (hp : s.pending=[]) :
    s.bus c=⟨c.gnt && data_req_o s.lsu (s.ex c) false,false,c.junk⟩ := by
  unfold System.bus
  rw [hp]
  simp

/-- The lines while an access is held. -/
theorem ex_held {a : Access} (hheld : s.held=some a) : s.ex c=
    if data_misaligned_o s.lsu=true then { a.lines with adder_result_ex_i := s.lsu.misaligned_addr_o+4 }
    else a.lines := by
  unfold System.ex
  rw [hheld]
  cases data_misaligned_o s.lsu <;> rfl

/-- A cycle without `data_valid_o` reports nothing, and a held access stays. -/
theorem step_quiet (hv : data_valid_o s.lsu (s.bus c)=false) : (s.step c).log=s.log ∧
    (s.step c).held=(if s.held.isNone then c.issue else s.held) ∧
    (s.step c).granted=s.granted++(if (s.bus c).data_gnt_i then [data_addr_int (s.ex c)] else []) := by
  unfold System.step
  simp only [hv,Bool.false_or,Bool.false_eq_true,if_false,and_self]

/-- The memory while the transaction of an access is granted. -/
theorem granted_mem (hq : s.lsu.data_misaligned_q=false) (a : Access) :
    (if a.we=true then m.writeWord a.addr (data_be s.lsu a.lines) (data_wdata s.lsu a.lines) else m)=
      a.half m := by
  unfold data_be data_wdata wide
  rw [hq]
  rfl

/-- One transaction does the whole of an access within a word. -/
theorem half_eq_perform {a : Access} (hc : ¬a.Crosses) : a.half m=(a.wide.perform m).1 := by
  rw [(perform_eq m).1]
  unfold Access.half
  split_ifs with hwe
  · exact Riscv.LoadStore.store_single m (e := a.wide.ex) rfl rfl hc
  · rfl

/-- The first grant of an access: its only one, or the first of two. -/
theorem Stage.fresh_granted {a : Access} (hheld : s.held=some a) (hCS : s.lsu.CS=.IDLE ∨
      s.lsu.CS=.WAIT_GNT ∧ ¬a.Crosses ∨ s.lsu.CS=.WAIT_GNT_MIS ∧ a.Crosses)
    (hq : s.lsu.data_misaligned_q=false) (hpending : s.pending=[]) (hgranted : s.granted=[])
    (hmem : s.mem=m) (hg : c.gnt=true) : Stage m (s.step c) := by
  have hreq : a.lines.data_req_ex_i=true := rfl
  have he : s.ex c=a.lines := by
    rw [ex_held hheld,if_neg]
    rcases hCS with hCS | ⟨hCS,-⟩ | ⟨hCS,-⟩ <;> simp [data_misaligned_o,hCS,hq]
  have hb : s.bus c=⟨true,false,c.junk⟩ := by
    rw [bus_empty hpending,he,hg]
    rcases hCS with hCS | ⟨hCS,-⟩ | ⟨hCS,-⟩ <;> simp [data_req_o,hCS,hreq]
  have hmis : data_misaligned s.lsu a.lines=true ↔ a.Crosses := by
    rw [data_misaligned_iff rfl]
    exact and_iff_right hq
  have hv : data_valid_o s.lsu (s.bus c)=false := by
    rcases hCS with hCS | ⟨hCS,-⟩ | ⟨hCS,-⟩ <;> simp [data_valid_o,hCS]
  have hheld' : (s.step c).held=some a := by rw [(step_quiet hv).2.1,hheld]; rfl
  have hgranted' : (s.step c).granted=[a.addr] := by
    rw [(step_quiet hv).2.2,hgranted,hb,he]
    rfl
  have hpending' : (s.step c).pending=[⟨a.we,m.word a.addr⟩] := by
    simp only [System.step,he,hb,hpending,hmem]
    rfl
  have hmem' : (s.step c).mem=a.half m := by
    rw [←granted_mem hq a]
    simp only [System.step,he,hb,hmem]
    rfl
  have hlsu : (s.step c).lsu=LoadStore.step s.lsu a.lines ⟨true,false,c.junk⟩ := by
    simp only [System.step,he,hb]
  have hupdate : lsu_update_addr_o s.lsu a.lines ⟨true,false,c.junk⟩=true := by
    rcases hCS with hCS | ⟨hCS,-⟩ | ⟨hCS,-⟩ <;> simp [lsu_update_addr_o,hCS,hreq]
  by_cases hc : a.Crosses
  · have hmis' := hmis.mpr hc
    refine .first a hheld' ?_ hc ?_ ?_ ?_ hpending' hgranted' hmem' <;> rw [hlsu]
    · rcases hCS with hCS | ⟨-,hno⟩ | ⟨hCS,-⟩
      · simp [LoadStore.step,NS,hCS,hmis',hreq]
      · exact absurd hc hno
      · simp [LoadStore.step,NS,hCS]
    · simp [LoadStore.step,hupdate,hmis']
    · rcases hCS with hCS | ⟨-,hno⟩ | ⟨hCS,-⟩
      · simp [LoadStore.step,hupdate,increase_address,hCS,hmis',hreq]
        rfl
      · exact absurd hc hno
      · simp [LoadStore.step,hupdate,increase_address,hCS,hmis']
        rfl
    · rfl
  · have hmis' : data_misaligned s.lsu a.lines=false := Bool.eq_false_iff.mpr fun h => hc (hmis.mp h)
    refine .last a (m.word a.addr) hheld' ?_ ?_ hpending' ?_ ?_ fun _ => ?_
    · rw [hlsu]
      rcases hCS with hCS | ⟨hCS,-⟩ | ⟨-,hyes⟩
      · simp [LoadStore.step,NS,hCS,hmis',hreq]
      · simp [LoadStore.step,NS,hCS]
      · exact absurd hyes hc
    · rw [hlsu]
      simp [LoadStore.step,hupdate,hmis']
    · rw [hgranted',Access.transactions,if_neg hc]
    · rw [hmem',half_eq_perform hc]
    · rw [hlsu]
      exact Riscv.LoadStore.load_single m _ a.addr rfl hc

/-- The second word joined with the kept first one. -/
theorem load_joined {t : State} {a : Access} (hc : a.Crosses)
    (hoffset : t.rdata_offset_q=a.addr.extractLsb' 0 2) (htype : t.data_type_q=a.data_type)
    (hsign : t.data_sign_ext_q=a.sign_ext) (hrdata : t.rdata_q=m.word a.addr) :
    Riscv.LoadStore.data_rdata_ext t.wide (m.word (a.addr+4))=
      extend a.sign_ext (m.load a.addr (size a.data_type)) := by
  unfold Access.Crosses at hc
  rw [←htype,←hoffset] at hc
  rw [←htype,←hsign]
  exact Riscv.LoadStore.load_split m t.wide a.addr hoffset hc hrdata

/-- The second grant of an access that crosses a word. -/
theorem Stage.second_granted {a : Access} (hheld : s.held=some a)
    (hCS : s.lsu.CS=.WAIT_RVALID_MIS ∧ (s.bus c).data_rvalid_i=true ∨ s.lsu.CS=.WAIT_GNT)
    (hc : a.Crosses) (hq : s.lsu.data_misaligned_q=true) (haddr : s.lsu.misaligned_addr_o=a.addr)
    (hgranted : s.granted=[a.addr]) (hmem : s.mem=a.half m)
    (hrest : (if (s.bus c).data_rvalid_i then s.pending.tail else s.pending)=[])
    (hrdata : a.we=false → (LoadStore.step s.lsu (s.ex c) (s.bus c)).rdata_q=m.word a.addr)
    (hg : (s.bus c).data_gnt_i=true) : Stage m (s.step c) := by
  have he : s.ex c=a.again := by
    rw [ex_held hheld,if_pos,haddr]
    · rfl
    · rcases hCS with ⟨hCS,-⟩ | hCS <;> simp [data_misaligned_o,hCS,hq]
  have hmis : data_misaligned s.lsu a.again=false := by simp [data_misaligned,hq]
  have hv : data_valid_o s.lsu (s.bus c)=false := by
    rcases hCS with ⟨hCS,-⟩ | hCS <;> simp [data_valid_o,hCS]
  have hheld' : (s.step c).held=some a := by rw [(step_quiet hv).2.1,hheld]; rfl
  have hgranted' : (s.step c).granted=[a.addr,a.addr+4] := by
    rw [(step_quiet hv).2.2,hgranted,hg,he]
    rfl
  have hpending' : (s.step c).pending=[⟨a.we,s.mem.word (a.addr+4)⟩] := by
    simp only [System.step]
    rw [hrest,hg,he]
    rfl
  have hupdate : lsu_update_addr_o s.lsu (s.ex c) (s.bus c)=true := by
    rcases hCS with ⟨hCS,-⟩ | hCS <;> simp [lsu_update_addr_o,hCS,hg]
  have hlanes := again_lanes (a := a) hq
  refine .last a (s.mem.word (a.addr+4)) hheld' ?_ ?_ hpending' ?_ ?_ fun hwe => ?_
  · rcases hCS with ⟨hCS,hrv⟩ | hCS
    · simp [System.step,LoadStore.step,NS,hCS,hg,hrv]
    · simp [System.step,LoadStore.step,NS,hCS,hg]
  · simp only [System.step,LoadStore.step,hupdate,if_true]
    rw [he,hmis]
  · rw [hgranted',Access.transactions,if_pos hc]
  · have hmem' : (s.step c).mem=if a.we=true then s.mem.writeWord (a.addr+4)
        (data_be s.lsu a.again) (data_wdata s.lsu a.again) else s.mem := by
      simp only [System.step,hg,he]
      rfl
    rw [hmem',hmem,hlanes.1,hlanes.2,(perform_eq m).1]
    split_ifs with hwe
    · unfold Access.half
      rw [if_pos hwe]
      exact Riscv.LoadStore.store_split m (e := a.wide.ex) rfl rfl hc
    · unfold Access.half
      rw [if_neg hwe]
  · have hfirst : a.half m=m := if_neg (by simp [hwe])
    rw [hmem,hfirst]
    have hoffset : (LoadStore.step s.lsu (s.ex c) (s.bus c)).rdata_offset_q=a.addr.extractLsb' 0 2 := by
      simp only [LoadStore.step,hg,if_true]
      rw [he]
      exact Riscv.LoadStore.offset_second a.wide.ex
    have htype : (LoadStore.step s.lsu (s.ex c) (s.bus c)).data_type_q=a.data_type := by
      simp only [LoadStore.step,hg,if_true]
      rw [he]
      rfl
    have hsign : (LoadStore.step s.lsu (s.ex c) (s.bus c)).data_sign_ext_q=a.sign_ext := by
      simp only [LoadStore.step,hg,if_true]
      rw [he]
      rfl
    have hlsu : (s.step c).lsu=LoadStore.step s.lsu (s.ex c) (s.bus c) := rfl
    rw [hlsu]
    exact load_joined hc hoffset htype hsign (hrdata hwe)

/-- A cycle that completes no access keeps the stages. -/
theorem Stage.quiet (h : Stage m s) (hv : data_valid_o s.lsu (s.bus c)=false) :
    Stage m (s.step c) := by
  have hquiet := step_quiet hv
  cases h with
  | free hheld hCS hq hpending hgranted hmem =>
    have hreq : (s.ex c).data_req_ex_i=false := by simp [System.ex,hheld]
    have hb : s.bus c=⟨false,false,c.junk⟩ := by
      rw [bus_empty hpending]
      simp [data_req_o,hCS,hreq]
    have hheld' : (s.step c).held=c.issue := by rw [hquiet.2.1,hheld]; rfl
    have hCS' : (s.step c).lsu.CS=.IDLE := by simp [System.step,LoadStore.step,NS,hCS,hreq]
    have hq' : (s.step c).lsu.data_misaligned_q=false := by
      simp [System.step,LoadStore.step,lsu_update_addr_o,hCS,hreq,hq]
    have hpending' : (s.step c).pending=[] := by simp [System.step,hb,hpending]
    have hgranted' : (s.step c).granted=[] := by
      rw [hquiet.2.2,hgranted,hb]
      rfl
    have hmem' : (s.step c).mem=m := by simp [System.step,hb,hmem]
    cases hi : c.issue with
    | none => exact .free (hheld'.trans hi) hCS' hq' hpending' hgranted' hmem'
    | some a => exact .fresh a (hheld'.trans hi) (Or.inl hCS') hq' hpending' hgranted' hmem'
  | fresh a hheld hCS hq hpending hgranted hmem =>
    by_cases hg : c.gnt=true
    · exact Stage.fresh_granted hheld hCS hq hpending hgranted hmem hg
    · have he : s.ex c=a.lines := by
        rw [ex_held hheld,if_neg]
        rcases hCS with hCS | ⟨hCS,-⟩ | ⟨hCS,-⟩ <;> simp [data_misaligned_o,hCS,hq]
      have hb : s.bus c=⟨false,false,c.junk⟩ := by
        rw [bus_empty hpending]
        simp [hg]
      have hreq : a.lines.data_req_ex_i=true := rfl
      have hmis : data_misaligned s.lsu a.lines=true ↔ a.Crosses := by
        rw [data_misaligned_iff rfl]
        exact and_iff_right hq
      have hheld' : (s.step c).held=some a := by rw [hquiet.2.1,hheld]; rfl
      have hupdate : lsu_update_addr_o s.lsu a.lines ⟨false,false,c.junk⟩=false := by
        rcases hCS with hCS | ⟨hCS,-⟩ | ⟨hCS,-⟩ <;> simp [lsu_update_addr_o,hCS]
      refine .fresh a hheld' ?_ ?_ ?_ ?_ ?_
      · simp only [System.step,LoadStore.step,NS,he,hb,hreq]
        rcases hCS with hCS | ⟨hCS,hno⟩ | ⟨hCS,hyes⟩
        · by_cases hc : a.Crosses
          · simp [hCS,hmis.mpr hc,hc]
          · have hmis' : data_misaligned s.lsu a.lines=false :=
              Bool.eq_false_iff.mpr fun h => hc (hmis.mp h)
            simp [hCS,hmis',hc]
        · simp [hCS,hno]
        · simp [hCS,hyes]
      · simp only [System.step,LoadStore.step,he,hb,hupdate]
        exact hq
      · simp [System.step,hb,hpending]
      · rw [hquiet.2.2,hgranted,hb]
        rfl
      · simp [System.step,hb,hmem]
  | first a hheld hCS hc hq haddr hwe hpending hgranted hmem =>
    have hrv : (s.bus c).data_rvalid_i=c.rvalid := by simp [System.bus,hpending]
    have hgnt : (s.bus c).data_gnt_i=(c.gnt && c.rvalid) := by
      simp [System.bus,hpending,data_req_o,hCS]
    by_cases hr : c.rvalid=true
    · -- the first word comes in, and the second request goes out
      have hrdata : a.we=false → (LoadStore.step s.lsu (s.ex c) (s.bus c)).rdata_q=m.word a.addr := by
        intro hload
        have hword : (s.bus c).data_rdata_i=m.word a.addr := by
          simp [System.bus,hpending,hload,hr]
        simp only [LoadStore.step,hrv,hr,hwe,hload,hq,hword,Bool.not_false,Bool.and_self,
          Bool.true_or,if_true]
      by_cases hg : c.gnt=true
      · refine Stage.second_granted hheld (Or.inl ⟨hCS,hrv.trans hr⟩) hc hq haddr hgranted hmem ?_
          hrdata (by rw [hgnt,hg,hr]; rfl)
        rw [hrv,hr,hpending]
        rfl
      · have hgnt' : (s.bus c).data_gnt_i=false := by rw [hgnt]; simp [hg]
        have hupdate : lsu_update_addr_o s.lsu (s.ex c) (s.bus c)=false := by
          simp [lsu_update_addr_o,hCS,hgnt']
        refine .between a ?_ ?_ hc ?_ ?_ ?_ ?_ ?_ hrdata
        · rw [hquiet.2.1,hheld]
          rfl
        · simp [System.step,LoadStore.step,NS,hCS,hrv,hr,hgnt']
        · simp [System.step,LoadStore.step,hupdate,hq]
        · simp [System.step,LoadStore.step,hupdate,haddr]
        · simp [System.step,hrv,hr,hgnt',hpending]
        · rw [hquiet.2.2,hgranted,hgnt']
          rfl
        · simp [System.step,hgnt',hmem]
    · have hrv' : (s.bus c).data_rvalid_i=false := by rw [hrv]; simpa using hr
      have hgnt' : (s.bus c).data_gnt_i=false := by rw [hgnt]; simp [hr]
      have hupdate : lsu_update_addr_o s.lsu (s.ex c) (s.bus c)=false := by
        simp [lsu_update_addr_o,hCS,hgnt']
      refine .first a ?_ ?_ hc ?_ ?_ ?_ ?_ ?_ ?_
      · rw [hquiet.2.1,hheld]
        rfl
      · simp [System.step,LoadStore.step,NS,hCS,hrv']
      · simp [System.step,LoadStore.step,hupdate,hq]
      · simp [System.step,LoadStore.step,hupdate,haddr]
      · simp [System.step,LoadStore.step,hgnt',hwe]
      · simp [System.step,hrv',hgnt',hpending]
      · rw [hquiet.2.2,hgranted,hgnt']
        rfl
      · simp [System.step,hgnt',hmem]
  | between a hheld hCS hc hq haddr hpending hgranted hmem hrdata =>
    have hrv : (s.bus c).data_rvalid_i=false := by simp [System.bus,hpending]
    have hgnt : (s.bus c).data_gnt_i=c.gnt := by simp [System.bus,data_req_o,hCS]
    have hkeep : (LoadStore.step s.lsu (s.ex c) (s.bus c)).rdata_q=s.lsu.rdata_q := by
      simp [LoadStore.step,hrv]
    by_cases hg : c.gnt=true
    · refine Stage.second_granted hheld (Or.inr hCS) hc hq haddr hgranted hmem ?_
        (fun hload => hkeep.trans (hrdata hload)) (hgnt.trans hg)
      rw [hrv,hpending]
      rfl
    · have hgnt' : (s.bus c).data_gnt_i=false := by rw [hgnt]; simpa using hg
      have hupdate : lsu_update_addr_o s.lsu (s.ex c) (s.bus c)=false := by
        simp [lsu_update_addr_o,hCS,hgnt']
      refine .between a ?_ ?_ hc ?_ ?_ ?_ ?_ ?_ fun hload => hkeep.trans (hrdata hload)
      · rw [hquiet.2.1,hheld]
        rfl
      · simp [System.step,LoadStore.step,NS,hCS,hgnt']
      · simp [System.step,LoadStore.step,hupdate,hq]
      · simp [System.step,LoadStore.step,hupdate,haddr]
      · simp [System.step,hrv,hgnt',hpending]
      · rw [hquiet.2.2,hgranted,hgnt']
        rfl
      · simp [System.step,hgnt',hmem]
  | last a w hheld hCS hq hpending hgranted hmem hload =>
    have hrv : (s.bus c).data_rvalid_i=false := by simpa [data_valid_o,hCS] using hv
    have hgnt : (s.bus c).data_gnt_i=false := by simp [System.bus,data_req_o,hCS]
    have hNS : NS s.lsu (s.ex c) (s.bus c)=s.lsu.CS := by simp [NS,hCS,hrv]
    have hupdate : lsu_update_addr_o s.lsu (s.ex c) (s.bus c)=false := by
      simp [lsu_update_addr_o,hCS]
    have hlsu : (s.step c).lsu=s.lsu := by
      simp [System.step,LoadStore.step,hNS,hrv,hgnt,hupdate]
    refine .last a w ?_ ?_ ?_ ?_ ?_ ?_ ?_
    · rw [hquiet.2.1,hheld]
      rfl
    · rw [hlsu,hCS]
    · rw [hlsu,hq]
    · simp [System.step,hrv,hgnt,hpending]
    · rw [hquiet.2.2,hgranted,hgnt]
      simp
    · simp [System.step,hgnt,hmem]
    · rw [hlsu]
      exact hload

/-- `data_valid_o` completes the held access: it made its transactions, its
value is loaded, and the unit is idle again. -/
theorem Stage.valid (h : Stage m s) (hv : data_valid_o s.lsu (s.bus c)=true) :
    ∃ a v, s.held=some a ∧ (s.step c).log=s.log++[⟨some a,a.transactions,v⟩] ∧
      (a.we=false → v=extend a.sign_ext (m.load a.addr (size a.data_type))) ∧
      (s.step c).held=c.issue ∧ (s.step c).lsu.CS=.IDLE ∧
      (s.step c).lsu.data_misaligned_q=false ∧ Stage (a.wide.perform m).1 (s.step c) := by
  cases h with
  | free hheld hCS => simp [data_valid_o,hCS] at hv
  | fresh a hheld hCS =>
    rcases hCS with hCS | ⟨hCS,-⟩ | ⟨hCS,-⟩ <;> simp [data_valid_o,hCS] at hv
  | first a hheld hCS => simp [data_valid_o,hCS] at hv
  | between a hheld hCS => simp [data_valid_o,hCS] at hv
  | last a w hheld hCS hq hpending hgranted hmem hload =>
    have hrv : (s.bus c).data_rvalid_i=true := by simpa [data_valid_o,hCS] using hv
    have hgnt : (s.bus c).data_gnt_i=false := by simp [System.bus,data_req_o,hCS]
    have hlog : (s.step c).log=s.log++[⟨some a,a.transactions,data_rdata_ex_o s.lsu (s.bus c)⟩] := by
      simp [System.step,hv,hheld,hgnt,hgranted]
    have hvalue : a.we=false → data_rdata_ex_o s.lsu (s.bus c)=
        extend a.sign_ext (m.load a.addr (size a.data_type)) := by
      intro hwe
      have hword : (s.bus c).data_rdata_i=w := by
        simp [System.bus,hpending] at hrv
        simp [System.bus,hpending,hwe,hrv]
      unfold data_rdata_ex_o data_rdata_ext
      rw [hrv,hword,if_pos rfl]
      exact hload hwe
    have hheld' : (s.step c).held=c.issue := by simp [System.step,hv]
    have hCS' : (s.step c).lsu.CS=.IDLE := by simp [System.step,LoadStore.step,NS,hCS,hrv]
    have hq' : (s.step c).lsu.data_misaligned_q=false := by
      simp [System.step,LoadStore.step,lsu_update_addr_o,hCS,hq]
    have hpending' : (s.step c).pending=[] := by simp [System.step,hrv,hgnt,hpending]
    have hgranted' : (s.step c).granted=[] := by simp [System.step,hv]
    have hmem' : (s.step c).mem=(a.wide.perform m).1 := by simp [System.step,hgnt,hmem]
    refine ⟨a,_,hheld,hlog,hvalue,hheld',hCS',hq',?_⟩
    cases hi : c.issue with
    | none => exact .free (hheld'.trans hi) hCS' hq' hpending' hgranted' hmem'
    | some b => exact .fresh b (hheld'.trans hi) (Or.inl hCS') hq' hpending' hgranted' hmem'

end Step

/-- Accesses added at the end. -/
theorem performed_concat (m : Memory) (as : List Access) (a : Access) :
    performed m (as++[a])=((a.wide.perform (performed m as).1).1,
      (performed m as).2++(a.wide.perform (performed m as).1).2) := by
  unfold performed
  rw [List.map_append,List.map_cons,List.map_nil,performAll_concat]

/-- Every run reports the accesses in order, each with its transactions and its
value, and leaves the memory of those reported. -/
structure Valid (m : Memory) (s : System) : Prop where
  /-- The held access and the memory. -/
  stage : Stage (performed m s.served).1 s
  /-- Loads return the values of the accesses reported. -/
  loads : s.loaded=(performed m s.served).2
  /-- Every access is reported once. -/
  order : s.log.map Report.access++s.held.toList.map some=s.issued.map some
  /-- An access makes its transactions and no others. -/
  counts : ∀ r ∈ s.log, ∀ a, r.access=some a → r.granted=a.transactions

/-- Every cycle keeps the invariant. -/
theorem Valid.step {m : Memory} {s : System} (hs : Valid m s) (c : Cycle) : Valid m (s.step c) := by
  have horder := hs.order
  cases hv : data_valid_o s.lsu (s.bus c) with
  | false =>
    rcases step_quiet hv with ⟨hlog,hheld,-⟩
    have hserved : (s.step c).served=s.served := by rw [System.served,hlog]; rfl
    refine ⟨hserved.symm ▸ hs.stage.quiet hv,?_,?_,hlog.symm ▸ hs.counts⟩
    · rw [System.loaded,hlog,hserved]
      exact hs.loads
    · have hissued : (s.step c).issued=
          if s.held.isNone then s.issued++c.issue.toList else s.issued := by
        simp only [System.step,hv,Bool.false_or]
      rw [hlog,hheld,hissued]
      cases hh : s.held with
      | none =>
        rw [hh] at horder
        simp only [Option.toList_none,List.map_nil,List.append_nil] at horder
        simp only [Option.isNone_none,if_true,List.map_append,horder]
      | some a =>
        rw [hh] at horder
        exact horder
  | true =>
    rcases hs.stage.valid hv with ⟨a,v,hheld,hlog,hvalue,hheld',-,-,hstage⟩
    have hserved : (s.step c).served=s.served++[a] := by
      rw [System.served,hlog,List.filterMap_append]
      rfl
    have hperform := performed_concat m s.served a
    refine ⟨?_,?_,?_,?_⟩
    · rw [hserved,hperform]
      exact hstage
    · rw [hserved,hperform,(perform_eq _).2,←hs.loads]
      unfold System.loaded
      rw [hlog,List.filter_append,List.map_append]
      cases hwe : a.we with
      | true => simp [hwe]
      | false => simp [hwe,hvalue hwe]
    · have hissued : (s.step c).issued=s.issued++c.issue.toList := by
        simp only [System.step,hv,Bool.true_or,if_true]
      rw [hheld] at horder
      rw [hlog,hheld',hissued,List.map_append,List.map_append,←horder]
      rfl
    · intro r hr b hb
      rw [hlog,List.mem_append,List.mem_singleton] at hr
      rcases hr with hr | rfl
      · exact hs.counts r hr b hb
      · rw [←Option.some.inj hb]

theorem valid_start (m : Memory) : Valid m (System.start m) :=
  ⟨.free rfl rfl rfl rfl rfl rfl,rfl,rfl,nofun⟩

/-- Every reachable state is valid. -/
theorem valid_run (m : Memory) (cycles : List Cycle) :
    Valid m (after System.step (System.start m) cycles) :=
  after_invariant (fun _ c hs => hs.step c) (valid_start m) cycles

/-- Grants and responses that an access still waits for in a request state. -/
def workAt (a : Access) : FsmState → ℕ
  | .IDLE => if a.Crosses then 4 else 2
  | .WAIT_GNT_MIS => 4
  | .WAIT_RVALID_MIS => 3
  | .WAIT_GNT => 2
  | .WAIT_RVALID => 1

theorem workAt_bounds (a : Access) (CS : FsmState) : 0 < workAt a CS ∧ workAt a CS≤4 := by
  unfold workAt
  split
  · split_ifs <;> decide
  all_goals decide

/-- The same for the held access. -/
def System.work (s : System) : ℕ :=
  match s.held with
  | none => 0
  | some a => workAt a s.lsu.CS

/-- The memory gives what is waited for: the response due, or else a grant. -/
def System.answered (s : System) (c : Cycle) : Bool :=
  if s.pending.isEmpty=true then c.gnt else c.rvalid

section Work

variable {m : Memory} {s : System} {c : Cycle}

theorem work_held {a : Access} (hheld : s.held=some a) : s.work=workAt a s.lsu.CS := by
  unfold System.work
  rw [hheld]

/-- Without a new access no cycle adds work, and one that the memory answers
takes some away. -/
theorem step_work (hs : Stage m s) (hn : c.issue=none) :
    (s.step c).work ≤ s.work ∧ (s.answered c=true → 0 < s.work → (s.step c).work < s.work) := by
  cases hv : data_valid_o s.lsu (s.bus c) with
  | true =>
    rcases hs.valid hv with ⟨a,v,hheld,-,-,hheld',-⟩
    have hdone : (s.step c).work=0 := by
      unfold System.work
      rw [hheld',hn]
    rw [hdone]
    exact ⟨Nat.zero_le _,fun _ hpos => hpos⟩
  | false =>
    have hquiet := (step_quiet hv).2.1
    have hCS' : (s.step c).lsu.CS=NS s.lsu (s.ex c) (s.bus c) := rfl
    have hlater : ∀ a, s.held=some a → (s.step c).work=workAt a (NS s.lsu (s.ex c) (s.bus c)) := by
      intro a hheld
      rw [hheld] at hquiet
      exact work_held hquiet
    unfold System.answered
    cases hs with
    | free hheld hCS hq hpending =>
      rw [hheld] at hquiet
      have hdone : (s.step c).work=0 := by
        unfold System.work
        rw [hquiet]
        simp [hn]
      have hzero : s.work=0 := by
        unfold System.work
        rw [hheld]
      rw [hdone,hzero]
      exact ⟨Nat.le_refl 0,fun _ hpos => hpos⟩
    | fresh a hheld hCS hq hpending =>
      have he : s.ex c=a.lines := by
        rw [ex_held hheld,if_neg]
        rcases hCS with hCS | ⟨hCS,-⟩ | ⟨hCS,-⟩ <;> simp [data_misaligned_o,hCS,hq]
      have hreq : a.lines.data_req_ex_i=true := rfl
      have hmis : data_misaligned s.lsu a.lines=true ↔ a.Crosses := by
        rw [data_misaligned_iff rfl]
        exact and_iff_right hq
      have hgnt : (s.bus c).data_gnt_i=c.gnt := by
        rw [bus_empty hpending,he]
        rcases hCS with hCS | ⟨hCS,-⟩ | ⟨hCS,-⟩ <;> simp [data_req_o,hCS,hreq]
      rw [hlater a hheld,work_held hheld,hpending,he]
      unfold NS
      rw [hgnt,hreq]
      rcases hCS with hCS | ⟨hCS,hno⟩ | ⟨hCS,-⟩
      · by_cases hc : a.Crosses
        · cases c.gnt <;> simp [hCS,workAt,hmis.mpr hc,hc]
        · have hmis' : data_misaligned s.lsu a.lines=false :=
            Bool.eq_false_iff.mpr fun h => hc (hmis.mp h)
          cases c.gnt <;> simp [hCS,workAt,hmis',hc]
      · cases c.gnt <;> simp [hCS,workAt]
      · cases c.gnt <;> simp [hCS,workAt]
    | first a hheld hCS hc hq haddr hwe hpending =>
      have hrv : (s.bus c).data_rvalid_i=c.rvalid := by simp [System.bus,hpending]
      rw [hlater a hheld,work_held hheld,hpending]
      unfold NS
      rw [hrv]
      cases (s.bus c).data_gnt_i <;> cases c.rvalid <;> simp [hCS,workAt]
    | between a hheld hCS hc hq haddr hpending =>
      have hgnt : (s.bus c).data_gnt_i=c.gnt := by simp [System.bus,data_req_o,hCS]
      rw [hlater a hheld,work_held hheld,hpending]
      unfold NS
      rw [hgnt]
      cases c.gnt <;> simp [hCS,workAt]
    | last a w hheld hCS hq hpending =>
      have hrv : (s.bus c).data_rvalid_i=c.rvalid := by simp [System.bus,hpending]
      rw [data_valid_o,hCS] at hv
      have hno : c.rvalid=false := hrv.symm.trans hv
      rw [hlater a hheld,work_held hheld,hpending]
      unfold NS
      rw [hrv,hno]
      simp [hCS,workAt]

/-- Without a new access the program stays as it was. -/
theorem step_issued (hn : c.issue=none) : (s.step c).issued=s.issued := by
  unfold System.step
  rw [hn]
  simp

/-- With no work left no access is held. -/
theorem work_zero (hw : s.work=0) : s.held=none := by
  cases hheld : s.held with
  | none => rfl
  | some a =>
    rw [work_held hheld] at hw
    exact absurd hw (workAt_bounds a s.lsu.CS).1.ne'

end Work

/-- What holds between the cycles of every run from a memory. -/
structure Serves (m : Memory) (s : System) : Prop where
  /-- `data_valid_o` rose once for every access that left the ID stage, in
  order, and for nothing else. -/
  once : s.log.map Report.access++s.held.toList.map some=s.issued.map some
  /-- Each of them made one transaction, or two when it crosses a word. -/
  transactions : ∀ r ∈ s.log, ∀ a, r.access=some a → r.granted=a.transactions
  /-- Loads gave the extended little-endian values. -/
  values : s.loaded=(performed m s.served).2
  /-- An idle unit leaves the memory of the stores so far, byte for byte. -/
  memory : s.lsu.CS=.IDLE → s.mem=(performed m s.served).1
  /-- Without an access the unit is idle, and no second half is to be made. -/
  idle : s.held=none → s.lsu.CS=.IDLE ∧ s.lsu.data_misaligned_q=false
  /-- The same after every cycle with `data_valid_o`. -/
  after : ∀ c, data_valid_o s.lsu (s.bus c)=true →
    (s.step c).lsu.CS=.IDLE ∧ (s.step c).lsu.data_misaligned_q=false

theorem Valid.serves {m : Memory} {s : System} (hs : Valid m s) : Serves m s := by
  refine ⟨hs.order,hs.counts,hs.loads,fun hidle => ?_,fun hnone => ?_,fun c hv => ?_⟩
  · cases hs.stage with
    | free hheld hCS hq hpending hgranted hmem => exact hmem
    | fresh a hheld hCS hq hpending hgranted hmem => exact hmem
    | first a hheld hCS => exact absurd (hCS.symm.trans hidle) nofun
    | between a hheld hCS => exact absurd (hCS.symm.trans hidle) nofun
    | last a w hheld hCS => exact absurd (hCS.symm.trans hidle) nofun
  · cases hs.stage with
    | free hheld hCS hq => exact ⟨hCS,hq⟩
    | fresh a hheld => exact absurd (hnone.symm.trans hheld) nofun
    | first a hheld => exact absurd (hnone.symm.trans hheld) nofun
    | between a hheld => exact absurd (hnone.symm.trans hheld) nofun
    | last a w hheld => exact absurd (hnone.symm.trans hheld) nofun
  · rcases hs.stage.valid hv with ⟨a,v,-,-,-,-,hCS,hq,-⟩
    exact ⟨hCS,hq⟩

/-- Loads and stores are served one after the other with their byte-wise
little-endian effect, for every program, memory and bus latency, and once the
memory has given four more answers the last one is. -/
theorem serves_accesses (m : Memory) (cycles : List Cycle) :
    Serves m (after System.step (System.start m) cycles) ∧
      ∀ drain : List Cycle, (∀ c ∈ drain, c.issue=none) →
        4 ≤ count System.step System.answered (after System.step (System.start m) cycles) drain →
        let t := after System.step (System.start m) (cycles++drain)
        t.held=none ∧ t.served=(after System.step (System.start m) cycles).issued := by
  refine ⟨(valid_run m cycles).serves,fun drain hn hcount => ?_⟩
  dsimp only
  rw [after_append]
  have hs := valid_run m cycles
  generalize after System.step (System.start m) cycles=s at hs hcount ⊢
  obtain ⟨⟨hvalid,hissued⟩,hle⟩ := measure_after (C := System.answered)
    (P := fun t => Valid m t ∧ t.issued=s.issued) (Q := fun c => c.issue=none) System.work
    (fun t c ht hc => ⟨ht.1.step c,(step_issued hc).trans ht.2⟩)
    (fun t c ht hc => (step_work ht.1.stage hc).1)
    (fun t c ht hc => (step_work ht.1.stage hc).2) ⟨hs,rfl⟩ hn
  have hbound : s.work≤4 := by
    cases hheld : s.held with
    | none => simp [System.work,hheld]
    | some a =>
      rw [work_held hheld]
      exact (workAt_bounds a s.lsu.CS).2
  have hnone := work_zero (Nat.le_zero.mp (hle.trans (by omega)))
  have horder := hvalid.order
  rw [hnone,Option.toList_none,List.map_nil,List.append_nil,hissued] at horder
  refine ⟨hnone,?_⟩
  have hserved := congrArg (List.filterMap id) horder
  rwa [List.filterMap_map,List.filterMap_map,Function.id_comp,Function.id_comp,
    List.filterMap_some] at hserved

end Pulpissimo.ZeroRiscy.LoadStore

import Mathlib.Data.BitVec
import Pulpissimo.Lib.Machine

/-!
# The bus unit of the debug module

`adbg_lint_biu` takes accesses in the domain of the JTAG clock and makes them in
that of the bus clock. Each direction is crossed by a bit that is toggled for
every event and passed through three flip-flops. The TAP reset reaches only
the side of the JTAG clock.

The two clocks are free: in every moment of a run each of them may have an edge
or not. Outputs are those just before the edges, with the TAP reset applied.
-/

namespace Pulpissimo.AdvDbg.LintBiu

open Pulpissimo.Machine

/-- The data widths for which the unit is written. -/
inductive Width
  | w32
  | w64

/-- Bytes of a data word. -/
def Width.bytes : Width → ℕ
  | .w32 => 4
  | .w64 => 8

/-- Bits of a data word. -/
def Width.bits (w : Width) : ℕ := 8*w.bytes

/-- Parameters. -/
structure Params where
  /-- Bits of a bus address. -/
  ADDR_WIDTH : ℕ
  /-- Bits of a bus word. -/
  DATA_WIDTH : Width

variable {p : Params}

/-- Byte enables of an access by its size and the low bits of its address. -/
def be_dec (w : Width) (word_size_i : BitVec 4) (addr_i : BitVec 32) : BitVec w.bytes :=
  match w with
  | .w64 =>
    if word_size_i=1#4 then 0b00000001#8 <<< (addr_i.extractLsb' 0 3).toNat
    else if word_size_i=2#4 then 0b00000011#8 <<< (2*(addr_i.extractLsb' 1 2).toNat)
    else if word_size_i=4#4 then 0b00001111#8 <<< (4*(addr_i.extractLsb' 2 1).toNat)
    else 0b11111111#8
  | .w32 =>
    if word_size_i=1#4 then 0b0001#4 <<< (addr_i.extractLsb' 0 2).toNat
    else if word_size_i=2#4 then 0b0011#4 <<< (2*(addr_i.extractLsb' 1 1).toNat)
    else 0b1111#4

/-- Where the lanes of a byte enable start and how many bytes they have, for those that the
tables for the data name. -/
def lanes : ℕ → Option (ℕ×ℕ)
  | 0b00001111 => some (0,4)
  | 0b11110000 => some (4,4)
  | 0b00000011 => some (0,2)
  | 0b00001100 => some (2,2)
  | 0b00110000 => some (4,2)
  | 0b11000000 => some (6,2)
  | 0b00000001 => some (0,1)
  | 0b00000010 => some (1,1)
  | 0b00000100 => some (2,1)
  | 0b00001000 => some (3,1)
  | 0b00010000 => some (4,1)
  | 0b00100000 => some (5,1)
  | 0b01000000 => some (6,1)
  | 0b10000000 => some (7,1)
  | _ => none

/-- The word at the top of the shift register moved to its lanes. -/
def swapped_data_i (w : Width) (be : BitVec w.bytes) (data_i : BitVec 64) : BitVec w.bits :=
  match lanes be.toNat,w with
  | some (first,size),w => ((data_i >>> (64-8*size)) <<< (8*first)).setWidth w.bits
  | none,.w64 => data_i
  | none,.w32 => data_i.extractLsb' 32 32

/-- Read data moved from their lanes to the bottom. -/
def swapped_data_out (w : Width) (sel_reg : BitVec w.bytes) (lint_r_rdata_i : BitVec w.bits) :
    BitVec w.bits :=
  match lanes sel_reg.toNat with
  | some (first,_) => lint_r_rdata_i >>> (8*first)
  | none => lint_r_rdata_i

/-- States of the bus machine. -/
inductive Fsm
  | S_IDLE
  | S_DATA
  | S_RESP
  deriving DecidableEq

/-- Registers of the JTAG clock. -/
@[ext] structure Tck (p : Params) where
  /-- Byte enables of the access. -/
  sel_reg : BitVec p.DATA_WIDTH.bytes
  /-- Its address. -/
  addr_reg : BitVec p.ADDR_WIDTH
  /-- Its write data. -/
  data_in_reg : BitVec p.DATA_WIDTH.bits
  /-- It is a write. -/
  wr_reg : Bool
  /-- Toggled by every accepted strobe. -/
  str_sync : Bool
  /-- First stage of the ready bit's synchroniser. -/
  rdy_sync_tff1 : Bool
  /-- Second stage. -/
  rdy_sync_tff2 : Bool
  /-- The second stage one edge before. -/
  rdy_sync_tff2q : Bool
  /-- A strobe is accepted. -/
  rdy_o : Bool

/-- Values after the TAP reset. -/
def Tck.reset : Tck p := ⟨0#_,0#_,0#_,false,false,false,false,false,true⟩

/-- Registers of the bus clock. -/
@[ext] structure Clk (p : Params) where
  /-- First stage of the strobe bit's synchroniser. -/
  str_sync_wbff1 : Bool
  /-- Second stage. -/
  str_sync_wbff2 : Bool
  /-- The second stage one edge before. -/
  str_sync_wbff2q : Bool
  /-- Data of the last read. -/
  data_out_reg : BitVec p.DATA_WIDTH.bits
  /-- Toggled by every completed access. -/
  rdy_sync : Bool
  /-- The bus machine. -/
  lint_fsm_state : Fsm

/-- Values after the bus reset. -/
def Clk.reset : Clk p := ⟨false,false,false,0#_,false,.S_IDLE⟩

/-- All registers. -/
structure State (p : Params) where
  /-- Those of the JTAG clock. -/
  tck : Tck p
  /-- Those of the bus clock. -/
  clk : Clk p

/-- After both resets. -/
def reset : State p := ⟨.reset,.reset⟩

/-- A moment: which clocks have an edge, and the inputs. -/
structure Moment (p : Params) where
  /-- An edge of the JTAG clock. -/
  tck_i : Bool
  /-- An edge of the bus clock. -/
  clk_i : Bool
  /-- The TAP reset, active low. -/
  trstn_i : Bool
  /-- The debug module asks for an access. -/
  strobe_i : Bool
  /-- It is a read. -/
  rd_wrn_i : Bool
  /-- Its size in bytes. -/
  word_size_i : BitVec 4
  /-- Its address. -/
  addr_i : BitVec 32
  /-- The input shift register. -/
  data_i : BitVec 64
  /-- The bus grants a request. -/
  lint_gnt_i : Bool
  /-- The bus answers a read. -/
  lint_r_valid_i : Bool
  /-- The data of the answer. -/
  lint_r_rdata_i : BitVec p.DATA_WIDTH.bits

section Code

variable (s : State p) (e : Moment p)

/-- The TAP reset acts at once on the registers of the JTAG clock. -/
def settle : State p := if e.trstn_i then s else { s with tck := .reset }

/-- A strobe is accepted at an edge of the JTAG clock. -/
def accepts : Bool := e.strobe_i && s.tck.rdy_o

/-- Byte enables of the access asked for. -/
def be : BitVec p.DATA_WIDTH.bytes := be_dec p.DATA_WIDTH e.word_size_i e.addr_i

/-- An edge of the JTAG clock. -/
def tckEdge : Tck p where
  sel_reg := if accepts s e then be e else s.tck.sel_reg
  addr_reg := if accepts s e then e.addr_i.setWidth p.ADDR_WIDTH else s.tck.addr_reg
  data_in_reg :=
    if accepts s e && !e.rd_wrn_i then swapped_data_i p.DATA_WIDTH (be e) e.data_i
    else s.tck.data_in_reg
  wr_reg := if accepts s e then !e.rd_wrn_i else s.tck.wr_reg
  str_sync := if accepts s e then !s.tck.str_sync else s.tck.str_sync
  rdy_sync_tff1 := s.clk.rdy_sync
  rdy_sync_tff2 := s.tck.rdy_sync_tff1
  rdy_sync_tff2q := s.tck.rdy_sync_tff2
  rdy_o :=
    if accepts s e then false
    else if s.tck.rdy_sync_tff2 != s.tck.rdy_sync_tff2q then true
    else s.tck.rdy_o

/-- A toggle of the strobe bit has arrived. -/
def start_toggle : Bool := s.clk.str_sync_wbff2 != s.clk.str_sync_wbff2q

/-- Request to the bus. -/
def lint_req_o : Bool := s.clk.lint_fsm_state==.S_DATA

/-- The request is a read. -/
def lint_wen_o : Bool := !(s.clk.lint_fsm_state==.S_DATA && s.tck.wr_reg)

/-- Next state of the bus machine. -/
def next_fsm_state : Fsm :=
  match s.clk.lint_fsm_state with
  | .S_IDLE => if start_toggle s then .S_DATA else .S_IDLE
  | .S_DATA => if e.lint_gnt_i then if s.tck.wr_reg then .S_IDLE else .S_RESP else .S_DATA
  | .S_RESP => if e.lint_r_valid_i then .S_IDLE else .S_RESP

/-- The access completes. -/
def rdy_sync_en : Bool :=
  match s.clk.lint_fsm_state with
  | .S_IDLE => false
  | .S_DATA => e.lint_gnt_i && s.tck.wr_reg
  | .S_RESP => e.lint_r_valid_i

/-- The read data are taken. -/
def data_o_en : Bool :=
  s.clk.lint_fsm_state==.S_RESP && e.lint_r_valid_i && !s.tck.wr_reg

/-- An edge of the bus clock. -/
def clkEdge : Clk p where
  str_sync_wbff1 := s.tck.str_sync
  str_sync_wbff2 := s.clk.str_sync_wbff1
  str_sync_wbff2q := s.clk.str_sync_wbff2
  data_out_reg :=
    if data_o_en s e then swapped_data_out p.DATA_WIDTH s.tck.sel_reg e.lint_r_rdata_i
    else s.clk.data_out_reg
  rdy_sync := if rdy_sync_en s e then !s.clk.rdy_sync else s.clk.rdy_sync
  lint_fsm_state := next_fsm_state s e

/-- The registers after a moment. All edges see the values before them. -/
def edges : State p where
  tck := if e.tck_i && e.trstn_i then tckEdge s e else s.tck
  clk := if e.clk_i then clkEdge s e else s.clk

/-- One moment. -/
def step : State p := edges (settle s e) e

end Code

/-- An access as its strobe latches it. -/
structure Access (p : Params) where
  /-- Its address. -/
  address : BitVec p.ADDR_WIDTH
  /-- The write data, or those latched before. -/
  data : BitVec p.DATA_WIDTH.bits
  /-- Its byte enables. -/
  enables : BitVec p.DATA_WIDTH.bytes
  /-- It is a write. -/
  write : Bool

/-- What is left to do for the last accepted strobe. -/
inductive Phase (p : Params)
  /-- Nothing. -/
  | free
  /-- The access is to be granted. The strobe is so many edges of the bus clock ago. -/
  | wanted (a : Access p) (n : ℕ)
  /-- The read is granted and its answer is to come. -/
  | granted (a : Access p)

/-- The unit and what is left to do. -/
structure System (p : Params) where
  /-- The unit. -/
  regs : State p
  /-- The last strobe. -/
  phase : Phase p

/-- After both resets no strobe has been accepted. -/
def System.start : System p := ⟨reset,.free⟩

section Crossing

/-- The access that an accepted strobe asks for. -/
def asked (s : State p) (e : Moment p) : Access p :=
  ⟨e.addr_i.setWidth p.ADDR_WIDTH,
    if e.rd_wrn_i then s.tck.data_in_reg else swapped_data_i p.DATA_WIDTH (be e) e.data_i,be e,
    !e.rd_wrn_i⟩

/-- An edge of the bus clock: a write is complete when it is granted, a read when it is
answered. -/
def Phase.bus (q : Phase p) (req gnt r_valid : Bool) : Phase p :=
  match q with
  | .free => .free
  | .wanted a n =>
    if req && gnt then if a.write then .free else .granted a
    else .wanted a (n+1)
  | .granted a => if r_valid then .free else .granted a

variable (s : System p) (e : Moment p)

/-- The unit with the TAP reset applied. -/
def System.now : State p := settle s.regs e

/-- One moment. An accepted strobe takes the place of whatever is left to do. -/
def System.step : System p where
  regs := LintBiu.step s.regs e
  phase :=
    if e.tck_i && e.trstn_i && accepts (s.now e) e then .wanted (asked (s.now e) e) 0
    else if e.clk_i then s.phase.bus (lint_req_o (s.now e)) e.lint_gnt_i e.lint_r_valid_i
    else s.phase

/-- What the unit shows in a moment is what the last strobe wants. -/
structure Crosses : Prop where
  /-- A request is that of an accepted strobe which has not been granted, as it was latched. -/
  requests : lint_req_o (s.now e)=true → ∃ n, s.phase=.wanted
    ⟨(s.now e).tck.addr_reg,(s.now e).tck.data_in_reg,(s.now e).tck.sel_reg,
      !lint_wen_o (s.now e)⟩ n
  /-- Three edges of the bus clock after the strobe the request is there. -/
  issued : ∀ a n, s.phase=.wanted a n → 3≤n → lint_req_o (s.now e)=true
  /-- The unit is ready only when the last access has completed. -/
  ready : (s.now e).tck.rdy_o=true → s.phase=.free

/-- The TAP reset comes only while both toggled bits are low. -/
def ResetsEven : Prop :=
  e.trstn_i=false → s.regs.tck.str_sync=false ∧ s.regs.clk.rdy_sync=false

end Crossing

section Invariant

/-- The unit is not ready and no toggle of the ready bit is under way. -/
structure Held (s : State p) : Prop where
  ready : s.tck.rdy_o=false
  first : s.tck.rdy_sync_tff1=s.clk.rdy_sync
  second : s.tck.rdy_sync_tff2=s.clk.rdy_sync
  last : s.tck.rdy_sync_tff2q=s.clk.rdy_sync

/-- The unit is ready, or a toggle of the ready bit is under way. -/
def Rising (s : State p) : Prop :=
  s.tck.rdy_o=true ∧ s.tck.rdy_sync_tff1=s.clk.rdy_sync ∧ s.tck.rdy_sync_tff2=s.clk.rdy_sync ∧
      s.tck.rdy_sync_tff2q=s.clk.rdy_sync ∨
    s.tck.rdy_o=false ∧ s.tck.rdy_sync_tff2q= !s.clk.rdy_sync ∧
      (s.tck.rdy_sync_tff2=s.clk.rdy_sync → s.tck.rdy_sync_tff1=s.clk.rdy_sync)

/-- The strobe bit has come through. -/
structure Arrived (s : State p) : Prop where
  first : s.clk.str_sync_wbff1=s.tck.str_sync
  second : s.clk.str_sync_wbff2=s.tck.str_sync
  last : s.clk.str_sync_wbff2q=s.tck.str_sync

/-- Nothing is left to do: the toggled bits agree. -/
structure Free (s : State p) : Prop where
  idle : s.clk.lint_fsm_state=.S_IDLE
  even : s.tck.str_sync=s.clk.rdy_sync
  arrived : Arrived s
  rising : Rising s

/-- The strobe bit is so many edges on its way. -/
def Sent (s : State p) : ℕ → Prop
  | 0 => s.clk.lint_fsm_state=.S_IDLE ∧ s.clk.str_sync_wbff1= !s.tck.str_sync ∧
      s.clk.str_sync_wbff2= !s.tck.str_sync ∧ s.clk.str_sync_wbff2q= !s.tck.str_sync
  | 1 => s.clk.lint_fsm_state=.S_IDLE ∧ s.clk.str_sync_wbff1=s.tck.str_sync ∧
      s.clk.str_sync_wbff2= !s.tck.str_sync ∧ s.clk.str_sync_wbff2q= !s.tck.str_sync
  | 2 => s.clk.lint_fsm_state=.S_IDLE ∧ s.clk.str_sync_wbff1=s.tck.str_sync ∧
      s.clk.str_sync_wbff2=s.tck.str_sync ∧ s.clk.str_sync_wbff2q= !s.tck.str_sync
  | _+3 => s.clk.lint_fsm_state=.S_DATA ∧ Arrived s

/-- An access is to be granted: the toggled bits differ. -/
structure Wanted (s : State p) (a : Access p) (n : ℕ) : Prop where
  odd : s.tck.str_sync= !s.clk.rdy_sync
  held : Held s
  latched : a=⟨s.tck.addr_reg,s.tck.data_in_reg,s.tck.sel_reg,s.tck.wr_reg⟩
  sent : Sent s n

/-- A read is to be answered. -/
structure Granted (s : State p) : Prop where
  responds : s.clk.lint_fsm_state=.S_RESP
  odd : s.tck.str_sync= !s.clk.rdy_sync
  held : Held s
  arrived : Arrived s

/-- The unit is where the last strobe is. -/
def Follows (s : System p) : Prop :=
  match s.phase with
  | .free => Free s.regs
  | .wanted a n => Wanted s.regs a n
  | .granted _ => Granted s.regs

theorem follows_start : Follows (.start : System p) :=
  ⟨rfl,rfl,⟨rfl,rfl,rfl⟩,Or.inl ⟨rfl,rfl,rfl,rfl⟩⟩

end Invariant

section Edges

variable {s : State p} {e : Moment p}

/-- While it is held the unit sees nothing at an edge of the JTAG clock. -/
theorem tckEdge_held (h : Held s) : tckEdge s e=s.tck := by
  have hno : accepts s e=false := by
    unfold accepts
    rw [h.ready,Bool.and_false]
  have hquiet : (s.tck.rdy_sync_tff2 != s.tck.rdy_sync_tff2q)=false := by
    rw [h.second,h.last]
    exact bne_self_eq_false _
  unfold tckEdge
  rw [hno,hquiet,Bool.false_and]
  exact Tck.ext rfl rfl rfl rfl rfl h.first.symm (h.first.trans h.second.symm)
    (h.second.trans h.last.symm) rfl

/-- When nothing is left to do an edge of the bus clock changes nothing. -/
theorem clkEdge_free (h : Free s) : clkEdge s e=s.clk := by
  have hquiet : start_toggle s=false := by
    unfold start_toggle
    rw [h.arrived.second,h.arrived.last]
    exact bne_self_eq_false _
  have hstay : next_fsm_state s e=s.clk.lint_fsm_state := by
    unfold next_fsm_state
    rw [h.idle,hquiet]
    rfl
  have hsync : rdy_sync_en s e=false := by
    unfold rdy_sync_en
    rw [h.idle]
  have hdata : data_o_en s e=false := by
    unfold data_o_en
    rw [h.idle]
    rfl
  unfold clkEdge
  rw [hstay,hsync,hdata]
  exact Clk.ext h.arrived.first.symm (h.arrived.first.trans h.arrived.second.symm)
    (h.arrived.second.trans h.arrived.last.symm) rfl rfl rfl

/-- An edge of the JTAG clock accepts a strobe or brings the ready bit one stage on. -/
theorem tckEdge_free (h : Free s) : if accepts s e then
      Wanted ⟨tckEdge s e,s.clk⟩ (asked s e) 0
    else Free ⟨tckEdge s e,s.clk⟩ := by
  cases hacc : accepts s e with
  | true =>
    have hready : s.tck.rdy_o=true := (Bool.and_eq_true_iff.mp hacc).2
    have hstr : (tckEdge s e).str_sync= !s.tck.str_sync := if_pos hacc
    rcases h.rising with ⟨-,hfirst,hsecond,-⟩ | ⟨hnot,-,-⟩
    · refine ⟨?_,⟨if_pos hacc,rfl,hfirst,hsecond⟩,?_,h.idle,?_,?_,?_⟩
      · exact hstr.trans (congrArg _ h.even)
      · unfold asked tckEdge
        rw [hacc]
        cases e.rd_wrn_i <;> rfl
      · exact h.arrived.first.trans (by rw [hstr,Bool.not_not])
      · exact h.arrived.second.trans (by rw [hstr,Bool.not_not])
      · exact h.arrived.last.trans (by rw [hstr,Bool.not_not])
    · exact absurd (hready.symm.trans hnot) (by decide)
  | false =>
    have hstr : (tckEdge s e).str_sync=s.tck.str_sync := if_neg (by rw [hacc]; decide)
    have hrdy : (tckEdge s e).rdy_o=
        if s.tck.rdy_sync_tff2 != s.tck.rdy_sync_tff2q then true else s.tck.rdy_o := by
      unfold tckEdge
      rw [hacc]
      rfl
    refine ⟨h.idle,hstr.trans h.even,⟨?_,?_,?_⟩,?_⟩
    · exact h.arrived.first.trans hstr.symm
    · exact h.arrived.second.trans hstr.symm
    · exact h.arrived.last.trans hstr.symm
    · rcases h.rising with ⟨hready,hfirst,hsecond,hlast⟩ | ⟨hready,hlast,horder⟩
      · refine Or.inl ⟨?_,rfl,hfirst,hsecond⟩
        rw [hrdy,hready,ite_self]
      · rw [hready,hlast] at hrdy
        by_cases hsecond : s.tck.rdy_sync_tff2=s.clk.rdy_sync
        · refine Or.inl ⟨hrdy.trans ?_,rfl,horder hsecond,hsecond⟩
          rw [hsecond]
          cases s.clk.rdy_sync <;> rfl
        · have hother : s.tck.rdy_sync_tff2= !s.clk.rdy_sync := Bool.eq_not.mpr hsecond
          refine Or.inr ⟨hrdy.trans ?_,hother,fun _ => rfl⟩
          rw [hother]
          cases s.clk.rdy_sync <;> rfl

/-- A completed access leaves a toggle of the ready bit under way. -/
theorem free_of_done (h : Held s) (harr : Arrived s) (hodd : s.tck.str_sync= !s.clk.rdy_sync)
    (hidle : next_fsm_state s e=.S_IDLE) (hen : rdy_sync_en s e=true) :
    Free ⟨s.tck,clkEdge s e⟩ := by
  have hsync : (clkEdge s e).rdy_sync= !s.clk.rdy_sync := if_pos hen
  refine ⟨hidle,hodd.trans hsync.symm,⟨rfl,harr.first,harr.second⟩,Or.inr ⟨h.ready,?_,?_⟩⟩
  · exact h.last.trans (by rw [hsync,Bool.not_not])
  · intro hsecond
    exact h.first.trans (h.second.symm.trans hsecond)

/-- Without a completed access the ready bit stays. -/
theorem held_of_pending (h : Held s) (hen : rdy_sync_en s e=false) :
    Held ⟨s.tck,clkEdge s e⟩ ∧ (clkEdge s e).rdy_sync=s.clk.rdy_sync := by
  have hsync : (clkEdge s e).rdy_sync=s.clk.rdy_sync := if_neg (by rw [hen]; decide)
  exact ⟨⟨h.ready,h.first.trans hsync.symm,h.second.trans hsync.symm,h.last.trans hsync.symm⟩,hsync⟩

/-- Before the strobe bit has come through an edge of the bus clock brings it one stage on. -/
theorem sent_succ {n : ℕ} (h : Sent s n) (hn : n<3) :
    Sent ⟨s.tck,clkEdge s e⟩ (n+1) ∧ s.clk.lint_fsm_state=.S_IDLE := by
  have hnext : s.clk.lint_fsm_state=.S_IDLE →
      (clkEdge s e).lint_fsm_state=if start_toggle s then .S_DATA else .S_IDLE := by
    intro hidle
    change next_fsm_state s e=_
    unfold next_fsm_state
    rw [hidle]
  match n,hn,h with
  | 0,_,⟨hidle,hfirst,hsecond,hlast⟩ =>
    refine ⟨⟨?_,rfl,hfirst,hsecond⟩,hidle⟩
    rw [hnext hidle]
    unfold start_toggle
    rw [hsecond,hlast,bne_self_eq_false]
    rfl
  | 1,_,⟨hidle,hfirst,hsecond,hlast⟩ =>
    refine ⟨⟨?_,rfl,hfirst,hsecond⟩,hidle⟩
    rw [hnext hidle]
    unfold start_toggle
    rw [hsecond,hlast,bne_self_eq_false]
    rfl
  | 2,_,⟨hidle,hfirst,hsecond,hlast⟩ =>
    refine ⟨⟨?_,rfl,hfirst,hsecond⟩,hidle⟩
    rw [hnext hidle]
    unfold start_toggle
    rw [hsecond,hlast]
    cases s.tck.str_sync <;> rfl

/-- An edge of the bus clock brings the strobe bit one stage on, or grants the request. -/
theorem clkEdge_wanted {a : Access p} {n : ℕ} (h : Wanted s a n) :
    Follows ⟨⟨s.tck,clkEdge s e⟩,
      (Phase.wanted a n).bus (lint_req_o s) e.lint_gnt_i e.lint_r_valid_i⟩ := by
  have hwrite : a.write=s.tck.wr_reg := congrArg Access.write h.latched
  rcases Nat.lt_or_ge n 3 with hn | hn
  · rcases sent_succ (e := e) h.sent hn with ⟨hsent,hidle⟩
    have hen : rdy_sync_en s e=false := by
      unfold rdy_sync_en
      rw [hidle]
    have hreq : lint_req_o s=false := by
      unfold lint_req_o
      rw [hidle]
      rfl
    rcases held_of_pending h.held hen with ⟨hheld,hsync⟩
    rw [hreq]
    exact ⟨h.odd.trans (congrArg _ hsync.symm),hheld,h.latched,hsent⟩
  · rcases Nat.exists_eq_add_of_le' hn with ⟨m,rfl⟩
    rcases h.sent with ⟨hdata,harr⟩
    have hreq : lint_req_o s=true := by
      unfold lint_req_o
      rw [hdata]
      rfl
    have hnext : next_fsm_state s e=
        if e.lint_gnt_i then if s.tck.wr_reg then .S_IDLE else .S_RESP else .S_DATA := by
      unfold next_fsm_state
      rw [hdata]
    have hen : rdy_sync_en s e=(e.lint_gnt_i && s.tck.wr_reg) := by
      unfold rdy_sync_en
      rw [hdata]
    have harr' : Arrived ⟨s.tck,clkEdge s e⟩ := ⟨rfl,harr.first,harr.second⟩
    unfold Phase.bus
    dsimp only
    rw [hreq,hwrite,Bool.true_and]
    cases hgnt : e.lint_gnt_i with
    | false =>
      rw [hgnt] at hnext hen
      rcases held_of_pending h.held hen with ⟨hheld,hsync⟩
      exact ⟨h.odd.trans (congrArg _ hsync.symm),hheld,h.latched,hnext,harr'⟩
    | true =>
      rw [hgnt] at hnext hen
      cases hwr : s.tck.wr_reg with
      | true =>
        rw [hwr] at hnext hen
        exact free_of_done h.held harr h.odd hnext hen
      | false =>
        rw [hwr] at hnext hen
        rcases held_of_pending h.held hen with ⟨hheld,hsync⟩
        exact ⟨hnext,h.odd.trans (congrArg _ hsync.symm),hheld,harr'⟩

/-- An edge of the bus clock answers a granted read or not. -/
theorem clkEdge_granted {a : Access p} (h : Granted s) :
    Follows ⟨⟨s.tck,clkEdge s e⟩,
      (Phase.granted a).bus (lint_req_o s) e.lint_gnt_i e.lint_r_valid_i⟩ := by
  have hnext : next_fsm_state s e=if e.lint_r_valid_i then .S_IDLE else .S_RESP := by
    unfold next_fsm_state
    rw [h.responds]
  have hen : rdy_sync_en s e=e.lint_r_valid_i := by
    unfold rdy_sync_en
    rw [h.responds]
  unfold Phase.bus
  dsimp only
  cases hvalid : e.lint_r_valid_i with
  | true =>
    rw [hvalid] at hnext hen
    exact free_of_done h.held h.arrived h.odd hnext hen
  | false =>
    rw [hvalid] at hnext hen
    rcases held_of_pending h.held hen with ⟨hheld,hsync⟩
    exact ⟨hnext,h.odd.trans (congrArg _ hsync.symm),hheld,rfl,h.arrived.first,h.arrived.second⟩

end Edges

section Runs

variable {s : System p} {e : Moment p}

/-- A TAP reset while both bits are low leaves a unit with nothing to do. -/
theorem free_settle (h : Free s.regs) (hr : ResetsEven s e) : Free (s.now e) := by
  unfold System.now settle
  cases hrst : e.trstn_i with
  | true => exact h
  | false =>
    rcases hr hrst with ⟨hstr,hsync⟩
    refine ⟨h.idle,hsync.symm,⟨?_,?_,?_⟩,Or.inl ⟨rfl,hsync.symm,hsync.symm,hsync.symm⟩⟩
    · exact h.arrived.first.trans hstr
    · exact h.arrived.second.trans hstr
    · exact h.arrived.last.trans hstr

/-- While the bits differ there is no TAP reset. -/
theorem now_of_odd (h : s.regs.tck.str_sync= !s.regs.clk.rdy_sync) (hr : ResetsEven s e) :
    s.now e=s.regs := by
  unfold System.now settle
  cases hrst : e.trstn_i with
  | true => rfl
  | false =>
    rcases hr hrst with ⟨hstr,hsync⟩
    rw [hstr,hsync] at h
    exact absurd h (by decide)

/-- With nothing left to do only the JTAG clock matters. -/
theorem follows_free (hphase : s.phase=.free) (h : Free s.regs) (hr : ResetsEven s e) :
    Follows (s.step e) := by
  have hnow := free_settle h hr
  have hclk : (s.step e).regs=
      ⟨if e.tck_i && e.trstn_i then tckEdge (s.now e) e else (s.now e).tck,(s.now e).clk⟩ := by
    change State.mk _ (if e.clk_i then clkEdge (s.now e) e else (s.now e).clk)=_
    rw [clkEdge_free hnow,ite_self]
    rfl
  have hbus : (s.step e).phase=
      if e.tck_i && e.trstn_i && accepts (s.now e) e then .wanted (asked (s.now e) e) 0
      else .free := by
    unfold System.step Phase.bus
    rw [hphase]
    dsimp only
    rw [ite_self]
  unfold Follows
  rw [hclk,hbus]
  cases hedge : e.tck_i && e.trstn_i with
  | false => exact hnow
  | true =>
    have htck := tckEdge_free (e := e) hnow
    cases hacc : accepts (s.now e) e with
    | true =>
      rw [hacc] at htck
      exact htck
    | false =>
      rw [hacc] at htck
      exact htck

/-- While an access is under way only the bus clock matters. -/
theorem step_held (hnow : s.now e=s.regs) (h : Held s.regs) : s.step e=
    ⟨⟨s.regs.tck,if e.clk_i then clkEdge s.regs e else s.regs.clk⟩,
      if e.clk_i then s.phase.bus (lint_req_o s.regs) e.lint_gnt_i e.lint_r_valid_i
      else s.phase⟩ := by
  have hno : accepts s.regs e=false := by
    unfold accepts
    rw [h.ready,Bool.and_false]
  have hregs : LintBiu.step s.regs e=
      ⟨s.regs.tck,if e.clk_i then clkEdge s.regs e else s.regs.clk⟩ := by
    change edges (s.now e) e=_
    rw [hnow]
    unfold edges
    rw [tckEdge_held h,ite_self]
  unfold System.step
  rw [hregs,hnow,hno,Bool.and_false]
  rfl

/-- In a moment that meets the condition the unit goes where the last strobe does. -/
theorem follows_step (h : Follows s) (hr : ResetsEven s e) : Follows (s.step e) := by
  cases hphase : s.phase with
  | free =>
    unfold Follows at h
    rw [hphase] at h
    exact follows_free hphase h hr
  | wanted a n =>
    have hw := h
    unfold Follows at hw
    rw [hphase] at hw
    rw [step_held (now_of_odd hw.odd hr) hw.held]
    cases e.clk_i with
    | false => exact h
    | true =>
      rw [hphase]
      exact clkEdge_wanted hw
  | granted a =>
    have hg := h
    unfold Follows at hg
    rw [hphase] at hg
    rw [step_held (now_of_odd hg.odd hr) hg.held]
    cases e.clk_i with
    | false => exact h
    | true =>
      rw [hphase]
      exact clkEdge_granted hg

/-- Where the unit follows the last strobe it shows what that wants. -/
theorem crosses_of_follows (h : Follows s) (hr : ResetsEven s e) : Crosses s e := by
  unfold Follows at h
  cases hphase : s.phase with
  | free =>
    rw [hphase] at h
    have hnow := free_settle h hr
    refine ⟨fun hreq => ?_,fun a n hwant => (nomatch hphase.symm.trans hwant),fun _ => hphase⟩
    unfold lint_req_o at hreq
    rw [hnow.idle] at hreq
    exact absurd hreq (by decide)
  | wanted a n =>
    rw [hphase] at h
    have hnow := now_of_odd h.odd hr
    refine ⟨fun hreq => ⟨n,?_⟩,fun a' n' hwant hn => ?_,fun hready => ?_⟩
    · rw [hnow] at hreq ⊢
      have hdata : s.regs.clk.lint_fsm_state=.S_DATA := beq_iff_eq.mp hreq
      have hwen : lint_wen_o s.regs= !s.regs.tck.wr_reg := by
        unfold lint_wen_o
        rw [hdata]
        rfl
      rw [hwen,Bool.not_not,hphase,h.latched]
    · have hsame : n=n' := by
        have hboth := hphase.symm.trans hwant
        injection hboth
      rw [←hsame] at hn
      rcases Nat.exists_eq_add_of_le' hn with ⟨m,rfl⟩
      rw [hnow]
      exact beq_iff_eq.mpr h.sent.1
    · rw [hnow,h.held.ready] at hready
      exact absurd hready (by decide)
  | granted a =>
    rw [hphase] at h
    have hnow := now_of_odd h.odd hr
    refine ⟨fun hreq => ?_,fun a n hwant => (nomatch hphase.symm.trans hwant),fun hready => ?_⟩
    · unfold lint_req_o at hreq
      rw [hnow,h.responds] at hreq
      exact absurd hreq (by decide)
    · rw [hnow,h.held.ready] at hready
      exact absurd hready (by decide)

end Runs

/-- An edge of the bus clock alone, with an idle bus. -/
def tick : Moment p := ⟨false,true,true,false,false,0#4,0#32,0#64,false,false,0#_⟩

section Broken

variable {s : System p} {e : Moment p}

/-- A strobe bit on its way goes on, whether or not a strobe has been accepted. -/
theorem sent_tick {n : ℕ} (hphase : s.phase=.free) (h : Sent s.regs n) (hn : n<3) :
    (s.step tick).phase=.free ∧ Sent (s.step tick).regs (n+1) := by
  have hbus : (s.step tick).phase=
      s.phase.bus (lint_req_o (s.now tick)) false false := rfl
  rw [hphase] at hbus
  exact ⟨hbus,(sent_succ h hn).1⟩

/-- When it has come through there is a request. -/
theorem lint_req_o_of_sent {n : ℕ} {s : State p} (h : Sent s n) (hn : 3≤n) : lint_req_o s=true := by
  rcases Nat.exists_eq_add_of_le' hn with ⟨m,rfl⟩
  exact beq_iff_eq.mpr h.1

/-- A strobe bit on its way without a strobe ends in a request that none asked for. -/
theorem not_crosses_of_sent {n m : ℕ} (hphase : s.phase=.free) (h : Sent s.regs n) (hm : 3≤n+m) :
    ¬Meets System.step Crosses s (List.replicate (m+1) tick) := by
  induction m generalizing s n with
  | zero =>
    rintro ⟨hcrosses,-⟩
    rcases hcrosses.requests (lint_req_o_of_sent h hm) with ⟨k,hwanted⟩
    exact nomatch hphase.symm.trans hwanted
  | succ m ih =>
    rintro ⟨hcrosses,hrest⟩
    rcases Nat.lt_or_ge n 3 with hn | hn
    · rcases sent_tick hphase h hn with ⟨hphase',hsent⟩
      exact ih hphase' hsent (by omega) hrest
    · rcases hcrosses.requests (lint_req_o_of_sent h hn) with ⟨k,hwanted⟩
      exact nomatch hphase.symm.trans hwanted

/-- While a strobe waits a TAP reset makes the unit ready. While none does and the bits are high
it sets the strobe bit on its way. -/
theorem not_crosses_of_odd (h : Follows s) (hbreak : ¬ResetsEven s e) :
    ¬Meets System.step Crosses s (e::List.replicate 4 tick) := by
  rintro ⟨hfirst,hrest⟩
  unfold ResetsEven at hbreak
  rw [Classical.not_imp] at hbreak
  rcases hbreak with ⟨hrst,hhigh⟩
  have hnow : s.now e=⟨.reset,s.regs.clk⟩ := by
    unfold System.now settle
    rw [hrst]
    rfl
  have hphase : s.phase=.free := by
    apply hfirst.ready
    rw [hnow]
    rfl
  unfold Follows at h
  rw [hphase] at h
  have hstr : s.regs.tck.str_sync=true := by
    rw [←h.even,and_self] at hhigh
    exact Bool.eq_true_of_not_eq_false hhigh
  have hsent : Sent (s.now e) 0 := by
    rw [hnow]
    refine ⟨h.idle,?_,?_,?_⟩
    · exact h.arrived.first.trans hstr
    · exact h.arrived.second.trans hstr
    · exact h.arrived.last.trans hstr
  have hnext : (s.step e).phase=.free ∧
      (s.step e).regs=⟨(s.now e).tck,if e.clk_i then clkEdge (s.now e) e else (s.now e).clk⟩ := by
    unfold System.step Phase.bus
    rw [hphase,hrst,Bool.and_false,Bool.false_and]
    refine ⟨by rw [ite_self]; rfl,?_⟩
    change edges (s.now e) e=_
    unfold edges
    rw [hrst,Bool.and_false]
    rfl
  cases hclk : e.clk_i with
  | false =>
    rw [hclk] at hnext
    refine not_crosses_of_sent (n := 0) (m := 3) hnext.1 ?_ (Nat.le_refl 3) hrest
    rw [hnext.2]
    exact hsent
  | true =>
    rw [hclk] at hnext
    refine not_crosses_of_sent (n := 1) (m := 3) hnext.1 ?_ (by decide) hrest
    rw [hnext.2]
    exact (sent_succ hsent (by decide)).1

end Broken

/-- The condition is exact: every stretch of a run, followed by four edges of the bus clock,
shows what its strobes want exactly if all TAP resets come while both bits are low. -/
theorem crosses_exactly (es : List (Moment p)) :
    (∀ before later, before++later=es →
      Meets System.step Crosses .start (before++List.replicate 4 tick)) ↔
      Meets System.step ResetsEven .start es := by
  have hticks : ∀ s : System p, Meets System.step ResetsEven s (List.replicate 4 tick) :=
    fun s => ⟨nofun,nofun,nofun,nofun,trivial⟩
  exact meets_iff_prefixes (fun s e h hr => follows_step h hr)
    (fun s e h hr => crosses_of_follows h hr) hticks (fun s e h hr => not_crosses_of_odd h hr)
    follows_start

/-- A cycle of both clocks with a strobe for a byte read. -/
def strobe : Moment p := ⟨true,true,true,true,true,1#4,0#32,0#64,true,true,0#_⟩

/-- One of both clocks without a strobe, with a bus that grants and answers at once. -/
def run : Moment p := ⟨true,true,true,false,false,0#4,0#32,0#64,true,true,0#_⟩

/-- The TAP reset alone. -/
def trst : Moment p := ⟨false,false,false,false,false,0#4,0#32,0#64,false,false,0#_⟩

/-- A TAP reset after one access, with the bus at rest, makes a request without a strobe. -/
theorem not_crosses_after_one :
    ¬∀ es : List (Moment ⟨32,.w32⟩), Meets System.step Crosses .start es := by
  intro h
  have hrun := h ((strobe::List.replicate 8 run++trst::List.replicate 3 tick)++[tick])
  have hlast := ((meets_append _ _ _ _ _).mp hrun).2.1
  rcases hlast.requests (by decide) with ⟨n,hwanted⟩
  exact nomatch (show _=Phase.free from rfl).symm.trans hwanted

end Pulpissimo.AdvDbg.LintBiu

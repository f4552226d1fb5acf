import Mathlib.Data.BitVec
import Mathlib.Tactic.FinCases
import Pulpissimo.Lib.Machine
import Pulpissimo.Riscv.FetchFifo

/-!
# The RI5CY prefetch buffer over an instruction memory

`riscv_prefetch_buffer` with its fetch and hardware loop state machines around
the fetch FIFO, and a memory that grants and answers after any delay. The
memory may hold other words after every branch, so an answer from before a
branch would show. Without hardware loops the instructions taken from the
buffer are those of the sequential stream from the last branch target.
-/

namespace Pulpissimo.Riscv.PrefetchBuffer

open Pulpissimo.Machine Pulpissimo.ShiftFifo Pulpissimo.Riscv.FetchFifo

/-- States of the fetch machine. -/
inductive FetchState
  | IDLE | WAIT_GNT | WAIT_RVALID | WAIT_ABORTED
  deriving DecidableEq

/-- States of the hardware loop machine. -/
inductive HwlpState
  | HWLP_NONE | HWLP_IN | HWLP_FETCHING | HWLP_DONE | HWLP_UNALIGNED_COMPRESSED
  deriving DecidableEq

/-- Registers. -/
structure State where
  /-- Fetch state. -/
  CS : FetchState
  /-- Hardware loop state. -/
  hwlp_CS : HwlpState
  /-- `hwlp_masked` of the last cycle, which `HWLP_UNALIGNED_COMPRESSED` does
  not assign. -/
  hwlp_masked_q : Bool
  /-- Address of the last request. -/
  instr_addr_q : BitVec 32
  /-- The fetch FIFO. -/
  fifo : FetchFifo.State

/-- Values after reset. -/
def reset : State := ⟨.IDLE,.HWLP_NONE,false,0,FetchFifo.reset⟩

/-- One cycle of inputs. -/
structure Input where
  /-- Fetching is enabled. -/
  req_i : Bool
  /-- Jump to `addr_i`. -/
  branch_i : Bool
  /-- Jump target. -/
  addr_i : BitVec 32
  /-- Jump to the hardware loop target. -/
  hwloop_i : Bool
  /-- Hardware loop target. -/
  hwloop_target_i : BitVec 32
  /-- The instruction is taken. -/
  ready_i : Bool
  /-- Grant. -/
  instr_gnt_i : Bool
  /-- Word that answers a request. -/
  instr_rdata_i : BitVec 32
  /-- A request is answered. -/
  instr_rvalid_i : Bool

/-- Outputs of the fetch machine. -/
structure Fetch where
  /-- Request. -/
  instr_req_o : Bool
  /-- Request address. -/
  instr_addr_o : BitVec 32
  /-- The address is kept. -/
  addr_valid : Bool
  /-- The request is for a hardware loop target. -/
  fetch_is_hwlp : Bool
  /-- Next state. -/
  NS : FetchState

section Code

variable (s : State) (i : Input)

/-- Fetch from the hardware loop target. -/
def hwlp_masked : Bool :=
  match s.hwlp_CS with
  | .HWLP_NONE => i.hwloop_i && !s.instr_addr_q.getLsbD 1
  | .HWLP_UNALIGNED_COMPRESSED => s.hwlp_masked_q
  | .HWLP_IN => true
  | .HWLP_FETCHING => false
  | .HWLP_DONE => false

/-- Jump to a hardware loop target that was fetched too late. -/
def hwlp_branch : Bool := s.hwlp_CS == .HWLP_UNALIGNED_COMPRESSED

/-- The incoming word is a hardware loop target. -/
def fifo_hwlp : Bool := s.hwlp_CS == .HWLP_FETCHING

/-- Clear the FIFO. -/
def fifo_clear : Bool :=
  i.branch_i || match s.hwlp_CS with
  | .HWLP_NONE => i.hwloop_i && i.ready_i
  | .HWLP_UNALIGNED_COMPRESSED => true
  | .HWLP_IN => i.ready_i
  | .HWLP_FETCHING => !(i.instr_rvalid_i && s.CS != .WAIT_ABORTED) && i.ready_i
  | .HWLP_DONE => false

/-- The FIFO takes the answer, whether or not there is a next request. -/
def fifo_valid : Bool := s.CS == .WAIT_RVALID && i.instr_rvalid_i

/-- What the FIFO sees. -/
def fifoInput : FetchFifo.Input :=
  ⟨fifo_clear s i,s.instr_addr_q,i.instr_rdata_i,fifo_valid s i,fifo_hwlp s,fifo_hwlp s,i.ready_i⟩

/-- An instruction is offered. -/
def valid_o : Bool := out_valid_o s.fifo (fifoInput s i)

/-- The instruction. -/
def rdata_o : BitVec 32 := out_rdata_o s.fifo (fifoInput s i)

/-- Its address. -/
def addr_o : BitVec 32 := FetchFifo.out_addr_o s.fifo (fifoInput s i)

/-- Address of the word after the last request. -/
def fetch_addr : BitVec 32 := s.instr_addr_q.extractLsb' 2 30++0b00#2+4#32

/-- Target of a jump. -/
def jumpAddr : BitVec 32 := if i.branch_i then i.addr_i else s.instr_addr_q

/-- The fetch machine. -/
def fetch : Fetch :=
  let fifo_ready := in_ready_o s.fifo
  let jump := i.branch_i || hwlp_branch s
  let stored := hwlp_masked s i && out_valid_stored_o s.fifo (fifoInput s i)
  let granted := if i.instr_gnt_i then FetchState.WAIT_RVALID else .WAIT_GNT
  match s.CS with
  | .IDLE =>
    let instr_addr_o := if jump then jumpAddr s i else if stored then i.hwloop_target_i else fetch_addr s
    if i.req_i && (fifo_ready || jump || stored) then ⟨true,instr_addr_o,true,stored,granted⟩
    else ⟨false,instr_addr_o,false,false,.IDLE⟩
  | .WAIT_GNT =>
    if jump then ⟨true,jumpAddr s i,true,false,granted⟩
    else if stored then ⟨true,i.hwloop_target_i,true,true,granted⟩
    else ⟨true,s.instr_addr_q,false,false,granted⟩
  | .WAIT_RVALID =>
    let instr_addr_o := if jump then jumpAddr s i
      else if hwlp_masked s i then i.hwloop_target_i else fetch_addr s
    if i.req_i && (fifo_ready || jump || hwlp_masked s i) then
      if i.instr_rvalid_i then ⟨true,instr_addr_o,true,hwlp_masked s i,granted⟩
      else if jump then ⟨false,instr_addr_o,true,false,.WAIT_ABORTED⟩
      else if hwlp_masked s i && valid_o s i then ⟨false,instr_addr_o,true,true,.WAIT_ABORTED⟩
      else ⟨false,instr_addr_o,false,false,.WAIT_RVALID⟩
    else ⟨false,instr_addr_o,false,false,if i.instr_rvalid_i then .IDLE else .WAIT_RVALID⟩
  | .WAIT_ABORTED =>
    ⟨i.instr_rvalid_i,if jump then jumpAddr s i else s.instr_addr_q,jump,false,
      if i.instr_rvalid_i then granted else .WAIT_ABORTED⟩

/-- The compressed instruction before the loop end was found too late. -/
def late : Bool :=
  valid_o s i && unaligned_is_compressed s.fifo (fifoInput s i) && s.instr_addr_q.getLsbD 1

/-- Next state of the hardware loop machine. -/
def hwlp_NS : HwlpState :=
  let served := valid_o s i && out_is_hwlp_o s.fifo (fifoInput s i)
  if i.branch_i then .HWLP_NONE
  else match s.hwlp_CS with
  | .HWLP_NONE =>
    if i.hwloop_i then
      if late s i then .HWLP_UNALIGNED_COMPRESSED
      else if (fetch s i).fetch_is_hwlp then .HWLP_FETCHING else .HWLP_IN
    else .HWLP_NONE
  | .HWLP_UNALIGNED_COMPRESSED => .HWLP_FETCHING
  | .HWLP_IN => if (fetch s i).fetch_is_hwlp then .HWLP_FETCHING else .HWLP_IN
  | .HWLP_FETCHING =>
    if i.instr_rvalid_i && s.CS != .WAIT_ABORTED then
      if served then .HWLP_NONE else .HWLP_DONE
    else .HWLP_FETCHING
  | .HWLP_DONE => if served then .HWLP_NONE else .HWLP_DONE

/-- The next request is for the hardware loop target instead. -/
def hwloop_speculative : Bool := s.hwlp_CS == .HWLP_NONE && i.hwloop_i && late s i

/-- One clock edge. -/
def step : State where
  CS := (fetch s i).NS
  hwlp_CS := hwlp_NS s i
  hwlp_masked_q := hwlp_masked s i
  instr_addr_q :=
    if (fetch s i).addr_valid then
      if hwloop_speculative s i && !i.branch_i then i.hwloop_target_i else (fetch s i).instr_addr_o
    else s.instr_addr_q
  fifo := FetchFifo.step s.fifo (fifoInput s i)

end Code

/-- One cycle outside the buffer: the inputs of the core, and whether the memory
grants and answers. -/
structure Cycle where
  /-- Fetching is enabled. -/
  req_i : Bool
  /-- Jump to `addr_i`. -/
  branch_i : Bool
  /-- Jump target. -/
  addr_i : BitVec 32
  /-- Jump to the hardware loop target. -/
  hwloop_i : Bool
  /-- Hardware loop target. -/
  hwloop_target_i : BitVec 32
  /-- The instruction is taken. -/
  ready_i : Bool
  /-- The memory grants a request. -/
  instr_gnt_i : Bool
  /-- The memory answers its oldest request, if there is one. -/
  respond : Bool
  /-- Data lines without an answer. -/
  idle_rdata : BitVec 32

/-- The buffer and its memory. A granted request is kept with the number of
branches before it. -/
structure System where
  /-- The buffer. -/
  buffer : State
  /-- Granted requests without an answer, oldest first. -/
  pending : List (ℕ×BitVec 32)
  /-- Branches so far. -/
  branches : ℕ

/-- After reset. -/
def System.reset : System := ⟨PrefetchBuffer.reset,[],0⟩

section Memory

variable (mem : ℕ → Memory) (s : System) (c : Cycle)

/-- The request that is answered in a cycle. -/
def System.answer : Option (ℕ×BitVec 32) := if c.respond then s.pending.head? else none

/-- Inputs of the buffer. A request made after `n` branches is answered from
`mem n`. -/
def System.input : Input where
  req_i := c.req_i
  branch_i := c.branch_i
  addr_i := c.addr_i
  hwloop_i := c.hwloop_i
  hwloop_target_i := c.hwloop_target_i
  ready_i := c.ready_i
  instr_gnt_i := c.instr_gnt_i
  instr_rdata_i :=
    match s.answer c with
    | some (n,a) => mem n (a.extractLsb' 2 30)
    | none => c.idle_rdata
  instr_rvalid_i := (s.answer c).isSome

/-- One clock edge of buffer and memory. -/
def System.step : System :=
  let out := fetch s.buffer (s.input mem c)
  let branches := s.branches+c.branch_i.toNat
  { buffer := PrefetchBuffer.step s.buffer (s.input mem c)
    pending := (if c.respond then s.pending.tail else s.pending)++
      if out.instr_req_o && c.instr_gnt_i then [(branches,out.instr_addr_o)] else []
    branches := branches }

/-- What the IF stage sees. -/
inductive Event
  /-- An instruction is taken. -/
  | accept (addr rdata : BitVec 32)
  /-- The stream starts again. -/
  | branch (target : BitVec 32)
  deriving DecidableEq

/-- Events of one cycle. -/
def System.events : List Event :=
  (if c.ready_i && valid_o s.buffer (s.input mem c) then
    [.accept (addr_o s.buffer (s.input mem c)) (rdata_o s.buffer (s.input mem c))] else [])++
  if c.branch_i then [.branch c.addr_i] else []

/-- Events of a run. -/
def System.trace : System → List Cycle → List Event
  | _,[] => []
  | s,c::cs => s.events mem c++System.trace (s.step mem c) cs

end Memory

/-- The sequential stream: after `n` branches every instruction is the one
stored in `mem n` at the address that the last one leads to. -/
def Sequential (mem : ℕ → Memory) : ℕ → BitVec 32 → List Event → Prop
  | _,_,[] => True
  | n,pc,.accept addr rdata::es =>
    addr=pc ∧ (mem n).Stores pc rdata ∧ Sequential mem n (pc+(mem n).size pc) es
  | n,_,.branch target::es => Sequential mem (n+1) target es

/-- No hardware loop, and what the IF stage promises: a branch comes with a
request, and its target is even. -/
structure Promised (c : Cycle) : Prop where
  /-- No hardware loop. -/
  no_hwloop : c.hwloop_i=false
  /-- A branch comes with a request. -/
  req : c.branch_i=true → c.req_i=true
  /-- Targets are even. -/
  even : c.addr_i.getLsbD 0=false

/-- One cycle loses no word, takes no answer from before the last branch, and
with fetching enabled waits only for the memory. -/
structure Sound (mem : ℕ → Memory) (s : System) (c : Cycle) : Prop where
  /-- A word that goes to the FIFO finds a free entry. -/
  room : fifo_valid s.buffer (s.input mem c)=true → ∃ j, s.buffer.fifo.valid_Q j=false
  /-- An answer from before the last branch is dropped. -/
  fresh : ∀ n a, s.answer c=some (n,a) → n≠s.branches → fifo_valid s.buffer (s.input mem c)=false
  /-- An instruction is offered or requested, or the memory owes an answer. -/
  waits : c.req_i=true → valid_o s.buffer (s.input mem c)=true ∨
    (fetch s.buffer (s.input mem c)).instr_req_o=true ∨ s.pending≠[] ∧ s.answer c=none

section Quiet

variable {s : State} {i : Input}

/-- Without hardware loops the loop machine stays idle and masks nothing. -/
theorem hwlp_quiet (h : s.hwlp_CS=.HWLP_NONE) (hl : i.hwloop_i=false) :
    hwlp_masked s i=false ∧ hwlp_branch s=false ∧ fifo_hwlp s=false ∧
      fifo_clear s i=i.branch_i ∧ hwlp_NS s i=.HWLP_NONE ∧ hwloop_speculative s i=false := by
  simp [hwlp_masked,hwlp_branch,fifo_hwlp,fifo_clear,hwlp_NS,hwloop_speculative,h,hl]

/-- Next state of a granted request. -/
def granted (i : Input) : FetchState := if i.instr_gnt_i then .WAIT_RVALID else .WAIT_GNT

/-- Jump target, or the address that comes next. -/
def target (i : Input) (a : BitVec 32) : BitVec 32 := if i.branch_i then i.addr_i else a

theorem fetch_idle (hCS : s.CS=.IDLE) (h : s.hwlp_CS=.HWLP_NONE) (hl : i.hwloop_i=false) :
    fetch s i=if i.req_i && (in_ready_o s.fifo || i.branch_i) then
      ⟨true,target i (fetch_addr s),true,false,granted i⟩
      else ⟨false,target i (fetch_addr s),false,false,.IDLE⟩ := by
  rcases hwlp_quiet h hl with ⟨hm,hb,-⟩
  unfold fetch target jumpAddr granted
  rw [hCS,hm,hb]
  cases i.branch_i <;> simp

theorem fetch_wait_gnt (hCS : s.CS=.WAIT_GNT) (h : s.hwlp_CS=.HWLP_NONE) (hl : i.hwloop_i=false) :
    fetch s i=⟨true,target i s.instr_addr_q,i.branch_i,false,granted i⟩ := by
  rcases hwlp_quiet h hl with ⟨hm,hb,-⟩
  unfold fetch target jumpAddr granted
  rw [hCS,hm,hb]
  cases i.branch_i <;> simp

theorem fetch_wait_rvalid (hCS : s.CS=.WAIT_RVALID) (h : s.hwlp_CS=.HWLP_NONE)
    (hl : i.hwloop_i=false) :
    fetch s i=if i.req_i && (in_ready_o s.fifo || i.branch_i) then
      if i.instr_rvalid_i then ⟨true,target i (fetch_addr s),true,false,granted i⟩
      else if i.branch_i then ⟨false,target i (fetch_addr s),true,false,.WAIT_ABORTED⟩
      else ⟨false,target i (fetch_addr s),false,false,.WAIT_RVALID⟩
      else ⟨false,target i (fetch_addr s),false,false,
        if i.instr_rvalid_i then .IDLE else .WAIT_RVALID⟩ := by
  rcases hwlp_quiet h hl with ⟨hm,hb,-⟩
  unfold fetch target jumpAddr granted
  rw [hCS,hm,hb]
  cases i.branch_i <;> simp

theorem fetch_wait_aborted (hCS : s.CS=.WAIT_ABORTED) (h : s.hwlp_CS=.HWLP_NONE)
    (hl : i.hwloop_i=false) :
    fetch s i=⟨i.instr_rvalid_i,target i s.instr_addr_q,i.branch_i,false,
      if i.instr_rvalid_i then granted i else .WAIT_ABORTED⟩ := by
  rcases hwlp_quiet h hl with ⟨hm,hb,-⟩
  unfold fetch target jumpAddr granted
  rw [hCS,hb]
  cases i.branch_i <;> simp

end Quiet

/-- Address of the word after a window of `n` words. The empty window starts
with the word of the next instruction. -/
def nextAddr (q : BitVec 30) (upper : Bool) (n : ℕ) : BitVec 32 :=
  halfAddr (q+BitVec.ofNat 30 n) (upper && n == 0)

@[simp] theorem nextAddr_zero (q : BitVec 30) (upper : Bool) :
    nextAddr q upper 0=halfAddr q upper := by simp [nextAddr]

/-- The word after a window does not change when the window moves. -/
theorem nextAddr_moved {m : Memory} {q q' : BitVec 30} {upper upper' taken : Bool} {k n : ℕ}
    (h : Moved m q upper k taken q' upper' n) : nextAddr q' upper' n=nextAddr q upper k := by
  unfold nextAddr
  rw [h.last]
  congr 1
  cases taken with
  | false =>
    rcases h.kept rfl with ⟨-,rfl,rfl⟩
    rfl
  | true =>
    have hk : k≠0 := (h.next rfl).1.ne'
    have hempty := h.used rfl
    cases n with
    | zero => simp [hempty rfl,hk]
    | succ n => simp [hk]

/-- What the fetch machine is doing for a window of `n` words. -/
def System.Fetching (s : System) (q : BitVec 30) (upper : Bool) (n : ℕ) : Prop :=
  match s.buffer.CS with
  | .IDLE => s.pending=[] ∧ fetch_addr s.buffer=nextAddr q upper n
  | .WAIT_GNT => s.pending=[] ∧ n≤3 ∧ s.buffer.instr_addr_q=nextAddr q upper n
  | .WAIT_RVALID => s.pending=[(s.branches,s.buffer.instr_addr_q)] ∧ n≤3 ∧
      s.buffer.instr_addr_q=nextAddr q upper n
  | .WAIT_ABORTED => (∃ k a, k < s.branches ∧ s.pending=[(k,a)]) ∧ n=0 ∧
      s.buffer.instr_addr_q=nextAddr q upper n

/-- The FIFO holds a window of the memory of the current branch, and the word
after it is what the fetch machine asks for. -/
structure Inv (mem : ℕ → Memory) (s : System) (q : BitVec 30) (upper : Bool) (n : ℕ) : Prop where
  /-- No hardware loop. -/
  quiet : s.buffer.hwlp_CS=.HWLP_NONE
  /-- The contents of the FIFO. -/
  window : Window s.buffer.fifo (mem s.branches) q upper n
  /-- The fetch machine. -/
  fetching : s.Fetching q upper n

/-- The stream after reset starts at address four. -/
theorem inv_reset (mem : ℕ → Memory) : Inv mem System.reset 1 false 0 :=
  ⟨rfl,⟨fun _ => rfl,holds_clear _ _,fun h => absurd h (Nat.lt_irrefl 0)⟩,rfl,by decide⟩

section Cycle

variable {mem : ℕ → Memory} {s : System} {c : Cycle} {q : BitVec 30} {upper : Bool} {n : ℕ}

/-- The answer of a cycle goes to the FIFO only while an answer is awaited. -/
theorem fifo_valid_iff : fifo_valid s.buffer (s.input mem c)=true ↔
    s.buffer.CS=.WAIT_RVALID ∧ (s.answer c).isSome=true := by
  simp [fifo_valid,System.input]

/-- What goes to the FIFO is the word after its window. -/
theorem Inv.feeds (h : Inv mem s q upper n) (hc : Promised c) :
    Feeds (fifoInput s.buffer (s.input mem c)) (mem s.branches) q upper n := by
  have hfetch := h.fetching
  have hin : fifo_valid s.buffer (s.input mem c)=true → s.pending=[(s.branches,s.buffer.instr_addr_q)] ∧
      n≤3 ∧ s.buffer.instr_addr_q=nextAddr q upper n ∧ c.respond=true := by
    intro hv
    rcases fifo_valid_iff.mp hv with ⟨hCS,hanswer⟩
    unfold System.Fetching at hfetch
    rw [hCS] at hfetch
    rcases hfetch with ⟨hpending,hn,haddr⟩
    refine ⟨hpending,hn,haddr,?_⟩
    by_contra hr
    simp [System.answer,hr] at hanswer
  refine ⟨(hwlp_quiet (i := s.input mem c) h.quiet hc.no_hwloop).2.2.1,
    fun hv => ?_,fun hv => ?_,fun hv hn => ?_⟩
  · have hn := (hin hv).2.1
    omega
  · rcases hin hv with ⟨hpending,-,haddr,hr⟩
    simp only [fifoInput,System.input,System.answer,hr,if_true,hpending,List.head?_cons]
    rw [haddr,nextAddr,halfAddr_word]
  · rcases hin hv with ⟨-,-,haddr,-⟩
    subst hn
    exact haddr.trans (nextAddr_zero q upper)

/-- A FIFO that takes no more offers an instruction. -/
theorem Inv.ready_or_valid (h : Inv mem s q upper n) (hc : Promised c) :
    in_ready_o s.buffer.fifo=true ∨ valid_o s.buffer (s.input mem c)=true := by
  unfold in_ready_o valid_o
  rw [h.window.words.taken,h.window.out_valid_iff (h.feeds hc)]
  by_cases hn : 2<n
  · have hk : 2<atHand (fifoInput s.buffer (s.input mem c)) n := Nat.lt_add_right _ hn
    exact Or.inr ⟨by omega,Or.inr (Or.inr (by omega))⟩
  · exact Or.inl (by simpa using hn)

/-- A FIFO that takes more holds at most two words. -/
theorem Inv.ready_le (h : Inv mem s q upper n) (hr : in_ready_o s.buffer.fifo=true) : n≤2 := by
  unfold in_ready_o at hr
  rw [h.window.words.taken] at hr
  simpa using hr

/-- Every cycle is sound. -/
theorem Inv.sound (h : Inv mem s q upper n) (hc : Promised c) : Sound mem s c := by
  have hfeeds := h.feeds hc
  have hfetch := h.fetching
  refine ⟨fun hv => ?_,fun k a hans hk => ?_,fun hreq => ?_⟩
  · have hroom := hfeeds.room hv
    refine ⟨⟨n,hroom⟩,?_⟩
    rw [h.window.words.taken]
    simp
  · by_contra hv
    rcases fifo_valid_iff.mp (Bool.not_eq_false _ ▸ hv) with ⟨hCS,-⟩
    unfold System.Fetching at hfetch
    rw [hCS] at hfetch
    simp only [System.answer,hfetch.1] at hans
    split_ifs at hans
    simp only [List.head?_cons,Option.some.injEq,Prod.mk.injEq] at hans
    exact hk hans.1.symm
  · have hw := h.ready_or_valid hc
    unfold System.Fetching at hfetch
    cases hCS : s.buffer.CS with
    | IDLE =>
      refine hw.symm.imp_right fun hready => Or.inl ?_
      rw [fetch_idle hCS h.quiet hc.no_hwloop,hready]
      simp [System.input,hreq]
    | WAIT_GNT =>
      rw [fetch_wait_gnt hCS h.quiet hc.no_hwloop]
      exact Or.inr (Or.inl rfl)
    | WAIT_RVALID =>
      rw [hCS] at hfetch
      cases hans : s.answer c with
      | none => exact Or.inr (Or.inr ⟨by simp [hfetch.1],rfl⟩)
      | some g =>
        refine hw.symm.imp_right fun hready => Or.inl ?_
        rw [fetch_wait_rvalid hCS h.quiet hc.no_hwloop,hready]
        simp [System.input,hreq,hans]
    | WAIT_ABORTED =>
      rw [hCS] at hfetch
      rcases hfetch.1 with ⟨k,a,-,hpending⟩
      cases hans : s.answer c with
      | none => exact Or.inr (Or.inr ⟨by simp [hpending],rfl⟩)
      | some g =>
        rw [fetch_wait_aborted hCS h.quiet hc.no_hwloop]
        exact Or.inr (Or.inl (by simp [System.input,hans]))

/-- A request that goes out asks for the word after the window. -/
theorem fetching_granted {t : System} {i : Input} {a : BitVec 32} (hCS : t.buffer.CS=granted i)
    (hp : t.pending=if i.instr_gnt_i then [(t.branches,a)] else [])
    (hq : t.buffer.instr_addr_q=a) (ha : a=nextAddr q upper n) (hn : n≤3) :
    t.Fetching q upper n := by
  unfold System.Fetching
  unfold granted at hCS
  rw [hCS,hp,hq]
  cases i.instr_gnt_i with
  | true => exact ⟨rfl,hn,ha⟩
  | false => exact ⟨rfl,hn,ha⟩

/-- What a cycle does outside the FIFO, from the outputs of the fetch machine. -/
theorem step_frame {out : Fetch} (hout : fetch s.buffer (s.input mem c)=out)
    (hspec : hwloop_speculative s.buffer (s.input mem c)=false) :
    (s.step mem c).buffer.CS=out.NS ∧
      (s.step mem c).pending=(if c.respond then s.pending.tail else s.pending)++
        (if out.instr_req_o && c.instr_gnt_i then [((s.step mem c).branches,out.instr_addr_o)]
          else []) ∧
      (s.step mem c).buffer.instr_addr_q=
        if out.addr_valid then out.instr_addr_o else s.buffer.instr_addr_q := by
  subst hout
  simp [System.step,PrefetchBuffer.step,hspec]

/-- A request that the buffer makes from here on. -/
theorem fetching_request {a : BitVec 32} {fetch_is_hwlp addr_valid : Bool}
    (hout : fetch s.buffer (s.input mem c)=
      ⟨true,a,addr_valid,fetch_is_hwlp,granted (s.input mem c)⟩)
    (hspec : hwloop_speculative s.buffer (s.input mem c)=false)
    (hvalid : addr_valid=false → s.buffer.instr_addr_q=a)
    (hrest : (if c.respond then s.pending.tail else s.pending)=[])
    (ha : a=nextAddr q upper n) (hn : n≤3) : (s.step mem c).Fetching q upper n := by
  rcases step_frame hout hspec with ⟨hCS,hp,hq⟩
  rw [hrest,List.nil_append,Bool.true_and] at hp
  refine fetching_granted hCS hp ?_ ha hn
  cases addr_valid with
  | true => exact hq
  | false => exact hq.trans (hvalid rfl)

/-- A branch empties the window at its target. -/
theorem Inv.step_branch (h : Inv mem s q upper n) (hc : Promised c) (hb : c.branch_i=true)
    (q' : BitVec 30) (upper' : Bool) (ha : c.addr_i=halfAddr q' upper') :
    Inv mem (s.step mem c) q' upper' 0 := by
  have hfetch := h.fetching
  have hreq : (s.input mem c).req_i=true := hc.req hb
  have hbi : (s.input mem c).branch_i=true := hb
  have hl : (s.input mem c).hwloop_i=false := hc.no_hwloop
  rcases hwlp_quiet h.quiet hl with ⟨-,-,-,hclear,hNS,hspec⟩
  have hbranches : (s.step mem c).branches=s.branches+1 := by simp [System.step,hb]
  have haddr : ∀ a, target (s.input mem c) a=nextAddr q' upper' 0 := by
    intro a
    rw [nextAddr_zero,←ha]
    exact if_pos hb
  refine ⟨hNS,window_clear _ (hclear.trans hb) _ _ _,?_⟩
  -- an answer that is still owed is that of an earlier branch
  have habort : ∀ k a (out : Fetch), fetch s.buffer (s.input mem c)=out → k ≤ s.branches →
      s.pending=[(k,a)] → c.respond=false → out.instr_req_o=false → out.addr_valid=true →
      out.NS=.WAIT_ABORTED → out.instr_addr_o=nextAddr q' upper' 0 →
      (s.step mem c).Fetching q' upper' 0 := by
    intro k a out hout hk hpending hr hno hvalid hCS' htarget
    rcases step_frame hout hspec with ⟨hCS,hp,hq⟩
    rw [hr,hno,hpending] at hp
    rw [hvalid,if_pos rfl] at hq
    unfold System.Fetching
    rw [hCS,hCS']
    exact ⟨⟨k,a,by omega,hp⟩,rfl,hq.trans htarget⟩
  unfold System.Fetching at hfetch
  cases hCS : s.buffer.CS with
  | IDLE =>
    rw [hCS] at hfetch
    have hout := fetch_idle hCS h.quiet hl
    rw [hreq,hbi,Bool.or_true,Bool.and_self,if_pos rfl] at hout
    exact fetching_request hout hspec nofun (by simp [hfetch.1]) (haddr _) (Nat.zero_le _)
  | WAIT_GNT =>
    rw [hCS] at hfetch
    have hout := fetch_wait_gnt hCS h.quiet hl
    exact fetching_request hout hspec (fun hno => absurd (hbi.symm.trans hno) nofun)
      (by simp [hfetch.1]) (haddr _) (Nat.zero_le _)
  | WAIT_RVALID =>
    rw [hCS] at hfetch
    have hout := fetch_wait_rvalid hCS h.quiet hl
    rw [hreq,hbi,Bool.or_true,Bool.and_self,if_pos rfl,if_pos rfl] at hout
    cases hr : c.respond with
    | true =>
      rw [if_pos (by simp [System.input,System.answer,hr,hfetch.1])] at hout
      exact fetching_request hout hspec nofun (by simp [hr,hfetch.1]) (haddr _) (Nat.zero_le _)
    | false =>
      rw [if_neg (by simp [System.input,System.answer,hr])] at hout
      exact habort _ _ _ hout (Nat.le_refl _) hfetch.1 hr rfl rfl rfl (haddr _)
  | WAIT_ABORTED =>
    rw [hCS] at hfetch
    rcases hfetch with ⟨⟨k,a,hk,hpending⟩,-,-⟩
    have hout := fetch_wait_aborted hCS h.quiet hl
    cases hr : c.respond with
    | true =>
      have hrvalid : (s.input mem c).instr_rvalid_i=true := by
        simp [System.input,System.answer,hr,hpending]
      rw [hrvalid,if_pos rfl] at hout
      exact fetching_request hout hspec (fun hno => absurd (hbi.symm.trans hno) nofun)
        (by simp [hr,hpending]) (haddr _) (Nat.zero_le _)
    | false =>
      have hrvalid : (s.input mem c).instr_rvalid_i=false := by
        simp [System.input,System.answer,hr]
      rw [hrvalid,hbi] at hout
      exact habort _ _ _ hout hk.le hpending hr rfl rfl rfl (haddr _)

/-- The address after a window of one more word. -/
theorem fetch_addr_eq {b : State} (hb : b.instr_addr_q=nextAddr q upper n) :
    fetch_addr b=nextAddr q upper (n+1) := by
  unfold fetch_addr
  rw [hb,nextAddr,halfAddr_word]
  refine (halfAddr_add_four (q+BitVec.ofNat 30 n) false).trans ?_
  unfold nextAddr
  rw [BitVec.ofNat_add,BitVec.add_assoc]
  simp

/-- A cycle without a branch moves the window. -/
theorem Inv.step_next (h : Inv mem s q upper n) (hc : Promised c) (hb : c.branch_i=false) :
    ∃ q' upper' n', Inv mem (s.step mem c) q' upper' n' ∧
      Moved (mem s.branches) q upper (atHand (fifoInput s.buffer (s.input mem c)) n)
        (c.ready_i && valid_o s.buffer (s.input mem c)) q' upper' n' := by
  have hfetch := h.fetching
  have hbi : (s.input mem c).branch_i=false := hb
  have hl : (s.input mem c).hwloop_i=false := hc.no_hwloop
  rcases hwlp_quiet h.quiet hl with ⟨-,-,-,hclear,hNS,hspec⟩
  have hbranches : (s.step mem c).branches=s.branches := by simp [System.step,hb]
  rcases h.window.moved (h.feeds hc) (hclear.trans hb) with ⟨q',upper',n',hwindow,hmoved⟩
  refine ⟨q',upper',n',⟨hNS,hbranches.symm ▸ hwindow,?_⟩,hmoved⟩
  have hnext := nextAddr_moved hmoved
  have hbound := hmoved.bound
  have htarget : ∀ a, target (s.input mem c) a=a := fun a => if_neg (by simp [hbi])
  unfold System.Fetching at hfetch
  rcases atHand_cases (fifoInput s.buffer (s.input mem c)) n with ⟨hin,hk⟩ | ⟨hin,hk⟩
  · -- the FIFO takes the awaited word, and the next one may be requested
    rw [hk] at hnext hbound
    rcases fifo_valid_iff.mp hin with ⟨hCS,hanswer⟩
    rw [hCS] at hfetch
    have hr : c.respond=true := by
      by_contra hr
      simp [System.answer,hr] at hanswer
    have hrvalid : (s.input mem c).instr_rvalid_i=true := hanswer
    have hout := fetch_wait_rvalid hCS h.quiet hl
    rw [hbi,Bool.or_false,hrvalid,if_pos rfl,if_pos rfl,htarget] at hout
    by_cases hgo : ((s.input mem c).req_i && in_ready_o s.buffer.fifo)=true
    · rw [if_pos hgo] at hout
      have hready := (Bool.and_eq_true_iff.mp hgo).2
      refine fetching_request hout hspec nofun (by simp [hr,hfetch.1]) ?_
        (hbound.trans (Nat.succ_le_succ (h.ready_le hready)))
      rw [fetch_addr_eq hfetch.2.2,hnext]
    · rw [if_neg hgo] at hout
      rcases step_frame hout hspec with ⟨hCS',hp,hq⟩
      unfold System.Fetching
      rw [hCS',hnext]
      exact ⟨by simp [hp,hr,hfetch.1],fetch_addr_eq (hq.trans hfetch.2.2)⟩
  · -- the FIFO takes nothing
    rw [hk] at hnext hbound
    cases hCS : s.buffer.CS with
    | IDLE =>
      rw [hCS] at hfetch
      have hout := fetch_idle hCS h.quiet hl
      rw [hbi,Bool.or_false,htarget] at hout
      by_cases hgo : ((s.input mem c).req_i && in_ready_o s.buffer.fifo)=true
      · rw [if_pos hgo] at hout
        have hready := (Bool.and_eq_true_iff.mp hgo).2
        exact fetching_request hout hspec nofun (by simp [hfetch.1]) (hfetch.2.trans hnext.symm)
          (hbound.trans ((h.ready_le hready).trans (by decide)))
      · rw [if_neg hgo] at hout
        rcases step_frame hout hspec with ⟨hCS',hp,hq⟩
        unfold System.Fetching
        rw [hCS',hnext,←hfetch.2]
        refine ⟨by simp [hp,hfetch.1],?_⟩
        unfold fetch_addr
        rw [hq]
        rfl
    | WAIT_GNT =>
      rw [hCS] at hfetch
      have hout := fetch_wait_gnt hCS h.quiet hl
      rw [htarget] at hout
      exact fetching_request hout hspec (fun _ => rfl) (by simp [hfetch.1])
        (hfetch.2.2.trans hnext.symm) (hbound.trans hfetch.2.1)
    | WAIT_RVALID =>
      rw [hCS] at hfetch
      have hrvalid : (s.input mem c).instr_rvalid_i=false := by
        cases hv : (s.input mem c).instr_rvalid_i with
        | false => rfl
        | true => exact absurd (hin.symm.trans (fifo_valid_iff.mpr ⟨hCS,hv⟩)) nofun
      have hr : c.respond=false := by
        by_contra hr
        simp [System.input,System.answer,hr,hfetch.1] at hrvalid
      have hout := fetch_wait_rvalid hCS h.quiet hl
      rw [hrvalid,hbi] at hout
      simp only [Bool.false_eq_true,if_false,ite_self] at hout
      rcases step_frame hout hspec with ⟨hCS',hp,hq⟩
      unfold System.Fetching
      rw [hCS',hp,hr,hq,hnext,hbranches]
      exact ⟨by simp [hfetch.1],hbound.trans hfetch.2.1,hfetch.2.2⟩
    | WAIT_ABORTED =>
      rw [hCS] at hfetch
      rcases hfetch with ⟨⟨k,a,hlt,hpending⟩,hzero,haddr⟩
      have hout := fetch_wait_aborted hCS h.quiet hl
      rw [htarget] at hout
      cases hr : c.respond with
      | true =>
        have hrvalid : (s.input mem c).instr_rvalid_i=true := by
          simp [System.input,System.answer,hr,hpending]
        rw [hrvalid,if_pos rfl] at hout
        exact fetching_request hout hspec (fun _ => rfl) (by simp [hr,hpending])
          (haddr.trans hnext.symm) (by omega)
      | false =>
        have hrvalid : (s.input mem c).instr_rvalid_i=false := by
          simp [System.input,System.answer,hr]
        rw [hrvalid] at hout
        rcases step_frame hout hspec with ⟨hCS',hp,hq⟩
        unfold System.Fetching
        rw [hCS',hp,hr,hq,hnext,hbranches]
        exact ⟨⟨k,a,hlt,by simp [hpending]⟩,by omega,by simp [haddr]⟩

/-- What is taken in a cycle is the next instruction of the stream. -/
theorem Inv.accepts (h : Inv mem s q upper n) (hc : Promised c)
    (hv : valid_o s.buffer (s.input mem c)=true) :
    addr_o s.buffer (s.input mem c)=halfAddr q upper ∧
      (mem s.branches).Stores (halfAddr q upper) (rdata_o s.buffer (s.input mem c)) :=
  h.window.out_stores (h.feeds hc) hv

end Cycle

/-- The events of a cycle continue the stream when the later ones do. -/
theorem Inv.events_sequential {mem : ℕ → Memory} {s : System} {c : Cycle} {q : BitVec 30}
    {upper : Bool} {n : ℕ} (h : Inv mem s q upper n) (hc : Promised c) :
    ∃ q' upper' n', Inv mem (s.step mem c) q' upper' n' ∧ ∀ es,
      Sequential mem (s.step mem c).branches (halfAddr q' upper') es →
        Sequential mem s.branches (halfAddr q upper) (s.events mem c++es) := by
  unfold System.events
  cases hb : c.branch_i with
  | true =>
    rcases halfAddr_of_even hc.even with ⟨q',upper',ha⟩
    refine ⟨q',upper',0,h.step_branch hc hb q' upper' ha,fun es hes => ?_⟩
    have hbranch : ∀ pc, Sequential mem s.branches pc (.branch c.addr_i::es) := by
      intro pc
      rw [Sequential,ha]
      simpa [System.step,hb] using hes
    cases htaken : c.ready_i && valid_o s.buffer (s.input mem c) with
    | true =>
      rcases h.accepts hc (Bool.and_eq_true_iff.mp htaken).2 with ⟨haddr,hstores⟩
      exact ⟨haddr,hstores,hbranch _⟩
    | false => exact hbranch _
  | false =>
    rcases h.step_next hc hb with ⟨q',upper',n',hinv,hmoved⟩
    refine ⟨q',upper',n',hinv,fun es hes => ?_⟩
    have hbranches : (s.step mem c).branches=s.branches := by simp [System.step,hb]
    rw [hbranches] at hes
    cases htaken : c.ready_i && valid_o s.buffer (s.input mem c) with
    | true =>
      rcases h.accepts hc (Bool.and_eq_true_iff.mp htaken).2 with ⟨haddr,hstores⟩
      rw [(hmoved.next htaken).2] at hes
      exact ⟨haddr,hstores,hes⟩
    | false =>
      rcases hmoved.kept htaken with ⟨rfl,rfl,-⟩
      exact hes

/-- From an invariant state on the events are those of the stream. -/
theorem trace_sequential {mem : ℕ → Memory} {cycles : List Cycle}
    (hc : ∀ c ∈ cycles, Promised c) {s : System} {q : BitVec 30} {upper : Bool} {n : ℕ}
    (h : Inv mem s q upper n) :
    Sequential mem s.branches (halfAddr q upper) (System.trace mem s cycles) := by
  induction cycles generalizing s q upper n with
  | nil => trivial
  | cons c cycles ih =>
    rcases h.events_sequential (hc c (by simp)) with ⟨q',upper',n',hinv,hevents⟩
    exact hevents _ (ih (fun c' hc' => hc c' (List.mem_cons_of_mem c hc')) hinv)

/-- Every run keeps the invariant. -/
theorem inv_after {mem : ℕ → Memory} {cycles : List Cycle} (hc : ∀ c ∈ cycles, Promised c) :
    ∃ q upper n, Inv mem (after (System.step mem) System.reset cycles) q upper n := by
  induction cycles using List.reverseRecOn with
  | nil => exact ⟨1,false,0,inv_reset mem⟩
  | append_singleton cycles c ih =>
    rcases ih (fun c' hc' => hc c' (List.mem_append_left _ hc')) with ⟨q,upper,n,h⟩
    rw [after_concat]
    rcases h.events_sequential (hc c (by simp)) with ⟨q',upper',n',hinv,-⟩
    exact ⟨q',upper',n',hinv⟩

/-- A 32-bit instruction at `0x102` that spans two words, and compressed ones. -/
def spanning : ℕ → Memory := fun n q => if n=1 ∧ q=0x40 then 0x80130001 else 0x00010001

/-- A cycle of a run that jumps to `0x102`. -/
def jumpCycle (branch_i ready_i instr_gnt_i respond : Bool) : Cycle :=
  ⟨true,branch_i,0x102,false,0,ready_i,instr_gnt_i,respond,0⟩

/-- A jump that drops an owed answer, then two instructions of the new stream. -/
def spanningRun : List Cycle :=
  [jumpCycle false false true false,jumpCycle true false false false,
    jumpCycle false true true true,jumpCycle false true true true,
    jumpCycle false true true true,jumpCycle false true false false]

end Pulpissimo.Riscv.PrefetchBuffer

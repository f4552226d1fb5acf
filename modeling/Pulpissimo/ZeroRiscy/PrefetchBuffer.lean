import Mathlib.Tactic.FinCases
import Pulpissimo.Riscv.PrefetchBuffer
import Pulpissimo.ZeroRiscy.FetchFifo

/-!
# The zero-riscy prefetch buffer over an instruction memory

`zeroriscy_prefetch_buffer` with its fetch state machine around the fetch FIFO.
It asks for a word only while two entries are free. A RI5CY prefetch buffer
that is told to fetch in just these cycles does the same, so the stream of that
buffer is the stream of this one.
-/

namespace Pulpissimo.ZeroRiscy.PrefetchBuffer

open Pulpissimo.Machine Pulpissimo.ZeroRiscy.FetchFifo
open Pulpissimo.Riscv.FetchFifo (Memory Window Feeds atHand atHand_cases)
open Pulpissimo.Riscv.PrefetchBuffer (FetchState Event Sequential)

/-- Registers. -/
structure State where
  /-- Fetch state. -/
  CS : FetchState
  /-- Address of the last request. -/
  instr_addr_q : BitVec 32
  /-- The fetch FIFO. -/
  fifo : FetchFifo.State

/-- Values after reset. -/
def reset : State := ⟨.IDLE,0,FetchFifo.reset⟩

/-- One cycle of inputs. -/
structure Input where
  /-- Fetching is enabled. -/
  req_i : Bool
  /-- Jump to `addr_i`. -/
  branch_i : Bool
  /-- Jump target. -/
  addr_i : BitVec 32
  /-- The instruction is taken. -/
  ready_i : Bool
  /-- Grant. -/
  instr_gnt_i : Bool
  /-- Word that answers a request. -/
  instr_rdata_i : BitVec 32
  /-- A request is answered. -/
  instr_rvalid_i : Bool

/-- Outputs of the fetch machine. -/
structure Fetch where
  /-- Request. -/
  instr_req_o : Bool
  /-- Request address. -/
  instr_addr_o : BitVec 32
  /-- The FIFO takes the answer. -/
  fifo_valid : Bool
  /-- The address is kept. -/
  addr_valid : Bool
  /-- Next state. -/
  NS : FetchState

section Code

variable (s : State) (i : Input)

/-- Address of the word after the last request. -/
def fetch_addr : BitVec 32 := s.instr_addr_q.extractLsb' 2 30++0b00#2+4#32

/-- The fetch machine. -/
def fetch : Fetch :=
  let fifo_ready := in_ready_o s.fifo
  let granted := if i.instr_gnt_i then FetchState.WAIT_RVALID else .WAIT_GNT
  match s.CS with
  | .IDLE =>
    let instr_addr_o := if i.branch_i then i.addr_i else fetch_addr s
    if i.req_i && (fifo_ready || i.branch_i) then ⟨true,instr_addr_o,false,true,granted⟩
    else ⟨false,instr_addr_o,false,false,.IDLE⟩
  | .WAIT_GNT =>
    ⟨true,if i.branch_i then i.addr_i else s.instr_addr_q,false,i.branch_i,granted⟩
  | .WAIT_RVALID =>
    let instr_addr_o := if i.branch_i then i.addr_i else fetch_addr s
    if i.req_i && (fifo_ready || i.branch_i) then
      if i.instr_rvalid_i then ⟨true,instr_addr_o,true,true,granted⟩
      else if i.branch_i then ⟨false,instr_addr_o,false,true,.WAIT_ABORTED⟩
      else ⟨false,instr_addr_o,false,false,.WAIT_RVALID⟩
    else ⟨false,instr_addr_o,i.instr_rvalid_i,false,
      if i.instr_rvalid_i then .IDLE else .WAIT_RVALID⟩
  | .WAIT_ABORTED =>
    ⟨i.instr_rvalid_i,if i.branch_i then i.addr_i else s.instr_addr_q,false,i.branch_i,
      if i.instr_rvalid_i then granted else .WAIT_ABORTED⟩

/-- The buffer is at work. -/
def busy_o : Bool := s.CS != .IDLE || (fetch s i).instr_req_o

/-- What the FIFO sees. -/
def fifoInput : FetchFifo.Input :=
  ⟨i.branch_i,s.instr_addr_q,i.instr_rdata_i,(fetch s i).fifo_valid,i.ready_i⟩

/-- An instruction is offered. -/
def valid_o : Bool := out_valid_o s.fifo (fifoInput s i)

/-- The instruction. -/
def rdata_o : BitVec 32 := out_rdata_o s.fifo (fifoInput s i)

/-- Its address. -/
def addr_o : BitVec 32 := out_addr_o s.fifo (fifoInput s i)

/-- One clock edge. -/
def step : State where
  CS := (fetch s i).NS
  instr_addr_q := if (fetch s i).addr_valid then (fetch s i).instr_addr_o else s.instr_addr_q
  fifo := FetchFifo.step s.fifo (fifoInput s i)

end Code

section States

variable {s : State} {i : Input}

/-- Next state of a granted request. -/
def granted (i : Input) : FetchState := if i.instr_gnt_i then .WAIT_RVALID else .WAIT_GNT

/-- Jump target, or the address that comes next. -/
def target (i : Input) (a : BitVec 32) : BitVec 32 := if i.branch_i then i.addr_i else a

theorem fetch_idle (hCS : s.CS=.IDLE) :
    fetch s i=if i.req_i && (in_ready_o s.fifo || i.branch_i) then
      ⟨true,target i (fetch_addr s),false,true,granted i⟩
      else ⟨false,target i (fetch_addr s),false,false,.IDLE⟩ := by
  unfold fetch
  rw [hCS]
  rfl

theorem fetch_wait_gnt (hCS : s.CS=.WAIT_GNT) :
    fetch s i=⟨true,target i s.instr_addr_q,false,i.branch_i,granted i⟩ := by
  unfold fetch
  rw [hCS]
  rfl

theorem fetch_wait_rvalid (hCS : s.CS=.WAIT_RVALID) :
    fetch s i=if i.req_i && (in_ready_o s.fifo || i.branch_i) then
      if i.instr_rvalid_i then ⟨true,target i (fetch_addr s),true,true,granted i⟩
      else if i.branch_i then ⟨false,target i (fetch_addr s),false,true,.WAIT_ABORTED⟩
      else ⟨false,target i (fetch_addr s),false,false,.WAIT_RVALID⟩
      else ⟨false,target i (fetch_addr s),i.instr_rvalid_i,false,
        if i.instr_rvalid_i then .IDLE else .WAIT_RVALID⟩ := by
  unfold fetch
  rw [hCS]
  rfl

theorem fetch_wait_aborted (hCS : s.CS=.WAIT_ABORTED) :
    fetch s i=⟨i.instr_rvalid_i,target i s.instr_addr_q,false,i.branch_i,
      if i.instr_rvalid_i then granted i else .WAIT_ABORTED⟩ := by
  unfold fetch
  rw [hCS]
  rfl

/-- The FIFO takes every answer that is awaited. -/
theorem fetch_fifo_valid (s : State) (i : Input) :
    (fetch s i).fifo_valid=(s.CS == .WAIT_RVALID && i.instr_rvalid_i) := by
  cases hCS : s.CS with
  | IDLE =>
    rw [fetch_idle hCS]
    split <;> rfl
  | WAIT_GNT =>
    rw [fetch_wait_gnt hCS]
    rfl
  | WAIT_RVALID =>
    rw [fetch_wait_rvalid hCS]
    cases i.instr_rvalid_i <;> cases i.branch_i <;> cases i.req_i <;> cases in_ready_o s.fifo <;> rfl
  | WAIT_ABORTED =>
    rw [fetch_wait_aborted hCS]
    rfl

end States

/-- One cycle outside the buffer: the inputs of the core, and whether the memory
grants and answers. -/
structure Cycle where
  /-- Fetching is enabled. -/
  req_i : Bool
  /-- Jump to `addr_i`. -/
  branch_i : Bool
  /-- Jump target. -/
  addr_i : BitVec 32
  /-- The instruction is taken. -/
  ready_i : Bool
  /-- The memory grants a request. -/
  instr_gnt_i : Bool
  /-- The memory answers its oldest request, if there is one. -/
  respond : Bool
  /-- Data lines without an answer. -/
  idle_rdata : BitVec 32

/-- The buffer and its memory. A granted request is kept with the number of
branches before it. -/
structure System where
  /-- The buffer. -/
  buffer : State
  /-- Granted requests without an answer, oldest first. -/
  pending : List (ℕ×BitVec 32)
  /-- Branches so far. -/
  branches : ℕ

/-- After reset. -/
def System.reset : System := ⟨PrefetchBuffer.reset,[],0⟩

section Memory

variable (mem : ℕ → Memory) (s : System) (c : Cycle)

/-- The request that is answered in a cycle. -/
def System.answer : Option (ℕ×BitVec 32) := if c.respond then s.pending.head? else none

/-- Inputs of the buffer. A request made after `n` branches is answered from
`mem n`. -/
def System.input : Input where
  req_i := c.req_i
  branch_i := c.branch_i
  addr_i := c.addr_i
  ready_i := c.ready_i
  instr_gnt_i := c.instr_gnt_i
  instr_rdata_i :=
    match s.answer c with
    | some (n,a) => mem n (a.extractLsb' 2 30)
    | none => c.idle_rdata
  instr_rvalid_i := (s.answer c).isSome

/-- One clock edge of buffer and memory. -/
def System.step : System :=
  let out := fetch s.buffer (s.input mem c)
  let branches := s.branches+c.branch_i.toNat
  { buffer := PrefetchBuffer.step s.buffer (s.input mem c)
    pending := (if c.respond then s.pending.tail else s.pending)++
      if out.instr_req_o && c.instr_gnt_i then [(branches,out.instr_addr_o)] else []
    branches := branches }

/-- Events of one cycle. -/
def System.events : List Event :=
  (if c.ready_i && valid_o s.buffer (s.input mem c) then
    [.accept (addr_o s.buffer (s.input mem c)) (rdata_o s.buffer (s.input mem c))] else [])++
  if c.branch_i then [.branch c.addr_i] else []

/-- Events of a run. -/
def System.trace : System → List Cycle → List Event
  | _,[] => []
  | s,c::cs => s.events mem c++System.trace (s.step mem c) cs

end Memory

/-- What the IF stage promises: a branch comes with a request, and its target is
even. -/
structure Promised (c : Cycle) : Prop where
  /-- A branch comes with a request. -/
  req : c.branch_i=true → c.req_i=true
  /-- Targets are even. -/
  even : c.addr_i.getLsbD 0=false

/-- One cycle loses no word, takes no answer from before the last branch, and
with fetching enabled waits only for the memory. -/
structure Sound (mem : ℕ → Memory) (s : System) (c : Cycle) : Prop where
  /-- A word that goes to the FIFO finds the last entry free. -/
  room : (fetch s.buffer (s.input mem c)).fifo_valid=true → s.buffer.fifo.valid_Q 2=false
  /-- An answer from before the last branch is dropped. -/
  fresh : ∀ n a, s.answer c=some (n,a) → n≠s.branches →
    (fetch s.buffer (s.input mem c)).fifo_valid=false
  /-- An instruction is offered or requested, or the memory owes an answer. -/
  waits : c.req_i=true → valid_o s.buffer (s.input mem c)=true ∨
    (fetch s.buffer (s.input mem c)).instr_req_o=true ∨ s.pending≠[] ∧ s.answer c=none

section Widen

/-- The RI5CY buffer in the same state. -/
def State.widen (s : State) : Riscv.PrefetchBuffer.State :=
  ⟨s.CS,.HWLP_NONE,false,s.instr_addr_q,s.fifo.widen⟩

/-- A request can be made: two entries are free, or the FIFO is cleared. -/
def State.mayFetch (s : State) (branch_i : Bool) : Bool := in_ready_o s.fifo || branch_i

/-- The RI5CY buffer and the same memory. -/
def System.widen (s : System) : Riscv.PrefetchBuffer.System :=
  ⟨s.buffer.widen,s.pending,s.branches⟩

/-- The cycle in which the RI5CY buffer fetches only when this one may. -/
def System.widenCycle (s : System) (c : Cycle) : Riscv.PrefetchBuffer.Cycle where
  req_i := c.req_i && s.buffer.mayFetch c.branch_i
  branch_i := c.branch_i
  addr_i := c.addr_i
  hwloop_i := false
  hwloop_target_i := 0
  ready_i := c.ready_i
  instr_gnt_i := c.instr_gnt_i
  respond := c.respond
  idle_rdata := c.idle_rdata

theorem widen_reset : System.reset.widen=Riscv.PrefetchBuffer.System.reset := by
  unfold System.widen State.widen System.reset reset
  rw [FetchFifo.widen_reset]
  rfl

variable {mem : ℕ → Memory} {s : System} {c : Cycle}

/-- A promised cycle stays one. -/
theorem widenCycle_promised (hc : Promised c) :
    Riscv.PrefetchBuffer.Promised (s.widenCycle c) := by
  refine ⟨rfl,fun hb => ?_,hc.even⟩
  have hbranch : c.branch_i=true := hb
  simp [System.widenCycle,State.mayFetch,hbranch,hc.req hbranch]

/-- Both FIFOs see the same. -/
theorem widen_fifoInput : Riscv.PrefetchBuffer.fifoInput s.widen.buffer
    (s.widen.input mem (s.widenCycle c))=(fifoInput s.buffer (s.input mem c)).widen := by
  have hvalid : Riscv.PrefetchBuffer.fifo_valid s.widen.buffer
      (s.widen.input mem (s.widenCycle c))=(fetch s.buffer (s.input mem c)).fifo_valid :=
    (fetch_fifo_valid s.buffer (s.input mem c)).symm
  have hclear : Riscv.PrefetchBuffer.fifo_clear s.widen.buffer
      (s.widen.input mem (s.widenCycle c))=c.branch_i := Bool.or_false _
  unfold Riscv.PrefetchBuffer.fifoInput
  rw [hvalid,hclear]
  rfl

theorem widen_valid : Riscv.PrefetchBuffer.valid_o s.widen.buffer
    (s.widen.input mem (s.widenCycle c))=valid_o s.buffer (s.input mem c) := by
  unfold Riscv.PrefetchBuffer.valid_o
  rw [widen_fifoInput]
  exact widen_out_valid _ _

/-- Both buffers show the IF stage the same. -/
theorem widen_events : s.widen.events mem (s.widenCycle c)=s.events mem c := by
  have hrdata : Riscv.PrefetchBuffer.rdata_o s.widen.buffer
      (s.widen.input mem (s.widenCycle c))=rdata_o s.buffer (s.input mem c) := by
    unfold Riscv.PrefetchBuffer.rdata_o
    rw [widen_fifoInput]
    exact widen_out_rdata _ _
  have haddr : Riscv.PrefetchBuffer.addr_o s.widen.buffer
      (s.widen.input mem (s.widenCycle c))=addr_o s.buffer (s.input mem c) := by
    unfold Riscv.PrefetchBuffer.addr_o
    rw [widen_fifoInput]
    exact widen_out_addr _ _
  unfold Riscv.PrefetchBuffer.System.events System.events
  rw [widen_valid,hrdata,haddr]
  rfl

variable (mem) in
/-- A buffer that may fetch is one whose larger FIFO takes more. -/
theorem widen_gate (hready : in_ready_o s.buffer.fifo=true → s.buffer.fifo.valid_Q 2=false) :
    ((s.widen.input mem (s.widenCycle c)).req_i &&
      (Riscv.FetchFifo.in_ready_o s.widen.buffer.fifo || c.branch_i))=
      (c.req_i && (in_ready_o s.buffer.fifo || c.branch_i)) := by
  have hreq : (s.widen.input mem (s.widenCycle c)).req_i=
    (c.req_i && (in_ready_o s.buffer.fifo || c.branch_i)) := rfl
  have hwide : Riscv.FetchFifo.in_ready_o s.widen.buffer.fifo= !s.buffer.fifo.valid_Q 2 := rfl
  rw [hreq,hwide]
  cases hr : in_ready_o s.buffer.fifo with
  | true =>
    rw [hready hr]
    simp
  | false => cases c.req_i <;> cases c.branch_i <;> simp

/-- The fetch machines agree. -/
theorem widen_fetch (hready : in_ready_o s.buffer.fifo=true → s.buffer.fifo.valid_Q 2=false) :
    Riscv.PrefetchBuffer.fetch s.widen.buffer (s.widen.input mem (s.widenCycle c))=
      ⟨(fetch s.buffer (s.input mem c)).instr_req_o,(fetch s.buffer (s.input mem c)).instr_addr_o,
        (fetch s.buffer (s.input mem c)).addr_valid,false,(fetch s.buffer (s.input mem c)).NS⟩ := by
  have hgate := widen_gate mem (c := c) hready
  have hb : (s.widen.input mem (s.widenCycle c)).branch_i=c.branch_i := rfl
  have hbi : (s.input mem c).branch_i=c.branch_i := rfl
  have hri : (s.input mem c).req_i=c.req_i := rfl
  have hv : (s.widen.input mem (s.widenCycle c)).instr_rvalid_i=(s.input mem c).instr_rvalid_i :=
    rfl
  have htarget : ∀ a, Riscv.PrefetchBuffer.target (s.widen.input mem (s.widenCycle c)) a=
      target (s.input mem c) a := fun a => rfl
  have hgrant : Riscv.PrefetchBuffer.granted (s.widen.input mem (s.widenCycle c))=
      granted (s.input mem c) := rfl
  have hnext : Riscv.PrefetchBuffer.fetch_addr s.widen.buffer=fetch_addr s.buffer := rfl
  cases hCS : s.buffer.CS with
  | IDLE =>
    rw [Riscv.PrefetchBuffer.fetch_idle hCS rfl rfl,fetch_idle hCS,hb,hgate,hri,hbi,htarget,hgrant,
      hnext]
    cases c.req_i && (in_ready_o s.buffer.fifo || c.branch_i) <;> rfl
  | WAIT_GNT =>
    rw [Riscv.PrefetchBuffer.fetch_wait_gnt hCS rfl rfl,fetch_wait_gnt hCS]
    rfl
  | WAIT_RVALID =>
    rw [Riscv.PrefetchBuffer.fetch_wait_rvalid hCS rfl rfl,fetch_wait_rvalid hCS,hb,hgate,hv,hri,
      hbi,htarget,hgrant,hnext]
    cases c.req_i && (in_ready_o s.buffer.fifo || c.branch_i) with
    | false => rfl
    | true => cases (s.input mem c).instr_rvalid_i with
      | true => rfl
      | false => cases c.branch_i <;> rfl
  | WAIT_ABORTED =>
    rw [Riscv.PrefetchBuffer.fetch_wait_aborted hCS rfl rfl,fetch_wait_aborted hCS]
    rfl

/-- A clock edge keeps the two systems together while no word is lost. -/
theorem widen_step (hready : in_ready_o s.buffer.fifo=true → s.buffer.fifo.valid_Q 2=false)
    (hroom : (fetch s.buffer (s.input mem c)).fifo_valid=true → s.buffer.fifo.valid_Q 2=false) :
    s.widen.step mem (s.widenCycle c)=(s.step mem c).widen := by
  have hfifo : (fifoInput s.buffer (s.input mem c)).in_valid_i=true →
      ∃ k, s.buffer.fifo.valid_Q k=false := fun h => ⟨2,hroom h⟩
  have hquiet : s.widen.buffer.hwlp_CS=.HWLP_NONE := rfl
  rcases Riscv.PrefetchBuffer.hwlp_quiet (i := s.widen.input mem (s.widenCycle c)) hquiet rfl with
    ⟨hmasked,-,-,-,hNS,hspec⟩
  have hstep : Riscv.FetchFifo.step s.widen.buffer.fifo
      (fifoInput s.buffer (s.input mem c)).widen=
      (FetchFifo.step s.buffer.fifo (fifoInput s.buffer (s.input mem c))).widen :=
    FetchFifo.widen_step hfifo
  unfold Riscv.PrefetchBuffer.System.step Riscv.PrefetchBuffer.step
  dsimp only
  rw [widen_fetch hready,widen_fifoInput,hmasked,hNS,hspec,hstep]
  rfl

end Widen

/-- Seen as a RI5CY buffer the state is one of its own, and while a word is on
its way there is an entry for it. -/
structure Inv (mem : ℕ → Memory) (s : System) (q : BitVec 30) (upper : Bool) (n : ℕ) : Prop where
  /-- The larger buffer. -/
  wide : Riscv.PrefetchBuffer.Inv mem s.widen q upper n
  /-- A free entry. -/
  free : s.buffer.CS≠.IDLE → n≤2

theorem inv_reset (mem : ℕ → Memory) : Inv mem System.reset 1 false 0 :=
  ⟨widen_reset.symm ▸ Riscv.PrefetchBuffer.inv_reset mem,fun _ => Nat.zero_le 2⟩

section Cycle

variable {mem : ℕ → Memory} {s : System} {c : Cycle} {q : BitVec 30} {upper : Bool} {n : ℕ}

/-- Entries in use are those of the window. -/
theorem Inv.taken (h : Inv mem s q upper n) (j : Fin 3) :
    s.buffer.fifo.valid_Q j=decide (j.val < n) := by
  rw [←ShiftFifo.deepen_castSucc false s.buffer.fifo.valid_Q j]
  exact h.wide.window.words.taken j.castSucc

/-- A FIFO that takes more holds at most one word. -/
theorem Inv.ready_iff (h : Inv mem s q upper n) : in_ready_o s.buffer.fifo=true ↔ n≤1 := by
  unfold in_ready_o
  rw [h.taken]
  simp

theorem Inv.last_free_iff (h : Inv mem s q upper n) : s.buffer.fifo.valid_Q 2=false ↔ n≤2 := by
  rw [h.taken]
  simp

/-- A FIFO that takes more has its last entry free. -/
theorem Inv.ready_free (h : Inv mem s q upper n) (hr : in_ready_o s.buffer.fifo=true) :
    s.buffer.fifo.valid_Q 2=false :=
  h.last_free_iff.mpr ((h.ready_iff.mp hr).trans (by decide))

/-- No word comes into a full FIFO. -/
theorem Inv.room (h : Inv mem s q upper n)
    (hv : (fetch s.buffer (s.input mem c)).fifo_valid=true) : s.buffer.fifo.valid_Q 2=false := by
  rw [fetch_fifo_valid,Bool.and_eq_true,beq_iff_eq] at hv
  exact h.last_free_iff.mpr (h.free (by rw [hv.1]; nofun))

/-- After a cycle without a branch, whose window grew by an incoming word and
moved, a word on its way finds an entry. -/
theorem Inv.free_next (h : Inv mem s q upper n) (hb : c.branch_i=false)
    (hNS : (fetch s.buffer (s.input mem c)).NS≠.IDLE) :
    atHand (Riscv.PrefetchBuffer.fifoInput s.widen.buffer (s.widen.input mem (s.widenCycle c))) n≤2
    := by
  have hfree := h.free
  have hready := h.ready_iff
  have hbi : (s.input mem c).branch_i=false := hb
  rw [widen_fifoInput]
  rcases atHand_cases (fifoInput s.buffer (s.input mem c)).widen n with ⟨hin,hk⟩ | ⟨hin,hk⟩
  · -- with a word coming in, the next request waits for two free entries
    rw [hk]
    have hv : (fetch s.buffer (s.input mem c)).fifo_valid=true := hin
    rw [fetch_fifo_valid,Bool.and_eq_true,beq_iff_eq] at hv
    rw [fetch_wait_rvalid hv.1,hv.2,hbi,Bool.or_false] at hNS
    by_cases hgo : ((s.input mem c).req_i && in_ready_o s.buffer.fifo)=true
    · have hone := hready.mp (Bool.and_eq_true_iff.mp hgo).2
      omega
    · rw [if_neg hgo] at hNS
      exact absurd rfl hNS
  · rw [hk]
    by_cases hCS : s.buffer.CS=.IDLE
    · rw [fetch_idle hCS,hbi,Bool.or_false] at hNS
      by_cases hgo : ((s.input mem c).req_i && in_ready_o s.buffer.fifo)=true
      · have hone := hready.mp (Bool.and_eq_true_iff.mp hgo).2
        omega
      · rw [if_neg hgo] at hNS
        exact absurd rfl hNS
    · exact hfree hCS

/-- Every cycle keeps the invariant. -/
theorem Inv.step (h : Inv mem s q upper n) (hc : Promised c) :
    ∃ q' upper' n', Inv mem (s.step mem c) q' upper' n' := by
  have hwide := widenCycle_promised (s := s) hc
  have hstep := widen_step (c := c) h.ready_free h.room
  cases hb : c.branch_i with
  | true =>
    rcases Riscv.FetchFifo.halfAddr_of_even hc.even with ⟨q',upper',ha⟩
    have hnext := h.wide.step_branch hwide hb q' upper' ha
    rw [hstep] at hnext
    exact ⟨q',upper',0,hnext,fun _ => Nat.zero_le 2⟩
  | false =>
    rcases h.wide.step_next hwide hb with ⟨q',upper',n',hnext,hmoved⟩
    rw [hstep] at hnext
    exact ⟨q',upper',n',hnext,fun hNS => hmoved.bound.trans (h.free_next hb hNS)⟩

/-- Every cycle is sound. -/
theorem Inv.sound (h : Inv mem s q upper n) (hc : Promised c) : Sound mem s c := by
  have hwide := h.wide.sound (widenCycle_promised (s := s) hc)
  have hvalid : Riscv.PrefetchBuffer.fifo_valid s.widen.buffer
      (s.widen.input mem (s.widenCycle c))=(fetch s.buffer (s.input mem c)).fifo_valid :=
    (fetch_fifo_valid s.buffer (s.input mem c)).symm
  refine ⟨h.room,fun k a hans hk => hvalid.symm.trans (hwide.fresh k a hans hk),fun hreq => ?_⟩
  by_cases hgate : s.buffer.mayFetch c.branch_i=true
  · have hwaits := hwide.waits (by simp [System.widenCycle,hreq,hgate])
    rwa [widen_valid,widen_fetch h.ready_free] at hwaits
  · -- two stored words always hold an instruction
    have hbusy : ¬n≤1 := by
      rw [←h.ready_iff]
      unfold State.mayFetch at hgate
      simp only [Bool.or_eq_true,not_or] at hgate
      exact hgate.1
    have hfeeds := h.wide.feeds (widenCycle_promised (s := s) hc)
    refine Or.inl ?_
    rw [←widen_valid]
    refine (h.wide.window.out_valid_iff hfeeds).mpr ?_
    unfold atHand
    exact ⟨by omega,Or.inr (Or.inr (by omega))⟩

end Cycle

/-- A run shows the IF stage what the run of the larger buffer shows it. -/
theorem trace_widen {mem : ℕ → Memory} {cycles : List Cycle} (hc : ∀ c ∈ cycles, Promised c)
    {s : System} {q : BitVec 30} {upper : Bool} {n : ℕ} (h : Inv mem s q upper n) :
    System.trace mem s cycles=Riscv.PrefetchBuffer.System.trace mem s.widen
      (driven (System.step mem) System.widenCycle s cycles) := by
  induction cycles generalizing s q upper n with
  | nil => rfl
  | cons c cycles ih =>
    rcases h.step (hc c (by simp)) with ⟨q',upper',n',hnext⟩
    have hrest := ih (fun c' hc' => hc c' (List.mem_cons_of_mem c hc')) hnext
    rw [driven,System.trace,Riscv.PrefetchBuffer.System.trace,widen_events,
      widen_step h.ready_free h.room,hrest]

/-- Every cycle of the run of the larger buffer is promised. -/
theorem driven_promised {mem : ℕ → Memory} {cycles : List Cycle} (hc : ∀ c ∈ cycles, Promised c)
    (s : System) : ∀ c ∈ driven (System.step mem) System.widenCycle s cycles,
      Riscv.PrefetchBuffer.Promised c := by
  induction cycles generalizing s with
  | nil => exact fun c hmem => absurd hmem List.not_mem_nil
  | cons c cycles ih =>
    intro c' hmem
    rcases List.mem_cons.mp hmem with rfl | hmem
    · exact widenCycle_promised (hc c (by simp))
    · exact ih (fun c' hc' => hc c' (List.mem_cons_of_mem c hc')) _ c' hmem

/-- Every run keeps the invariant. -/
theorem inv_after {mem : ℕ → Memory} {cycles : List Cycle} (hc : ∀ c ∈ cycles, Promised c) :
    ∃ q upper n, Inv mem (after (System.step mem) System.reset cycles) q upper n := by
  induction cycles using List.reverseRecOn with
  | nil => exact ⟨1,false,0,inv_reset mem⟩
  | append_singleton cycles c ih =>
    rcases ih (fun c' hc' => hc c' (List.mem_append_left _ hc')) with ⟨q,upper,n,h⟩
    rw [after_concat]
    exact h.step (hc c (by simp))

/-- A 32-bit instruction at `0x102` that spans two words, and compressed ones. -/
def spanning : ℕ → Memory := fun n q => if n=1 ∧ q=0x40 then 0x80130001 else 0x00010001

/-- A cycle of a run that jumps to `0x102`. -/
def jumpCycle (branch_i ready_i instr_gnt_i respond : Bool) : Cycle :=
  ⟨true,branch_i,0x102,ready_i,instr_gnt_i,respond,0⟩

/-- A jump that drops an owed answer, then two instructions of the new stream. -/
def spanningRun : List Cycle :=
  [jumpCycle false false true false,jumpCycle true false false false,
    jumpCycle false true true true,jumpCycle false true true true,
    jumpCycle false true true true,jumpCycle false true false false]

end Pulpissimo.ZeroRiscy.PrefetchBuffer

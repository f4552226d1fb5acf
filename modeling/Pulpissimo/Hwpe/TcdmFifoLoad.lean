import Pulpissimo.Hwpe.StreamFifo

/-!
# Queues before a port that loads

`hwpe_stream_tcdm_fifo_load` queues the addresses of loads on their way to the memory and the
answers on their way back. The queue of the answers, `hwpe_stream_fifo_earlystall`, stops the
loads some places before it is full, but stores what comes all the same. What comes while it is
not ready is also held in a register, and put on again from there.
-/

namespace Pulpissimo.Hwpe.TcdmFifoLoad

open Pulpissimo.Machine Pulpissimo.RingBuffer Pulpissimo.Hwpe.StreamFifo

variable {FIFO_DEPTH LATCH_FIFO : ℕ}

section Code

variable {DATA_WIDTH : ℕ}

/-- `push_i.ready` of the queue that stalls early. -/
def early_ready (s : Regs DATA_WIDTH FIFO_DEPTH) : Bool :=
  match s.cs with
  | .EMPTY => true
  | .MIDDLE =>
    if s.push_pointer_cs.toNat>s.pop_pointer_cs.toNat then
      decide (s.push_pointer_cs.toNat-s.pop_pointer_cs.toNat<FIFO_DEPTH-2)
    else decide (s.pop_pointer_cs.toNat-s.push_pointer_cs.toNat>1)
  | .FULL => false

/-- One clock edge of it. What is offered is written also where it is not ready. -/
def early_step (LATCH_FIFO : ℕ) (s : Regs DATA_WIDTH FIFO_DEPTH) (i : StreamFifo.Input DATA_WIDTH) :
    Regs DATA_WIDTH FIFO_DEPTH where
  cs := if i.clear_i then .EMPTY else (s.ns i).1
  pop_pointer_cs := if i.clear_i then 0 else (s.ns i).2.1
  push_pointer_cs := if i.clear_i then 0 else (s.ns i).2.2
  fifo_registers := fun q =>
    if LATCH_FIFO=0 then
      if i.clear_i then 0
      else if i.push_valid && q==s.push_pointer_cs && decide (q.toNat<FIFO_DEPTH) then
        i.push.data++i.push.strb
      else s.fifo_registers q
    else if i.push_valid && q==s.push_pointer_cs then i.push.data++i.push.strb
    else s.fifo_registers q
  RAddrRegxDP := (s.ns i).2.1

/-- Registers. -/
structure State (FIFO_DEPTH : ℕ) where
  outgoing : Regs 32 FIFO_DEPTH
  incoming : Regs 32 FIFO_DEPTH
  tcdm_master_r_valid_r : Bool
  tcdm_master_r_data_r : BitVec 32

/-- Values after reset. -/
def reset (FIFO_DEPTH : ℕ) : State FIFO_DEPTH :=
  ⟨StreamFifo.reset 32 FIFO_DEPTH,StreamFifo.reset 32 FIFO_DEPTH,false,0⟩

/-- One cycle of inputs. -/
structure Input where
  clear_i : Bool
  ready_i : Bool
  slave_req : Bool
  slave_add : BitVec 32
  master_gnt : Bool
  master_r_valid : Bool
  master_r_data : BitVec 32

variable (LATCH_FIFO : ℕ) (s : State FIFO_DEPTH) (x : Input)

def incoming_fifo_not_full : Bool := early_ready s.incoming

def slave_gnt : Bool := s.outgoing.push_ready

def master_req : Bool := s.outgoing.pop_valid && incoming_fifo_not_full s

def master_add : BitVec 32 := (s.outgoing.pop LATCH_FIFO).data

def slave_r_valid : Bool := s.incoming.pop_valid

def slave_r_data : BitVec 32 := (s.incoming.pop LATCH_FIFO).data

/-- What the queue of the addresses is given. -/
def outgoingInput : StreamFifo.Input 32 := ⟨x.clear_i,x.slave_req,⟨x.slave_add,0b1111⟩,x.master_gnt⟩

/-- What the queue of the answers is given. -/
def incomingInput : StreamFifo.Input 32 :=
  ⟨x.clear_i,x.master_r_valid || s.tcdm_master_r_valid_r,
    ⟨if x.master_r_valid then x.master_r_data else s.tcdm_master_r_data_r,0b1111⟩,x.ready_i⟩

/-- One clock edge. -/
def step : State FIFO_DEPTH where
  outgoing := StreamFifo.step LATCH_FIFO s.outgoing (outgoingInput x)
  incoming := early_step LATCH_FIFO s.incoming (incomingInput s x)
  tcdm_master_r_valid_r :=
    if x.clear_i then false
    else if x.master_r_valid && incoming_fifo_not_full s then false
    else if x.master_r_valid then true
    else if s.tcdm_master_r_valid_r && incoming_fifo_not_full s then false
    else s.tcdm_master_r_valid_r
  tcdm_master_r_data_r :=
    if x.clear_i then 0 else if x.master_r_valid then x.master_r_data else s.tcdm_master_r_data_r

end Code

/-- What the core, the memory and the taker of the answers do in a cycle. -/
structure Cycle where
  req : Bool
  add : BitVec 32
  /-- The memory grants a load if there is one. -/
  gnt : Bool
  /-- The answer to the load granted last, if there is one. -/
  r_data : BitVec 32
  ready_i : Bool

/-- The unit with its memory, and what has passed its ports so far. -/
structure Watch (FIFO_DEPTH : ℕ) where
  unit : State FIFO_DEPTH
  /-- Addresses and answers that are queued. -/
  out : List (Beat 32)
  inc : List (Beat 32)
  /-- A load was granted in the last cycle. -/
  flight : Bool
  accepted : List (BitVec 32)
  granted : List (BitVec 32)
  answers : List (BitVec 32)
  taken : List (BitVec 32)

namespace Watch

/-- Nothing has passed. -/
def reset (FIFO_DEPTH : ℕ) : Watch FIFO_DEPTH :=
  ⟨TcdmFifoLoad.reset FIFO_DEPTH,[],[],false,[],[],[],[]⟩

variable (LATCH_FIFO : ℕ) (w : Watch FIFO_DEPTH) (c : Cycle)

/-- Inputs of the unit: the memory grants what is asked for and answers one cycle later. -/
def input : Input :=
  ⟨false,c.ready_i,c.req,c.add,c.gnt && master_req w.unit,w.flight,c.r_data⟩

def outgoing : StreamFifo.Watch 32 FIFO_DEPTH := ⟨w.unit.outgoing,w.out⟩

def incoming : StreamFifo.Watch 32 FIFO_DEPTH := ⟨w.unit.incoming,w.inc⟩

/-- One clock edge. -/
def step : Watch FIFO_DEPTH where
  unit := TcdmFifoLoad.step LATCH_FIFO w.unit (w.input c)
  out := (w.outgoing.step LATCH_FIFO (outgoingInput (w.input c))).queue
  inc := (w.incoming.step LATCH_FIFO (incomingInput w.unit (w.input c))).queue
  flight := c.gnt && master_req w.unit
  accepted := w.accepted++if c.req && slave_gnt w.unit then [c.add] else []
  granted := w.granted++if c.gnt && master_req w.unit then [master_add LATCH_FIFO w.unit] else []
  answers := w.answers++if w.flight then [c.r_data] else []
  taken := w.taken++if slave_r_valid w.unit && c.ready_i then [slave_r_data LATCH_FIFO w.unit] else []

/-- The answer in the register. -/
def held : List (BitVec 32) :=
  if w.unit.tcdm_master_r_valid_r then [w.unit.tcdm_master_r_data_r] else []

/-- Each address that was accepted has been granted once or is queued, in order. Each load that was
granted has been answered or is in flight. Each answer has been taken once or is in the unit, in
order. -/
structure Right : Prop where
  addresses : w.accepted=w.granted++w.out.map Beat.data
  answered : w.granted.length=w.answers.length+w.flight.toNat
  values : w.answers=w.taken++(w.inc.map Beat.data++w.held)

/-- No answer comes while the queue of the answers is not ready. -/
def InTime : Prop := w.flight=true → incoming_fifo_not_full w.unit=true

instance : Decidable w.InTime :=
  inferInstanceAs (Decidable (w.flight=true → incoming_fifo_not_full w.unit=true))

end Watch

section Queues

variable {DATA_WIDTH : ℕ} {q : StreamFifo.Watch DATA_WIDTH FIFO_DEPTH}
  {i : StreamFifo.Input DATA_WIDTH}

/-- Unless it is full the queue that stalls early moves like the other one. -/
theorem early_step_eq {s : Regs DATA_WIDTH FIFO_DEPTH} (h : s.cs≠.FULL) :
    early_step LATCH_FIFO s i=StreamFifo.step LATCH_FIFO s i := by
  have hready : s.push_ready=true := bne_iff_ne.mpr h
  unfold early_step StreamFifo.step
  rw [hready]
  simp only [Bool.true_and]

/-- What was queued and what is put on has been taken or is queued. -/
theorem ledger (h : q.Inv) (hclear : i.clear_i=false) : q.queue++q.pushed i=
    (if q.unit.pop_valid && i.pop_ready then [q.unit.pop LATCH_FIFO] else [])++
      (q.step LATCH_FIFO i).queue := by
  have hqueue : (q.step LATCH_FIFO i).queue=q.rest i++q.pushed i := by
    simp [StreamFifo.Watch.step,hclear]
  rw [hqueue,←List.append_assoc]
  refine congrArg (·++q.pushed i) ?_
  show _=(if q.pops i=true then _ else [])++if q.pops i=true then q.queue.tail else q.queue
  by_cases hpop : q.pops i=true
  · rw [if_pos hpop,if_pos hpop]
    have hpos := h.pop_valid_iff.mp (Bool.and_eq_true_iff.mp hpop).1
    cases hq : q.queue with
    | nil =>
      rw [hq] at hpos
      exact absurd hpos (Nat.lt_irrefl 0)
    | cons x xs => rw [h.pop_eq hq]; rfl
  · rw [if_neg hpop,if_neg hpop]
    rfl

/-- Where it is ready, there is room for two. -/
theorem room_of_early_ready (hD : 3 ≤ FIFO_DEPTH) (h : q.Inv) (hready : early_ready q.unit=true) :
    q.queue.length+1<FIFO_DEPTH := by
  unfold early_ready at hready
  cases hcs : q.unit.cs with
  | EMPTY =>
    rw [h.empty.mp hcs]
    omega
  | FULL =>
    rw [hcs] at hready
    exact absurd hready Bool.false_ne_true
  | MIDDLE =>
    rw [hcs] at hready
    rcases h.middle hcs with ⟨hpos,hlt⟩
    have hfront := h.front
    have hback := h.back
    rw [iterate_around hfront] at hback
    by_cases hwrap : q.unit.pop_pointer_cs.toNat+q.queue.length<FIFO_DEPTH
    · rw [Nat.mod_eq_of_lt hwrap] at hback
      have hgt : q.unit.push_pointer_cs.toNat>q.unit.pop_pointer_cs.toNat := by omega
      have hroom := of_decide_eq_true ((if_pos hgt).symm.trans hready)
      omega
    · rw [Nat.mod_eq_sub_mod (by omega),Nat.mod_eq_of_lt (by omega)] at hback
      have hle : ¬q.unit.push_pointer_cs.toNat>q.unit.pop_pointer_cs.toNat := by omega
      have hroom := of_decide_eq_true ((if_neg hle).symm.trans hready)
      omega

end Queues

namespace Watch

variable {w : Watch FIFO_DEPTH} {c : Cycle}

/-- The queues are as they should be, and the register holds nothing. -/
structure Inv (w : Watch FIFO_DEPTH) : Prop extends Right w where
  outgoing : w.outgoing.Inv
  incoming : w.incoming.Inv
  room : w.inc.length<FIFO_DEPTH
  free : w.unit.tcdm_master_r_valid_r=false

theorem Inv.reset (hD : 1 ≤ FIFO_DEPTH) : (Watch.reset FIFO_DEPTH).Inv where
  addresses := rfl
  answered := rfl
  values := rfl
  outgoing := StreamFifo.Watch.Inv.reset hD
  incoming := StreamFifo.Watch.Inv.reset hD
  room := hD
  free := rfl

theorem Inv.not_full (h : w.Inv) : w.unit.incoming.cs≠.FULL := fun hfull =>
  Nat.ne_of_lt h.room (h.incoming.full.mp hfull)

/-- An answer that comes is put on the queue. -/
theorem Inv.pushed_incoming (h : w.Inv) (c : Cycle) :
    (w.incoming.pushed (incomingInput w.unit (w.input c))).map Beat.data=
      if w.flight then [c.r_data] else [] := by
  have hready : w.incoming.unit.push_ready=true := bne_iff_ne.mpr h.not_full
  unfold StreamFifo.Watch.pushed StreamFifo.Watch.pushes
  rw [hready,Bool.and_true]
  show ((if w.flight || w.unit.tcdm_master_r_valid_r then
    [(⟨if w.flight then c.r_data else _,0b1111⟩ : Beat 32)] else []).map Beat.data)=_
  rw [h.free,Bool.or_false]
  cases w.flight <;> rfl

/-- Answers that have been taken and those that are queued. -/
theorem Inv.ledger_incoming (h : w.Inv) (c : Cycle) : (w.step LATCH_FIFO c).answers=
    (w.step LATCH_FIFO c).taken++(w.step LATCH_FIFO c).inc.map Beat.data := by
  have hledger := congrArg (List.map Beat.data)
    (@ledger _ LATCH_FIFO _ _ (incomingInput w.unit (w.input c)) h.incoming rfl)
  rw [List.map_append,List.map_append,h.pushed_incoming] at hledger
  have hheld : w.held=[] := by
    unfold held
    rw [h.free]
    rfl
  have hvalues := h.values
  rw [hheld,List.append_nil] at hvalues
  show w.answers++_=(w.taken++_)++_
  rw [hvalues,List.append_assoc,List.append_assoc]
  refine congrArg (w.taken++·) (hledger.trans ?_)
  refine congrArg (·++_) ?_
  show (if w.unit.incoming.pop_valid && c.ready_i then _ else []).map Beat.data=
    if w.unit.incoming.pop_valid && c.ready_i then _ else []
  split_ifs <;> rfl

/-- Addresses that have been granted and those that are queued. -/
theorem Inv.ledger_outgoing (h : w.Inv) (c : Cycle) : (w.step LATCH_FIFO c).accepted=
    (w.step LATCH_FIFO c).granted++(w.step LATCH_FIFO c).out.map Beat.data := by
  have hledger := congrArg (List.map Beat.data)
    (@ledger _ LATCH_FIFO _ _ (outgoingInput (w.input c)) h.outgoing rfl)
  rw [List.map_append,List.map_append] at hledger
  have hpushed : (w.outgoing.pushed (outgoingInput (w.input c))).map Beat.data=
      if c.req && slave_gnt w.unit then [c.add] else [] := by
    show (if c.req && slave_gnt w.unit then [(⟨c.add,0b1111⟩ : Beat 32)] else []).map Beat.data=_
    split_ifs <;> rfl
  have hgo : (w.outgoing.unit.pop_valid && (outgoingInput (w.input c)).pop_ready)=
      (c.gnt && master_req w.unit) := by
    show (w.unit.outgoing.pop_valid && (c.gnt && (w.unit.outgoing.pop_valid && _)))=_
    cases hv : w.unit.outgoing.pop_valid with
    | true => rw [Bool.true_and,master_req,hv]
    | false => rw [Bool.false_and,master_req,hv,Bool.false_and,Bool.and_false]
  rw [hpushed,hgo] at hledger
  show w.accepted++_=(w.granted++_)++_
  rw [h.addresses,List.append_assoc,List.append_assoc]
  refine congrArg (w.granted++·) (hledger.trans ?_)
  refine congrArg (·++_) ?_
  split_ifs <;> rfl

/-- An answer that comes in time goes to the queue only. -/
theorem Inv.step (hpow : 2^ADDR_DEPTH FIFO_DEPTH=FIFO_DEPTH) (hD : 3 ≤ FIFO_DEPTH) (h : w.Inv)
    (hin : w.InTime) : (w.step LATCH_FIFO c).Inv := by
  have hfree : (w.step LATCH_FIFO c).unit.tcdm_master_r_valid_r=false := by
    show (if false then false else if w.flight && incoming_fifo_not_full w.unit then false
      else if w.flight then true
      else if w.unit.tcdm_master_r_valid_r && _ then false else w.unit.tcdm_master_r_valid_r)=false
    rw [h.free]
    cases hflight : w.flight with
    | true =>
      rw [hin hflight]
      rfl
    | false => rfl
  have hincoming : (w.step LATCH_FIFO c).incoming=
      w.incoming.step LATCH_FIFO (incomingInput w.unit (w.input c)) := by
    show (⟨early_step LATCH_FIFO w.unit.incoming _,_⟩ : StreamFifo.Watch 32 FIFO_DEPTH)=_
    rw [early_step_eq h.not_full]
    rfl
  refine ⟨⟨h.ledger_outgoing c,?_,?_⟩,h.outgoing.step fun _ _ _ _ => hpow,?_,?_,hfree⟩
  · have hanswered := h.answered
    show (w.granted++if c.gnt && master_req w.unit then _ else []).length=
      (w.answers++if w.flight then _ else []).length+(c.gnt && master_req w.unit).toNat
    rw [List.length_append,List.length_append,hanswered]
    cases w.flight <;> cases c.gnt && master_req w.unit <;> rfl
  · rw [held,hfree,if_neg Bool.false_ne_true,List.append_nil]
    exact h.ledger_incoming c
  · rw [hincoming]
    exact h.incoming.step fun _ _ _ _ => hpow
  · have hroom := h.room
    have hlen := congrArg List.length (h.pushed_incoming c)
    rw [List.length_map] at hlen
    show (w.incoming.rest _++w.incoming.pushed _).length<FIFO_DEPTH
    rw [List.length_append,StreamFifo.Watch.length_rest,hlen]
    cases hflight : w.flight with
    | true =>
      have htwo := room_of_early_ready hD h.incoming (hin hflight)
      show w.incoming.queue.length-_+1<FIFO_DEPTH
      omega
    | false =>
      show w.inc.length-_+0<FIFO_DEPTH
      omega

/-- One that does not is in the unit twice. -/
theorem Inv.inTime_of_right (h : w.Inv) (hright : (w.step LATCH_FIFO c).Right) : w.InTime := by
  intro hflight
  by_contra hnot
  rw [Bool.not_eq_true] at hnot
  have hheld : (w.step LATCH_FIFO c).held=[c.r_data] := by
    have hvalid : (w.step LATCH_FIFO c).unit.tcdm_master_r_valid_r=true := by
      show (if false then false else if w.flight && incoming_fifo_not_full w.unit then false
        else if w.flight then true else _)=true
      rw [hflight,hnot]
      rfl
    have hdata : (w.step LATCH_FIFO c).unit.tcdm_master_r_data_r=c.r_data := by
      show (if false then 0 else if w.flight then c.r_data else _)=_
      rw [hflight]
      rfl
    rw [held,hvalid,hdata]
    rfl
  have htwice := hright.values
  rw [h.ledger_incoming c,hheld,←List.append_assoc] at htwice
  have hlen := congrArg List.length htwice
  simp only [List.length_append,List.length_singleton] at hlen
  omega

end Watch

theorem depth_of_pow {k : ℕ} (hk : 2 ≤ k) (hD : FIFO_DEPTH=2^k) :
    2^ADDR_DEPTH FIFO_DEPTH=FIFO_DEPTH ∧ 3 ≤ FIFO_DEPTH := by
  have hge : 2^2 ≤ FIFO_DEPTH := hD ▸ Nat.pow_le_pow_right (by omega) hk
  refine ⟨?_,by omega⟩
  rw [ADDR_DEPTH,if_neg (by omega),hD,Nat.clog_pow 2 k (by omega)]

/-- For every depth that is a power of two from four on, with registers or latches: at every point
of a run the addresses that were accepted have been granted once each and in order, and the answers
have been taken once each and in order, up to what is queued, exactly if no answer comes while the
queue of the answers is not ready. -/
theorem loads_iff {k : ℕ} (hk : 2 ≤ k) (hD : FIFO_DEPTH=2^k) (cs : List Cycle) :
    (∀ before later, before++later=cs →
      (after (Watch.step LATCH_FIFO) (Watch.reset FIFO_DEPTH) before).Right) ↔
    Meets (Watch.step LATCH_FIFO) (fun w _ => w.InTime) (Watch.reset FIFO_DEPTH) cs := by
  have hdepth := depth_of_pow hk hD
  exact holds_iff_meets_of_invariant (fun _ _ h hin => h.step hdepth.1 hdepth.2 hin)
    (fun _ h => h.toRight) (fun _ _ h hright => h.inTime_of_right hright)
    (Watch.Inv.reset (by omega)) cs

/-- A load, with the memory granting and the answer to the last one. -/
def load (add r_data : BitVec 32) (ready_i : Bool) : Cycle := ⟨true,add,true,r_data,ready_i⟩

/-- No load, and the answer to the last one. -/
def idle (r_data : BitVec 32) (ready_i : Bool) : Cycle := ⟨false,0,true,r_data,ready_i⟩

/-- Two loads whose answers are taken. -/
def two : List Cycle := [load 0 0 true,load 4 0 true,idle 10 true,idle 20 true,idle 0 true]

theorem loads_iff_two : (∀ before later, before++later=two →
      (after (Watch.step 0) (Watch.reset 4) before).Right) ∧
    (after (Watch.step 0) (Watch.reset 4) two).taken=[10,20] := by
  have hin : Meets (Watch.step 0) (fun w _ => w.InTime) (Watch.reset 4) two := by
    decide
  exact ⟨(loads_iff (k := 2) (by decide) (by decide) two).mpr hin,by decide⟩

/-- Three loads whose answers are taken late. -/
def late : List Cycle := [load 0 0 false,load 4 0 false,load 8 10 false,idle 20 false,idle 30 true,
  idle 0 true,idle 0 true,idle 0 true,idle 0 true]

/-- The third answer comes while the queue is not ready, and is taken three times. -/
theorem not_once : ¬∀ cs : List Cycle, (after (Watch.step 0) (Watch.reset 4) cs).taken <+:
    (after (Watch.step 0) (Watch.reset 4) cs).answers := by
  intro h
  have htaken : (after (Watch.step 0) (Watch.reset 4) late).taken=[10,20,30,30,30] := by decide
  have hanswers : (after (Watch.step 0) (Watch.reset 4) late).answers=[10,20,30] := by decide
  have hlate := h late
  rw [htaken,hanswers] at hlate
  exact absurd hlate.length_le (by decide)

end Pulpissimo.Hwpe.TcdmFifoLoad

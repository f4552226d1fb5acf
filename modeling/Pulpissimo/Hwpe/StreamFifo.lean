import Mathlib.Data.Nat.Log
import Pulpissimo.Lib.Machine
import Pulpissimo.Lib.RingBuffer

/-!
# The queue of the streams

`hwpe_stream_fifo` keeps data and strobes on a ring of registers or latches, with
two pointers and a state that tells an empty ring from a full one. All pointers go
from the last place to the first, except the one of a value that is put on an empty
ring: that one counts on, and only wraps where the depth is a power of two.
-/

namespace Pulpissimo.Hwpe.StreamFifo

open Pulpissimo.Machine Pulpissimo.RingBuffer

variable {DATA_WIDTH FIFO_DEPTH LATCH_FIFO : ℕ}

/-- Width of the pointers. -/
abbrev ADDR_DEPTH (FIFO_DEPTH : ℕ) : ℕ := if FIFO_DEPTH=1 then 1 else Nat.clog 2 FIFO_DEPTH

/-- Data and strobes of a value. -/
structure Beat (DATA_WIDTH : ℕ) where
  data : BitVec DATA_WIDTH
  strb : BitVec (DATA_WIDTH/8)
  deriving DecidableEq

/-- States. -/
inductive Fill
  | EMPTY
  | FULL
  | MIDDLE
  deriving DecidableEq

/-- Registers. -/
structure Regs (DATA_WIDTH FIFO_DEPTH : ℕ) where
  cs : Fill
  pop_pointer_cs : BitVec (ADDR_DEPTH FIFO_DEPTH)
  push_pointer_cs : BitVec (ADDR_DEPTH FIFO_DEPTH)
  /-- The registers, or the words of the latch array. -/
  fifo_registers : BitVec (ADDR_DEPTH FIFO_DEPTH) → BitVec (DATA_WIDTH+DATA_WIDTH/8)
  /-- Read address of the latch array. -/
  RAddrRegxDP : BitVec (ADDR_DEPTH FIFO_DEPTH)

/-- One cycle of inputs. -/
structure Input (DATA_WIDTH : ℕ) where
  clear_i : Bool
  /-- A value is offered. -/
  push_valid : Bool
  push : Beat DATA_WIDTH
  /-- The value in front is taken. -/
  pop_ready : Bool

/-- Values after reset. -/
def reset (DATA_WIDTH FIFO_DEPTH : ℕ) : Regs DATA_WIDTH FIFO_DEPTH := ⟨.EMPTY,0,0,fun _ => 0,0⟩

section Code

variable (LATCH_FIFO : ℕ) (s : Regs DATA_WIDTH FIFO_DEPTH) (i : Input DATA_WIDTH)

def Regs.push_ready : Bool := s.cs != .FULL

def Regs.pop_valid : Bool := s.cs != .EMPTY

/-- A pointer after the last place goes to the first. -/
def wrap (p : BitVec (ADDR_DEPTH FIFO_DEPTH)) : BitVec (ADDR_DEPTH FIFO_DEPTH) :=
  if p.toNat=FIFO_DEPTH-1 then 0 else p+1

/-- The pointer `p` is just before `q`. The subtraction has more bits than the pointers. -/
def justBefore (p q : BitVec (ADDR_DEPTH FIFO_DEPTH)) : Bool :=
  decide ((p.toNat : ℤ)=q.toNat-1) || (decide (p.toNat=FIFO_DEPTH-1) && q==0)

/-- Next state, next `pop_pointer_cs` and next `push_pointer_cs`. -/
def Regs.ns : Fill×BitVec (ADDR_DEPTH FIFO_DEPTH)×BitVec (ADDR_DEPTH FIFO_DEPTH) :=
  match s.cs,i.push_valid,i.pop_ready with
  | .EMPTY,false,_ => (.EMPTY,s.pop_pointer_cs,s.push_pointer_cs)
  | .EMPTY,true,_ => (.MIDDLE,s.pop_pointer_cs,s.push_pointer_cs+1)
  | .MIDDLE,false,true => (if justBefore s.pop_pointer_cs s.push_pointer_cs then .EMPTY else .MIDDLE,
      wrap s.pop_pointer_cs,s.push_pointer_cs)
  | .MIDDLE,false,false => (.MIDDLE,s.pop_pointer_cs,s.push_pointer_cs)
  | .MIDDLE,true,true => (.MIDDLE,wrap s.pop_pointer_cs,wrap s.push_pointer_cs)
  | .MIDDLE,true,false => (if justBefore s.push_pointer_cs s.pop_pointer_cs then .FULL else .MIDDLE,
      s.pop_pointer_cs,wrap s.push_pointer_cs)
  | .FULL,_,true => (.MIDDLE,wrap s.pop_pointer_cs,s.push_pointer_cs)
  | .FULL,_,false => (.FULL,s.pop_pointer_cs,s.push_pointer_cs)

/-- One clock edge. Registers are cleared and there are as many as the depth says; latches are
not cleared, and there is one for each value of a pointer. -/
def step : Regs DATA_WIDTH FIFO_DEPTH where
  cs := if i.clear_i then .EMPTY else (s.ns i).1
  pop_pointer_cs := if i.clear_i then 0 else (s.ns i).2.1
  push_pointer_cs := if i.clear_i then 0 else (s.ns i).2.2
  fifo_registers := fun q =>
    if LATCH_FIFO=0 then
      if i.clear_i then 0
      else if s.push_ready && i.push_valid && q==s.push_pointer_cs && decide (q.toNat<FIFO_DEPTH) then
        i.push.data++i.push.strb
      else s.fifo_registers q
    else if s.push_ready && i.push_valid && q==s.push_pointer_cs then i.push.data++i.push.strb
    else s.fifo_registers q
  RAddrRegxDP := (s.ns i).2.1

/-- What is read. A register that does not exist gives zero here, in place of an unknown value. -/
def Regs.data_out_int : BitVec (DATA_WIDTH+DATA_WIDTH/8) :=
  s.fifo_registers (if LATCH_FIFO=0 then s.pop_pointer_cs else s.RAddrRegxDP)

/-- The value in front. -/
def Regs.pop : Beat DATA_WIDTH where
  data := if s.pop_valid then (s.data_out_int LATCH_FIFO).extractLsb' (DATA_WIDTH/8) DATA_WIDTH else 0
  strb := if s.pop_valid then (s.data_out_int LATCH_FIFO).extractLsb' 0 (DATA_WIDTH/8) else 0

end Code

/-- The queue with the values put on and not yet taken since the last clear. -/
structure Watch (DATA_WIDTH FIFO_DEPTH : ℕ) where
  unit : Regs DATA_WIDTH FIFO_DEPTH
  queue : List (Beat DATA_WIDTH)

namespace Watch

/-- Nothing is in it. -/
def reset (DATA_WIDTH FIFO_DEPTH : ℕ) : Watch DATA_WIDTH FIFO_DEPTH :=
  ⟨StreamFifo.reset DATA_WIDTH FIFO_DEPTH,[]⟩

/-- A value is put on. -/
def pushes (w : Watch DATA_WIDTH FIFO_DEPTH) (i : Input DATA_WIDTH) : Bool :=
  i.push_valid && w.unit.push_ready

/-- The value in front is taken. -/
def pops (w : Watch DATA_WIDTH FIFO_DEPTH) (i : Input DATA_WIDTH) : Bool :=
  w.unit.pop_valid && i.pop_ready

/-- Values that stay. -/
def rest (w : Watch DATA_WIDTH FIFO_DEPTH) (i : Input DATA_WIDTH) : List (Beat DATA_WIDTH) :=
  if w.pops i then w.queue.tail else w.queue

/-- Values that are put on. -/
def pushed (w : Watch DATA_WIDTH FIFO_DEPTH) (i : Input DATA_WIDTH) : List (Beat DATA_WIDTH) :=
  if w.pushes i then [i.push] else []

/-- One clock edge. -/
def step (LATCH_FIFO : ℕ) (w : Watch DATA_WIDTH FIFO_DEPTH) (i : Input DATA_WIDTH) :
    Watch DATA_WIDTH FIFO_DEPTH where
  unit := StreamFifo.step LATCH_FIFO w.unit i
  queue := if i.clear_i then [] else w.rest i++w.pushed i

/-- The value in front is the oldest one, both sides are told what there is, and the pointers
are places of the ring. -/
structure Right (LATCH_FIFO : ℕ) (w : Watch DATA_WIDTH FIFO_DEPTH) : Prop where
  held : w.queue.length ≤ FIFO_DEPTH
  push_ready : w.unit.push_ready=false ↔ w.queue.length=FIFO_DEPTH
  pop_valid : w.unit.pop_valid=false ↔ w.queue=[]
  front : ∀ x xs, w.queue=x::xs → w.unit.pop LATCH_FIFO=x
  pop_pointer : w.unit.pop_pointer_cs.toNat<FIFO_DEPTH
  push_pointer : w.unit.push_pointer_cs.toNat<FIFO_DEPTH

/-- A value that is put on the last place of an empty ring finds pointers that wrap by
themselves. -/
def Wraps (w : Watch DATA_WIDTH FIFO_DEPTH) (i : Input DATA_WIDTH) : Prop :=
  i.clear_i=false → w.unit.cs=.EMPTY → i.push_valid=true →
    w.unit.push_pointer_cs.toNat=FIFO_DEPTH-1 → 2^ADDR_DEPTH FIFO_DEPTH=FIFO_DEPTH

end Watch

section Pointers

theorem depth_le : FIFO_DEPTH ≤ 2^ADDR_DEPTH FIFO_DEPTH := by
  unfold ADDR_DEPTH
  split_ifs with hone
  · rw [hone]
    decide
  · exact Nat.le_pow_clog (by decide) _

/-- A pointer that is not the last one does not wrap. -/
theorem toNat_succ {p : BitVec (ADDR_DEPTH FIFO_DEPTH)} (hp : p.toNat+1<FIFO_DEPTH) :
    (p+1).toNat=p.toNat+1 := by
  have hle : FIFO_DEPTH ≤ 2^ADDR_DEPTH FIFO_DEPTH := depth_le
  exact (toNat_up p).trans (Nat.mod_eq_of_lt (by omega))

theorem toNat_wrap {p : BitVec (ADDR_DEPTH FIFO_DEPTH)} (hp : p.toNat<FIFO_DEPTH) :
    (wrap p).toNat=around FIFO_DEPTH p.toNat := by
  unfold wrap around
  split_ifs with hlast
  · exact BitVec.toNat_ofNat _ _
  · exact toNat_succ (by omega)

/-- The pointer that counts on goes around where it is not on the last place or wraps by itself. -/
theorem toNat_count_on {p : BitVec (ADDR_DEPTH FIFO_DEPTH)} (hp : p.toNat<FIFO_DEPTH)
    (hlast : p.toNat=FIFO_DEPTH-1 → 2^ADDR_DEPTH FIFO_DEPTH=FIFO_DEPTH) :
    (p+1).toNat=around FIFO_DEPTH p.toNat := by
  unfold around
  split_ifs with hend
  · have hup := toNat_up p
    rw [hlast hend,hend,Nat.sub_add_cancel (by omega),Nat.mod_self] at hup
    exact hup
  · exact toNat_succ (by omega)

/-- Else it leaves the ring. -/
theorem toNat_leaves {p : BitVec (ADDR_DEPTH FIFO_DEPTH)} (hD : 1 ≤ FIFO_DEPTH)
    (hlast : p.toNat=FIFO_DEPTH-1) (hpow : 2^ADDR_DEPTH FIFO_DEPTH≠FIFO_DEPTH) :
    (p+1).toNat=FIFO_DEPTH := by
  have hle : FIFO_DEPTH ≤ 2^ADDR_DEPTH FIFO_DEPTH := depth_le
  have hup := toNat_up p
  rw [hlast,Nat.sub_add_cancel hD,Nat.mod_eq_of_lt (by omega)] at hup
  exact hup

theorem justBefore_iff {p q : BitVec (ADDR_DEPTH FIFO_DEPTH)} (hq : q.toNat<FIFO_DEPTH) :
    justBefore p q=true ↔ around FIFO_DEPTH p.toNat=q.toNat := by
  have hzero : q=0 ↔ q.toNat=0 := by
    rw [←BitVec.toNat_inj]
    rfl
  unfold justBefore around
  rw [Bool.or_eq_true_iff,Bool.and_eq_true_iff,decide_eq_true_iff,decide_eq_true_iff,beq_iff_eq,
    hzero]
  split_ifs <;> omega

end Pointers

/-- What is stored of a value. -/
def Beat.word (x : Beat DATA_WIDTH) : BitVec (DATA_WIDTH+DATA_WIDTH/8) := x.data++x.strb

theorem Beat.extract_data (x : Beat DATA_WIDTH) :
    x.word.extractLsb' (DATA_WIDTH/8) DATA_WIDTH=x.data := by
  rw [Beat.word,BitVec.extractLsb'_append_eq_left]

theorem Beat.extract_strb (x : Beat DATA_WIDTH) : x.word.extractLsb' 0 (DATA_WIDTH/8)=x.strb := by
  rw [Beat.word,BitVec.extractLsb'_append_eq_right]

/-- The ring by its places. -/
def Regs.places (s : Regs DATA_WIDTH FIFO_DEPTH) (k : ℕ) : BitVec (DATA_WIDTH+DATA_WIDTH/8) :=
  s.fifo_registers (BitVec.ofNat _ k)

/-- A cycle writes at most the place of the next value. -/
theorem places_step (LATCH_FIFO : ℕ) (s : Regs DATA_WIDTH FIFO_DEPTH) (i : Input DATA_WIDTH)
    (hclear : i.clear_i=false)
    {k : ℕ} (hk : k<FIFO_DEPTH) : (step LATCH_FIFO s i).places k=
      if (i.push_valid && s.push_ready)=true ∧ k=s.push_pointer_cs.toNat then i.push.word
      else s.places k := by
  have hle : FIFO_DEPTH ≤ 2^ADDR_DEPTH FIFO_DEPTH := depth_le
  have hval : (BitVec.ofNat (ADDR_DEPTH FIFO_DEPTH) k).toNat=k := by
    rw [BitVec.toNat_ofNat]
    exact Nat.mod_eq_of_lt (by omega)
  have hplace : (BitVec.ofNat (ADDR_DEPTH FIFO_DEPTH) k==s.push_pointer_cs)=
      decide (k=s.push_pointer_cs.toNat) := by
    rw [Bool.beq_eq_decide_eq,decide_eq_decide,←BitVec.toNat_inj,hval]
  unfold Regs.places
  simp only [step,hclear,hplace,hval,hk,Bool.and_eq_true_iff,decide_eq_true_iff,Bool.false_eq_true,
    if_false,and_true,ite_self,Beat.word,and_comm (a:=s.push_ready=true)]

namespace Watch

variable {w : Watch DATA_WIDTH FIFO_DEPTH} {i : Input DATA_WIDTH}

/-- The ring has the values of the queue from the pointer of the front on. -/
structure Inv (w : Watch DATA_WIDTH FIFO_DEPTH) : Prop where
  bound : w.queue.length ≤ FIFO_DEPTH
  front : w.unit.pop_pointer_cs.toNat<FIFO_DEPTH
  back : w.unit.push_pointer_cs.toNat=(around FIFO_DEPTH)^[w.queue.length] w.unit.pop_pointer_cs.toNat
  empty : w.unit.cs=.EMPTY ↔ w.queue.length=0
  full : w.unit.cs=.FULL ↔ w.queue.length=FIFO_DEPTH
  values : window (around FIFO_DEPTH) w.unit.places w.unit.pop_pointer_cs.toNat w.queue.length=
    w.queue.map Beat.word
  /-- One place would be both the first and the last. -/
  deep : 0<w.queue.length → 1<FIFO_DEPTH
  /-- The latch array has been given the address of the front. -/
  read : w.unit.cs≠.EMPTY → w.unit.RAddrRegxDP=w.unit.pop_pointer_cs

theorem Inv.reset (hD : 1 ≤ FIFO_DEPTH) : (Watch.reset DATA_WIDTH FIFO_DEPTH).Inv where
  bound := Nat.zero_le _
  front := hD
  back := rfl
  empty := ⟨fun _ => rfl,fun _ => rfl⟩
  full := ⟨fun h => (nomatch h),fun h => absurd h (Nat.ne_of_lt hD)⟩
  values := rfl
  deep h := absurd h (Nat.lt_irrefl 0)
  read h := absurd rfl h

/-- A clear leaves it empty. -/
theorem Inv.step_clear (hD : 1 ≤ FIFO_DEPTH) (hclear : i.clear_i=true) :
    (w.step LATCH_FIFO i).Inv := by
  have hunit : (w.step LATCH_FIFO i).unit.cs=.EMPTY ∧ (w.step LATCH_FIFO i).unit.pop_pointer_cs=0 ∧
      (w.step LATCH_FIFO i).unit.push_pointer_cs=0 := by
    simp [Watch.step,StreamFifo.step,hclear]
  have hqueue : (w.step LATCH_FIFO i).queue=[] := by simp [Watch.step,hclear]
  refine ⟨?_,?_,?_,?_,?_,?_,?_,?_⟩
  · rw [hqueue]
    exact Nat.zero_le _
  · rw [hunit.2.1]
    exact hD
  · rw [hunit.2.1,hunit.2.2,hqueue]
    rfl
  · rw [hunit.1,hqueue]
    exact ⟨fun _ => rfl,fun _ => rfl⟩
  · rw [hunit.1,hqueue]
    exact ⟨fun h => (nomatch h),fun h => absurd h (Nat.ne_of_lt hD)⟩
  · rw [hqueue]
    rfl
  · rw [hqueue]
    exact fun h => absurd h (Nat.lt_irrefl 0)
  · exact fun h => absurd hunit.1 h

theorem Inv.push_ready_iff (h : w.Inv) : w.unit.push_ready=true ↔ w.queue.length<FIFO_DEPTH := by
  have hbound := h.bound
  rw [Regs.push_ready,bne_iff_ne,Ne,h.full]
  omega

theorem Inv.pop_valid_iff (h : w.Inv) : w.unit.pop_valid=true ↔ 0<w.queue.length := by
  rw [Regs.pop_valid,bne_iff_ne,Ne,h.empty,Nat.pos_iff_ne_zero]

theorem Inv.middle (h : w.Inv) (hcs : w.unit.cs=.MIDDLE) :
    0<w.queue.length ∧ w.queue.length<FIFO_DEPTH := by
  have hready := h.push_ready_iff
  have hvalid := h.pop_valid_iff
  rw [Regs.push_ready,hcs] at hready
  rw [Regs.pop_valid,hcs] at hvalid
  exact ⟨hvalid.mp rfl,hready.mp rfl⟩

theorem Inv.push_lt (h : w.Inv) : w.unit.push_pointer_cs.toNat<FIFO_DEPTH := by
  rw [h.back,iterate_around h.front]
  exact Nat.mod_lt _ (Nat.zero_lt_of_lt h.front)

/-- What is read is the word of the value in front. -/
theorem Inv.pop_eq (h : w.Inv) {x : Beat DATA_WIDTH} {xs : List (Beat DATA_WIDTH)}
    (hqueue : w.queue=x::xs) : w.unit.pop LATCH_FIFO=x := by
  have hpos : 0<w.queue.length := by
    rw [hqueue]
    exact Nat.succ_pos _
  have hvalid := h.pop_valid_iff.mpr hpos
  have hread : w.unit.data_out_int LATCH_FIFO=w.unit.places w.unit.pop_pointer_cs.toNat := by
    have haddr : w.unit.RAddrRegxDP=w.unit.pop_pointer_cs :=
      h.read fun hcs => absurd (h.empty.mp hcs) (Nat.ne_of_gt hpos)
    rw [Regs.data_out_int,haddr,ite_self,Regs.places,BitVec.ofNat_toNat,BitVec.setWidth_eq]
  have hvalues := h.values
  rw [hqueue,List.length_cons,window_succ,List.map_cons,List.cons.injEq] at hvalues
  rw [Regs.pop,hread,hvalues.1,if_pos hvalid,if_pos hvalid,Beat.extract_data,Beat.extract_strb]

theorem Inv.right (h : w.Inv) : w.Right LATCH_FIFO where
  held := h.bound
  push_ready := by
    have hbound := h.bound
    rw [←Bool.not_eq_true,h.push_ready_iff]
    omega
  pop_valid := by
    rw [←Bool.not_eq_true,h.pop_valid_iff,←List.length_eq_zero_iff]
    omega
  front _ _ hqueue := h.pop_eq hqueue
  pop_pointer := h.front
  push_pointer := h.push_lt

/-- The pointers move with the values. -/
theorem Inv.step_pop_pointer (LATCH_FIFO : ℕ) (h : w.Inv) (hclear : i.clear_i=false) :
    (w.step LATCH_FIFO i).unit.pop_pointer_cs.toNat=
      if w.pops i=true then around FIFO_DEPTH w.unit.pop_pointer_cs.toNat
      else w.unit.pop_pointer_cs.toNat := by
  have hwrap := toNat_wrap h.front
  have hstep : (w.step LATCH_FIFO i).unit.pop_pointer_cs=
      if w.pops i=true then wrap w.unit.pop_pointer_cs else w.unit.pop_pointer_cs := by
    have hns : (w.step LATCH_FIFO i).unit.pop_pointer_cs=(w.unit.ns i).2.1 := by
      simp [Watch.step,StreamFifo.step,hclear]
    rw [hns]
    unfold Regs.ns pops Regs.pop_valid
    cases w.unit.cs <;> cases i.push_valid <;> cases i.pop_ready <;> rfl
  rw [hstep,apply_ite BitVec.toNat,hwrap]

theorem Inv.step_push_pointer (LATCH_FIFO : ℕ) (h : w.Inv) (hclear : i.clear_i=false)
    (hwraps : w.Wraps i) :
    (w.step LATCH_FIFO i).unit.push_pointer_cs.toNat=
      if w.pushes i=true then around FIFO_DEPTH w.unit.push_pointer_cs.toNat
      else w.unit.push_pointer_cs.toNat := by
  have hwrap := toNat_wrap h.push_lt
  have hstep : (w.step LATCH_FIFO i).unit.push_pointer_cs=(w.unit.ns i).2.2 := by
    simp [Watch.step,StreamFifo.step,hclear]
  rw [hstep]
  cases hvalid : i.push_valid with
  | false =>
    have hsame : (w.unit.ns i).2.2=w.unit.push_pointer_cs := by
      unfold Regs.ns
      rw [hvalid]
      cases w.unit.cs <;> cases i.pop_ready <;> rfl
    rw [hsame,pushes,hvalid,Bool.false_and,if_neg Bool.false_ne_true]
  | true =>
    rw [pushes,hvalid,Bool.true_and,Regs.push_ready]
    cases hcs : w.unit.cs with
    | EMPTY =>
      have hon : (w.unit.ns i).2.2=w.unit.push_pointer_cs+1 := by simp only [Regs.ns,hcs,hvalid]
      rw [hon]
      exact toNat_count_on h.push_lt (hwraps hclear hcs hvalid)
    | FULL =>
      have hsame : (w.unit.ns i).2.2=w.unit.push_pointer_cs := by
        unfold Regs.ns
        rw [hcs,hvalid]
        cases i.pop_ready <;> rfl
      rw [hsame]
      rfl
    | MIDDLE =>
      have hon : (w.unit.ns i).2.2=wrap w.unit.push_pointer_cs := by
        unfold Regs.ns
        rw [hcs,hvalid]
        cases i.pop_ready <;> rfl
      rw [hon]
      exact hwrap

theorem length_rest (w : Watch DATA_WIDTH FIFO_DEPTH) (i : Input DATA_WIDTH) :
    (w.rest i).length=w.queue.length-(if w.pops i=true then 1 else 0) := by
  unfold rest
  split_ifs
  · exact List.length_tail
  · rfl

theorem length_pushed (w : Watch DATA_WIDTH FIFO_DEPTH) (i : Input DATA_WIDTH) :
    (w.pushed i).length=if w.pushes i=true then 1 else 0 := by
  unfold pushed
  split_ifs <;> rfl

/-- State of a ring of `n` values. -/
def fillState (FIFO_DEPTH n : ℕ) : Fill :=
  if n=0 then .EMPTY else if n=FIFO_DEPTH then .FULL else .MIDDLE

theorem fillState_middle {n : ℕ} (hpos : 0<n) (hlt : n<FIFO_DEPTH) :
    fillState FIFO_DEPTH n=.MIDDLE := by
  unfold fillState
  rw [if_neg (by omega),if_neg (by omega)]

theorem fillState_empty_iff (n : ℕ) : fillState FIFO_DEPTH n=.EMPTY ↔ n=0 := by
  unfold fillState
  split_ifs with hzero hfull
  · exact iff_of_true rfl hzero
  · exact iff_of_false nofun hzero
  · exact iff_of_false nofun hzero

theorem fillState_full_iff (hD : 0<FIFO_DEPTH) (n : ℕ) :
    fillState FIFO_DEPTH n=.FULL ↔ n=FIFO_DEPTH := by
  unfold fillState
  split_ifs with hzero hfull
  · exact iff_of_false nofun (by omega)
  · exact iff_of_true rfl hfull
  · exact iff_of_false nofun hfull

theorem Inv.before_iff (h : w.Inv) (hone : 1<FIFO_DEPTH) (hlen : w.queue.length<FIFO_DEPTH) :
    justBefore w.unit.pop_pointer_cs w.unit.push_pointer_cs=true ↔ w.queue.length=1 := by
  rw [justBefore_iff h.push_lt,h.back]
  constructor
  · intro heq
    by_contra hne
    rcases Nat.lt_or_gt_of_ne hne with hlt | hgt
    · exact iterate_around_ne h.front hlt (by omega) heq.symm
    · exact iterate_around_ne h.front hgt (by omega) heq
  · intro heq
    rw [heq]
    rfl

theorem Inv.behind_iff (h : w.Inv) (hlen : w.queue.length<FIFO_DEPTH) :
    justBefore w.unit.push_pointer_cs w.unit.pop_pointer_cs=true ↔ w.queue.length+1=FIFO_DEPTH := by
  rw [justBefore_iff h.front,h.back,←Function.iterate_succ_apply' (around FIFO_DEPTH)]
  constructor
  · intro heq
    by_contra hne
    exact iterate_around_ne h.front (Nat.succ_pos _) (by omega) heq.symm
  · intro heq
    rw [Nat.succ_eq_add_one,heq]
    exact iterate_around_turn h.front

/-- A value is put on an empty ring only where the ring has more places than one. -/
theorem Inv.deep_of_push (h : w.Inv) (hclear : i.clear_i=false) (hwraps : w.Wraps i)
    (hpush : w.pushes i=true) : 1<FIFO_DEPTH := by
  by_cases hcs : w.unit.cs=.EMPTY
  · by_contra hone
    have hFD : FIFO_DEPTH=1 := by
      have hfront := h.front
      omega
    have hlast : w.unit.push_pointer_cs.toNat=FIFO_DEPTH-1 := by
      have hlt := h.push_lt
      omega
    have hpow := hwraps hclear hcs (Bool.and_eq_true_iff.mp hpush).1 hlast
    rw [hFD] at hpow
    exact absurd hpow (by decide)
  · exact h.deep (Nat.pos_of_ne_zero fun hlen => hcs (h.empty.mpr hlen))

/-- The state follows the number of values. -/
theorem Inv.step_cs (LATCH_FIFO : ℕ) (h : w.Inv) (hclear : i.clear_i=false) (hwraps : w.Wraps i) :
    (w.step LATCH_FIFO i).unit.cs=fillState FIFO_DEPTH
      (w.queue.length-(if w.pops i=true then 1 else 0)+(if w.pushes i=true then 1 else 0)) := by
  have hns : (w.step LATCH_FIFO i).unit.cs=(w.unit.ns i).1 := by
    simp [Watch.step,StreamFifo.step,hclear]
  have hdeep := h.deep_of_push hclear hwraps
  have hD : 0<FIFO_DEPTH := Nat.zero_lt_of_lt h.front
  unfold pushes at hdeep
  rw [hns,pops,pushes]
  unfold Regs.pop_valid Regs.push_ready at *
  cases hcs : w.unit.cs with
  | EMPTY =>
    have hlen := h.empty.mp hcs
    rw [hcs] at hdeep
    cases hvalid : i.push_valid with
    | false => simp [Regs.ns,hcs,hvalid,hlen,fillState]
    | true =>
      have hmiddle : (w.unit.ns i).1=.MIDDLE := by simp only [Regs.ns,hcs,hvalid]
      rw [hmiddle,hlen]
      exact (fillState_middle Nat.one_pos (hdeep (by rw [hvalid]; rfl))).symm
  | FULL =>
    have hlen := h.full.mp hcs
    have hone := h.deep (by omega)
    have hpush : (i.push_valid && Fill.FULL != Fill.FULL)=false := Bool.and_false _
    rw [hpush,hlen]
    cases hready : i.pop_ready with
    | false =>
      have hsame : (w.unit.ns i).1=.FULL := by simp only [Regs.ns,hcs,hready]
      simp [hsame,fillState,Nat.ne_of_gt hD]
    | true =>
      have hmiddle : (w.unit.ns i).1=.MIDDLE := by simp only [Regs.ns,hcs,hready]
      rw [hmiddle]
      exact (fillState_middle (n:=FIFO_DEPTH-1) (by omega) (by omega)).symm
  | MIDDLE =>
    rcases h.middle hcs with ⟨hpos,hlt⟩
    have hbefore := h.before_iff (h.deep hpos) hlt
    have hbehind := h.behind_iff hlt
    cases hvalid : i.push_valid <;> cases hready : i.pop_ready
    · have hsame : (w.unit.ns i).1=.MIDDLE := by simp only [Regs.ns,hcs,hvalid,hready]
      exact hsame.trans (fillState_middle hpos hlt).symm
    · have hpop : (w.unit.ns i).1=
          if justBefore w.unit.pop_pointer_cs w.unit.push_pointer_cs then .EMPTY else .MIDDLE := by
        simp only [Regs.ns,hcs,hvalid,hready]
      rw [hpop,if_congr hbefore rfl rfl]
      show _=fillState FIFO_DEPTH (w.queue.length-1)
      unfold fillState
      split_ifs <;> first | rfl | omega
    · have hpush : (w.unit.ns i).1=
          if justBefore w.unit.push_pointer_cs w.unit.pop_pointer_cs then .FULL else .MIDDLE := by
        simp only [Regs.ns,hcs,hvalid,hready]
      rw [hpush,if_congr hbehind rfl rfl]
      show _=fillState FIFO_DEPTH (w.queue.length+1)
      unfold fillState
      split_ifs <;> first | rfl | omega
    · have hboth : (w.unit.ns i).1=.MIDDLE := by simp only [Regs.ns,hcs,hvalid,hready]
      have hlen : w.queue.length-1+1=w.queue.length := Nat.sub_add_cancel hpos
      rw [hboth]
      show _=fillState FIFO_DEPTH (w.queue.length-1+1)
      rw [hlen,fillState_middle hpos hlt]

/-- The places hold the value that is put on behind the others. -/
theorem Inv.window_push (LATCH_FIFO : ℕ) (h : w.Inv) (hclear : i.clear_i=false) :
    window (around FIFO_DEPTH) (w.step LATCH_FIFO i).unit.places w.unit.pop_pointer_cs.toNat
      (w.queue.length+(w.pushed i).length)=(w.queue++w.pushed i).map Beat.word := by
  have hplace : ∀ k, (around FIFO_DEPTH)^[k] w.unit.pop_pointer_cs.toNat<FIFO_DEPTH := fun k => by
    rw [iterate_around h.front]
    exact Nat.mod_lt _ (Nat.zero_lt_of_lt h.front)
  have hstep := fun k => places_step LATCH_FIFO w.unit i hclear (hplace k)
  rw [length_pushed,List.map_append,←h.values]
  unfold pushed
  by_cases hpush : w.pushes i=true
  · have hroom := h.push_ready_iff.mp (Bool.and_eq_true_iff.mp hpush).2
    have hwrite : window (around FIFO_DEPTH)
        (fun q => if q=(around FIFO_DEPTH)^[w.queue.length] w.unit.pop_pointer_cs.toNat then
          i.push.word else w.unit.places q) w.unit.pop_pointer_cs.toNat (w.queue.length+1)=
        window (around FIFO_DEPTH) w.unit.places w.unit.pop_pointer_cs.toNat w.queue.length++
          [i.push.word] :=
      window_write _ fun k hk => iterate_around_ne h.front hk (Nat.lt_add_right k hroom)
    rw [if_pos hpush,if_pos hpush,List.map_singleton,←hwrite]
    refine window_congr fun k _ => ?_
    rw [←h.back]
    refine (hstep k).trans (if_congr ?_ rfl rfl)
    exact and_iff_right hpush
  · rw [if_neg hpush,if_neg hpush,List.map_nil,List.append_nil]
    exact window_congr fun k _ => (hstep k).trans (if_neg fun hboth => hpush hboth.1)

/-- The next place is behind the values. -/
theorem Inv.step_back (LATCH_FIFO : ℕ) (h : w.Inv) (hclear : i.clear_i=false) (hwraps : w.Wraps i) :
    (w.step LATCH_FIFO i).unit.push_pointer_cs.toNat=(around FIFO_DEPTH)^[w.queue.length-
      (if w.pops i=true then 1 else 0)+(if w.pushes i=true then 1 else 0)]
        (w.step LATCH_FIFO i).unit.pop_pointer_cs.toNat := by
  have hsome : w.pops i=true → 0<w.queue.length := fun hgo =>
    h.pop_valid_iff.mp (Bool.and_eq_true_iff.mp hgo).1
  have hkept : w.unit.push_pointer_cs.toNat=
      (around FIFO_DEPTH)^[w.queue.length-(if w.pops i=true then 1 else 0)]
        (if w.pops i=true then around FIFO_DEPTH w.unit.pop_pointer_cs.toNat
          else w.unit.pop_pointer_cs.toNat) := by
    split_ifs with hpop
    · rw [h.back,←Function.iterate_succ_apply,Nat.succ_eq_add_one,Nat.sub_add_cancel (hsome hpop)]
    · exact h.back
  rw [h.step_push_pointer _ hclear hwraps,h.step_pop_pointer _ hclear]
  by_cases hpush : w.pushes i=true
  · rw [if_pos hpush,if_pos hpush,hkept,Function.iterate_succ_apply']
  · rw [if_neg hpush,if_neg hpush]
    exact hkept

/-- The places hold the values that stay and those that are put on. -/
theorem Inv.step_values (h : w.Inv) (hclear : i.clear_i=false) :
    window (around FIFO_DEPTH) (w.step LATCH_FIFO i).unit.places
      (w.step LATCH_FIFO i).unit.pop_pointer_cs.toNat (w.rest i++w.pushed i).length=
      (w.rest i++w.pushed i).map Beat.word := by
  have hwindow := h.window_push LATCH_FIFO hclear
  rw [h.step_pop_pointer _ hclear,List.length_append]
  unfold rest
  by_cases hpop : w.pops i=true
  · rw [if_pos hpop,if_pos hpop]
    cases hqueue : w.queue with
    | nil =>
      have hpos := h.pop_valid_iff.mp (Bool.and_eq_true_iff.mp hpop).1
      rw [hqueue] at hpos
      exact absurd hpos (Nat.lt_irrefl 0)
    | cons x xs =>
      rw [hqueue,List.length_cons,Nat.add_right_comm,window_succ,List.cons_append,List.map_cons,
        List.cons.injEq] at hwindow
      exact hwindow.2
  · rw [if_neg hpop,if_neg hpop]
    exact hwindow

/-- A cycle in which no pointer leaves the ring keeps the queue. -/
theorem Inv.step (h : w.Inv) (hwraps : w.Wraps i) : (w.step LATCH_FIFO i).Inv := by
  have hD : 1 ≤ FIFO_DEPTH := Nat.zero_lt_of_lt h.front
  cases hclear : i.clear_i with
  | true => exact Inv.step_clear hD hclear
  | false =>
    have hqueue : (w.step LATCH_FIFO i).queue=w.rest i++w.pushed i := by
      simp [Watch.step,hclear]
    have hlen : (w.rest i++w.pushed i).length=w.queue.length-(if w.pops i=true then 1 else 0)+
        (if w.pushes i=true then 1 else 0) := by
      rw [List.length_append,length_rest,length_pushed]
    have hcs := h.step_cs LATCH_FIFO hclear hwraps
    have hback := h.step_back LATCH_FIFO hclear hwraps
    rw [←hlen] at hcs hback
    refine ⟨?_,?_,?_,?_,?_,?_,?_,?_⟩
    · have hroom : w.pushes i=true → w.queue.length<FIFO_DEPTH := fun hgo =>
        h.push_ready_iff.mp (Bool.and_eq_true_iff.mp hgo).2
      have hbound := h.bound
      rw [hqueue,hlen]
      by_cases hpush : w.pushes i=true
      · rw [if_pos hpush]
        exact Nat.succ_le_of_lt (Nat.lt_of_le_of_lt (Nat.sub_le _ _) (hroom hpush))
      · rw [if_neg hpush]
        exact (Nat.sub_le _ _).trans hbound
    · rw [h.step_pop_pointer _ hclear]
      split_ifs
      · exact around_lt h.front
      · exact h.front
    · rw [hqueue]
      exact hback
    · rw [hcs,hqueue,fillState_empty_iff]
    · rw [hcs,hqueue,fillState_full_iff hD]
    · rw [hqueue]
      exact h.step_values hclear
    · rw [hqueue,hlen]
      intro hpos
      by_cases hpush : w.pushes i=true
      · exact h.deep_of_push hclear hwraps hpush
      · rw [if_neg hpush] at hpos
        exact h.deep (by omega)
    · intro _
      simp [Watch.step,StreamFifo.step,hclear]

/-- A value that finds no such pointers takes the pointer off the ring. -/
theorem Inv.wraps_of_right (h : w.Inv) (hright : (w.step LATCH_FIFO i).Right LATCH_FIFO) :
    w.Wraps i := by
  intro hclear hcs hvalid hlast
  by_contra hpow
  have hon : (w.step LATCH_FIFO i).unit.push_pointer_cs=w.unit.push_pointer_cs+1 := by
    simp [Watch.step,StreamFifo.step,hclear,Regs.ns,hcs,hvalid]
  have hrange := hright.push_pointer
  rw [hon,toNat_leaves (Nat.zero_lt_of_lt h.front) hlast hpow] at hrange
  exact Nat.lt_irrefl _ hrange

end Watch

/-- For all depths and widths, with registers or latches: at every point of a run the queue shows
the values put on since the last clear in order, tells both sides what it has, and keeps its
pointers on the ring, exactly if all values that are put on the last place of an empty ring
find pointers that wrap by themselves. -/
theorem fifo_iff (hD : 1 ≤ FIFO_DEPTH) (is : List (Input DATA_WIDTH)) :
    (∀ before later, before++later=is → (after (Watch.step LATCH_FIFO)
        (Watch.reset DATA_WIDTH FIFO_DEPTH) before).Right LATCH_FIFO) ↔
      Meets (Watch.step LATCH_FIFO) Watch.Wraps (Watch.reset DATA_WIDTH FIFO_DEPTH) is :=
  holds_iff_meets_of_invariant (fun _ _ h hwraps => h.step hwraps) (fun _ h => h.right)
    (fun _ _ h => h.wraps_of_right) (Watch.Inv.reset hD) is

/-- A value put on, and one taken. -/
def put (x : BitVec 8) : Input 8 := ⟨false,true,⟨x,1⟩,false⟩

def take : Input 8 := ⟨false,false,⟨0,0⟩,true⟩

/-- For a power of two there is no such value. -/
theorem fifo_two_places :
    (∀ before later, before++later=[put 1,take,put 2,take] → (after (Watch.step 0)
        (Watch.reset 8 2) before).Right 0) ↔
      Meets (Watch.step 0) Watch.Wraps (Watch.reset 8 2) [put 1,take,put 2,take] :=
  fifo_iff (by decide) _

/-- With three places, the third value leaves the ring. -/
theorem third_place : ¬∀ before later, before++later=[put 1,take,put 2,take,put 3] →
    (after (Watch.step 0) (Watch.reset 8 3) before).Right 0 := by
  intro h
  have hlast := (h [put 1,take,put 2,take,put 3] [] rfl).push_pointer
  exact absurd hlast (by decide)

end Pulpissimo.Hwpe.StreamFifo

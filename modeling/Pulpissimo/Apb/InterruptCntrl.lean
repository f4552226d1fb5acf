import Pulpissimo.CommonCells.GenericFifo
import Pulpissimo.Lib.Bits
import Pulpissimo.Lib.Select

/-!
# The APB interrupt controller

`apb_interrupt_cntrl` keeps a pending bit for every interrupt line and a queue of SoC
event numbers that drives line 26. An acknowledge goes before an event and an event
before a software write. The queue is popped by an acknowledge of line 26, and whenever
address and data on the bus look like a write that clears it, accessed or not.
-/

namespace Pulpissimo.Apb.InterruptCntrl

open Pulpissimo.Machine Pulpissimo.Bits Pulpissimo.Select
open Pulpissimo.CommonCells

def REG_MASK : BitVec 4 := 0b0000#4
def REG_MASK_SET : BitVec 4 := 0b0001#4
def REG_MASK_CLEAR : BitVec 4 := 0b0010#4
def REG_INT : BitVec 4 := 0b0011#4
def REG_INT_SET : BitVec 4 := 0b0100#4
def REG_INT_CLEAR : BitVec 4 := 0b0101#4
def REG_ACK : BitVec 4 := 0b0110#4
def REG_ACK_SET : BitVec 4 := 0b0111#4
def REG_ACK_CLEAR : BitVec 4 := 0b1000#4
def REG_FIFO : BitVec 4 := 0b1001#4

/-- Registers. -/
structure State where
  i_event_fifo : GenericFifo.State 8 4
  r_mask : BitVec 32
  /-- Pending interrupts. -/
  r_int : BitVec 32
  r_ack : BitVec 32
  /-- Number that was popped last. -/
  r_fifo_event : BitVec 8

/-- One cycle of inputs. -/
structure Input where
  event_fifo_valid_i : Bool
  event_fifo_data_i : BitVec 8
  events_i : BitVec 32
  core_irq_ack_i : Bool
  core_irq_id_i : BitVec 5
  paddr : BitVec 32
  pwdata : BitVec 32
  pwrite : Bool
  psel : Bool
  penable : Bool

/-- Values after reset. -/
def reset : State := ⟨GenericFifo.reset,0,0,0,0⟩

section Bus

variable (i : Input)

def s_apb_addr : BitVec 4 := i.paddr.extractLsb' 2 4

def s_is_apb_write : Bool := i.psel && i.penable && i.pwrite
def s_is_apb_read : Bool := i.psel && i.penable && !i.pwrite

def s_is_mask : Bool := s_apb_addr i==REG_MASK
def s_is_mask_set : Bool := s_apb_addr i==REG_MASK_SET
def s_is_mask_clr : Bool := s_apb_addr i==REG_MASK_CLEAR
def s_is_int : Bool := s_apb_addr i==REG_INT
def s_is_int_set : Bool := s_apb_addr i==REG_INT_SET
def s_is_int_clr : Bool := s_apb_addr i==REG_INT_CLEAR
def s_is_ack : Bool := s_apb_addr i==REG_ACK
def s_is_ack_set : Bool := s_apb_addr i==REG_ACK_SET
def s_is_ack_clr : Bool := s_apb_addr i==REG_ACK_CLEAR
def s_is_fifo : Bool := s_apb_addr i==REG_FIFO

/-- What a write leaves in a register with an address to set bits and one to clear them. -/
def written (is_reg is_set is_clr : Bool) (r : BitVec 32) : BitVec 32 :=
  if is_reg then i.pwdata else if is_set then r ||| i.pwdata
  else if is_clr then r &&& ~~~i.pwdata else r

/-- The core acknowledges line `j`. -/
def acked (j : Fin 32) : Bool := i.core_irq_ack_i && i.core_irq_id_i.toNat==j.val

end Bus

section Code

variable (s : State) (i : Input)

def s_event_fifo_valid : Bool := GenericFifo.valid_o s.i_event_fifo
def s_event_fifo_data : BitVec 8 := GenericFifo.data_o s.i_event_fifo
def event_fifo_fulln_o : Bool := GenericFifo.grant_o s.i_event_fifo

/-- Event lines. Line 26 is the queue's. -/
def s_events (j : Fin 32) : Bool :=
  if j.val=26 then s_event_fifo_valid s else i.events_i.getLsbD j.val

/-- Address and data are those of a write that clears line 26. -/
def busMatch : Bool :=
  (s_is_int_clr i && i.pwdata.getLsbD 26) || (s_is_int i && !i.pwdata.getLsbD 26)

def s_event_fifo_ready : Bool := acked i 26 || busMatch i

/-- Input of `i_event_fifo`. -/
def fifoInput : GenericFifo.Input 8 :=
  ⟨i.event_fifo_data_i,i.event_fifo_valid_i,s_event_fifo_ready i⟩

def s_is_event : Bool := decide (∃ j, s_events s i j)

def core_irq_req_o : Bool := s.r_int &&& s.r_mask != 0

/-- The highest line that is pending and enabled. -/
def core_irq_id_o : BitVec 5 :=
  muxLoop (fun j : Fin 32 => s.r_int.getLsbD j.val && s.r_mask.getLsbD j.val)
    (fun j => BitVec.ofNat 5 j.val) 0

def s_mask_next : BitVec 32 :=
  if s_is_apb_write i then written i (s_is_mask i) (s_is_mask_set i) (s_is_mask_clr i) s.r_mask
  else s.r_mask

def s_int_next : BitVec 32 := ofBits fun j : Fin 32 =>
  if acked i j then false
  else if s_events s i j then true
  else if s_is_apb_write i then
    (written i (s_is_int i) (s_is_int_set i) (s_is_int_clr i) s.r_int).getLsbD j.val
  else s.r_int.getLsbD j.val

def s_ack_next : BitVec 32 := ofBits fun j : Fin 32 =>
  if acked i j then true
  else if s_is_apb_write i then
    (written i (s_is_ack i) (s_is_ack_set i) (s_is_ack_clr i) s.r_ack).getLsbD j.val
  else s.r_ack.getLsbD j.val

/-- One clock edge. -/
def step : State where
  i_event_fifo := GenericFifo.step s.i_event_fifo (fifoInput i)
  r_mask := if s_is_mask_clr i || s_is_mask_set i || s_is_mask i then s_mask_next s i else s.r_mask
  r_int := if s_is_int_clr i || s_is_int_set i || s_is_int i || s_is_event s i || i.core_irq_ack_i
    then s_int_next s i else s.r_int
  r_ack := if s_is_ack_clr i || s_is_ack_set i || s_is_ack i || i.core_irq_ack_i
    then s_ack_next s i else s.r_ack
  r_fifo_event := if s_event_fifo_valid s && s_event_fifo_ready i then s_event_fifo_data s
    else s.r_fifo_event

/-- Read data. -/
def prdata : BitVec 32 :=
  if s_is_apb_read i then
    if s_is_int i then s.r_int
    else if s_is_ack i then s.r_ack
    else if s_is_mask i then s.r_mask
    else if s_is_fifo i then s.r_fifo_event.setWidth 32
    else 0
  else 0

end Code

section Ledger

variable (s : State) (i : Input)

/-- The queue's front number leaves. -/
def pops : Bool := s_event_fifo_valid s && s_event_fifo_ready i

/-- An event comes in for line `j`: a pulse or, for the queue's line, a number that stays. -/
def arrives (j : Fin 32) : Bool :=
  if j.val=26 then s_event_fifo_valid s && !s_event_fifo_ready i else i.events_i.getLsbD j.val

/-- Software clears line `j`. -/
def swClears (j : Fin 32) : Bool :=
  s_is_apb_write i && ((s_is_int i && !i.pwdata.getLsbD j.val) ||
    (s_is_int_clr i && i.pwdata.getLsbD j.val))

/-- The cycle belongs to a write transfer that clears line 26. -/
def clearing : Bool := busMatch i && i.psel && i.pwrite

/-- Cycle `p` is the setup phase of the transfer whose access phase follows in cycle `i`. -/
def setupOf (p : Input) : Bool := clearing p && !p.penable && i.penable

/-- After the cycles before, the cycle belongs to a write transfer that clears line 26 and
has not popped a number in its setup phase. -/
def ByAccess (before : List Input) (i : Input) : Prop :=
  clearing i=true ∧ ∀ pre p, before=pre++[p] → setupOf i p=true →
    ¬(pops (after step reset pre) p=true ∧ acked p 26=false)

/-- No event of a run is lost and none is popped twice. -/
structure NoneLost (is : List Input) : Prop where
  /-- An event leaves its line pending until a later acknowledge or software clear. -/
  pending : ∀ before i later rest, is=before++i::(later++rest) → ∀ j : Fin 32,
    arrives (after step reset before) i j=true →
    Meets step (fun _ k => acked k j=false ∧ swClears k j=false)
      (after step reset (before++[i])) later →
    (after step reset (before++i::later)).r_int.getLsbD j.val=true
  /-- Numbers are popped in the order in which they were pushed, each once. -/
  queued : (driven step (fun s i => GenericFifo.popped s.i_event_fifo (fifoInput i)) reset is).flatten++
      GenericFifo.contents (after step reset is).i_event_fifo=
    (driven step (fun s i => GenericFifo.pushed s.i_event_fifo (fifoInput i)) reset is).flatten
  /-- A number is popped by an acknowledge of line 26 or by a register access made for it. -/
  byOne : ∀ before i later, is=before++i::later → pops (after step reset before) i=true →
    acked i 26=true ∨ ByAccess before i
  /-- A popped number is read from `REG_FIFO` until the next is popped. -/
  readable : ∀ before i later rest, is=before++i::(later++rest) →
    pops (after step reset before) i=true →
    Meets step (fun s k => pops s k=false) (after step reset (before++[i])) later →
    ∀ k, s_is_apb_read k=true → s_is_fifo k=true →
      prdata (after step reset (before++i::later)) k=
        (s_event_fifo_data (after step reset before)).setWidth 32

/-- No line is acknowledged in the cycle of a pulse on it, and whatever looks on the bus
like a write that clears line 26 while a number waits is such a write, which found no
number in its setup phase if this is its access phase. -/
structure Clean (is : List Input) : Prop where
  apart : ∀ i ∈ is, ∀ j : Fin 32, j.val≠26 → i.events_i.getLsbD j.val=true → acked i j=false
  gated : ∀ before i later, is=before++i::later →
    s_event_fifo_valid (after step reset before)=true → busMatch i=true → acked i 26=false →
    i.psel=true ∧ i.pwrite=true ∧ ∀ pre p, before=pre++[p] → setupOf i p=true →
      s_event_fifo_valid (after step reset pre)=false ∨ acked p 26=true

end Ledger

section Cycle

variable {s : State} {i : Input} {j : Fin 32}

/-- Priority of the updates of a pending bit. -/
theorem r_int_step : (step s i).r_int.getLsbD j.val=
    if acked i j then false
    else if s_events s i j then true
    else if s_is_apb_write i then
      (written i (s_is_int i) (s_is_int_set i) (s_is_int_clr i) s.r_int).getLsbD j.val
    else s.r_int.getLsbD j.val := by
  unfold step
  dsimp only
  split_ifs with hen hack hev hw hack hev hw
  · rw [s_int_next,getLsbD_ofBits,if_pos hack]
  · rw [s_int_next,getLsbD_ofBits,if_neg hack,if_pos hev]
  · rw [s_int_next,getLsbD_ofBits,if_neg hack,if_neg hev,if_pos hw]
  · rw [s_int_next,getLsbD_ofBits,if_neg hack,if_neg hev,if_neg hw]
  all_goals
    simp only [Bool.or_eq_true,not_or,Bool.not_eq_true] at hen
  · unfold acked at hack
    rw [hen.2] at hack
    exact absurd hack nofun
  · exact absurd (decide_eq_true (⟨j,hev⟩ : ∃ j, s_events s i j=true)) (by
      rw [show decide (∃ j, s_events s i j=true)=false from hen.1.2]
      exact nofun)
  · rw [written,hen.1.1.1.1,hen.1.1.1.2,hen.1.1.2]
    rfl
  · rfl

/-- An event that is not acknowledged in its cycle leaves its line pending. -/
theorem pending_of_arrives (harr : arrives s i j=true) (hack : acked i j=false) :
    (step s i).r_int.getLsbD j.val=true := by
  have hev : s_events s i j=true := by
    unfold arrives at harr
    unfold s_events
    split_ifs at harr ⊢
    · exact (Bool.and_eq_true_iff.mp harr).1
    · exact harr
  rw [r_int_step,hack,hev,if_neg Bool.false_ne_true,if_pos rfl]

/-- A number that stays is not acknowledged. -/
theorem not_acked_of_arrives (hj : j.val=26) (harr : arrives s i j=true) : acked i j=false := by
  have hj26 : j=26 := Fin.ext hj
  unfold arrives at harr
  rw [if_pos hj,Bool.and_eq_true_iff,Bool.not_eq_true',s_event_fifo_ready,
    Bool.or_eq_false_iff] at harr
  rw [hj26]
  exact harr.2.1

/-- A pending line stays pending until it is acknowledged or cleared. -/
theorem pending_kept (hpend : s.r_int.getLsbD j.val=true) (hack : acked i j=false)
    (hclear : swClears i j=false) : (step s i).r_int.getLsbD j.val=true := by
  rw [r_int_step,hack,if_neg Bool.false_ne_true]
  unfold swClears at hclear
  unfold written
  split_ifs with hev hw hreg hset hclr
  · rfl
  · rw [hw,hreg] at hclear
    simp only [Bool.true_and,Bool.or_eq_false_iff,Bool.not_eq_false'] at hclear
    exact hclear.1
  · rw [BitVec.getLsbD_or,hpend,Bool.true_or]
  · rw [hw,hclr] at hclear
    simp only [Bool.true_and,Bool.or_eq_false_iff] at hclear
    rw [BitVec.getLsbD_and,BitVec.getLsbD_not,hpend,hclear.2]
    simp
  · exact hpend
  · exact hpend

/-- The cycle in which a number leaves keeps it to be read. -/
theorem r_fifo_event_step : (step s i).r_fifo_event=
    if pops s i then s_event_fifo_data s else s.r_fifo_event := rfl

theorem prdata_fifo (hread : s_is_apb_read i=true) (hfifo : s_is_fifo i=true) :
    prdata s i=s.r_fifo_event.setWidth 32 := by
  have haddr : s_apb_addr i=REG_FIFO := beq_iff_eq.mp hfifo
  simp [prdata,hread,hfifo,s_is_int,s_is_ack,s_is_mask,haddr,REG_FIFO,REG_INT,REG_ACK,REG_MASK]

end Cycle

section Runs

/-- The queue is in order. -/
def Sound (s : State) : Prop := ∃ n, GenericFifo.Holds s.i_event_fifo n

theorem sound_reset : Sound reset := ⟨0,GenericFifo.holds_reset (by decide)⟩

theorem sound_step (s : State) (i : Input) (hs : Sound s) : Sound (step s i) := by
  rcases hs with ⟨n,hn⟩
  exact ⟨_,hn.step (by decide) (by decide) (fifoInput i)⟩

theorem queued (is : List Input) :
    (driven step (fun s i => GenericFifo.popped s.i_event_fifo (fifoInput i)) reset is).flatten++
        GenericFifo.contents (after step reset is).i_event_fifo=
      (driven step (fun s i => GenericFifo.pushed s.i_event_fifo (fifoInput i)) reset is).flatten := by
  refine fifo_ledger (P:=Sound) (fun s => GenericFifo.contents s.i_event_fifo) sound_step ?_
    sound_reset is
  rintro s i ⟨n,hn⟩
  exact hn.contents_step (by decide) (by decide) (fifoInput i)

theorem pending_iff (is : List Input) :
    (∀ before i later rest, is=before++i::(later++rest) → ∀ j : Fin 32,
      arrives (after step reset before) i j=true →
      Meets step (fun _ k => acked k j=false ∧ swClears k j=false)
        (after step reset (before++[i])) later →
      (after step reset (before++i::later)).r_int.getLsbD j.val=true) ↔
    ∀ i ∈ is, ∀ j : Fin 32, j.val≠26 → i.events_i.getLsbD j.val=true → acked i j=false := by
  constructor
  · intro h i hi j hj hev
    rcases List.append_of_mem hi with ⟨before,rest,rfl⟩
    have harr : arrives (after step reset before) i j=true := by
      unfold arrives
      rwa [if_neg hj]
    have hpend := h before i [] rest rfl j harr trivial
    rw [after_concat,r_int_step] at hpend
    cases hack : acked i j with
    | false => rfl
    | true =>
      rw [hack,if_pos rfl] at hpend
      exact absurd hpend nofun
  · rintro h before i later rest rfl j harr hlater
    have hack : acked i j=false := by
      by_cases hj : j.val=26
      · exact not_acked_of_arrives hj harr
      · unfold arrives at harr
        rw [if_neg hj] at harr
        exact h i (by simp) j hj harr
    have hfirst : (after step reset (before++[i])).r_int.getLsbD j.val=true := by
      rw [after_concat]
      exact pending_of_arrives harr hack
    rw [show before++i::later=before++[i]++later by simp,after_append]
    exact after_invariant_of_meets (P:=fun s => s.r_int.getLsbD j.val=true)
      (fun s k hs hk => pending_kept hs hk.1 hk.2) hfirst hlater

theorem readable (before : List Input) (i : Input) (later : List Input)
    (hpop : pops (after step reset before) i=true)
    (hlater : Meets step (fun s k => pops s k=false) (after step reset (before++[i])) later)
    (k : Input) (hread : s_is_apb_read k=true) (hfifo : s_is_fifo k=true) :
    prdata (after step reset (before++i::later)) k=
      (s_event_fifo_data (after step reset before)).setWidth 32 := by
  have hfirst : (after step reset (before++[i])).r_fifo_event=
      s_event_fifo_data (after step reset before) := by
    rw [after_concat,r_fifo_event_step,if_pos hpop]
  have hkept := after_invariant_of_meets
    (P:=fun s => s.r_fifo_event=s_event_fifo_data (after step reset before))
    (fun s k hs hk => by rw [r_fifo_event_step,if_neg (by rw [hk]; exact nofun)]; exact hs)
    hfirst hlater
  rw [prdata_fifo hread hfifo,show before++i::later=before++[i]++later by simp,after_append,hkept]

theorem byOne_iff (is : List Input) :
    (∀ before i later, is=before++i::later → pops (after step reset before) i=true →
      acked i 26=true ∨ ByAccess before i) ↔
    ∀ before i later, is=before++i::later →
      s_event_fifo_valid (after step reset before)=true → busMatch i=true → acked i 26=false →
      i.psel=true ∧ i.pwrite=true ∧ ∀ pre p, before=pre++[p] → setupOf i p=true →
        s_event_fifo_valid (after step reset pre)=false ∨ acked p 26=true := by
  refine forall_congr' fun before => forall_congr' fun i => forall_congr' fun later =>
    imp_congr_right fun _ => ?_
  -- in its setup phase an access pops whatever number waits
  have hsetup : ∀ pre p, setupOf i p=true → (¬(pops (after step reset pre) p=true ∧ acked p 26=false) ↔
      s_event_fifo_valid (after step reset pre)=false ∨ acked p 26=true) := by
    intro pre p hp
    have hmatch : busMatch p=true := by
      unfold setupOf clearing at hp
      simp only [Bool.and_eq_true] at hp
      exact hp.1.1.1.1
    unfold pops s_event_fifo_ready
    rw [hmatch,Bool.or_true,Bool.and_true,not_and_or,Bool.not_eq_true,Bool.not_eq_false]
  have haccess : busMatch i=true → (ByAccess before i ↔ i.psel=true ∧ i.pwrite=true ∧
      ∀ pre p, before=pre++[p] → setupOf i p=true →
        s_event_fifo_valid (after step reset pre)=false ∨ acked p 26=true) := by
    intro hmatch
    unfold ByAccess clearing
    rw [hmatch,Bool.true_and,Bool.and_eq_true_iff,and_assoc]
    refine and_congr_right fun _ => and_congr_right fun _ => ?_
    exact forall_congr' fun pre => forall_congr' fun p => imp_congr_right fun _ =>
      imp_congr_right fun hp => hsetup pre p hp
  unfold pops s_event_fifo_ready
  rw [Bool.and_eq_true_iff,Bool.or_eq_true_iff]
  constructor
  · intro h hvalid hmatch hack
    rcases h ⟨hvalid,Or.inr hmatch⟩ with hacked | hby
    · rw [hack] at hacked
      exact absurd hacked nofun
    · exact (haccess hmatch).mp hby
  · rintro h ⟨hvalid,hready⟩
    cases hack : acked i 26 with
    | true => exact Or.inl rfl
    | false =>
      rw [hack] at hready
      have hmatch := hready.resolve_left nofun
      exact Or.inr ((haccess hmatch).mpr (h hvalid hmatch hack))

/-- Over a run from reset no event is lost and none is popped twice, if and only if no
pulse is acknowledged as it comes and the queue is cleared by write transfers only, one
number each. -/
theorem noneLost_iff (is : List Input) : NoneLost is ↔ Clean is := by
  constructor
  · exact fun h => ⟨(pending_iff is).mp h.pending,(byOne_iff is).mp h.byOne⟩
  · exact fun h => ⟨(pending_iff is).mpr h.apart,queued is,(byOne_iff is).mpr h.gated,
      fun before i later _ _ hpop hlater => readable before i later hpop hlater⟩

/-- A cycle without bus access. -/
def quiet (events_i : BitVec 32) (core_irq_ack_i : Bool) (core_irq_id_i : BitVec 5) : Input :=
  ⟨false,0,events_i,core_irq_ack_i,core_irq_id_i,0,0,false,false,false⟩

/-- Line 3 has a second pulse in the cycle in which the first is acknowledged. It leaves
nothing pending. -/
theorem not_noneLost_acked : ¬NoneLost [quiet 8 false 0,quiet 8 true 3] := by
  intro h
  have hpend := h.pending [quiet 8 false 0] (quiet 8 true 3) [] [] rfl 3 (by decide) trivial
  exact absurd hpend (by decide)

end Runs

end Pulpissimo.Apb.InterruptCntrl

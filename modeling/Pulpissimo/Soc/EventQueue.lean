import Mathlib.Data.Fintype.Basic
import Pulpissimo.Lib.Machine

/-!
# The queue of one SoC event

`soc_event_queue` counts the pulses of one event line that are not yet sent, up to
three. A pulse that comes with an acknowledge replaces the one that leaves, so it is
taken up at every count.
-/

namespace Pulpissimo.Soc.EventQueue

/-- Registers. -/
structure State where
  /-- Pulses that wait. -/
  r_event_count : BitVec 2
deriving DecidableEq

/-- One cycle of inputs. -/
structure Input where
  /-- A pulse. -/
  event_i : Bool
  /-- A waiting pulse is sent. -/
  event_ack_i : Bool

/-- Values after reset. -/
def reset : State := ⟨0⟩

/-- Overflow, raised by every pulse at the full count. -/
def err_o (s : State) (i : Input) : Bool := i.event_i && s.r_event_count==3#2

/-- Something waits. -/
def event_o (s : State) : Bool := s.r_event_count != 0#2

def s_sample_event (i : Input) : Bool := i.event_i || i.event_ack_i

def s_event_count (s : State) (i : Input) : BitVec 2 :=
  if i.event_ack_i then
    if !i.event_i && s.r_event_count != 0#2 then s.r_event_count-1#2 else s.r_event_count
  else if s.r_event_count != 3#2 then s.r_event_count+1#2 else s.r_event_count

/-- One clock edge. -/
def step (s : State) (i : Input) : State :=
  if s_sample_event i then ⟨s_event_count s i⟩ else s

/-- The pulse is taken up. -/
def accepted (s : State) (i : Input) : Bool :=
  i.event_i && (i.event_ack_i || s.r_event_count != 3#2)

/-- The count changes by what is taken up and what is sent. -/
theorem step_count (s : State) (i : Input) (hack : i.event_ack_i=true → event_o s=true) :
    (step s i).r_event_count.toNat+(if i.event_ack_i=true then 1 else 0)=
      s.r_event_count.toNat+(if accepted s i=true then 1 else 0) := by
  rcases s with ⟨r_event_count⟩
  rcases i with ⟨event_i,event_ack_i⟩
  revert hack r_event_count event_i event_ack_i
  decide

theorem event_o_iff (s : State) : event_o s=true ↔ 0 < s.r_event_count.toNat := by
  rcases s with ⟨r_event_count⟩
  revert r_event_count
  decide

section Accounting

open Pulpissimo.Machine

/-- A waiting pulse is sent. -/
def dispatched (s : State) (i : Input) : Bool := event_o s && i.event_ack_i

/-- A pulse that comes goes into the count, besides what the acknowledge takes out of it. -/
def kept (s : State) (i : Input) : Bool :=
  i.event_i && (step s i).r_event_count.toNat+(dispatched s i).toNat==s.r_event_count.toNat+1

/-- A pulse that comes is lost. -/
def dropped (s : State) (i : Input) : Bool := i.event_i && !kept s i

/-- A pulse comes with an acknowledge while the count is zero or full. -/
def Clash (s : State) (i : Input) : Prop :=
  i.event_i=true ∧ i.event_ack_i=true ∧ (s.r_event_count=0#2 ∨ s.r_event_count=3#2)

instance (s : State) (i : Input) : Decidable (Clash s i) :=
  inferInstanceAs (Decidable (_ ∧ _ ∧ _))

/-- What is kept was sent or waits, the count stays within its maximum, and the error line tells of
every pulse that is lost and of no other. -/
structure Accounts (is : List Input) : Prop where
  conserved : count step kept reset is=
    count step dispatched reset is+(after step reset is).r_event_count.toNat
  bound : (after step reset is).r_event_count.toNat ≤ 3
  tells : Meets step (fun s i => err_o s i=dropped s i) reset is

/-- The count changes by what is kept and what is sent. -/
theorem step_kept (s : State) (i : Input) :
    (step s i).r_event_count.toNat+(if dispatched s i=true then 1 else 0)=
      s.r_event_count.toNat+(if kept s i=true then 1 else 0) := by
  rcases s with ⟨r_event_count⟩
  rcases i with ⟨event_i,event_ack_i⟩
  revert r_event_count event_i event_ack_i
  decide

/-- At the full count the line tells of a pulse that takes the place of the one that leaves, and at
the empty one it does not tell of a pulse that an acknowledge drops. -/
theorem tells_iff (s : State) (i : Input) : err_o s i=dropped s i ↔ ¬Clash s i := by
  rcases s with ⟨r_event_count⟩
  rcases i with ⟨event_i,event_ack_i⟩
  revert r_event_count event_i event_ack_i
  decide

theorem conserved (s : State) (is : List Input) :
    s.r_event_count.toNat+count step kept s is=
      count step dispatched s is+(after step s is).r_event_count.toNat := by
  induction is generalizing s with
  | nil => exact Nat.add_comm _ _
  | cons i is ih =>
    have hone := step_kept s i
    have hrest := ih (step s i)
    rw [count_cons,count_cons,after_cons]
    omega

/-- The accounts of a run are right exactly if no pulse comes with an acknowledge while the count
is zero or full. -/
theorem accounts_iff (is : List Input) :
    Accounts is ↔ Meets step (fun s i => ¬Clash s i) reset is := by
  rw [←meets_congr tells_iff]
  refine ⟨fun h => h.tells,fun h => ⟨?_,Nat.le_of_lt_succ (BitVec.isLt _),h⟩⟩
  have hall := conserved reset is
  rw [←hall]
  exact (Nat.zero_add _).symm

/-- Three pulses, and a fourth with the first acknowledge: nothing is lost, but the error line is
up. -/
theorem not_accounts_full : ¬Accounts [⟨true,false⟩,⟨true,false⟩,⟨true,false⟩,⟨true,true⟩] :=
  fun h => absurd h.tells (by decide)

end Accounting

end Pulpissimo.Soc.EventQueue

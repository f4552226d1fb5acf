import Pulpissimo.Udma.I2cLines
import Pulpissimo.Udma.I2cRecovery

/-!
# The lines of the whole I2C master

The interpreter keeps the bit of a WRITE on the bus controller's input until the WRITE ends. So
the pair drives its lines in a disciplined way on every stream of bytes, also when arbitration
is lost and when it is reset.
-/

namespace Pulpissimo.Udma.I2cMaster

open Pulpissimo.Machine Pulpissimo.Udma.I2cControl Pulpissimo.Udma.I2cRecovery

/-- The interpreter beside the bus controller's monitor. -/
structure Pair where
  ctl : I2cControl.State
  lines : I2cLines.Watch

def start : Pair := ⟨I2cControl.reset,I2cLines.start⟩

def pair (p : Pair) (i : Input) : Pair :=
  ⟨step p.ctl i,I2cLines.watch p.lines (busInput p.ctl i)⟩

/-- The handshake is kept, or it is broken off by a loss. -/
def Settled (s : I2cControl.State) : Prop := Joint s ∨ Stuck s

variable {s : I2cControl.State} {i j : Input} {p : Pair}

theorem Settled.step (h : Settled s) : Settled (step s i) := by
  cases hrst : i.sw_rst_i with
  | true => exact .inl (asReset_step hrst).joint
  | false =>
    rcases h with h | h
    · cases hal : s_al s with
      | false => exact .inl (h.step hal)
      | true =>
        have hrest : AtRest (I2cControl.step s i).bus_controller := free_step hal
        cases hwait : waits (I2cControl.step s i).CS with
        | true => exact .inr ((stuck_iff hrest).mpr hwait)
        | false =>
          refine .inl ⟨fun _ => hrest.1,?_⟩
          rw [hwait,s_cmd_done,hrest.2.1]
          exact ⟨fun h => absurd h Bool.false_ne_true,
            fun h => h.elim (absurd hrest.1) fun h => absurd h Bool.false_ne_true⟩
    · exact .inr (h.step hrst)

/-- While a command is open the interpreter waits, and so its registers stay as they are. -/
theorem Settled.comb_eq (h : Settled s) (hbusy : s.bus_controller.CS≠.S_IDLE) :
    comb s i=rest s := by
  rcases h with h | h
  · have hdone : s_cmd_done s=false := by
      by_contra hack
      exact hbusy (h.1 (Bool.not_eq_false _ ▸ hack))
    exact comb_wait (h.2.mpr (.inl hbusy)) hdone
  · exact absurd h.2.1 hbusy

theorem core_txd_rest (hcomb : comb s i=rest s) :
    s_core_txd s i=if s.CS=.ST_READ then s.r_rd_ack else s.r_data.getLsbD 7 := by
  rw [s_core_txd,hcomb]
  rfl

theorem holdsBit_first (cmd_i : BitVec 3) : I2cLines.holdsBit (I2cBus.first cmd_i)=false := by
  unfold I2cBus.first
  split_ifs <;> rfl

/-- A later phase of a WRITE follows a phase of it. -/
theorem busy_of_holdsBit (hhold : I2cLines.holdsBit (step s i).bus_controller.CS=true) :
    s.bus_controller.CS≠.S_IDLE := by
  intro hidle
  have hCS : (step s i).bus_controller.CS=(I2cBus.fsm s.bus_controller (busInput s i)).CS := by
    rw [bus_step]
    rfl
  rw [hCS,I2cBus.fsm] at hhold
  split_ifs at hhold
  · exact absurd hhold (by decide)
  · rw [(I2cBus.drive_idle hidle).1] at hhold
    split_ifs at hhold
    · exact absurd ((holdsBit_first _).symm.trans hhold) (by decide)
    · exact absurd hhold (by decide)

/-- The bit of a WRITE stays. -/
theorem Settled.bit_held (h : Settled s)
    (hhold : I2cLines.holdsBit (I2cControl.step s i).bus_controller.CS=true) :
    s_core_txd (I2cControl.step s i) j=s_core_txd s i := by
  have hcomb : comb s i=rest s := h.comb_eq (busy_of_holdsBit hhold)
  have hbusy : (I2cControl.step s i).bus_controller.CS≠.S_IDLE := by
    intro hidle
    rw [hidle] at hhold
    exact absurd hhold (by decide)
  have hrst : i.sw_rst_i=false := by
    by_contra hrst
    obtain ⟨_,_,heq⟩ := asReset_step (s:=s) (Bool.not_eq_false _ ▸ hrst)
    rw [heq] at hbusy
    exact hbusy rfl
  have hcomb' : comb (I2cControl.step s i) j=rest (I2cControl.step s i) := h.step.comb_eq hbusy
  rw [core_txd_rest hcomb',core_txd_rest hcomb]
  simp only [I2cControl.step,hrst,hcomb,rest,Bool.false_eq_true,if_false]

/-- The monitor follows the pair's bus controller and the bit it is given. -/
structure Inv (p : Pair) : Prop where
  settled : Settled p.ctl
  same : p.lines.bus=p.ctl.bus_controller
  held : ∀ j, I2cLines.holdsBit p.ctl.bus_controller.CS=true → s_core_txd p.ctl j=p.lines.din
  lines : I2cLines.Inv p.lines

theorem inv_start : Inv start where
  settled := .inl (AsReset.joint ⟨true,true,rfl⟩)
  same := rfl
  held _ h := nomatch h
  lines := I2cLines.inv_start

theorem Inv.pair (h : Inv p) : Inv (pair p i) where
  settled := h.settled.step
  same := by
    rw [I2cMaster.pair,bus_step,←h.same]
    rfl
  held j hhold := h.settled.bit_held hhold
  lines := h.lines.watch

theorem Inv.stable (h : Inv p) : I2cLines.Stable p.lines (busInput p.ctl i) := by
  intro hhold
  rw [h.same] at hhold
  exact h.held i hhold

/-- On every stream of bytes and whatever the bus does, the master keeps to its discipline in
every cycle. -/
theorem disciplined (is : List Input) :
    Meets pair (fun p i => I2cLines.Disciplined p.lines (busInput p.ctl i)) start is :=
  meets_of_invariant (fun _ _ h => h.pair) (fun _ _ h => h.lines.disciplined h.stable)
    inv_start is

end Pulpissimo.Udma.I2cMaster

import Pulpissimo.Udma.I2cControl

/-!
# Lost arbitration and the I2C interpreter

The bus controller ends a command without an acknowledge when arbitration is lost, and the
interpreter goes on waiting for it. The loss is reported as an error, and the software reset takes
both parties back to where they start. Up to a loss the interpreter never waits in vain.
-/

namespace Pulpissimo.Udma.I2cRecovery

open Pulpissimo.Machine Pulpissimo.Udma.I2cControl

/-- The pair with a note of a loss since the last reset. -/
structure Watch where
  ctl : I2cControl.State
  lost : Bool

def start : Watch := ⟨I2cControl.reset,false⟩

def watch (w : Watch) (i : Input) : Watch :=
  ⟨step w.ctl i,!i.sw_rst_i && (w.lost || s_al w.ctl)⟩

/-- The interpreter waits for an acknowledge, and no command is open that could bring it. -/
def Stuck (s : I2cControl.State) : Prop :=
  waits s.CS=true ∧ s.bus_controller.CS=.S_IDLE ∧ s_cmd_done s=false

instance (s : I2cControl.State) : Decidable (Stuck s) := inferInstanceAs (Decidable (_ ∧ _ ∧ _))

/-- The bus controller is idle with both lines released. -/
def AtRest (b : I2cBus.State) : Prop :=
  b.CS=.S_IDLE ∧ b.cmd_ack_o=false ∧ b.scl_oen=true ∧ b.sda_oen=true

/-- Everything is as after reset, but for the last bit received and the delayed output enable. -/
def AsReset (s : I2cControl.State) : Prop :=
  ∃ dout_o dscl_oen,
    s={ I2cControl.reset with bus_controller := { I2cBus.reset with dout_o, dscl_oen } }

/-- What holds of every cycle. -/
structure Recoverable (w : Watch) (i : Input) : Prop where
  /-- Without a loss since the last reset the interpreter does not wait in vain. -/
  live : w.lost=false → ¬Stuck w.ctl
  /-- A loss is reported when it shows. -/
  report : s_al w.ctl=false → s_al (step w.ctl i)=true → err_o (step w.ctl i)=true
  /-- It frees the bus, and it is in vain that the interpreter waits after it. -/
  free : s_al w.ctl=true → i.sw_rst_i=false → AtRest (step w.ctl i).bus_controller ∧
    (Stuck (step w.ctl i) ↔ waits (step w.ctl i).CS=true)
  /-- Only the software reset ends this, and until then no byte is taken. -/
  held : Stuck w.ctl → i.sw_rst_i=false → Stuck (step w.ctl i) ∧ data_tx_ready_o w.ctl i=false
  /-- The software reset starts both parties again, from every state. -/
  recover : i.sw_rst_i=true → AsReset (step w.ctl i) ∧ (watch w i).lost=false

/-- The interpreter waits while a command is open or just acknowledged, and only then. -/
def Joint (s : I2cControl.State) : Prop :=
  (s_cmd_done s=true → s.bus_controller.CS=.S_IDLE) ∧
    (waits s.CS=true ↔ s.bus_controller.CS≠.S_IDLE ∨ s_cmd_done s=true)

variable {w : Watch} {s : I2cControl.State} {i : Input}

theorem Joint.not_stuck (h : Joint s) : ¬Stuck s := by
  rintro ⟨hwait,hidle,hdone⟩
  rcases h.2.mp hwait with hbusy | hack
  · exact hbusy hidle
  · exact absurd (hack.symm.trans hdone) (by decide)

theorem asReset_step (hrst : i.sw_rst_i=true) : AsReset (step s i) := by
  have hbus : (busInput s i).sw_rst_i=true := hrst
  refine ⟨(I2cBus.step s.bus_controller (busInput s i)).dout_o,s.bus_controller.scl_oen,?_⟩
  simp only [step,hrst,if_true]
  simp [I2cBus.step,I2cBus.fsm,I2cBus.r_filter_next,I2cBus.cnt_next,I2cBus.clk_en_next,
    I2cBus.r_filter_cnt_next,I2cBus.reset,hbus]

theorem AsReset.joint (h : AsReset s) : Joint s := by
  obtain ⟨_,_,rfl⟩ := h
  exact ⟨fun _ => rfl,fun h => (nomatch h),fun h => h.elim (absurd rfl) nofun⟩

theorem CS_step (hrst : i.sw_rst_i=false) : (step s i).CS=(comb s i).NS := by
  simp only [step,hrst,Bool.false_eq_true,if_false]

theorem bus_step : (step s i).bus_controller=I2cBus.step s.bus_controller (busInput s i) := by
  unfold step
  split_ifs <;> rfl

/-- While no loss shows the bus controller follows its state machine. -/
theorem bus_drive (hal : s_al s=false) (hrst : i.sw_rst_i=false) :
    (step s i).bus_controller.CS=(I2cBus.drive s.bus_controller (busInput s i)).CS ∧
      s_cmd_done (step s i)=(I2cBus.drive s.bus_controller (busInput s i)).cmd_ack_o := by
  have hfsm : I2cBus.fsm s.bus_controller (busInput s i)=
      I2cBus.drive s.bus_controller (busInput s i) := I2cBus.fsm_keep hal hrst
  simp only [s_cmd_done,bus_step,I2cBus.step,hfsm,and_self]

/-- A cycle in which the interpreter waits for a command that is open. -/
theorem Joint.wait (h : Joint s) (hal : s_al s=false) (hrst : i.sw_rst_i=false)
    (hwait : waits s.CS=true) (hdone : s_cmd_done s=false) : Joint (step s i) := by
  have hbusy : s.bus_controller.CS≠.S_IDLE :=
    (h.2.mp hwait).resolve_right (by rw [hdone]; exact Bool.false_ne_true)
  obtain ⟨hcs,hack⟩ := bus_drive hal hrst
  have hsame : waits (step s i).CS=true := by
    rw [CS_step hrst,comb_wait hwait hdone]
    exact hwait
  rcases I2cBus.drive_busy (i:=busInput s i) hbusy with ⟨hcmd,hgo⟩ | ⟨hidle,hend⟩
  · rw [←hcs] at hcmd
    have hbusy' : (step s i).bus_controller.CS≠.S_IDLE := fun hidle => by
      rw [hidle] at hcmd
      exact hbusy (I2cBus.cmdOf_eq_zero.mp hcmd.symm)
    exact ⟨fun hd => absurd (hd.symm.trans (hack.trans hgo)) (by decide),
      iff_of_true hsame (.inl hbusy')⟩
  · exact ⟨fun _ => hcs.trans hidle,iff_of_true hsame (.inr (hack.trans hend))⟩

/-- A cycle in which nothing is open, or the open command is acknowledged. -/
theorem Joint.go (h : Joint s) (hal : s_al s=false) (hrst : i.sw_rst_i=false)
    (hgo : waits s.CS=true → s_cmd_done s=true) : Joint (step s i) := by
  have hidle : s.bus_controller.CS=.S_IDLE := by
    by_contra hbusy
    exact hbusy (h.1 (hgo (h.2.mpr (.inl hbusy))))
  obtain ⟨hcs,hack⟩ := bus_drive hal hrst
  obtain ⟨hnext,hend⟩ := I2cBus.drive_idle (i:=busInput s i) hidle
  rw [hnext] at hcs
  rw [hend] at hack
  refine ⟨fun hd => absurd (hd.symm.trans hack) (by decide),?_⟩
  rw [CS_step hrst,hcs,hack]
  rcases comb_go (i:=i) hgo with ⟨hwait,hvalid,hcmd⟩ | ⟨hwait,hvalid⟩
  · have htaken : (busInput s i).cmd_valid_i=true := hvalid
    refine iff_of_true hwait (.inl ?_)
    rw [if_pos htaken]
    exact bne_iff_ne.mp hcmd
  · have hnone : (busInput s i).cmd_valid_i=false := hvalid
    rw [hwait,hnone]
    exact ⟨nofun,fun h => h.elim (absurd rfl) nofun⟩

theorem Joint.step (h : Joint s) (hal : s_al s=false) : Joint (step s i) := by
  cases hrst : i.sw_rst_i with
  | true => exact (asReset_step hrst).joint
  | false =>
    by_cases hgo : waits s.CS=true → s_cmd_done s=true
    · exact h.go hal hrst hgo
    · obtain ⟨hwait,hdone⟩ := Classical.not_imp.mp hgo
      exact h.wait hal hrst hwait (Bool.eq_false_iff.mpr hdone)

theorem report_step (hal : s_al s=false) (hrise : s_al (step s i)=true) :
    err_o (step s i)=true := by
  have hseen : (step s i).r_al=false := by
    unfold step
    split_ifs
    · rfl
    · exact hal
  rw [err_o,hseen,hrise]
  exact Bool.or_true _

theorem free_step (hal : s_al s=true) : AtRest (step s i).bus_controller := by
  have hup : (s.bus_controller.al_o || (busInput s i).sw_rst_i)=true := Bool.or_eq_true_iff.mpr (.inl hal)
  rw [bus_step]
  simp only [AtRest,I2cBus.step,I2cBus.fsm_giveUp hup,and_self]

theorem stuck_iff (hrest : AtRest s.bus_controller) : Stuck s ↔ waits s.CS=true :=
  ⟨And.left,fun hwait => ⟨hwait,hrest.1,hrest.2.1⟩⟩

/-- A command that is not open is never acknowledged. -/
theorem Stuck.step (h : Stuck s) (hrst : i.sw_rst_i=false) : Stuck (step s i) := by
  obtain ⟨hwait,hidle,hdone⟩ := h
  have hsame : waits (I2cControl.step s i).CS=true := by
    rw [CS_step hrst,comb_wait hwait hdone]
    exact hwait
  cases hal : s_al s with
  | true => exact (stuck_iff (free_step hal)).mpr hsame
  | false =>
    obtain ⟨hcs,hack⟩ := bus_drive hal hrst
    obtain ⟨hnext,hend⟩ := I2cBus.drive_idle (i:=busInput s i) hidle
    have hnone : (busInput s i).cmd_valid_i=false := by
      rw [busInput,comb_wait hwait hdone]
      rfl
    rw [hnone] at hnext
    exact ⟨hsame,hcs.trans hnext,hack.trans hend⟩

theorem Stuck.takes_nothing (h : Stuck s) (hrst : i.sw_rst_i=false) :
    data_tx_ready_o s i=false := by
  rw [data_tx_ready_o,hrst,comb_wait h.1 h.2.2]
  rfl

theorem joint_watch (h : w.lost=false → Joint w.ctl) (hkept : (watch w i).lost=false) :
    Joint (watch w i).ctl := by
  cases hrst : i.sw_rst_i with
  | true => exact (asReset_step hrst).joint
  | false =>
    simp only [watch,hrst,Bool.not_false,Bool.true_and,Bool.or_eq_false_iff] at hkept
    exact (h hkept.1).step hkept.2

/-- In every run a loss is reported and frees the bus, the interpreter waits in vain only after
a loss, and the software reset recovers from it. -/
theorem recoverable (is : List Input) : Meets watch Recoverable start is := by
  refine meets_of_invariant (P:=fun w => w.lost=false → Joint w.ctl)
    (fun _ _ h => joint_watch h) (fun w i h => ?_) (fun _ => ?_) is
  · exact {
      live := fun hlost => (h hlost).not_stuck
      report := report_step
      free := fun hal hrst => ⟨free_step hal,stuck_iff (free_step hal)⟩
      held := fun hstuck hrst => ⟨hstuck.step hrst,hstuck.takes_nothing hrst⟩
      recover := fun hrst => ⟨asReset_step hrst,by rw [watch,hrst]; rfl⟩ }
  · exact AsReset.joint ⟨true,true,rfl⟩

/-- However the bus goes on, the interpreter takes commands again without a software reset. -/
def Recovers (s : I2cControl.State) : Prop :=
  ∀ env : ℕ → Input, (∀ n, (env n).sw_rst_i=false) →
    ∃ n, (states step s env n).CS=.ST_WAIT_IN_CMD

/-- A cycle with a byte for the interpreter, SCL released by everybody. -/
def cycle (data_tx_i : BitVec 8) (data_tx_valid_i sda_i : Bool) : Input :=
  ⟨0,data_tx_i,data_tx_valid_i,false,false,true,sda_i⟩

/-- A divider of one clock and a START, in the middle of which another master ends its
transaction. -/
def foreignStop : List Input :=
  [cycle 0xE0#8 true false,cycle 0#8 true false,cycle 0#8 true false,cycle 0#8 true false]++
    List.replicate 64 (cycle 0#8 false false)++List.replicate 6 (cycle 0#8 false true)

theorem Stuck.not_waiting (h : Stuck s) : s.CS≠.ST_WAIT_IN_CMD := by
  intro hcs
  have hwait := h.1
  rw [hcs] at hwait
  exact absurd hwait (by decide)

theorem Stuck.forever (h : Stuck s) {env : ℕ → Input} (hrst : ∀ n, (env n).sw_rst_i=false) (n : ℕ) :
    Stuck (states I2cControl.step s env n) := by
  induction n with
  | zero => exact h
  | succ n ih => exact ih.step (hrst n)

/-- A lost arbitration from which the pair never recovers, and the state it stays in. -/
theorem not_recovers :
    ¬(∀ is i, s_al (after step reset is)=false → s_al (step (after step reset is) i)=true →
        Recovers (step (after step reset is) i)) ∧
      ¬∀ is, ¬Stuck (after step reset is) := by
  have hstuck : Stuck (after step reset (foreignStop++[cycle 0#8 false true,cycle 0#8 false true])) := by
    decide +kernel
  refine ⟨fun hall => ?_,fun hall => hall _ hstuck⟩
  obtain ⟨n,hn⟩ := hall foreignStop (cycle 0#8 false true) (by decide +kernel) (by decide +kernel)
    (fun _ => cycle 0#8 false true) (fun _ => rfl)
  cases n with
  | zero => exact absurd hn (by decide +kernel)
  | succ n =>
    rw [states_shift] at hn
    refine Stuck.not_waiting (Stuck.forever ?_ (fun _ => rfl) n) hn
    rwa [after_append] at hstuck

end Pulpissimo.Udma.I2cRecovery

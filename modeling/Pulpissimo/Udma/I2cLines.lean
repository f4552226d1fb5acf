import Pulpissimo.Udma.I2cBus

/-!
# How the I2C master drives its lines

A monitor beside `udma_i2c_bus_ctrl` counts the clocks of the phase and the SCL pulses of the
bit. SDA moves with SCL released in a START and in a STOP only, a READ and a WRITE have one
pulse, and the divider gives the later phases their length. A first phase begins when its
command comes, in the middle of a divider period, and a WAIT is free to release SCL.
-/

namespace Pulpissimo.Udma.I2cLines

open Pulpissimo.Machine Pulpissimo.Udma.I2cBus

/-- Number of a phase in its command, zero between commands. -/
def phaseNo : Fsm → ℕ
  | .S_IDLE => 0
  | .S_START_PHASE1 | .S_STOP_PHASE1 | .S_RD_PHASE1 | .S_WAIT_PHASE1 | .S_WR_PHASE1 => 1
  | .S_START_PHASE2 | .S_STOP_PHASE2 | .S_RD_PHASE2 | .S_WAIT_PHASE2 | .S_WR_PHASE2 => 2
  | .S_START_PHASE3 | .S_STOP_PHASE3 | .S_RD_PHASE3 | .S_WAIT_PHASE3 | .S_WR_PHASE3 => 3
  | .S_START_PHASE4 | .S_STOP_PHASE4 | .S_RD_PHASE4 | .S_WAIT_PHASE4 | .S_WR_PHASE4 => 4

/-- Last phase of a READ or a WRITE. -/
def lastOfBit (CS : Fsm) : Bool := CS == .S_RD_PHASE4 || CS == .S_WR_PHASE4

/-- Phases of a WRITE that hold the bit its first phase put on SDA. -/
def holdsBit (CS : Fsm) : Bool :=
  CS == .S_WR_PHASE2 || CS == .S_WR_PHASE3 || CS == .S_WR_PHASE4

/-- The bus controller with a monitor. -/
structure Watch where
  bus : I2cBus.State
  /-- `din_i` a clock ago. -/
  din : Bool
  /-- Clocks of the current phase in which the divider was not held. -/
  len : ℕ
  /-- `clk_cnt_i` when the divider started last. -/
  now : ℕ
  /-- The same for the current phase. -/
  load : ℕ
  /-- The divider was started before it was down. -/
  forced : Bool
  /-- Rising edges of SCL in the current command. -/
  pulses : ℕ

def start : Watch := ⟨I2cBus.reset,true,0,0,0,false,0⟩

section Monitor

variable (w : Watch) (i : Input)

/-- The slave stretches the clock, and the divider stands still. -/
def held : Bool := !i.sw_rst_i && !reload w.bus i && w.bus.slave_wait

/-- The bus is given up. -/
def givesUp : Bool := w.bus.al_o || i.sw_rst_i

/-- One clock of the controller and its monitor. -/
def watch : Watch :=
  let bus := step w.bus i
  { bus := bus
    din := i.din_i
    len :=
      if bus.CS=.S_IDLE then 0
      else (if bus.CS=w.bus.CS then w.len else 0)+if held w i then 0 else 1
    now := if i.sw_rst_i then 0 else if reload w.bus i then i.clk_cnt_i.toNat else w.now
    load := if w.bus.clk_en then w.now else w.load
    forced := w.bus.cnt != 0#16 && reload w.bus i
    pulses :=
      if w.bus.CS=.S_IDLE then 0 else w.pulses+if !w.bus.scl_oen && bus.scl_oen then 1 else 0 }

/-- The data bit stays as it is until its WRITE ends. -/
def Stable : Prop := holdsBit w.bus.CS=true → i.din_i=w.din

instance : Decidable (Stable w i) := inferInstanceAs (Decidable (_ → _))

/-- SDA moves with SCL released only where START pulls it down and STOP releases it. -/
def SdaSteady : Prop :=
  givesUp w i=false → w.bus.scl_oen=true → (step w.bus i).scl_oen=true →
    (step w.bus i).sda_oen=w.bus.sda_oen ∨
    (w.bus.CS=.S_START_PHASE3 ∧ w.bus.sda_oen=true ∧ (step w.bus i).sda_oen=false) ∨
    (w.bus.CS=.S_STOP_PHASE4 ∧ w.bus.sda_oen=false ∧ (step w.bus i).sda_oen=true)

/-- A READ or a WRITE that is acknowledged has had one SCL pulse, which is over. -/
def OnePulse : Prop :=
  (step w.bus i).cmd_ack_o=true → lastOfBit w.bus.CS=true →
    (watch w i).pulses=1 ∧ (step w.bus i).scl_oen=false

/-- A phase ends in this clock. -/
def phaseEnds : Bool :=
  !givesUp w i && w.bus.CS != .S_IDLE && (step w.bus i).CS != w.bus.CS

/-- A phase is as long as the divider's period, if the divider was left alone. A first phase may
be shorter, and so may one in which the divider was started early. -/
def PhaseLength : Prop :=
  phaseEnds w i=true → 1 ≤ w.len ∧ w.len ≤ w.load+1 ∧
    (w.forced=false → phaseNo w.bus.CS≠1 → w.len=w.load+1)

/-- Arbitration lost and the software reset release both lines. -/
def Released : Prop :=
  givesUp w i=true → (step w.bus i).CS=.S_IDLE ∧ (step w.bus i).scl_oen=true ∧
    (step w.bus i).sda_oen=true

/-- What the master keeps to. -/
def Disciplined : Prop := SdaSteady w i ∧ OnePulse w i ∧ PhaseLength w i ∧ Released w i

/-- The same with full first phases and no pulse in a WAIT. -/
def FullyDisciplined : Prop :=
  SdaSteady w i ∧ OnePulse w i ∧
    ((step w.bus i).cmd_ack_o=true → w.bus.CS=.S_WAIT_PHASE4 → (watch w i).pulses=0) ∧
    (phaseEnds w i=true → w.forced=false → w.len=w.load+1)

end Monitor

/-- What a phase leaves the lines at, with the bit of a WRITE. -/
def Lines (scl_oen sda_oen din : Bool) : Fsm → Prop
  | .S_START_PHASE2 | .S_RD_PHASE2 | .S_RD_PHASE4 => sda_oen=true
  | .S_START_PHASE3 | .S_STOP_PHASE4 => scl_oen=true
  | .S_START_PHASE4 | .S_STOP_PHASE2 => sda_oen=false
  | .S_STOP_PHASE3 => scl_oen=true ∧ sda_oen=false
  | .S_WAIT_PHASE2 | .S_WAIT_PHASE3 | .S_WAIT_PHASE4 | .S_RD_PHASE3 => scl_oen=true ∧ sda_oen=true
  | .S_WR_PHASE2 | .S_WR_PHASE3 | .S_WR_PHASE4 => sda_oen=din
  | _ => scl_oen=true → sda_oen=true

/-- SCL pulses of a READ or a WRITE up to a phase. -/
def Pulses (scl_oen : Bool) (pulses : ℕ) : Fsm → Prop
  | .S_RD_PHASE1 | .S_WR_PHASE1 => pulses=0
  | .S_RD_PHASE2 | .S_WR_PHASE2 => pulses=scl_oen.toNat
  | .S_RD_PHASE3 | .S_WR_PHASE3 => scl_oen=true ∧ pulses=1
  | .S_RD_PHASE4 | .S_WR_PHASE4 => pulses=1
  | _ => True

/-- The divider and the clocks of the phase add up to its period. -/
structure Paced (w : Watch) : Prop where
  idle : w.bus.CS=.S_IDLE → w.len=0
  running : w.bus.clk_en=false → w.len+w.bus.cnt.toNat ≤ w.load ∧
    (2 ≤ phaseNo w.bus.CS → w.len+w.bus.cnt.toNat=w.load)
  pulse : w.bus.clk_en=true → w.bus.cnt.toNat=w.now ∧
    (w.bus.CS≠.S_IDLE → 1 ≤ w.len ∧ w.len ≤ w.load+1 ∧
      (w.forced=false → 2 ≤ phaseNo w.bus.CS → w.len=w.load+1))

structure Inv (w : Watch) : Prop where
  lines : Lines w.bus.scl_oen w.bus.sda_oen w.din w.bus.CS
  pulses : Pulses w.bus.scl_oen w.pulses w.bus.CS
  paced : Paced w

theorem inv_start : Inv start :=
  ⟨fun _ => rfl,trivial,fun _ => rfl,fun h => (nomatch h),fun _ => ⟨rfl,fun h => absurd rfl h⟩⟩

variable {w : Watch} {i : Input}

theorem fsm_of_not_givesUp (hkeep : givesUp w i=false) : fsm w.bus i=drive w.bus i :=
  fsm_keep (Bool.or_eq_false_iff.mp hkeep).1 (Bool.or_eq_false_iff.mp hkeep).2

theorem released : Released w i := by
  intro hup
  simp only [step,fsm_giveUp hup,and_self]

/-- How the state machine moves. -/
inductive Move (s : I2cBus.State) (CS' : Fsm) : Prop
  | idle (hidle : CS'=.S_IDLE)
  | enter (hidle : s.CS=.S_IDLE) (hone : phaseNo CS'=1)
  | stay (hbusy : s.CS≠.S_IDLE) (hwait : s.clk_en=false) (hsame : CS'=s.CS)
  | next (hbusy : s.CS≠.S_IDLE) (hclk : s.clk_en=true) (hnext : phaseNo CS'=phaseNo s.CS+1)

theorem first_cases (cmd_i : BitVec 3) : first cmd_i=.S_IDLE ∨ phaseNo (first cmd_i)=1 := by
  unfold first
  split_ifs <;> first | exact .inr rfl | exact .inl rfl

theorem drive_move (s : I2cBus.State) (i : Input) : Move s (drive s i).CS := by
  cases hcs : s.CS with
  | S_IDLE =>
    simp only [drive,hcs]
    split_ifs
    · exact (first_cases i.cmd_i).elim .idle (.enter hcs)
    · exact .idle rfl
  | _ =>
    cases hclk : s.clk_en <;> simp only [drive,hcs,phase,lastPhase,hclk,if_true] <;>
      first
      | exact .idle rfl
      | exact .next (by rw [hcs]; decide) hclk (by rw [hcs]; rfl)
      | exact .stay (by rw [hcs]; decide) hclk hcs.symm

theorem step_move (w : Watch) (i : Input) : Move w.bus (step w.bus i).CS := by
  cases hup : givesUp w i with
  | true => exact .idle (released hup).1
  | false =>
    have h := drive_move w.bus i
    rwa [←fsm_of_not_givesUp hup] at h

/-- The divider counts the clocks in which it is not held. -/
theorem running_step (hclk : (step w.bus i).clk_en=false) :
    i.sw_rst_i=false ∧ reload w.bus i=false ∧
      (if held w i then 0 else 1)+(step w.bus i).cnt.toNat=w.bus.cnt.toNat := by
  obtain ⟨hrst,hreload⟩ : i.sw_rst_i=false ∧ reload w.bus i=false := Bool.or_eq_false_iff.mp hclk
  refine ⟨hrst,hreload,?_⟩
  have hcnt : w.bus.cnt≠0#16 := by
    rintro heq
    simp [reload,heq] at hreload
  have hpos : 0 < w.bus.cnt.toNat := Nat.pos_of_ne_zero fun hzero => hcnt (BitVec.eq_of_toNat_eq hzero)
  have hlt : w.bus.cnt.toNat < 2^16 := w.bus.cnt.isLt
  cases hwait : w.bus.slave_wait with
  | true => simp [step,cnt_next,held,hrst,hreload,hwait]
  | false =>
    simp only [step,cnt_next,held,hrst,hreload,hwait,Bool.false_eq_true,if_false,Bool.and_false]
    bv_omega

/-- A pulse comes with a new period. -/
theorem pulse_step (hclk : (step w.bus i).clk_en=true) :
    held w i=false ∧ (step w.bus i).cnt.toNat=(watch w i).now ∧
      ((step w.bus i).CS≠.S_IDLE → i.sw_rst_i=false ∧ reload w.bus i=true) := by
  cases hrst : i.sw_rst_i with
  | true => simp [held,step,watch,cnt_next,fsm,hrst]
  | false =>
    have hreload : reload w.bus i=true := by
      simpa only [step,clk_en_next,hrst,Bool.false_or] using hclk
    simp [held,step,watch,cnt_next,hrst,hreload]

theorem len_of_new (hbusy : (step w.bus i).CS≠.S_IDLE) (hnew : (step w.bus i).CS≠w.bus.CS) :
    (watch w i).len=if held w i then 0 else 1 := by
  simp only [watch,if_neg hbusy,if_neg hnew,Nat.zero_add]

theorem len_of_same (hbusy : w.bus.CS≠.S_IDLE) (hsame : (step w.bus i).CS=w.bus.CS) :
    (watch w i).len=w.len+if held w i then 0 else 1 := by
  simp only [watch,hsame,if_neg hbusy,if_true]

theorem ne_of_phaseNo {CS CS' : Fsm} (hne : phaseNo CS≠phaseNo CS') : CS≠CS' :=
  fun heq => hne (congrArg phaseNo heq)

/-- A new phase begins with the divider at its period's start. -/
theorem Paced.fresh (h : Paced w) (hbusy : (step w.bus i).CS≠.S_IDLE)
    (hnew : (step w.bus i).CS≠w.bus.CS) (hclk : w.bus.clk_en=true) : Paced (watch w i) := by
  have hlen := len_of_new hbusy hnew
  have hload : (watch w i).load=w.now := if_pos hclk
  obtain ⟨hcnt,-⟩ := h.pulse hclk
  refine ⟨fun hidle => absurd hidle hbusy,fun hrun => ?_,fun hpulse => ?_⟩
  · obtain ⟨-,-,hsum⟩ := running_step hrun
    rw [hlen,hload,←hcnt]
    exact ⟨hsum.le,fun _ => hsum⟩
  · obtain ⟨hheld,hnow,hkeep⟩ := pulse_step hpulse
    obtain ⟨hrst,hreload⟩ := hkeep hbusy
    rw [hheld] at hlen
    refine ⟨hnow,fun _ => ⟨hlen.ge,hlen.le.trans (Nat.succ_pos _),fun hforced _ => ?_⟩⟩
    have hzero : w.bus.cnt=0#16 := by
      simpa [I2cLines.watch,hreload] using hforced
    rw [hlen,hload,←hcnt,hzero]
    rfl

theorem Paced.cnt_le (h : Paced w) : w.bus.cnt.toNat ≤ (watch w i).load := by
  cases hclk : w.bus.clk_en with
  | true =>
    rw [(h.pulse hclk).1]
    exact (if_pos hclk).ge
  | false =>
    have hload : (I2cLines.watch w i).load=w.load :=
      if_neg (by rw [hclk]; exact Bool.false_ne_true)
    rw [hload]
    exact (Nat.le_add_left _ _).trans (h.running hclk).1

theorem Paced.enter (h : Paced w) (hidle : w.bus.CS=.S_IDLE)
    (hone : phaseNo (step w.bus i).CS=1) : Paced (watch w i) := by
  have hbusy : (step w.bus i).CS≠.S_IDLE := ne_of_phaseNo (by rw [hone]; decide)
  have hnew : (step w.bus i).CS≠w.bus.CS := by rwa [hidle]
  have hlen := len_of_new hbusy hnew
  have hbound : w.bus.cnt.toNat ≤ (I2cLines.watch w i).load := h.cnt_le
  refine ⟨fun hidle => absurd hidle hbusy,fun hrun => ?_,fun hpulse => ?_⟩
  · obtain ⟨-,-,hsum⟩ := running_step hrun
    rw [hlen]
    refine ⟨hsum.trans_le hbound,fun htwo => ?_⟩
    have hle : 2 ≤ 1 := hone ▸ htwo
    exact absurd hle (by decide)
  · obtain ⟨hheld,hnow,-⟩ := pulse_step hpulse
    rw [hheld] at hlen
    refine ⟨hnow,fun _ => ⟨hlen.ge,hlen.le.trans (Nat.succ_pos _),fun _ htwo => ?_⟩⟩
    have hle : 2 ≤ 1 := hone ▸ htwo
    exact absurd hle (by decide)

theorem Paced.stay (h : Paced w) (hbusy : w.bus.CS≠.S_IDLE) (hwait : w.bus.clk_en=false)
    (hsame : (step w.bus i).CS=w.bus.CS) : Paced (watch w i) := by
  have hlen := len_of_same hbusy hsame
  have hload : (I2cLines.watch w i).load=w.load :=
    if_neg (by rw [hwait]; exact Bool.false_ne_true)
  have hbusy' : (step w.bus i).CS≠.S_IDLE := by rwa [hsame]
  have hphase : phaseNo (I2cLines.watch w i).bus.CS=phaseNo w.bus.CS := congrArg phaseNo hsame
  obtain ⟨hle,heq⟩ := h.running hwait
  refine ⟨fun hidle => absurd hidle hbusy',fun hrun => ?_,fun hpulse => ?_⟩
  · obtain ⟨-,-,hsum⟩ := running_step hrun
    rw [hlen,hload,Nat.add_assoc,hphase]
    show w.len+((if held w i then 0 else 1)+(step w.bus i).cnt.toNat) ≤ w.load ∧
      (2 ≤ phaseNo w.bus.CS → w.len+((if held w i then 0 else 1)+(step w.bus i).cnt.toNat)=w.load)
    rw [hsum]
    exact ⟨hle,heq⟩
  · obtain ⟨hheld,hnow,hkeep⟩ := pulse_step hpulse
    obtain ⟨-,hreload⟩ := hkeep hbusy'
    rw [hheld] at hlen
    refine ⟨hnow,fun _ => ?_⟩
    rw [hlen,hload,hphase]
    refine ⟨Nat.succ_pos _,by simp only [Bool.false_eq_true,if_false]; omega,fun hforced htwo => ?_⟩
    have hzero : w.bus.cnt=0#16 := by
      simpa [I2cLines.watch,hreload] using hforced
    have hfull := heq htwo
    rw [hzero] at hfull
    exact congrArg Nat.succ hfull

theorem Paced.watch (h : Paced w) : Paced (watch w i) := by
  cases step_move w i with
  | idle hidle =>
    refine ⟨fun _ => if_pos hidle,fun hrun => ?_,fun hpulse => ⟨(pulse_step hpulse).2.1,?_⟩⟩
    · obtain ⟨-,-,hsum⟩ := running_step hrun
      have hbound : w.bus.cnt.toNat ≤ (I2cLines.watch w i).load := h.cnt_le
      have hlen : (I2cLines.watch w i).len=0 := if_pos hidle
      rw [hlen,Nat.zero_add]
      refine ⟨(Nat.le_of_add_left_le hsum.le).trans hbound,fun htwo => ?_⟩
      have hzero : phaseNo (I2cLines.watch w i).bus.CS=0 := congrArg phaseNo hidle
      omega
    · exact fun hbusy => absurd hidle hbusy
  | enter hidle hone => exact h.enter hidle hone
  | stay hbusy hwait hsame => exact h.stay hbusy hwait hsame
  | next hbusy hclk hnext =>
    refine h.fresh (ne_of_phaseNo ?_) (ne_of_phaseNo ?_) hclk
    · rw [hnext]
      exact Nat.succ_ne_zero _
    · rw [hnext]
      exact Nat.succ_ne_self _

theorem lines_first {scl_oen sda_oen din : Bool} (h : scl_oen=true → sda_oen=true)
    (cmd_i : BitVec 3) : Lines scl_oen sda_oen din (first cmd_i) := by
  unfold first
  split_ifs <;> exact h

/-- What one clock leaves the lines at. -/
theorem lines_watch (h : Lines w.bus.scl_oen w.bus.sda_oen w.din w.bus.CS) :
    Lines (step w.bus i).scl_oen (step w.bus i).sda_oen i.din_i (step w.bus i).CS := by
  cases hup : givesUp w i with
  | true =>
    obtain ⟨hcs,hscl,hsda⟩ := released hup
    rw [hcs,hscl,hsda]
    exact fun _ => rfl
  | false =>
    simp only [step,fsm_of_not_givesUp hup]
    cases hcs : w.bus.CS with
    | S_IDLE =>
      rw [hcs] at h
      simp only [drive,hcs]
      split_ifs
      · exact lines_first h i.cmd_i
      · exact h
    | _ =>
      rw [hcs] at h
      cases hclk : w.bus.clk_en <;>
        simp_all [drive,phase,lastPhase,Lines]

theorem pulses_first {scl_oen : Bool} (cmd_i : BitVec 3) : Pulses scl_oen 0 (first cmd_i) := by
  unfold first
  split_ifs <;> trivial

/-- What one clock adds to the pulses. -/
theorem pulses_watch (h : Pulses w.bus.scl_oen w.pulses w.bus.CS) :
    Pulses (step w.bus i).scl_oen (watch w i).pulses (step w.bus i).CS := by
  cases hup : givesUp w i with
  | true =>
    rw [(released hup).1]
    trivial
  | false =>
    simp only [watch,step,fsm_of_not_givesUp hup]
    cases hcs : w.bus.CS with
    | S_IDLE =>
      simp only [drive,hcs,if_true]
      split_ifs
      · exact pulses_first i.cmd_i
      · trivial
    | _ =>
      rw [hcs] at h
      cases hclk : w.bus.clk_en <;> cases hscl : w.bus.scl_oen <;>
        simp_all [drive,phase,lastPhase,Pulses]

theorem Inv.watch (h : Inv w) : Inv (watch w i) :=
  ⟨lines_watch h.lines,pulses_watch h.pulses,h.paced.watch⟩

theorem Inv.sdaSteady (h : Inv w) (hstable : Stable w i) : SdaSteady w i := by
  intro hkeep
  have hlines := h.lines
  simp only [step,fsm_of_not_givesUp hkeep]
  cases hcs : w.bus.CS <;> rw [hcs] at hlines <;>
    simp_all [drive,phase,lastPhase,Lines,Stable,holdsBit]

theorem Inv.onePulse (h : Inv w) : OnePulse w i := by
  intro hack hlast
  have hpulses := h.pulses
  cases hup : givesUp w i with
  | true => simp [step,fsm_giveUp hup] at hack
  | false =>
    simp only [I2cLines.watch,step,fsm_of_not_givesUp hup]
    cases hcs : w.bus.CS with
    | S_RD_PHASE4 | S_WR_PHASE4 =>
      rw [hcs] at hpulses
      simpa [drive,hcs,lastPhase,Pulses] using hpulses
    | _ => simp [lastOfBit,hcs] at hlast

theorem Inv.phaseLength (h : Inv w) : PhaseLength w i := by
  intro hend
  have hmove := step_move w i
  simp only [phaseEnds,Bool.and_eq_true,bne_iff_ne,Bool.not_eq_true'] at hend
  obtain ⟨⟨hkeep,hbusy⟩,hnew⟩ := hend
  have hclk : w.bus.clk_en=true := by
    by_contra hwait
    rw [Bool.not_eq_true] at hwait
    refine hnew ?_
    simp only [step,fsm_of_not_givesUp hkeep]
    cases hcs : w.bus.CS with
    | S_IDLE => exact absurd hcs hbusy
    | _ => simp [drive,hcs,phase,lastPhase,hwait]
  obtain ⟨hpos,hle,hfull⟩ := (h.paced.pulse hclk).2 hbusy
  refine ⟨hpos,hle,fun hforced hne => hfull hforced ?_⟩
  cases hcs : w.bus.CS with
  | S_IDLE => exact absurd hcs hbusy
  | _ =>
    rw [hcs] at hne
    first
    | exact absurd rfl hne
    | decide

theorem Inv.disciplined (h : Inv w) (hstable : Stable w i) : Disciplined w i :=
  ⟨h.sdaSteady hstable,h.onePulse,h.phaseLength,released⟩

/-- In every run that keeps the data bit of a WRITE, whatever the commands are and whatever
the bus does, the master keeps to its discipline in every clock. -/
theorem disciplined_of_stable (is : List Input) (hstable : Meets watch Stable start is) :
    Meets watch Disciplined start is :=
  meets_of_meets (fun _ _ h _ => h.watch) (fun _ _ h hs => h.disciplined hs) inv_start hstable

/-- A clock on a bus that nobody else drives. -/
def clock (clk_cnt_i : BitVec 16) (cmd_i : BitVec 3) (cmd_valid_i din_i : Bool) : Input :=
  ⟨true,false,clk_cnt_i,cmd_i,cmd_valid_i,din_i,true,true⟩

/-- A command and the clocks of its phases, with a divider of two clocks. -/
def command (cmd_i : BitVec 3) (din_i : Bool) : List Input :=
  clock 1#16 cmd_i true din_i::List.replicate 8 (clock 1#16 0#3 false din_i)

/-- A transaction that writes a bit and reads one. -/
def transaction : List Input :=
  List.replicate 10 (clock 1#16 0#3 false true)++command I2C_CMD_START true++
    command I2C_CMD_WRITE false++command I2C_CMD_READ true++command I2C_CMD_STOP true

theorem disciplined_of_stable_transaction :
    Meets watch Stable start transaction ∧ Meets watch Disciplined start transaction := by
  have hstable : Meets watch Stable start transaction := by decide +kernel
  exact ⟨hstable,disciplined_of_stable transaction hstable⟩

/-- A START that comes a clock before the divider's pulse. -/
def lateStart : List Input :=
  List.replicate 11 (clock 3#16 0#3 false true)++[clock 3#16 I2C_CMD_START true true]

/-- Its first phase is one clock long, where the divider's period is four. -/
theorem not_fullyDisciplined :
    ¬∀ is, Meets watch Stable start is → Meets watch FullyDisciplined start is := by
  intro hall
  have hfull := hall (lateStart++[clock 3#16 0#3 false true]) (by decide +kernel)
  obtain ⟨⟨-,-,-,hphase⟩,-⟩ := ((meets_append _ _ _ _ _).mp hfull).2
  exact absurd (hphase (by decide +kernel) (by decide +kernel)) (by decide +kernel)

end Pulpissimo.Udma.I2cLines

import Pulpissimo.Lib.Machine
import Pulpissimo.Udma.UartRx

/-!
# A UART that hears itself

The receiver on the line of the transmitter, both with one configuration and one enable. In
every cycle of a frame the place of both follows from the cycles since the byte was
accepted: the receiver starts two cycles behind the start bit and samples half a
bit later, so every sample lies inside its bit. A disable in which a bit counter keeps a value
leaves the next frame too short.
-/

namespace Pulpissimo.Udma.UartLoop

open Pulpissimo.Machine Pulpissimo.BitClock Pulpissimo.Udma.UartTx Pulpissimo.Udma.UartRx

/-- One cycle of inputs. -/
structure Input where
  cfg_en_i : Bool
  tx_data_i : BitVec 8
  tx_valid_i : Bool
  rx_ready_i : Bool
  err_clr_i : Bool

/-- Both blocks, and what was sent and taken since the last cycle without the enable. -/
structure State where
  tx : UartTx.State
  rx : UartRx.State
  /-- Accepted bytes. -/
  sent : List (BitVec 8)
  /-- Bytes taken from the receiver. -/
  got : List (BitVec 8)
  /-- Cycles since the last byte was accepted. -/
  age : ℕ

/-- Values after reset. -/
def reset : State := ⟨UartTx.reset,UartRx.reset,[],[],0⟩

section Code

variable (cfg : Cfg) (s : State) (i : Input)

/-- Inputs of the transmitter. -/
def offered : UartTx.Input := ⟨i.cfg_en_i,i.tx_data_i,i.tx_valid_i⟩

/-- A byte is accepted. -/
def accepts : Bool := i.tx_valid_i && tx_ready_o s.tx (offered i)

/-- A byte is taken. -/
def takes : Bool := rx_valid_o s.rx && i.rx_ready_i

/-- The receiver hears the line of the transmitter. -/
def heard : UartRx.Input := ⟨i.cfg_en_i,tx_o s.tx,i.rx_ready_i,i.err_clr_i⟩

/-- One clock edge. -/
def step : State where
  tx := UartTx.step cfg s.tx (offered i)
  rx := UartRx.step cfg s.rx (heard s i)
  sent := if i.cfg_en_i then if accepts s i then s.sent++[i.tx_data_i] else s.sent else []
  got := if i.cfg_en_i then if takes s i then s.got++[rx_data_o s.rx] else s.got else []
  age := if accepts s i then 0 else s.age+1

end Code

/-- The data bits of a byte. -/
def masked (cfg : Cfg) (d : BitVec 8) : BitVec 8 := (d.setWidth cfg.N).setWidth 8

/-- The byte is taken within the bit time in which it is offered. -/
def Prompt (cfg : Cfg) (s : State) (i : Input) : Prop :=
  rx_valid_o s.rx=true → s.rx.baud_cnt=cfg.cfg_div_i → i.rx_ready_i=true

/-- A disable finds both bit counters at zero: outside of the data, in the first data bit
before it ends, or where the last one ends. -/
def Clean (cfg : Cfg) (s : State) (i : Input) : Prop :=
  i.cfg_en_i=false →
    (s.tx.reg_bit_count=0#3 ∧ ¬(s.tx.CS=.DATA ∧ s.tx.bit_done=true) ∨
      s.tx.CS=.DATA ∧ s.tx.bit_done=true ∧ s.tx.reg_bit_count=s_target_bits cfg) ∧
    (s.rx.reg_bit_count=0#3 ∧ ¬(s.rx.CS=.DATA ∧ s.rx.bit_done=true) ∨
      s.rx.CS=.DATA ∧ s.rx.bit_done=true ∧ s.rx.reg_bit_count=s_target_bits cfg)

/-- Everything sent is delivered in order, at the latest when the transmitter is idle again, which
it is after the bits of one frame, and no error is raised. -/
structure Delivers (cfg : Cfg) (s : State) : Prop where
  order : ∃ rest,s.sent.map (masked cfg)=s.got++rest
  complete : busy_o s.tx=false → s.got=s.sent.map (masked cfg)
  frame : busy_o s.tx=true → s.age ≤ cfg.bits*cfg.P
  no_error : s.rx.err_o=false

/-- Level of the line `j+1` cycles ago in cycle `p` of a frame. -/
def wire (cfg : Cfg) (d : BitVec 8) (p j : ℕ) : Bool :=
  if p ≤ j then true else level cfg d (slot cfg.P (p-1-j))

/-- The receiver in cycle `p` of the frame of a byte. -/
structure Hears (cfg : Cfg) (d : BitVec 8) (p : ℕ) (taken : Bool) (s : UartRx.State) : Prop where
  sync : ∀ j, j < 3 → s.reg_rx_sync.getLsbD j=wire cfg d p j
  idle : p ≤ 2 → s.CS=.IDLE ∧ s.reg_bit_count=0#3 ∧ taken=false ∧
    (0 < p → s.baud_cnt=0#16 ∧ s.bit_done=false)
  start : 2 < p → p ≤ half cfg+3 → s.CS=.START_BIT ∧ s.reg_bit_count=0#3 ∧ taken=false ∧
    Ticks (half cfg+1) (p-2) s.baud_cnt s.bit_done
  gets : half cfg+3 < p → Gets cfg d (slot cfg.P (p-(half cfg+3))) taken s
  ticks : half cfg+3 < p → slot cfg.P (p-(half cfg+3)) < cfg.stop →
    Ticks cfg.P (p-(half cfg+3)) s.baud_cnt s.bit_done
  offer : s.CS=.SAVE_DATA → s.bit_done=false
  no_error : s.err_o=false

section Hears

variable {cfg : Cfg} {d : BitVec 8} {p : ℕ} {taken : Bool} {s : UartRx.State} {i : UartRx.Input}

theorem wire_zero : wire cfg d (p+1) 0=level cfg d (slot cfg.P p) := if_neg (Nat.not_succ_le_zero p)

theorem wire_succ (j : ℕ) : wire cfg d (p+1) (j+1)=wire cfg d p j := by
  unfold wire
  have hplace : p+1-1-(j+1)=p-1-j := by omega
  rw [hplace]
  exact if_congr (Nat.succ_le_succ_iff) rfl rfl

/-- The synchroniser moves the line on. -/
theorem sync_step (h : ∀ j, j < 3 → s.reg_rx_sync.getLsbD j=wire cfg d p j)
    (hen : i.cfg_en_i=true) (hline : i.rx_i=level cfg d (slot cfg.P p)) {j : ℕ} (hj : j < 3) :
    (UartRx.step cfg s i).reg_rx_sync.getLsbD j=wire cfg d (p+1) j := by
  have hsync : (UartRx.step cfg s i).reg_rx_sync=(s.reg_rx_sync.setWidth 2).concat i.rx_i :=
    if_pos hen
  rw [hsync,BitVec.getLsbD_concat]
  cases j with
  | zero => rw [if_pos rfl,hline,wire_zero]
  | succ j =>
    rw [if_neg (Nat.succ_ne_zero j),Nat.add_sub_cancel,BitVec.getLsbD_setWidth,
      decide_eq_true (by omega),Bool.true_and,wire_succ]
    exact h j (by omega)

/-- Behind the last bit that the receiver samples the line is high. -/
theorem level_stop {k : ℕ} (hk : cfg.stop ≤ k) : level cfg d k=true := by
  have hstop : cfg.N < cfg.stop := by
    unfold Cfg.stop
    omega
  rw [level,if_neg (by omega),if_neg (by omega),if_neg (by omega)]

/-- Every pulse of the receiver comes inside a bit of the line. -/
theorem slot_sample {P H r : ℕ} (hH : 0 < H) (hHP : H ≤ P) (hr : 0 < r) (hmod : r%P=0) :
    slot P (r+H)=slot P r+1 := by
  obtain ⟨n,rfl⟩ := Nat.dvd_of_mod_eq_zero hmod
  have hP : 0 < P := Nat.lt_of_lt_of_le hH hHP
  obtain ⟨m,rfl⟩ : ∃ m,n=m+1 := ⟨n-1,by
    have hn : n≠0 := by
      rintro rfl
      exact absurd hr (Nat.lt_irrefl 0)
    omega⟩
  have hfirst : slot P (P*(m+1)+H)=m+1 := by
    rw [slot,Nat.add_sub_assoc hH,Nat.mul_add_div hP,Nat.div_eq_of_lt (by omega),Nat.add_zero]
  have hsecond : slot P (P*(m+1))=m := by
    rw [slot,Nat.mul_succ,Nat.add_sub_assoc hP,Nat.mul_add_div hP,Nat.div_eq_of_lt (by omega),
      Nat.add_zero]
  rw [hfirst,hsecond]

theorem no_error_step (h : s.err_o=false) (hset : set_error s=false) :
    (UartRx.step cfg s i).err_o=false := by
  simp [UartRx.step,h,hset]

theorem half_bounds (hdiv : 2 ≤ cfg.cfg_div_i.toNat) : 0 < half cfg ∧ half cfg+2 ≤ cfg.P := by
  unfold half Cfg.P
  omega

theorem toNat_half : (cfg.cfg_div_i >>> 1).toNat=half cfg := by
  rw [BitVec.toNat_ushiftRight,Nat.shiftRight_eq_div_pow]
  rfl

/-- The cycles before the divider starts. -/
theorem Hears.step_idle (h : Hears cfg d p taken s) (hp : p < 2) (hen : i.cfg_en_i=true)
    (hline : i.rx_i=level cfg d (slot cfg.P p)) : Hears cfg d (p+1) taken (UartRx.step cfg s i) := by
  obtain ⟨hcs,hcount,htaken,-⟩ := h.idle (by omega)
  have hfall : s_rx_fall s=false := by
    rw [s_rx_fall,h.sync 1 (by decide),wire,if_pos (by omega)]
    rfl
  obtain ⟨hcs',hcount',-,-,hbaud,hdone⟩ := @UartRx.step_idle cfg s i hcs hfall
  exact {
    sync := fun j hj => sync_step h.sync hen hline hj
    idle := fun _ => ⟨hcs',hcount'.trans hcount,htaken,fun _ => ⟨hbaud,hdone⟩⟩
    start := fun hlt => by omega
    gets := fun hlt => by omega
    ticks := fun hlt => by omega
    offer := fun hsave => nomatch hcs'.symm.trans hsave
    no_error := no_error_step h.no_error (set_error_of_stage (by rw [hcs]; decide)) }

/-- The cycle that sees the start bit. -/
theorem Hears.step_fall (h : Hears cfg d 2 taken s) (hen : i.cfg_en_i=true)
    (hline : i.rx_i=level cfg d (slot cfg.P 2)) : Hears cfg d 3 taken (UartRx.step cfg s i) := by
  obtain ⟨hcs,hcount,htaken,hclock⟩ := h.idle (Nat.le_refl 2)
  obtain ⟨hbaud,hdone⟩ := hclock (by decide)
  have hfall : s_rx_fall s=true := by
    rw [s_rx_fall,h.sync 1 (by decide),h.sync 2 (by decide),wire_succ,wire_zero,slot_zero]
    rfl
  obtain ⟨hcs',hcount',hbaud',hdone'⟩ := @UartRx.step_fall cfg s i hen hcs hfall
  have hticks : Ticks (half cfg+1) 0 s.baud_cnt s.bit_done := by
    rw [hbaud,hdone]
    exact ⟨(Nat.zero_mod _).symm,rfl⟩
  have hnext := hticks.next (congrArg Nat.succ toNat_half.symm)
  exact {
    sync := fun j hj => sync_step h.sync hen hline hj
    idle := fun hlt => by omega
    start := fun _ _ => ⟨hcs',hcount'.trans hcount,htaken,by rw [hbaud',hdone']; exact hnext⟩
    gets := fun hlt => by omega
    ticks := fun hlt => by omega
    offer := fun hsave => nomatch hcs'.symm.trans hsave
    no_error := no_error_step h.no_error (set_error_of_stage (by rw [hcs]; decide)) }

/-- The cycles of the start bit. -/
theorem Hears.step_start (hdiv : 2 ≤ cfg.cfg_div_i.toNat) (h : Hears cfg d p taken s) (hp : 2 < p)
    (hlast : p ≤ half cfg+3) (hen : i.cfg_en_i=true) (hline : i.rx_i=level cfg d (slot cfg.P p)) :
    Hears cfg d (p+1) taken (UartRx.step cfg s i) := by
  obtain ⟨hhalf,hP⟩ := half_bounds hdiv
  obtain ⟨hcs,hcount,htaken,hticks⟩ := h.start hp hlast
  obtain ⟨hcs',hcount',hbaud',hdone'⟩ := @UartRx.step_start cfg s i hen hcs
  have hsync : ∀ j, j < 3 → _ := fun j hj => sync_step h.sync hen hline hj
  have herr := @no_error_step cfg s i h.no_error
    (set_error_of_stage (by rw [hcs]; decide))
  have hdone : s.bit_done=true ↔ p=half cfg+3 := by
    rw [hticks.done,decide_eq_true_iff]
    constructor
    · rintro ⟨-,hmod⟩
      by_contra hne
      rw [Nat.mod_eq_of_lt (by omega)] at hmod
      omega
    · rintro rfl
      have hfull : half cfg+3-2=half cfg+1 := rfl
      rw [hfull]
      exact ⟨Nat.succ_pos _,Nat.mod_self _⟩
  by_cases hpulse : s.bit_done=true
  · obtain rfl := hdone.mp hpulse
    have hzero : s.baud_cnt=0#16 := by
      apply BitVec.eq_of_toNat_eq
      rw [hticks.cnt]
      exact Nat.mod_self _
    have hne : s.baud_cnt≠cfg.cfg_div_i >>> 1 := by
      rw [hzero,Ne,←BitVec.toNat_inj,toNat_half]
      exact Nat.ne_of_lt hhalf
    have hplace : half cfg+3+1-(half cfg+3)=1 := by omega
    have hgets := @UartRx.Gets.start cfg d s i hen hcs hcount hpulse
    refine ⟨hsync,fun hlt => by omega,fun _ hlt => by omega,fun _ => ?_,fun _ _ => ?_,?_,herr⟩
    · rw [hplace,slot_one,htaken]
      exact hgets
    · rw [hplace,hbaud',hdone',if_neg hne,hzero,decide_eq_false (hzero ▸ hne)]
      have hone : 1%cfg.P=1 := Nat.mod_eq_of_lt (by omega)
      refine ⟨hone.symm,?_⟩
      rw [hone]
      rfl
    · intro _
      rw [hdone',decide_eq_false hne]
  · have hlt : p < half cfg+3 := by
      refine Nat.lt_of_le_of_ne hlast fun heq => hpulse (hdone.mpr heq)
    rw [if_neg hpulse] at hcs'
    have hnext := hticks.next (congrArg Nat.succ toNat_half.symm)
    have hplace : p+1-2=p-2+1 := by omega
    refine ⟨hsync,fun hlt => by omega,fun _ _ => ⟨hcs',hcount'.trans hcount,htaken,?_⟩,
      fun hlt => by omega,fun hlt => by omega,fun hsave => (nomatch hcs'.symm.trans hsave),herr⟩
    rw [hplace,hbaud',hdone']
    exact hnext

/-- A pulse samples the next bit of the line, and finds the byte taken if it was offered. -/
theorem Hears.sample (hdiv : 2 ≤ cfg.cfg_div_i.toNat) (h : Hears cfg d p taken s)
    (hp : half cfg+3 < p) (hstop : slot cfg.P (p-(half cfg+3)) < cfg.stop)
    (hpulse : s.bit_done=true) :
    (slot cfg.P (p-(half cfg+3))=cfg.N → taken=true) ∧
      s.reg_rx_sync.getLsbD 2=level cfg d (slot cfg.P (p-(half cfg+3))+1) := by
  obtain ⟨hhalf,hP⟩ := half_bounds hdiv
  constructor
  · intro heq
    by_contra hnot
    have hsave : s.CS=.SAVE_DATA := by
      rw [(h.gets hp).stage,UartRx.stage,if_neg (by omega),
        if_pos (Bool.eq_false_of_not_eq_true hnot)]
    exact Bool.false_ne_true ((h.offer hsave).symm.trans hpulse)
  · have hmod := of_decide_eq_true ((h.ticks hp hstop).done.symm.trans hpulse)
    have hplace : p-1-2=p-(half cfg+3)+half cfg := by omega
    rw [h.sync 2 (by decide),wire,if_neg (by omega),hplace,
      slot_sample hhalf (by omega) hmod.1 hmod.2]

/-- No error is set. -/
theorem Hears.no_set_error (hdiv : 2 ≤ cfg.cfg_div_i.toNat) (h : Hears cfg d p taken s) :
    set_error s=false := by
  by_cases hcs : s.CS=.PARITY
  · cases hpulse : s.bit_done with
    | false => rw [set_error,hpulse,Bool.and_false,Bool.false_and]
    | true =>
      have hlate : half cfg+3 < p := by
        by_contra hearly
        rcases Nat.lt_or_ge 2 p with hstart | hidle
        · exact absurd (hcs.symm.trans (h.start hstart (by omega)).1) (by decide)
        · exact absurd (hcs.symm.trans (h.idle hidle).1) (by decide)
      have hstop : slot cfg.P (p-(half cfg+3)) < cfg.stop := by
        by_contra hover
        exact absurd (hcs.symm.trans ((h.gets hlate).idle (Nat.not_lt.mp hover)).1) (by decide)
      obtain ⟨htaken,hsample⟩ := h.sample hdiv hlate hstop hpulse
      exact ((h.gets hlate).next (i:=⟨true,true,true,true⟩) rfl hstop hpulse htaken hsample).2
  · exact set_error_of_stage hcs

/-- The cycles of the bits that the receiver samples. -/
theorem Hears.step_bits (hdiv : 2 ≤ cfg.cfg_div_i.toNat) (h : Hears cfg d p taken s)
    (hp : half cfg+3 < p) (hstop : slot cfg.P (p-(half cfg+3)) < cfg.stop) (hen : i.cfg_en_i=true)
    (hline : i.rx_i=level cfg d (slot cfg.P p))
    (hprompt : s.CS=.SAVE_DATA → s.baud_cnt=cfg.cfg_div_i → i.rx_ready_i=true) :
    Hears cfg d (p+1) (taken || (rx_valid_o s && i.rx_ready_i)) (UartRx.step cfg s i) := by
  obtain ⟨hhalf,hP⟩ := half_bounds hdiv
  have hgets := h.gets hp
  have hticks := h.ticks hp hstop
  have hcs : s.CS≠.IDLE ∧ s.CS≠.START_BIT := by
    rw [hgets.stage,UartRx.stage]
    split_ifs <;> decide
  obtain ⟨hbaud',hdone'⟩ := @step_ticks cfg s i hcs.1 hcs.2
  have hplace : p+1-(half cfg+3)=p-(half cfg+3)+1 := by omega
  have hnext : Ticks cfg.P (p+1-(half cfg+3)) (UartRx.step cfg s i).baud_cnt
      (UartRx.step cfg s i).bit_done := by
    rw [hplace,hbaud',hdone']
    exact hticks.next rfl
  have hoffer : (UartRx.step cfg s i).CS=.SAVE_DATA → (UartRx.step cfg s i).bit_done=false := by
    intro hsave
    rw [hdone']
    apply decide_eq_false
    rcases save_cases hsave with ⟨hold,hready⟩ | ⟨-,hpulse⟩
    · intro heq
      exact Bool.false_ne_true (hready.symm.trans (hprompt hold heq))
    · have hmod := (of_decide_eq_true (hticks.done.symm.trans hpulse)).2
      rw [←hticks.cnt] at hmod
      intro heq
      rw [heq] at hmod
      omega
  have hrest : ∀ t, Gets cfg d (slot cfg.P (p-(half cfg+3)+1)) t (UartRx.step cfg s i) →
      set_error s=false → Hears cfg d (p+1) t (UartRx.step cfg s i) := by
    intro t ht hset
    exact ⟨fun j hj => sync_step h.sync hen hline hj,fun hlt => by omega,fun _ hlt => by omega,
      fun _ => by rw [hplace]; exact ht,fun _ _ => hnext,hoffer,no_error_step h.no_error hset⟩
  cases hpulse : s.bit_done with
  | true =>
    have hslot := hticks.slot_of_done hpulse
    obtain ⟨htaken,hsample⟩ := h.sample hdiv hp hstop hpulse
    have hvalid : rx_valid_o s=false := by
      refine decide_eq_false fun hsave => ?_
      exact Bool.false_ne_true ((h.offer hsave).symm.trans hpulse)
    obtain ⟨hget,hset⟩ := hgets.next hen hstop hpulse htaken hsample
    rw [hvalid,Bool.false_and,Bool.or_false]
    exact hrest taken (by rw [hslot]; exact hget) hset
  | false =>
    have hslot := hticks.slot_of_not_done hpulse
    have hset : set_error s=false := by
      rw [set_error,hpulse,Bool.and_false,Bool.false_and]
    by_cases htake : s.CS=.SAVE_DATA ∧ i.rx_ready_i=true
    · rw [rx_valid_o,decide_eq_true htake.1,htake.2,Bool.and_true,Bool.or_true]
      exact hrest true (by rw [hslot]; exact hgets.take hen hpulse htake.1 htake.2) hset
    · have hkeep : (rx_valid_o s && i.rx_ready_i)=false := by
        rw [rx_valid_o]
        simpa using htake
      rw [hkeep,Bool.or_false]
      have hready : s.CS=.SAVE_DATA → i.rx_ready_i=false := fun hsave =>
        Bool.eq_false_of_not_eq_true fun hready => htake ⟨hsave,hready⟩
      exact hrest taken (by rw [hslot]; exact hgets.stay hen hstop hpulse hready) hset

/-- The cycles after the frame, as the receiver sees it. -/
theorem Hears.step_over (h : Hears cfg d p taken s) (hp : half cfg+3 < p)
    (hstop : cfg.stop ≤ slot cfg.P (p-(half cfg+3))) (hen : i.cfg_en_i=true)
    (hline : i.rx_i=level cfg d (slot cfg.P p)) : Hears cfg d (p+1) taken (UartRx.step cfg s i) := by
  have hgets := h.gets hp
  obtain ⟨hcs,-,-⟩ := hgets.idle hstop
  have hlater : slot cfg.P (p-(half cfg+3)) ≤ slot cfg.P (p+1-(half cfg+3)) :=
    slot_mono (by omega)
  have hfall : s_rx_fall s=false := by
    have hhigh : cfg.stop ≤ slot cfg.P (p-1-1) := hstop.trans (slot_mono (by omega))
    rw [s_rx_fall,h.sync 1 (by decide),wire,if_neg (by omega),level_stop hhigh]
    rfl
  have hcs' := (@UartRx.step_idle cfg s i hcs hfall).1
  exact {
    sync := fun j hj => sync_step h.sync hen hline hj
    idle := fun hlt => by omega
    start := fun _ hlt => by omega
    gets := fun _ => hgets.rest hstop hfall (hstop.trans hlater)
    ticks := fun _ hlt => absurd (hstop.trans hlater) (Nat.not_le.mpr hlt)
    offer := fun hsave => nomatch hcs'.symm.trans hsave
    no_error := no_error_step h.no_error (set_error_of_stage (by rw [hcs]; decide)) }

/-- One cycle of a frame. -/
theorem Hears.step (hdiv : 2 ≤ cfg.cfg_div_i.toNat) (h : Hears cfg d p taken s)
    (hen : i.cfg_en_i=true) (hline : i.rx_i=level cfg d (slot cfg.P p))
    (hprompt : s.CS=.SAVE_DATA → s.baud_cnt=cfg.cfg_div_i → i.rx_ready_i=true) :
    Hears cfg d (p+1) (taken || (rx_valid_o s && i.rx_ready_i)) (UartRx.step cfg s i) := by
  have hquiet : ∀ hcs : s.CS≠.SAVE_DATA, (taken || (rx_valid_o s && i.rx_ready_i))=taken := by
    intro hcs
    rw [rx_valid_o,decide_eq_false hcs,Bool.false_and,Bool.or_false]
  rcases Nat.lt_or_ge (half cfg+3) p with hbits | hearly
  · rcases Nat.lt_or_ge (slot cfg.P (p-(half cfg+3))) cfg.stop with hstop | hstop
    · exact h.step_bits hdiv hbits hstop hen hline hprompt
    · rw [hquiet (by rw [((h.gets hbits).idle hstop).1]; decide)]
      exact h.step_over hbits hstop hen hline
  · rcases Nat.lt_or_ge 2 p with hstart | hidle
    · rw [hquiet (by rw [(h.start hstart hearly).1]; decide)]
      exact h.step_start hdiv hstart hearly hen hline
    · rw [hquiet (by rw [(h.idle hidle).1]; decide)]
      rcases Nat.lt_or_eq_of_le hidle with hlt | rfl
      · exact h.step_idle hlt hen hline
      · exact h.step_fall hen hline

end Hears

/-- Both blocks without a frame. -/
structure Quiet (s : State) : Prop where
  tx : s.tx.CS=.IDLE ∧ s.tx.reg_bit_count=0#3
  rx : s.rx.CS=.IDLE ∧ s.rx.reg_bit_count=0#3 ∧ s.rx.reg_rx_sync=0b111#3

/-- Both blocks in a frame, from the cycle after the byte was accepted to the one in which the
transmitter is idle again. -/
structure Busy (cfg : Cfg) (d : BitVec 8) (taken : Bool) (s : State) : Prop where
  tx : Sends cfg d (slot cfg.P s.age) s.tx
  ticks : s.age ≤ cfg.bits*cfg.P → Ticks cfg.P s.age s.tx.baud_cnt s.tx.bit_done
  rx : Hears cfg d s.age taken s.rx
  age : s.age ≤ cfg.bits*cfg.P+1

/-- What is known after every cycle. -/
structure Inv (cfg : Cfg) (s : State) : Prop where
  place : (Quiet s ∧ s.got=s.sent.map (masked cfg)) ∨
    ∃ d taken before,Busy cfg d taken s ∧ s.sent=before++[d] ∧
      s.got=before.map (masked cfg)++(if taken then [masked cfg d] else [])
  no_error : s.rx.err_o=false

section Loop

variable {cfg : Cfg} {s : State} {i : Input}

theorem tx_count_zero (h : s.tx.reg_bit_count=0#3 ∧ ¬(s.tx.CS=.DATA ∧ s.tx.bit_done=true) ∨
    s.tx.CS=.DATA ∧ s.tx.bit_done=true ∧ s.tx.reg_bit_count=s_target_bits cfg) :
    UartTx.reg_bit_count_next cfg s.tx=0#3 := by
  unfold UartTx.reg_bit_count_next
  rcases h with ⟨hcount,hno⟩ | ⟨hcs,hdone,hlast⟩
  · split
    · rename_i hcs
      rw [if_neg fun hdone => hno ⟨hcs,hdone⟩,hcount]
    · exact hcount
  · rw [hcs,hlast,if_pos hdone,if_pos (beq_self_eq_true _)]

theorem rx_count_zero (h : s.rx.reg_bit_count=0#3 ∧ ¬(s.rx.CS=.DATA ∧ s.rx.bit_done=true) ∨
    s.rx.CS=.DATA ∧ s.rx.bit_done=true ∧ s.rx.reg_bit_count=s_target_bits cfg) :
    UartRx.reg_bit_count_next cfg s.rx=0#3 := by
  unfold UartRx.reg_bit_count_next
  rcases h with ⟨hcount,hno⟩ | ⟨hcs,hdone,hlast⟩
  · split
    · rename_i hcs
      rw [if_neg fun hdone => hno ⟨hcs,hdone⟩,hcount]
    · exact hcount
  · rw [hcs,hlast,if_pos hdone,if_pos (beq_self_eq_true _)]

/-- A disable with both bit counters at zero leaves both blocks without a frame. -/
theorem Clean.quiet (h : Clean cfg s i) (hen : i.cfg_en_i=false) : Quiet (step cfg s i) := by
  obtain ⟨htx,hrx⟩ := h hen
  refine ⟨⟨?_,tx_count_zero htx⟩,?_,rx_count_zero hrx,?_⟩
  · simp [step,UartTx.step,offered,hen]
  · simp [step,UartRx.step,heard,hen]
  · simp [step,UartRx.step,heard,hen]

theorem frame_bounds (hdiv : 2 ≤ cfg.cfg_div_i.toNat) :
    cfg.stop*cfg.P+cfg.P ≤ cfg.bits*cfg.P ∧ cfg.N*cfg.P+cfg.P ≤ cfg.stop*cfg.P ∧
      half cfg+2 ≤ cfg.P ∧ 0 < half cfg := by
  obtain ⟨hhalf,hP⟩ := half_bounds hdiv
  have hN : cfg.N+1 ≤ cfg.stop := Nat.le_add_right _ _
  have hbits : cfg.stop+1 ≤ cfg.bits := Nat.le_add_right _ _
  rw [←Nat.succ_mul,←Nat.succ_mul]
  exact ⟨Nat.mul_le_mul_right _ hbits,Nat.mul_le_mul_right _ hN,hP,hhalf⟩

/-- A byte is taken before the transmitter is idle again. -/
theorem Busy.taken_of_over (hdiv : 2 ≤ cfg.cfg_div_i.toNat) {d : BitVec 8} {taken : Bool}
    (h : Busy cfg d taken s) (hage : s.age=cfg.bits*cfg.P+1) : taken=true := by
  obtain ⟨hbits,hstop,hP,hhalf⟩ := frame_bounds hdiv
  have hlate : half cfg+3 < s.age := by omega
  have hgets := h.rx.gets hlate
  by_contra hnot
  have hfalse := Bool.eq_false_of_not_eq_true hnot
  have hle : slot cfg.P (s.age-(half cfg+3)) ≤ cfg.N := hgets.before hfalse
  have hge : cfg.N ≤ slot cfg.P (s.age-(half cfg+3)) := by
    rw [le_slot (by omega)]
    omega
  have heq := Nat.le_antisymm hle hge
  have hsave : s.rx.CS=.SAVE_DATA := by
    rw [hgets.stage,UartRx.stage,if_neg (by omega),if_pos hfalse]
  have hN : cfg.N < cfg.stop := Nat.lt_of_succ_le (Nat.le_add_right _ _)
  have hticks := h.rx.ticks hlate (by omega)
  have hlast : s.age-(half cfg+3)-1 < (cfg.N+1)*cfg.P := by
    rw [←slot_lt (by omega),heq]
    exact Nat.lt_succ_self _
  rw [Nat.succ_mul] at hlast
  have hplace : s.age-(half cfg+3)=(cfg.N+1)*cfg.P := by
    rw [Nat.succ_mul]
    omega
  have hdone := hticks.done
  rw [h.rx.offer hsave,hplace,Nat.mul_mod_left] at hdone
  have hpos : 0 < (cfg.N+1)*cfg.P := Nat.mul_pos (Nat.succ_pos _) (by omega)
  exact of_decide_eq_false hdone.symm ⟨hpos,rfl⟩

/-- The byte that is offered in a frame is the one sent. -/
theorem Busy.offer {d : BitVec 8} {taken : Bool}
    (h : Busy cfg d taken s) (hsave : s.rx.CS=.SAVE_DATA) :
    taken=false ∧ rx_data_o s.rx=masked cfg d := by
  have hlate : half cfg+3 < s.age := by
    by_contra hearly
    rcases Nat.lt_or_ge 2 s.age with hstart | hidle
    · exact nomatch hsave.symm.trans (h.rx.start hstart (by omega)).1
    · exact nomatch hsave.symm.trans (h.rx.idle hidle).1
  exact ((h.rx.gets hlate).offer hsave).2

theorem Inv.delivers (hdiv : 2 ≤ cfg.cfg_div_i.toNat) (h : Inv cfg s) : Delivers cfg s := by
  rcases h.place with ⟨hquiet,hgot⟩ | ⟨d,taken,before,hbusy,hsent,hgot⟩
  · have hidle : busy_o s.tx=false := by
      rw [busy_o,hquiet.tx.1]
      rfl
    exact ⟨⟨[],by rw [hgot,List.append_nil]⟩,fun _ => hgot,
      fun hb => absurd (hidle.symm.trans hb) Bool.false_ne_true,h.no_error⟩
  · have hmap : s.sent.map (masked cfg)=before.map (masked cfg)++[masked cfg d] := by
      rw [hsent,List.map_append]
      rfl
    have hP : 0 < cfg.P := Nat.succ_pos _
    refine ⟨?_,fun hb => ?_,fun hb => ?_,h.no_error⟩
    · cases taken with
      | true => exact ⟨[],by rw [hmap,hgot,List.append_nil]; rfl⟩
      | false => exact ⟨[masked cfg d],by rw [hmap,hgot]; simp⟩
    · have hover : ¬slot cfg.P s.age < cfg.bits := fun hlt =>
        Bool.false_ne_true (hb.symm.trans (hbusy.tx.busy.mpr hlt))
      have hage := hbusy.age
      have hbits := (frame_bounds hdiv).1
      rw [slot_lt hP] at hover
      have htaken := hbusy.taken_of_over hdiv (by omega)
      rw [hmap,hgot,if_pos htaken]
    · have hlt := hbusy.tx.busy.mp hb
      rw [slot_lt hP] at hlt
      omega

theorem high {j : ℕ} (hj : j < 3) : (0b111#3).getLsbD j=true := by
  have hall : ∀ j, j < 3 → (0b111#3).getLsbD j=true := by decide
  exact hall j hj

/-- Where the transmitter is idle and the receiver comes to rest, the next cycle is quiet or
begins a frame. -/
theorem Inv.rest (htx : s.tx.CS=.IDLE) (hcount : s.tx.reg_bit_count=0#3) (hen : i.cfg_en_i=true)
    (hgot : s.got=s.sent.map (masked cfg)) (htakes : takes s i=false)
    (hrx : (step cfg s i).rx.CS=.IDLE) (hrxcount : (step cfg s i).rx.reg_bit_count=0#3)
    (hsync : (step cfg s i).rx.reg_rx_sync=0b111#3) (herr : (step cfg s i).rx.err_o=false) :
    Inv cfg (step cfg s i) := by
  have hgot' : (step cfg s i).got=s.got := by
    simp [step,hen,htakes]
  have hsent' : (step cfg s i).sent=if accepts s i=true then s.sent++[i.tx_data_i] else s.sent :=
    if_pos hen
  have haccepts : accepts s i=i.tx_valid_i := by
    simp [accepts,tx_ready_o,offered,htx,hen]
  rw [haccepts] at hsent'
  refine ⟨?_,herr⟩
  cases hvalid : i.tx_valid_i with
  | true =>
    rw [hvalid,if_pos rfl] at hsent'
    have hage : (step cfg s i).age=0 := by
      simp [step,haccepts,hvalid]
    refine .inr ⟨i.tx_data_i,false,s.sent,⟨?_,fun _ => ?_,?_,?_⟩,hsent',?_⟩
    · rw [hage,slot_zero]
      exact Sends.start (i:=offered i) htx hcount hen hvalid
    · rw [hage]
      simp only [step,UartTx.step,UartTx.baudgen_en,htx]
      exact ⟨(Nat.zero_mod _).symm,rfl⟩
    · rw [hage]
      refine ⟨fun j hj => ?_,fun _ => ⟨hrx,hrxcount,rfl,fun h => absurd h (Nat.lt_irrefl 0)⟩,
        fun h => absurd h (by decide),fun h => by omega,fun h => by omega,
        fun h => absurd (hrx.symm.trans h) (by decide),herr⟩
      rw [hsync,wire,if_pos (Nat.zero_le j),high hj]
    · rw [hage]
      exact Nat.zero_le _
    · rw [hgot',hgot,if_neg Bool.false_ne_true,List.append_nil]
  | false =>
    rw [hvalid,if_neg Bool.false_ne_true] at hsent'
    refine .inl ⟨⟨⟨?_,?_⟩,hrx,hrxcount,hsync⟩,by rw [hgot',hsent',hgot]⟩
    · simp [step,UartTx.step,UartTx.NS,offered,htx,hvalid]
    · simp [step,UartTx.step,UartTx.reg_bit_count_next,htx,hcount]

/-- A quiet cycle. -/
theorem Quiet.step (h : Quiet s) (hgot : s.got=s.sent.map (masked cfg)) (hen : i.cfg_en_i=true)
    (herr : s.rx.err_o=false) : Inv cfg (step cfg s i) := by
  obtain ⟨hcs,hcount,hsync⟩ := h.rx
  have hfall : s_rx_fall s.rx=false := by
    rw [s_rx_fall,hsync]
    rfl
  obtain ⟨hcs',hcount',-,-,-,-⟩ := @UartRx.step_idle cfg s.rx (heard s i) hcs hfall
  have hline : tx_o s.tx=true := by
    rw [tx_o,h.tx.1]
  refine Inv.rest h.tx.1 h.tx.2 hen hgot ?_ hcs' (hcount'.trans hcount) ?_ ?_
  · rw [takes,rx_valid_o,hcs]
    rfl
  · simp only [UartLoop.step,UartRx.step,heard,hen,hsync,hline,if_true]
    rfl
  · exact no_error_step herr (set_error_of_stage (by rw [hcs]; decide))

theorem Busy.sending (hdiv : 2 ≤ cfg.cfg_div_i.toNat) {d : BitVec 8} {taken : Bool}
    (h : Busy cfg d taken s) (hage : s.age ≤ cfg.bits*cfg.P) :
    slot cfg.P s.age < cfg.bits ∧ s.tx.CS≠.IDLE := by
  obtain ⟨hbits,-,hP,-⟩ := frame_bounds hdiv
  have hslot : slot cfg.P s.age < cfg.bits := by
    rw [slot_lt (by omega)]
    omega
  exact ⟨hslot,of_decide_eq_true (h.tx.busy.mpr hslot)⟩

/-- A cycle inside a frame. -/
theorem Busy.step (hdiv : 2 ≤ cfg.cfg_div_i.toNat) {d : BitVec 8} {taken : Bool}
    (h : Busy cfg d taken s) (hage : s.age ≤ cfg.bits*cfg.P) (hen : i.cfg_en_i=true)
    (hprompt : Prompt cfg s i) : Busy cfg d (taken || takes s i) (step cfg s i) := by
  obtain ⟨hslot,hbusy⟩ := h.sending hdiv hage
  have hage' : (UartLoop.step cfg s i).age=s.age+1 := by
    simp [UartLoop.step,accepts,tx_ready_o,hbusy]
  have hticks := h.ticks hage
  refine ⟨?_,fun _ => ?_,?_,?_⟩
  · rw [hage']
    cases hdone : s.tx.bit_done with
    | true =>
      rw [hticks.slot_of_done hdone]
      exact h.tx.next hen hslot hdone
    | false =>
      rw [hticks.slot_of_not_done hdone]
      exact h.tx.stay hen hslot hdone
  · have hnext := hticks.next (rfl : cfg.P=cfg.cfg_div_i.toNat+1)
    rw [hage']
    simp only [UartLoop.step,UartTx.step,UartTx.baudgen_en,decide_eq_true hbusy,if_true]
    exact hnext
  · rw [hage']
    exact h.rx.step (i:=heard s i) hdiv hen h.tx.line
      fun hsave hlast => hprompt (decide_eq_true hsave) hlast
  · rw [hage']
    omega

/-- The cycle in which the transmitter is idle again. -/
theorem Busy.over (hdiv : 2 ≤ cfg.cfg_div_i.toNat) {d : BitVec 8} {taken : Bool}
    (h : Busy cfg d taken s) (hage : s.age=cfg.bits*cfg.P+1) (hen : i.cfg_en_i=true)
    (hgot : s.got=s.sent.map (masked cfg)) (hprompt : Prompt cfg s i) :
    Inv cfg (UartLoop.step cfg s i) := by
  obtain ⟨hbits,hstop,hP,hhalf⟩ := frame_bounds hdiv
  have htaken := h.taken_of_over hdiv hage
  have hslot : slot cfg.P s.age=cfg.bits := by
    rw [hage,slot,Nat.add_sub_cancel,Nat.mul_div_cancel _ (by omega)]
  have hcs : s.tx.CS=.IDLE := by
    rw [h.tx.stage,hslot,stage_idle_iff]
  have hcount := h.tx.count
  have hN : cfg.N < cfg.bits := by
    have h1 : cfg.N+1 ≤ cfg.stop := Nat.le_add_right _ _
    have h2 : cfg.stop+1 ≤ cfg.bits := Nat.le_add_right _ _
    omega
  rw [hslot,if_neg (by omega)] at hcount
  have hnext := h.rx.step (i:=heard s i) hdiv hen h.tx.line
    fun hsave hlast => hprompt (decide_eq_true hsave) hlast
  have hlate : half cfg+3 < s.age+1 := by omega
  have hgets := hnext.gets hlate
  have hidle := hgets.idle (by
    rw [le_slot (by omega)]
    omega)
  have htakes : takes s i=false := by
    rw [takes,rx_valid_o]
    by_contra hnot
    have hsave := of_decide_eq_true (Bool.and_eq_true_iff.mp (Bool.eq_true_of_not_eq_false hnot)).1
    exact Bool.false_ne_true ((h.offer hsave).1.symm.trans htaken)
  refine Inv.rest hcs (BitVec.eq_of_toNat_eq hcount) hen hgot htakes hidle.1 hidle.2.1 ?_
    hnext.no_error
  apply BitVec.eq_of_getLsbD_eq
  intro j hj
  have hhigh : cfg.stop ≤ slot cfg.P (s.age+1-1-j) := by
    rw [le_slot (by omega)]
    omega
  refine (hnext.sync j hj).trans ?_
  rw [wire,if_neg (by omega),level_stop hhigh,high hj]

theorem Inv.step (hdiv : 2 ≤ cfg.cfg_div_i.toNat) (h : Inv cfg s) (hprompt : Prompt cfg s i)
    (hclean : Clean cfg s i) : Inv cfg (step cfg s i) := by
  cases hen : i.cfg_en_i with
  | false =>
    refine ⟨.inl ⟨hclean.quiet hen,?_⟩,?_⟩
    · simp [UartLoop.step,hen]
    · refine no_error_step h.no_error ?_
      rcases h.place with ⟨hquiet,-⟩ | ⟨d,taken,before,hbusy,-,-⟩
      · exact set_error_of_stage (by rw [hquiet.rx.1]; decide)
      · exact hbusy.rx.no_set_error hdiv
  | true =>
    rcases h.place with ⟨hquiet,hgot⟩ | ⟨d,taken,before,hbusy,hsent,hgot⟩
    · exact hquiet.step hgot hen h.no_error
    · rcases Nat.lt_or_ge (cfg.bits*cfg.P) s.age with hover | hage
      · have hlast : s.age=cfg.bits*cfg.P+1 := Nat.le_antisymm hbusy.age hover
        refine hbusy.over hdiv hlast hen ?_ hprompt
        rw [hgot,hsent,if_pos (hbusy.taken_of_over hdiv hlast),List.map_append]
        rfl
      · have hnext := hbusy.step hdiv hage hen hprompt
        refine ⟨.inr ⟨d,_,before,hnext,?_,?_⟩,hnext.rx.no_error⟩
        · have hno : accepts s i=false := by
            rw [accepts,tx_ready_o,decide_eq_false (hbusy.sending hdiv hage).2,Bool.false_and,
              Bool.and_false]
          simp only [UartLoop.step,hen,hno,if_true,Bool.false_eq_true,if_false]
          exact hsent
        · cases htake : takes s i with
          | false =>
            simp only [UartLoop.step,hen,htake,if_true,Bool.false_eq_true,if_false,Bool.or_false]
            exact hgot
          | true =>
            have hsave := of_decide_eq_true (Bool.and_eq_true_iff.mp htake).1
            obtain ⟨hfalse,hdata⟩ := hbusy.offer hsave
            rw [hfalse,if_neg Bool.false_ne_true,List.append_nil] at hgot
            simp only [UartLoop.step,hen,htake,if_true,Bool.or_true]
            rw [hgot,hdata]

/-- In every run whose disables find the bit counters at zero, and in which each byte is taken
within its bit time, everything sent is delivered. -/
theorem delivers_of_clean (cfg : Cfg) (hdiv : 2 ≤ cfg.cfg_div_i.toNat) (is : List Input)
    (h : Meets (step cfg) (fun s i => Prompt cfg s i ∧ Clean cfg s i) reset is) :
    Delivers cfg (after (step cfg) reset is) := by
  have hreset : Inv cfg reset := ⟨.inl ⟨⟨⟨rfl,rfl⟩,rfl,rfl,rfl⟩,rfl⟩,rfl⟩
  exact (after_invariant_of_meets (fun _ _ hs hc => Inv.step hdiv hs hc.1 hc.2) hreset h).delivers hdiv

end Loop

/-- Five data bits, no parity, one stop bit. -/
def exampleCfg : Cfg := ⟨2#16,false,0#2,false⟩

/-- A cycle in which a byte is offered to the transmitter. -/
def sendCycle (d : BitVec 8) : Input := ⟨true,d,true,true,false⟩

/-- A cycle with nothing to send. -/
def idleCycle : Input := ⟨true,0,false,true,false⟩

/-- A disable in the second data bit of a byte, and another byte after it. -/
def droppedInputs : List Input :=
  sendCycle 0x15#8::List.replicate 7 idleCycle++[{ idleCycle with cfg_en_i := false }]++
    [sendCycle 0x15#8]++List.replicate 40 idleCycle

/-- A disable in the start bit of a byte, and another byte after it. -/
def cleanInputs : List Input :=
  sendCycle 0x15#8::List.replicate 2 idleCycle++[{ idleCycle with cfg_en_i := false }]++
    [sendCycle 0x15#8]++List.replicate 40 idleCycle

/-- The second of those two bytes is delivered. -/
theorem delivers_of_clean_example : (after (step exampleCfg) reset cleanInputs).got=[0x15#8] ∧
    Delivers exampleCfg (after (step exampleCfg) reset cleanInputs) := by
  have hmeets : Meets (step exampleCfg) (fun s i => Prompt exampleCfg s i ∧ Clean exampleCfg s i)
      reset cleanInputs := by
    unfold Prompt Clean
    decide +kernel
  exact ⟨by decide +kernel,delivers_of_clean exampleCfg (by decide) cleanInputs hmeets⟩

/-- After the disable in the second data bit the byte comes out as another one, although the line
was idle and every byte was taken at once. -/
theorem not_delivers_dropped :
    Meets (step exampleCfg) (Prompt exampleCfg) reset droppedInputs ∧
      tx_o (after (step exampleCfg) reset (droppedInputs.take 9)).tx=true ∧
      ¬Delivers exampleCfg (after (step exampleCfg) reset droppedInputs) := by
  refine ⟨?_,by decide +kernel,fun h => ?_⟩
  · unfold Prompt
    decide +kernel
  · have hgot := h.complete (by decide +kernel)
    revert hgot
    decide +kernel

end Pulpissimo.Udma.UartLoop

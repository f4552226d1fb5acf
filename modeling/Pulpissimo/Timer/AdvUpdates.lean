import Mathlib.Data.BitVec
import Pulpissimo.Lib.Machine
import Pulpissimo.Timer.AdvTimer

/-!
# Updates of the advanced timer

A monitor keeps what a running timer should work with: what was configured when
it was started, and at the end of every counting period for which an update was
asked, what is configured then. A timer obeys the monitor exactly in the runs
in which its blocks load when they should, or load what they have.
-/

namespace Pulpissimo.Timer.AdvUpdates

open Pulpissimo.Machine Pulpissimo.Timer.AdvTimer

variable {n : ℕ}

/-- The counting period in progress ends: the counter is about to start over from its lowest
count. -/
def periodEnds (t : TimerModule) : Bool :=
  t.u_prescaler.event_o &&
    if t.u_counter.r_sawtooth then
      !t.u_counter.r_direction && t.u_counter.r_counter==t.u_counter.r_end
    else t.u_counter.r_direction && t.u_counter.r_counter==t.u_counter.r_start

/-- A timer and what is expected of it. -/
structure Monitored where
  /-- The timer. -/
  timer : TimerModule
  /-- The configuration that it should work with. -/
  used : Config
  /-- An update was asked for and did not take effect. -/
  asked : Bool

section Monitor

variable (s : Monitored) (i : Input n)

/-- The timer is started. -/
def Monitored.starts : Bool := i.cfg_start_i && !s.timer.active

/-- An update is to take effect. -/
def Monitored.due : Bool :=
  s.timer.active && (s.asked || i.cfg_update_i) && periodEnds s.timer

/-- One cycle. -/
def Monitored.step : Monitored where
  timer := s.timer.step i
  used := if s.starts i || s.due i then i.cfg else s.used
  asked :=
    if s.starts i then false
    else if s.timer.active then (s.asked || i.cfg_update_i) && !s.due i
    else s.asked

/-- The timer is not started. -/
def idle : Monitored := ⟨reset,⟨⟨false,0#16,0#16⟩,⟨0#8,0#3,0#8,fun _ => ⟨0#16,0#3⟩⟩,false⟩,false⟩

/-- A running timer works with what it should. -/
structure Right : Prop where
  /-- The counter does. -/
  range : s.timer.u_counter.range=s.used.range
  /-- So do the other blocks. -/
  stages : s.timer.stages=s.used.stages

/-- The cycle of a running timer sees the right choice of the clock and leaves the right registers
to the timer if it goes on. -/
structure Obeys : Prop where
  /-- The choice of the clock is read from the configuration input. -/
  sel_clk : s.timer.active=true → i.cfg.sel_clk=s.used.sel_clk
  /-- The rest is in registers. -/
  right : (s.step i).timer.active=true → Right (s.step i)

/-- The counter loads its range: in sawtooth mode at the end of a period for an update that it
knows of, and when it is reset and knows of none. -/
def Monitored.takes : Bool :=
  if i.cfg_update_i || s.timer.u_counter.r_pending_update then
    s.timer.u_counter.r_sawtooth && periodEnds s.timer
  else i.cfg_rst_i

/-- While the timer runs, the choice of the clock does not change, the counter loads its range
exactly when an update is due or loads what it has, and so do the other blocks, which load
whenever a count was made in the last cycle. -/
structure Kept : Prop where
  sel_clk : s.timer.active=true → i.cfg.sel_clk=s.used.sel_clk
  range : s.timer.active=true → (i.cfg_start_i || !i.cfg_stop_i)=true →
    s.takes i=s.due i ∨ i.cfg.range=s.used.range
  stages : s.timer.active=true → (i.cfg_start_i || !i.cfg_stop_i)=true →
    s.timer.u_counter.r_event=s.due i ∨ i.cfg.stages=s.used.stages

end Monitor

section Count

/-- Where the counter can be. -/
structure Between (s : UpDownCounter) : Prop where
  low : s.r_start ≤ s.r_counter
  high : s.r_counter ≤ s.r_end
  up : s.r_sawtooth=true → s.r_direction=false
  range : s.r_sawtooth=false → s.r_start < s.r_end

variable {s : UpDownCounter} {ctrl_update_i ctrl_rst_i ctrl_active_i counter_event_i : Bool}
  {cfg : Range}

variable (cfg) in
/-- A count that is not loaded stays between the bounds. -/
theorem Between.count (h : Between s)
    (hload : s_do_update s ctrl_update_i ctrl_rst_i ctrl_active_i counter_event_i=false) :
    let next := s_counter s ctrl_update_i ctrl_rst_i ctrl_active_i counter_event_i cfg
    s.r_start≤next.1 ∧ next.1 ≤ s.r_end ∧ (s.r_sawtooth=true → next.2=false) := by
  rcases h with ⟨hlow,hhigh,hup,hrange⟩
  have hstay : s.r_start ≤ s.r_counter ∧ s.r_counter ≤ s.r_end ∧
      (s.r_sawtooth=true → s.r_direction=false) := ⟨hlow,hhigh,hup⟩
  have hle := BitVec.le_trans hlow hhigh
  have hstart := s.r_start.isLt
  have hend := s.r_end.isLt
  dsimp only
  unfold s_counter
  rw [if_neg (by rw [hload]; decide)]
  rw [BitVec.le_def] at hlow hhigh
  split_ifs with hevent htop hsaw hbottom hdown
  · exact ⟨BitVec.le_refl _,hle,fun _ => rfl⟩
  · rw [Bool.and_eq_true,beq_iff_eq] at htop
    have hlt := hrange (Bool.eq_false_iff.mpr hsaw)
    rw [BitVec.lt_def] at hlt
    refine ⟨?_,?_,fun h => absurd h hsaw⟩ <;>
      rw [BitVec.le_def,htop.2] <;> bv_omega
  · rw [Bool.and_eq_true,beq_iff_eq] at hbottom
    have hmode : s.r_sawtooth=false := by
      by_contra hne
      rw [hup (Bool.eq_true_of_not_eq_false hne)] at hbottom
      exact Bool.false_ne_true hbottom.1
    have hlt := hrange hmode
    rw [BitVec.lt_def] at hlt
    refine ⟨?_,?_,fun h => absurd h (by rw [hmode]; decide)⟩ <;>
      rw [BitVec.le_def,hbottom.2] <;> bv_omega
  · rw [hdown,Bool.true_and,beq_iff_eq,←BitVec.toNat_inj] at hbottom
    refine ⟨?_,?_,fun h => absurd (hup h) (by rw [hdown]; decide)⟩ <;>
      rw [BitVec.le_def] <;> bv_omega
  · rw [Bool.eq_false_iff.mpr hdown,Bool.not_false,Bool.true_and,beq_iff_eq,
      ←BitVec.toNat_inj] at htop
    refine ⟨?_,?_,fun _ => Bool.eq_false_iff.mpr hdown⟩ <;>
      rw [BitVec.le_def] <;> bv_omega
  · exact hstay

/-- The counter stays between its bounds. -/
theorem Between.step (h : Between s) (hcfg : cfg.cnt_start < cfg.cnt_end) :
    Between (s.step ctrl_update_i ctrl_rst_i ctrl_active_i counter_event_i cfg) := by
  unfold UpDownCounter.step
  cases hload : s_do_update s ctrl_update_i ctrl_rst_i ctrl_active_i counter_event_i with
  | true =>
    unfold s_counter
    rw [hload]
    exact ⟨BitVec.le_refl _,BitVec.le_of_lt hcfg,fun _ => rfl,fun _ => hcfg⟩
  | false =>
    rcases h.count cfg hload with ⟨hlow,hhigh,hup⟩
    exact ⟨hlow,hhigh,hup,h.range⟩

/-- An update that comes to the last count of a sawtooth without an event is dropped. -/
theorem update_dropped (hsaw : s.r_sawtooth=true) (hend : s.r_counter=s.r_end)
    (hasked : ctrl_update_i=true ∨ s.r_pending_update=true) :
    s_pending_update s ctrl_update_i ctrl_rst_i true=false ∧
      s_do_update s ctrl_update_i ctrl_rst_i true false=false := by
  have hor : (ctrl_update_i || s.r_pending_update)=true := Bool.or_eq_true_iff.mpr hasked
  have hlast : s_is_update s=true := by
    unfold s_is_update
    rw [hsaw,if_pos rfl,hend,beq_self_eq_true]
  unfold s_pending_update s_do_update
  rw [hor,hlast]
  cases ctrl_update_i <;> exact ⟨rfl,rfl⟩

/-- Counting down, the counter turns before it would load. -/
theorem is_update_updown (h : Between s) (hmode : s.r_sawtooth=false) : s_is_update s=false := by
  have hlow := h.low
  rw [BitVec.le_def] at hlow
  unfold s_is_update
  rw [hmode,if_neg Bool.false_ne_true,Bool.and_eq_false_iff,beq_eq_false_iff_ne]
  refine Or.inr fun heq => ?_
  have hnat := congrArg BitVec.toNat heq
  have hstart := s.r_start.isLt
  rw [BitVec.toNat_setWidth,BitVec.toNat_sub,BitVec.toNat_setWidth] at hnat
  have hcounter := s.r_counter.isLt
  have hone : (1#32).toNat=1 := rfl
  omega

end Count

section Load

variable (t : TimerModule) (s : Monitored) (i : Input n)

theorem active_step :
    (t.step i).active=if i.cfg_start_i then true else if i.cfg_stop_i then false else t.active := rfl

/-- The counter loads its range as a whole. -/
theorem range_step : (t.step i).u_counter.range=
    if s_do_update t.u_counter (s_ctrl_update_cnt t i) (s_ctrl_rst t i) t.active
      t.u_prescaler.event_o then i.cfg.range else t.u_counter.range := by
  change (t.u_counter.step _ _ _ _ _).range=_
  unfold UpDownCounter.step
  cases s_do_update t.u_counter (s_ctrl_update_cnt t i) (s_ctrl_rst t i) t.active
    t.u_prescaler.event_o <;> rfl

/-- The other blocks load together. -/
theorem stages_step :
    (t.step i).stages=if s_ctrl_update_all t i then i.cfg.stages else t.stages := by
  unfold TimerModule.stages TimerModule.step InputStage.step Prescaler.step Comparator.step
  cases s_ctrl_update_all t i <;> rfl

/-- At a start all of them load. -/
theorem loads_of_starts (h : s.starts i=true) :
    s_do_update s.timer.u_counter (s_ctrl_update_cnt s.timer i) (s_ctrl_rst s.timer i)
      s.timer.active s.timer.u_prescaler.event_o=true ∧ s_ctrl_update_all s.timer i=true := by
  have hstart : (i.cfg_start_i && !s.timer.u_controller.r_active)=true := h
  have hidle : s.timer.active=false := (Bool.not_eq_true' _).mp (Bool.and_eq_true_iff.mp hstart).2
  have hcnt : s_ctrl_update_cnt s.timer i=true := if_pos hstart
  refine ⟨?_,if_pos hstart⟩
  unfold s_do_update
  rw [hcnt,hidle]
  rfl

variable {s i}

theorem starts_running (h : s.timer.active=true) : s.starts i=false := by
  unfold Monitored.starts
  rw [h,Bool.not_true,Bool.and_false]

/-- The counter of a running timer. -/
theorem do_update_running (h : s.timer.active=true) (hb : Between s.timer.u_counter) :
    s_do_update s.timer.u_counter (s_ctrl_update_cnt s.timer i) (s_ctrl_rst s.timer i)
      s.timer.active s.timer.u_prescaler.event_o=s.takes i := by
  have hstart : (i.cfg_start_i && !s.timer.u_controller.r_active)=false := starts_running h
  have hcnt : s_ctrl_update_cnt s.timer i=i.cfg_update_i := by
    unfold s_ctrl_update_cnt ctrl_cnt_upd_o
    rw [hstart,if_neg Bool.false_ne_true]
  have hrst : s_ctrl_rst s.timer i=i.cfg_rst_i := by
    unfold s_ctrl_rst ctrl_rst_o
    rw [hstart,if_neg Bool.false_ne_true]
  have hends : (s_is_update s.timer.u_counter && s.timer.u_prescaler.event_o)=
      (s.timer.u_counter.r_sawtooth && periodEnds s.timer) := by
    unfold periodEnds
    cases hsaw : s.timer.u_counter.r_sawtooth with
    | false => rw [is_update_updown hb hsaw,Bool.false_and,Bool.false_and]
    | true =>
      unfold s_is_update
      rw [hsaw,hb.up hsaw,if_pos rfl,if_pos rfl,Bool.not_false,Bool.true_and,Bool.true_and,
        Bool.and_comm]
  unfold s_do_update Monitored.takes
  rw [hcnt,hrst,h,hends,Bool.not_true,Bool.and_false,if_neg Bool.false_ne_true]

/-- The other blocks of a running timer. -/
theorem update_all_running (h : s.timer.active=true) :
    s_ctrl_update_all s.timer i=s.timer.u_counter.r_event := by
  have hstart : (i.cfg_start_i && !s.timer.u_controller.r_active)=false := starts_running h
  unfold s_ctrl_update_all ctrl_all_upd_o s_cnt_evt counter_evt_o
  rw [hstart,if_neg Bool.false_ne_true,h,Bool.true_and]

end Load

/-- A register that loads for one reason has what it should have for another exactly if the
reasons agree or there is nothing new to load. -/
theorem load_eq_iff {α : Type*} {b d : Bool} {new old : α} :
    (if b then new else old)=(if d then new else old) ↔ b=d ∨ new=old := by
  cases b <;> cases d <;> simp [eq_comm]

/-- Two such registers load the same if they are to have the same. -/
theorem loaded_same {α : Type*} {b d : Bool} {new new' old : α} (h : b=d ∨ new=old)
    (h' : b=d ∨ new'=old) (hsame : d=true → new=new') (hb : b=true) : new=new' := by
  rcases h with h | h
  · exact hsame (h.symm.trans hb)
  · rcases h' with h' | h'
    · exact hsame (h'.symm.trans hb)
    · exact h.trans h'.symm

/-- The counter is between its bounds, and a running timer works with what it should. -/
structure Sound (s : Monitored) : Prop where
  between : Between s.timer.u_counter
  right : s.timer.active=true → Right s

section Cycle

variable {s : Monitored} {i : Input n}

/-- A started timer works with what was configured at the start. -/
theorem right_of_starts (h : s.starts i=true) : Right (s.step i) := by
  rcases loads_of_starts s i h with ⟨hcnt,hall⟩
  have hused : (s.step i).used=i.cfg := if_pos (by rw [h]; rfl)
  constructor
  · rw [hused]
    exact (range_step _ _).trans (if_pos hcnt)
  · rw [hused]
    exact (stages_step _ _).trans (if_pos hall)

/-- A running one works on with what it should if it loads what it should. -/
theorem right_running (h : s.timer.active=true) (hs : Sound s) :
    Right (s.step i) ↔ (s.takes i=s.due i ∨ i.cfg.range=s.used.range) ∧
      (s.timer.u_counter.r_event=s.due i ∨ i.cfg.stages=s.used.stages) := by
  have hused : (s.step i).used=if s.due i then i.cfg else s.used := by
    unfold Monitored.step
    rw [starts_running h,Bool.false_or]
  have hrange : (s.step i).timer.u_counter.range=
      if s.takes i then i.cfg.range else s.used.range := by
    rw [←(hs.right h).range,←do_update_running h hs.between]
    exact range_step _ _
  have hstages : (s.step i).timer.stages=
      if s.timer.u_counter.r_event then i.cfg.stages else s.used.stages := by
    rw [←(hs.right h).stages,←update_all_running h]
    exact stages_step _ _
  have hrange' := (congrArg Config.range hused).trans (apply_ite Config.range _ _ _)
  have hstages' := (congrArg Config.stages hused).trans (apply_ite Config.stages _ _ _)
  rw [←load_eq_iff,←load_eq_iff,←hrange,←hstages,←hrange',←hstages']
  exact ⟨fun hright => ⟨hright.range,hright.stages⟩,fun hright => ⟨hright.1,hright.2⟩⟩

/-- One cycle obeys the monitor exactly under the condition. -/
theorem obeys_iff (hs : Sound s) : Obeys s i ↔ Kept s i := by
  cases h : s.timer.active with
  | false =>
    refine ⟨fun _ => ⟨fun hno => absurd hno ?_,fun hno => absurd hno ?_,fun hno => absurd hno ?_⟩,
      fun _ => ⟨fun hno => absurd hno ?_,fun hnext => right_of_starts ?_⟩⟩
    -- a timer that does not run goes on only if it is started
    case refine_5 =>
      have hgo := (active_step s.timer i).symm.trans hnext
      rw [h] at hgo
      unfold Monitored.starts
      rw [h]
      cases hstart : i.cfg_start_i with
      | true => rfl
      | false => simp [hstart] at hgo
    all_goals exact Bool.eq_false_iff.mp h
  | true =>
    have hgo : (s.step i).timer.active=(i.cfg_start_i || !i.cfg_stop_i) := by
      refine (active_step s.timer i).trans ?_
      rw [h]
      cases i.cfg_start_i <;> cases i.cfg_stop_i <;> rfl
    constructor
    · rintro ⟨hsel,hright⟩
      rw [hgo] at hright
      exact ⟨hsel,fun _ hnext => ((right_running h hs).mp (hright hnext)).1,
        fun _ hnext => ((right_running h hs).mp (hright hnext)).2⟩
    · rintro ⟨hsel,hrange,hstages⟩
      refine ⟨hsel,fun hnext => (right_running h hs).mpr ?_⟩
      rw [hgo] at hnext
      exact ⟨hrange h hnext,hstages h hnext⟩

theorem Sound.step (hs : Sound s) (hk : Kept s i) : Sound (s.step i) := by
  refine ⟨hs.between.step i.range,fun hactive => ?_⟩
  exact ((obeys_iff hs).mpr hk).right hactive

end Cycle

section Twins

/-- Inputs that differ at most in the configuration, and not in one that takes effect. The timer
goes on. -/
structure Twins (s : Monitored) (i j : Input n) : Prop where
  commands : (i.cfg_start_i,i.cfg_stop_i,i.cfg_rst_i,i.cfg_update_i,i.cfg_arm_i)=
    (j.cfg_start_i,j.cfg_stop_i,j.cfg_rst_i,j.cfg_update_i,j.cfg_arm_i)
  events : (i.ls_clk_i,i.signal_i)=(j.ls_clk_i,j.signal_i)
  goes_on : (i.cfg_start_i || !i.cfg_stop_i)=true
  cfg : s.due i=true → i.cfg=j.cfg

theorem counter_congr {s : UpDownCounter} {cu cr ca e : Bool} {c d : Range}
    (h : s_do_update s cu cr ca e=true → c=d) : s.step cu cr ca e c=s.step cu cr ca e d := by
  unfold UpDownCounter.step s_counter
  cases hload : s_do_update s cu cr ca e with
  | true => rw [h hload]
  | false => rfl

theorem comparator_congr {s : Comparator} {ca cu cr : Bool} {t : Count} {c d : Channel}
    (h : cu=true → c=d) : s.step c ca cu cr t=s.step d ca cu cr t := by
  cases cu with
  | true => rw [h rfl]
  | false => rfl

theorem prescaler_congr {s : Prescaler} {ca cu cr e : Bool} {c d : BitVec 8} (h : cu=true → c=d) :
    s.step c ca cu cr e=s.step d ca cu cr e := by
  cases cu with
  | true => rw [h rfl]
  | false => rfl

/-- The timer sees of the configuration the choice of the clock and what it loads. -/
theorem step_congr {t : TimerModule} {i j : Input n}
    (hcommands : (i.cfg_start_i,i.cfg_stop_i,i.cfg_rst_i,i.cfg_update_i,i.cfg_arm_i)=
      (j.cfg_start_i,j.cfg_stop_i,j.cfg_rst_i,j.cfg_update_i,j.cfg_arm_i))
    (hevents : (i.ls_clk_i,i.signal_i)=(j.ls_clk_i,j.signal_i))
    (hsel : i.cfg.sel_clk=j.cfg.sel_clk)
    (hrange : s_do_update t.u_counter (s_ctrl_update_cnt t i) (s_ctrl_rst t i) t.active
      t.u_prescaler.event_o=true → i.cfg.range=j.cfg.range)
    (hstages : s_ctrl_update_all t i=true → i.cfg.stages=j.cfg.stages) : t.step i=t.step j := by
  rcases i with ⟨start,stop,rst,update,arm,⟨range,stages,sel_clk⟩,hi,ls_clk,signal⟩
  rcases j with ⟨start',stop',rst',update',arm',⟨range',stages',sel_clk'⟩,hj,ls_clk',signal'⟩
  simp only [Prod.mk.injEq] at hcommands hevents
  rcases hcommands with ⟨rfl,rfl,rfl,rfl,rfl⟩
  rcases hevents with ⟨rfl,rfl⟩
  dsimp only at hsel
  subst hsel
  unfold TimerModule.step
  rw [TimerModule.mk.injEq]
  refine ⟨rfl,?_,prescaler_congr fun hall => congrArg Stages.presc (hstages hall),
    counter_congr hrange,funext fun k => comparator_congr fun hall =>
      congrArg (fun stages => stages.ch k) (hstages hall)⟩
  unfold InputStage.step
  rw [InputStage.mk.injEq]
  refine ⟨rfl,rfl,?_,?_,rfl,rfl⟩
  · exact ite_congr rfl (fun hall => congrArg Stages.sel (hstages hall)) fun _ => rfl
  · exact ite_congr rfl (fun hall => congrArg Stages.mode (hstages hall)) fun _ => rfl

/-- Where what is loaded is what should be, twins leave the same timer. -/
theorem Sound.twins {s : Monitored} {i j : Input n} (hs : Sound s) (hactive : s.timer.active=true)
    (hi : Kept s i) (hj : Kept s j) (h : Twins s i j) : s.step i=s.step j := by
  have hupdate : i.cfg_update_i=j.cfg_update_i := congrArg (fun c => c.2.2.2.1) h.commands
  have hstart : i.cfg_start_i=j.cfg_start_i := congrArg (fun c => c.1) h.commands
  have hstop : i.cfg_stop_i=j.cfg_stop_i := congrArg (fun c => c.2.1) h.commands
  have hrst : i.cfg_rst_i=j.cfg_rst_i := congrArg (fun c => c.2.2.1) h.commands
  have hdue : s.due i=s.due j := by
    unfold Monitored.due
    rw [hupdate]
  have htakes : s.takes i=s.takes j := by
    unfold Monitored.takes
    rw [hupdate,hrst]
  have hgo := h.goes_on
  have hgo' := hgo
  rw [hstart,hstop] at hgo'
  have htimer : s.timer.step i=s.timer.step j := by
    refine step_congr h.commands h.events ((hi.sel_clk hactive).trans (hj.sel_clk hactive).symm)
      (fun hb => ?_) fun hb => ?_
    · rw [do_update_running hactive hs.between] at hb
      have hother := hj.range hactive hgo'
      rw [←htakes,←hdue] at hother
      exact loaded_same (hi.range hactive hgo) hother (fun hd => congrArg Config.range (h.cfg hd)) hb
    · rw [update_all_running hactive] at hb
      have hother := hj.stages hactive hgo'
      rw [←hdue] at hother
      exact loaded_same (hi.stages hactive hgo) hother
        (fun hd => congrArg Config.stages (h.cfg hd)) hb
  unfold Monitored.step
  rw [htimer,starts_running hactive,starts_running hactive,hactive,hdue,hupdate,Monitored.mk.injEq]
  refine ⟨rfl,?_,rfl⟩
  rw [Bool.false_or,←hdue]
  exact ite_congr rfl (fun hd => h.cfg hd) fun _ => rfl

/-- Runs of twins end in the same timer. -/
theorem Sound.twins_run {s : Monitored} {ps : List (Input n × Input n)} (hs : Sound s)
    (hactive : s.timer.active=true)
    (h : Meets (fun s p => s.step p.1) (fun s p => Kept s p.1 ∧ Kept s p.2 ∧ Twins s p.1 p.2) s ps) :
    after Monitored.step s (ps.map Prod.fst)=after Monitored.step s (ps.map Prod.snd) := by
  induction ps generalizing s with
  | nil => rfl
  | cons p ps ih =>
    rcases h with ⟨⟨hi,hj,htwins⟩,hrest⟩
    have hnext : (s.step p.1).timer.active=true := by
      refine (active_step s.timer p.1).trans ?_
      have hgo := htwins.goes_on
      cases hstart : p.1.cfg_start_i with
      | true => rfl
      | false =>
        rw [hstart,Bool.false_or] at hgo
        rw [if_neg Bool.false_ne_true,if_neg (by rw [(Bool.not_eq_true' _).mp hgo]; decide)]
        exact hactive
    rw [List.map_cons,List.map_cons,after_cons,after_cons,←hs.twins hactive hi hj htwins]
    exact ih (hs.step hi) hnext hrest

end Twins

theorem sound_idle : Sound idle :=
  ⟨⟨BitVec.le_refl _,BitVec.le_refl _,fun _ => rfl,fun h => absurd h (by decide)⟩,
    fun h => absurd h (by decide)⟩

/-- A timer obeys the monitor exactly in the runs whose cycles meet the condition. There a running
timer does not depend on configurations that do not take effect. -/
theorem updates_exactly (n : ℕ) :
    (∀ cs : List (Input n), Meets Monitored.step Obeys idle cs ↔ Meets Monitored.step Kept idle cs) ∧
    ∀ (cs : List (Input n)) (ps : List (Input n × Input n)), Meets Monitored.step Kept idle cs →
      (after Monitored.step idle cs).timer.active=true →
      Meets (fun s p => s.step p.1) (fun s p => Kept s p.1 ∧ Kept s p.2 ∧ Twins s p.1 p.2)
        (after Monitored.step idle cs) ps →
      after Monitored.step idle (cs++ps.map Prod.fst)=
        after Monitored.step idle (cs++ps.map Prod.snd) := by
  refine ⟨fun cs => ?_,fun cs ps hcs hactive hps => ?_⟩
  · exact meets_congr_of_meets (P := Sound) (fun _ _ => Sound.step) (fun _ _ => obeys_iff) sound_idle
  · have hsound := after_invariant_of_meets (P := Sound) (fun _ _ => Sound.step) sound_idle hcs
    rw [after_append,after_append]
    exact hsound.twins_run hactive hps

section Runs

/-- A cycle of a sawtooth timer that counts every cycle from zero to three, with a threshold. -/
def cycle (comp : BitVec 16) (cfg_start_i cfg_update_i : Bool) : Input 1 where
  cfg_start_i := cfg_start_i
  cfg_stop_i := false
  cfg_rst_i := false
  cfg_update_i := cfg_update_i
  cfg_arm_i := false
  cfg := ⟨⟨true,0#16,3#16⟩,⟨0#8,0#3,0#8,fun _ => ⟨comp,OP_SETRST⟩⟩,false⟩
  range := show 0#16<3#16 by decide
  ls_clk_i := false
  signal_i := 0#1

/-- A started timer obeys while the threshold stays, and until the first count it does not depend
on a threshold for which an update waits. -/
theorem updates_exactly_sawtooth :
    Meets Monitored.step Obeys idle [cycle 2#16 true false,cycle 2#16 false false,
      cycle 2#16 false true,cycle 2#16 false false] ∧
    after Monitored.step idle [cycle 2#16 true false,cycle 2#16 false false,cycle 2#16 false true]=
      after Monitored.step idle [cycle 2#16 true false,cycle 1#16 false false,
        cycle 1#16 false true] := by
  have hstart : Kept idle (cycle 2#16 true false) :=
    ⟨fun h => absurd h (by decide),fun h => absurd h (by decide),fun h => absurd h (by decide)⟩
  refine ⟨((updates_exactly 1).1 _).mpr ⟨hstart,?_,?_,?_,trivial⟩,(updates_exactly 1).2
    [cycle 2#16 true false] [(cycle 2#16 false false,cycle 1#16 false false),
      (cycle 2#16 false true,cycle 1#16 false true)] ⟨hstart,trivial⟩ rfl ⟨?_,?_,trivial⟩⟩
  · exact ⟨fun _ => rfl,fun _ _ => Or.inl rfl,fun _ _ => Or.inl rfl⟩
  · exact ⟨fun _ => rfl,fun _ _ => Or.inl rfl,fun _ _ => Or.inl rfl⟩
  · exact ⟨fun _ => rfl,fun _ _ => Or.inl rfl,fun _ _ => Or.inr rfl⟩
  · exact ⟨⟨fun _ => rfl,fun _ _ => Or.inl rfl,fun _ _ => Or.inl rfl⟩,
      ⟨fun _ => rfl,fun _ _ => Or.inl rfl,fun _ _ => Or.inl rfl⟩,rfl,rfl,rfl,
      fun h => absurd h (by decide)⟩
  · exact ⟨⟨fun _ => rfl,fun _ _ => Or.inl rfl,fun _ _ => Or.inl rfl⟩,
      ⟨fun _ => rfl,fun _ _ => Or.inl rfl,fun _ _ => Or.inl rfl⟩,rfl,rfl,rfl,
      fun h => absurd h (by decide)⟩

/-- A threshold that is written while the timer runs is used without an update. -/
theorem not_obeys_write : ¬∀ cs : List (Input 1), Meets Monitored.step Obeys idle cs := by
  intro h
  have hrun := h [cycle 2#16 true false,cycle 2#16 false false,cycle 2#16 false false,
    cycle 1#16 false false]
  have hright := hrun.2.2.2.1.right rfl
  exact absurd hright.stages (by decide)

end Runs

end Pulpissimo.Timer.AdvUpdates
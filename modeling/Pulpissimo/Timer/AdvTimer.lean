import Mathlib.Data.BitVec
import Mathlib.Data.Fintype.Pi

/-!
# One timer of the advanced timer

`timer_module` of the advanced timer: its controller, the stage that chooses
the events, the prescaler, the counter and four comparators. The blocks keep
the configuration they work with in registers of their own, which they load
from the configuration inputs.
-/

namespace Pulpissimo.Timer.AdvTimer

section Configuration

/-- Range and mode of the counter. -/
structure Range where
  /-- Counts up and jumps back, and does not count down. -/
  sawtooth : Bool
  /-- Lowest count. -/
  cnt_start : BitVec 16
  /-- Highest count. -/
  cnt_end : BitVec 16
  deriving DecidableEq

/-- Threshold of a comparator and what it does there. -/
structure Channel where
  /-- The count to compare with. -/
  comp : BitVec 16
  /-- The operation. -/
  comp_op : BitVec 3
  deriving DecidableEq

/-- What the blocks around the counter load. -/
structure Stages where
  /-- The signal that is watched. -/
  sel : BitVec 8
  /-- What about it is an event. -/
  mode : BitVec 3
  /-- Events for a count, less one. -/
  presc : BitVec 8
  /-- The comparators. -/
  ch : Fin 4 → Channel
  deriving DecidableEq

/-- Configuration registers. -/
structure Config where
  /-- Of the counter. -/
  range : Range
  /-- Of the other blocks. -/
  stages : Stages
  /-- Events count only at the edges of the slow clock. -/
  sel_clk : Bool
  deriving DecidableEq

/-- One cycle of inputs, with `n` signals to choose from. -/
structure Input (n : ℕ) where
  /-- Start command. -/
  cfg_start_i : Bool
  /-- Stop command. -/
  cfg_stop_i : Bool
  /-- Reset command. -/
  cfg_rst_i : Bool
  /-- Update command. -/
  cfg_update_i : Bool
  /-- Arm command. -/
  cfg_arm_i : Bool
  /-- The configuration registers. -/
  cfg : Config
  /-- The range of the counter is one. -/
  range : cfg.range.cnt_start < cfg.range.cnt_end
  /-- The slow clock. -/
  ls_clk_i : Bool
  /-- The signals. -/
  signal_i : BitVec n

end Configuration

section Controller

/-- Registers of the controller. -/
structure Cntrl where
  /-- The timer runs. -/
  r_active : Bool
  /-- An update waits. -/
  r_pending : Bool

variable {n : ℕ} (s : Cntrl) (i : Input n) (cnt_update_i : Bool)

/-- Clears the prescaler and the comparators. -/
def ctrl_rst_o : Bool := if i.cfg_start_i && !s.r_active then true else i.cfg_rst_i

/-- Asks the counter to load. -/
def ctrl_cnt_upd_o : Bool := if i.cfg_start_i && !s.r_active then true else i.cfg_update_i

/-- Has the other blocks load. -/
def ctrl_all_upd_o : Bool := if i.cfg_start_i && !s.r_active then true else cnt_update_i

/-- Status for the bus. -/
def status_o : BitVec 8 := BitVec.setWidth 8 (BitVec.ofBool s.r_pending)

/-- One clock edge. -/
def Cntrl.step : Cntrl where
  r_active := if i.cfg_start_i then true else if i.cfg_stop_i then false else s.r_active
  r_pending :=
    if cnt_update_i && !i.cfg_update_i then false
    else if i.cfg_update_i then true
    else s.r_pending

end Controller

section Stage

/-- Registers of the stage that chooses the events. -/
structure InputStage where
  /-- The event was seen since the stage was armed. -/
  r_event : Bool
  /-- Last value of the signal. -/
  r_oldval : Bool
  /-- The signal that is watched. -/
  r_sel : BitVec 8
  /-- What about it is an event. -/
  r_mode : BitVec 3
  /-- An armed event is waited for. -/
  r_armed : Bool
  /-- The slow clock, synchronized. -/
  r_ls_clk_sync : BitVec 3

variable {n : ℕ} (s : InputStage) (i : Input n) (ctrl_active_i ctrl_update_i cnt_end_i : Bool)

/-- The signal. -/
def s_int_sig : Bool := i.signal_i.getLsbD s.r_sel.toNat

/-- It rises. -/
def s_rise : Bool := !s.r_oldval && s_int_sig s i

/-- It falls. -/
def s_fall : Bool := s.r_oldval && !s_int_sig s i

/-- The slow clock rises. -/
def s_rise_ls_clk : Bool := !s.r_ls_clk_sync.getLsbD 2 && s.r_ls_clk_sync.getLsbD 1

/-- An event of the mode. -/
def s_int_evnt : Bool :=
  if s.r_mode=0#3 then true
  else if s.r_mode=1#3 then !s_int_sig s i
  else if s.r_mode=2#3 then s_int_sig s i
  else if s.r_mode=3#3 then s_rise s i
  else if s.r_mode=4#3 then s_fall s i
  else if s.r_mode=5#3 then s_rise s i || s_fall s i
  else if s.r_mode=6#3 then s.r_armed && if s_rise s i then true else s.r_event
  else s.r_armed && if s_fall s i then true else s.r_event

/-- An event for the prescaler. -/
def InputStage.event_o : Bool :=
  if i.cfg.sel_clk then s_int_evnt s i && s_rise_ls_clk s else s_int_evnt s i

/-- One clock edge. -/
def InputStage.step : InputStage where
  r_event := if s.r_armed then s_int_evnt s i else if cnt_end_i then false else s.r_event
  r_oldval :=
    if ctrl_active_i then
      if !i.cfg.sel_clk || i.cfg.sel_clk && s_rise_ls_clk s then s_int_sig s i else s.r_oldval
    else s.r_oldval
  r_sel := if ctrl_update_i then i.cfg.stages.sel else s.r_sel
  r_mode := if ctrl_update_i then i.cfg.stages.mode else s.r_mode
  r_armed := if i.cfg_arm_i then true else if cnt_end_i then false else s.r_armed
  r_ls_clk_sync := (s.r_ls_clk_sync.extractLsb' 0 2)++BitVec.ofBool i.ls_clk_i

end Stage

section Prescaler

/-- Registers of the prescaler. -/
structure Prescaler where
  /-- Events for a count, less one. -/
  r_presc : BitVec 8
  /-- Events since the last count. -/
  r_counter : BitVec 8
  /-- A count. -/
  event_o : Bool

/-- One clock edge. -/
def Prescaler.step (s : Prescaler) (cfg_presc_i : BitVec 8)
    (ctrl_active_i ctrl_update_i ctrl_rst_i event_i : Bool) : Prescaler where
  r_presc := if ctrl_update_i then cfg_presc_i else s.r_presc
  r_counter :=
    if ctrl_rst_i then 0#8
    else if ctrl_active_i then
      if event_i then
        if s.r_presc=0#8 then s.r_counter
        else if s.r_counter=s.r_presc then 0#8
        else s.r_counter+1#8
      else s.r_counter
    else 0#8
  event_o :=
    if ctrl_rst_i then false
    else if ctrl_active_i then event_i && (s.r_presc==0#8 || s.r_counter==s.r_presc)
    else false

end Prescaler

section Counter

/-- Registers of the counter. -/
structure UpDownCounter where
  /-- The count. -/
  r_counter : BitVec 16
  /-- Lowest count. -/
  r_start : BitVec 16
  /-- Highest count. -/
  r_end : BitVec 16
  /-- It counts down. -/
  r_direction : Bool
  /-- It does not count down but jumps back. -/
  r_sawtooth : Bool
  /-- A count was made in the last cycle. -/
  r_event : Bool
  /-- An update waits. -/
  r_pending_update : Bool

variable (s : UpDownCounter)
  (ctrl_update_i ctrl_rst_i ctrl_active_i counter_event_i : Bool) (cfg : Range)

/-- The count for an update. The subtraction is as wide as its literal. -/
def s_is_update : Bool :=
  if s.r_sawtooth then s.r_counter==s.r_end
  else s.r_direction && s.r_counter.setWidth 32==s.r_start.setWidth 32-1#32

/-- A count was made. -/
def counter_evt_o : Bool := ctrl_active_i && s.r_event

/-- It was the last one. -/
def counter_end_o : Bool := ctrl_active_i && s.r_event && s_is_update s

/-- The counter loads. -/
def s_do_update : Bool :=
  if ctrl_update_i || s.r_pending_update then
    if ctrl_update_i && !ctrl_active_i then true else s_is_update s && counter_event_i
  else ctrl_rst_i

/-- An update waits. -/
def s_pending_update : Bool :=
  if ctrl_update_i || s.r_pending_update then
    if ctrl_update_i && !ctrl_active_i then false else !s_is_update s
  else if ctrl_rst_i then false
  else s.r_pending_update

/-- Next count and direction. -/
def s_counter : BitVec 16 × Bool :=
  if s_do_update s ctrl_update_i ctrl_rst_i ctrl_active_i counter_event_i then
    (cfg.cnt_start,false)
  else if counter_event_i && ctrl_active_i then
    if !s.r_direction && s.r_counter==s.r_end then
      if s.r_sawtooth then (s.r_start,false) else (s.r_counter-1#16,true)
    else if s.r_direction && s.r_counter==s.r_start then (s.r_counter+1#16,false)
    else if s.r_direction then (s.r_counter-1#16,s.r_direction)
    else (s.r_counter+1#16,s.r_direction)
  else (s.r_counter,s.r_direction)

/-- One clock edge. -/
def UpDownCounter.step : UpDownCounter :=
  let update := s_do_update s ctrl_update_i ctrl_rst_i ctrl_active_i counter_event_i
  let next := s_counter s ctrl_update_i ctrl_rst_i ctrl_active_i counter_event_i cfg
  { r_counter := next.1
    r_start := if update then cfg.cnt_start else s.r_start
    r_end := if update then cfg.cnt_end else s.r_end
    r_direction := next.2
    r_sawtooth := if update then cfg.sawtooth else s.r_sawtooth
    r_event := if ctrl_active_i then counter_event_i else s.r_event
    r_pending_update := s_pending_update s ctrl_update_i ctrl_rst_i ctrl_active_i }

/-- Range and mode that the counter works with. -/
def UpDownCounter.range : Range := ⟨s.r_sawtooth,s.r_start,s.r_end⟩

end Counter

section Comparator

/-- Set at the match. -/
def OP_SET : BitVec 3 := 0#3
/-- Toggle at the match, reset at the end. -/
def OP_TOGRST : BitVec 3 := 1#3
/-- Set at the match, reset at the end. -/
def OP_SETRST : BitVec 3 := 2#3
/-- Toggle at the match. -/
def OP_TOG : BitVec 3 := 3#3
/-- Reset at the match. -/
def OP_RST : BitVec 3 := 4#3
/-- Toggle at the match, set at the end. -/
def OP_TOGSET : BitVec 3 := 5#3
/-- Reset at the match, set at the end. -/
def OP_RSTSET : BitVec 3 := 6#3

/-- Registers of a comparator. -/
structure Comparator where
  /-- The count to compare with. -/
  r_comp : BitVec 16
  /-- The operation. -/
  r_comp_op : BitVec 3
  /-- The output. -/
  r_value : Bool
  /-- The next match is the second one. -/
  r_is_2nd_event : Bool

/-- What a comparator sees of the counter. -/
structure Count where
  /-- The last count of a period was made. -/
  timer_end_i : Bool
  /-- A count was made. -/
  timer_valid_i : Bool
  /-- The counter does not count down. -/
  timer_sawtooth_i : Bool
  /-- The count. -/
  timer_count_i : BitVec 16

variable (s : Comparator) (cfg : Channel) (ctrl_active_i ctrl_update_i ctrl_rst_i : Bool) (t : Count)

/-- The threshold is reached. -/
def s_match : Bool := t.timer_valid_i && s.r_comp==t.timer_count_i

/-- Output and order of the matches for an operation with two events. -/
def paired (first second : Bool) : Bool × Bool :=
  if t.timer_sawtooth_i then
    (if s_match s t then first else if t.timer_end_i then second else s.r_value,s.r_is_2nd_event)
  else if s_match s t && !s.r_is_2nd_event then (first,true)
  else if s_match s t && s.r_is_2nd_event then (second,false)
  else (s.r_value,s.r_is_2nd_event)

/-- Next output and order of the matches. -/
def next_value : Bool × Bool :=
  if ctrl_rst_i then (false,false)
  else if t.timer_valid_i && ctrl_active_i then
    if s.r_comp_op=OP_SET then (if s_match s t then true else s.r_value,s.r_is_2nd_event)
    else if s.r_comp_op=OP_TOGRST then paired s t (!s.r_value) false
    else if s.r_comp_op=OP_SETRST then paired s t true false
    else if s.r_comp_op=OP_TOG then (if s_match s t then !s.r_value else s.r_value,s.r_is_2nd_event)
    else if s.r_comp_op=OP_RST then (if s_match s t then false else s.r_value,s.r_is_2nd_event)
    else if s.r_comp_op=OP_TOGSET then paired s t (!s.r_value) true
    else if s.r_comp_op=OP_RSTSET then paired s t false true
    else (s.r_value,false)
  else (s.r_value,s.r_is_2nd_event)

/-- One clock edge. -/
def Comparator.step : Comparator where
  r_comp := if ctrl_update_i then cfg.comp else s.r_comp
  r_comp_op := if ctrl_update_i then cfg.comp_op else s.r_comp_op
  r_value := (next_value s ctrl_active_i ctrl_rst_i t).1
  r_is_2nd_event := (next_value s ctrl_active_i ctrl_rst_i t).2

end Comparator

/-- A timer. -/
structure TimerModule where
  /-- The controller. -/
  u_controller : Cntrl
  /-- The stage that chooses the events. -/
  u_in_stage : InputStage
  /-- The prescaler. -/
  u_prescaler : Prescaler
  /-- The counter. -/
  u_counter : UpDownCounter
  /-- The comparators. -/
  u_comp : Fin 4 → Comparator

/-- Values after reset. -/
def reset : TimerModule where
  u_controller := ⟨false,false⟩
  u_in_stage := ⟨false,false,0#8,0#3,false,0#3⟩
  u_prescaler := ⟨0#8,0#8,false⟩
  u_counter := ⟨0#16,0#16,0#16,false,true,false,false⟩
  u_comp := fun _ => ⟨0#16,0#3,false,false⟩

section Code

variable {n : ℕ} (t : TimerModule) (i : Input n)

/-- The timer runs. -/
def TimerModule.active : Bool := t.u_controller.r_active

/-- A count was made. The controller takes it for the end of an update. -/
def s_cnt_evt : Bool := counter_evt_o t.u_counter t.active

/-- The last count was made. -/
def s_cnt_end : Bool := counter_end_o t.u_counter t.active

/-- The counter is asked to load. -/
def s_ctrl_update_cnt : Bool := ctrl_cnt_upd_o t.u_controller i

/-- The other blocks load. -/
def s_ctrl_update_all : Bool := ctrl_all_upd_o t.u_controller i (s_cnt_evt t)

/-- The counter is set back. -/
def s_ctrl_rst : Bool := ctrl_rst_o t.u_controller i

/-- The count for the comparators. -/
def TimerModule.count : Count :=
  ⟨s_cnt_end t,s_cnt_evt t,t.u_counter.r_sawtooth,t.u_counter.r_counter⟩

/-- The counter output. -/
def counter_o : BitVec 16 := t.u_counter.r_counter

/-- The comparators' outputs. -/
def pwm_o (k : Fin 4) : Bool := (t.u_comp k).r_value

/-- One clock edge. -/
def TimerModule.step : TimerModule where
  u_controller := t.u_controller.step i (s_cnt_evt t)
  u_in_stage := t.u_in_stage.step i t.active (s_ctrl_update_all t i) (s_cnt_end t)
  u_prescaler := t.u_prescaler.step i.cfg.stages.presc t.active (s_ctrl_update_all t i)
    (s_ctrl_rst t i) (t.u_in_stage.event_o i)
  u_counter := t.u_counter.step (s_ctrl_update_cnt t i) (s_ctrl_rst t i) t.active
    t.u_prescaler.event_o i.cfg.range
  u_comp k := (t.u_comp k).step (i.cfg.stages.ch k) t.active (s_ctrl_update_all t i)
    (s_ctrl_rst t i) t.count

/-- What the blocks around the counter work with. -/
def TimerModule.stages : Stages where
  sel := t.u_in_stage.r_sel
  mode := t.u_in_stage.r_mode
  presc := t.u_prescaler.r_presc
  ch k := ⟨(t.u_comp k).r_comp,(t.u_comp k).r_comp_op⟩

end Code

end Pulpissimo.Timer.AdvTimer

import Mathlib.Data.BitVec
import Pulpissimo.Lib.Bits
import Pulpissimo.Lib.Machine

/-!
# The timer unit

`timer_unit` with its two counters and two prescalers. With `MODE_64` set in
the low configuration register the counters are the words of one 64-bit count,
and enable, clear, one-shot and interrupt are four separate expressions for the
events of this count. The answers on the peripheral bus are left out.
-/

namespace Pulpissimo.Timer.TimerUnit

open Pulpissimo.Machine Pulpissimo.Bits

/-- Bits of a configuration register. -/
def ENABLE_BIT : ℕ := 0
/-- Resets the counter once. -/
def RESET_BIT : ℕ := 1
/-- Lets the match raise the interrupt. -/
def IRQ_BIT : ℕ := 2
/-- Clears the counter at the match. -/
def CMP_CLR_BIT : ℕ := 4
/-- Stops the counter at the match. -/
def ONE_SHOT_BIT : ℕ := 5
/-- Counts when the prescaler has reached its target. -/
def PRESCALER_EN_BIT : ℕ := 6
/-- Counts on edges of the reference clock. -/
def REF_CLK_EN_BIT : ℕ := 7
/-- First bit of the prescaler's target. -/
def PRESCALER_START_BIT : ℕ := 8
/-- Joins the counters. -/
def MODE_64_BIT : ℕ := 31

/-- Addresses of the registers. -/
def CFG_REG_LO : BitVec 6 := 0x00#6
/-- Upper configuration. -/
def CFG_REG_HI : BitVec 6 := 0x04#6
/-- Lower counter. -/
def TIMER_VAL_LO : BitVec 6 := 0x08#6
/-- Upper counter. -/
def TIMER_VAL_HI : BitVec 6 := 0x0C#6
/-- Lower compare value. -/
def TIMER_CMP_LO : BitVec 6 := 0x10#6
/-- Upper compare value. -/
def TIMER_CMP_HI : BitVec 6 := 0x14#6
/-- Start command of the lower counter. -/
def TIMER_START_LO : BitVec 6 := 0x18#6
/-- Start command of the upper counter. -/
def TIMER_START_HI : BitVec 6 := 0x1C#6
/-- Reset command of the lower counter. -/
def TIMER_RESET_LO : BitVec 6 := 0x20#6
/-- Reset command of the upper counter. -/
def TIMER_RESET_HI : BitVec 6 := 0x24#6

/-- Registers of `timer_unit_counter` and of `timer_unit_counter_presc`. -/
structure Counter where
  /-- The count. -/
  s_count_reg : BitVec 32
  /-- The last count equalled the compare value. -/
  target_reached_o : Bool

/-- Values after reset. -/
def Counter.reset : Counter := ⟨0#32,false⟩

section Counter

variable (s : Counter) (write_counter_i : Bool) (counter_value_i : BitVec 32)
  (reset_count_i enable_count_i : Bool) (compare_value_i : BitVec 32)

/-- Next count of `timer_unit_counter`. -/
def Counter.s_count : BitVec 32 :=
  if reset_count_i then 0#32
  else if write_counter_i then counter_value_i
  else if enable_count_i then s.s_count_reg+1#32
  else s.s_count_reg

/-- One clock edge of `timer_unit_counter`. -/
def Counter.step : Counter :=
  let s_count := s.s_count write_counter_i counter_value_i reset_count_i enable_count_i
  ⟨s_count,s_count==compare_value_i⟩

/-- Next count of `timer_unit_counter_presc`, whose write port is tied off. -/
def Counter.s_count_presc : BitVec 32 :=
  if reset_count_i || s.target_reached_o || !enable_count_i then 0#32 else s.s_count_reg+1#32

/-- One clock edge of `timer_unit_counter_presc`. -/
def Counter.step_presc : Counter :=
  let s_count := s.s_count_presc reset_count_i enable_count_i
  ⟨s_count,s_count==compare_value_i⟩

end Counter

/-- Registers. -/
structure State where
  /-- Configuration of the lower counter. -/
  s_cfg_lo_reg : BitVec 32
  /-- Configuration of the upper counter. -/
  s_cfg_hi_reg : BitVec 32
  /-- Compare value of the lower counter. -/
  s_timer_cmp_lo_reg : BitVec 32
  /-- Compare value of the upper counter. -/
  s_timer_cmp_hi_reg : BitVec 32
  /-- First stage of the reference clock's synchroniser. -/
  s_ref_clk0 : Bool
  /-- Second stage. -/
  s_ref_clk1 : Bool
  /-- Third stage. -/
  s_ref_clk2 : Bool
  /-- Prescaler of the lower counter. -/
  prescaler_lo_i : Counter
  /-- Prescaler of the upper counter. -/
  prescaler_hi_i : Counter
  /-- The lower counter. -/
  counter_lo_i : Counter
  /-- The upper counter. -/
  counter_hi_i : Counter

/-- Values after reset. -/
def reset : State :=
  ⟨0#32,0#32,0#32,0#32,false,false,false,.reset,.reset,.reset,.reset⟩

/-- One cycle of inputs. -/
structure Input where
  /-- Reference clock. -/
  ref_clk_i : Bool
  /-- An access. -/
  req_i : Bool
  /-- Its address. -/
  addr_i : BitVec 32
  /-- It is a read. -/
  wen_i : Bool
  /-- Data of a write. -/
  wdata_i : BitVec 32
  /-- Starts the lower counter. -/
  event_lo_i : Bool
  /-- Starts the upper counter. -/
  event_hi_i : Bool

section Code

variable (s : State) (i : Input)

/-- The access writes the register at an address. -/
def Input.writes (addr : BitVec 6) : Bool :=
  i.req_i && !i.wen_i && i.addr_i.extractLsb' 0 6==addr

/-- An edge of the reference clock. -/
def s_ref_clk_edge : Bool := s.s_ref_clk1 && !s.s_ref_clk2

/-- The register value before the timer's own changes. -/
def write (addr : BitVec 6) (reg : BitVec 32) : BitVec 32 :=
  if i.writes addr then i.wdata_i else reg

/-- The lower counter is reset. -/
def s_reset_count_lo : Bool :=
  if s.s_cfg_lo_reg.getLsbD RESET_BIT || i.writes TIMER_RESET_LO then true
  else if !s.s_cfg_lo_reg.getLsbD MODE_64_BIT then
    s.s_cfg_lo_reg.getLsbD CMP_CLR_BIT && s.counter_lo_i.target_reached_o
  else
    s.s_cfg_lo_reg.getLsbD CMP_CLR_BIT && s.counter_lo_i.s_count_reg==0xFFFFFFFF#32 &&
      s.counter_hi_i.target_reached_o

/-- The upper counter is reset. -/
def s_reset_count_hi : Bool :=
  if s.s_cfg_hi_reg.getLsbD RESET_BIT || i.writes TIMER_RESET_HI then true
  else if !s.s_cfg_lo_reg.getLsbD MODE_64_BIT then
    s.s_cfg_hi_reg.getLsbD CMP_CLR_BIT && s.counter_hi_i.target_reached_o
  else
    s.s_cfg_lo_reg.getLsbD CMP_CLR_BIT && s.counter_lo_i.s_count_reg==0xFFFFFFFF#32 &&
      s.counter_hi_i.target_reached_o

/-- A prescaler is reset: with its counter by bit or command, or at its target. -/
def s_reset_count_prescaler (cfg : BitVec 32) (command target_reached : Bool) : Bool :=
  cfg.getLsbD RESET_BIT || command || cfg.getLsbD PRESCALER_EN_BIT && target_reached

/-- A counter with a configuration counts. -/
def enable_count (cfg : BitVec 32) (ref_clk_edge target_reached_prescaler : Bool) : Bool :=
  if cfg.getLsbD ENABLE_BIT then
    if !cfg.getLsbD PRESCALER_EN_BIT && !cfg.getLsbD REF_CLK_EN_BIT then true
    else if !cfg.getLsbD PRESCALER_EN_BIT && cfg.getLsbD REF_CLK_EN_BIT then ref_clk_edge
    else target_reached_prescaler
  else false

/-- Its prescaler counts. -/
def enable_count_prescaler (cfg : BitVec 32) (ref_clk_edge : Bool) : Bool :=
  if cfg.getLsbD ENABLE_BIT then
    if !cfg.getLsbD PRESCALER_EN_BIT then false
    else if cfg.getLsbD REF_CLK_EN_BIT then ref_clk_edge
    else true
  else false

/-- The lower counter counts. The branch for 64 bits repeats the one for 32 bits. -/
def s_enable_count_lo : Bool :=
  enable_count s.s_cfg_lo_reg (s_ref_clk_edge s) s.prescaler_lo_i.target_reached_o

/-- The upper counter counts. -/
def s_enable_count_hi : Bool :=
  if s.s_cfg_lo_reg.getLsbD ENABLE_BIT && s.s_cfg_lo_reg.getLsbD MODE_64_BIT then
    s.s_timer_cmp_lo_reg==0xFFFFFFFF#32
  else enable_count s.s_cfg_hi_reg (s_ref_clk_edge s) s.prescaler_hi_i.target_reached_o

/-- Next configuration of the lower counter. -/
def s_cfg_lo : BitVec 32 :=
  let s_cfg_lo := write i CFG_REG_LO s.s_cfg_lo_reg
  let s_cfg_lo :=
    if i.event_lo_i || i.writes TIMER_START_LO then setBit s_cfg_lo ENABLE_BIT true
    else if !s.s_cfg_lo_reg.getLsbD MODE_64_BIT then
      if s_cfg_lo.getLsbD ONE_SHOT_BIT && s.counter_lo_i.target_reached_o then
        setBit s_cfg_lo ENABLE_BIT false
      else s_cfg_lo
    else if s_cfg_lo.getLsbD ONE_SHOT_BIT && s.counter_lo_i.s_count_reg==0xFFFFFFFF#32 &&
        s.counter_hi_i.target_reached_o then
      setBit s_cfg_lo ENABLE_BIT false
    else s_cfg_lo
  if s_reset_count_lo s i then setBit s_cfg_lo RESET_BIT false else s_cfg_lo

/-- Next configuration of the upper counter. -/
def s_cfg_hi : BitVec 32 :=
  let s_cfg_hi := write i CFG_REG_HI s.s_cfg_hi_reg
  let s_cfg_hi :=
    if i.event_hi_i || i.writes TIMER_START_HI then setBit s_cfg_hi ENABLE_BIT true
    else if !s.s_cfg_lo_reg.getLsbD MODE_64_BIT && s_cfg_hi.getLsbD ONE_SHOT_BIT &&
        s.counter_hi_i.target_reached_o then
      setBit s_cfg_hi ENABLE_BIT false
    else s_cfg_hi
  if s_reset_count_hi s i then setBit s_cfg_hi RESET_BIT false else s_cfg_hi

/-- Interrupt of the lower counter, or of both as one. -/
def irq_lo_o : Bool :=
  if !s.s_cfg_lo_reg.getLsbD MODE_64_BIT then
    s.counter_lo_i.target_reached_o && s.s_cfg_lo_reg.getLsbD IRQ_BIT
  else
    s.counter_lo_i.target_reached_o && s.counter_hi_i.target_reached_o &&
      s.s_cfg_lo_reg.getLsbD IRQ_BIT

/-- Target of a prescaler. -/
def prescaler_target (cfg : BitVec 32) : BitVec 32 :=
  (cfg.extractLsb' PRESCALER_START_BIT 8).setWidth 32

/-- One clock edge. -/
def step : State where
  s_cfg_lo_reg := s_cfg_lo s i
  s_cfg_hi_reg := s_cfg_hi s i
  s_timer_cmp_lo_reg := write i TIMER_CMP_LO s.s_timer_cmp_lo_reg
  s_timer_cmp_hi_reg := write i TIMER_CMP_HI s.s_timer_cmp_hi_reg
  s_ref_clk0 := i.ref_clk_i
  s_ref_clk1 := s.s_ref_clk0
  s_ref_clk2 := s.s_ref_clk1
  prescaler_lo_i := s.prescaler_lo_i.step_presc
    (s_reset_count_prescaler s.s_cfg_lo_reg (i.writes TIMER_RESET_LO)
      s.prescaler_lo_i.target_reached_o)
    (enable_count_prescaler s.s_cfg_lo_reg (s_ref_clk_edge s)) (prescaler_target s.s_cfg_lo_reg)
  prescaler_hi_i := s.prescaler_hi_i.step_presc
    (s_reset_count_prescaler s.s_cfg_hi_reg (i.writes TIMER_RESET_HI)
      s.prescaler_hi_i.target_reached_o)
    (enable_count_prescaler s.s_cfg_hi_reg (s_ref_clk_edge s)) (prescaler_target s.s_cfg_hi_reg)
  counter_lo_i := s.counter_lo_i.step (i.writes TIMER_VAL_LO) i.wdata_i (s_reset_count_lo s i)
    (s_enable_count_lo s) s.s_timer_cmp_lo_reg
  counter_hi_i := s.counter_hi_i.step (i.writes TIMER_VAL_HI) i.wdata_i (s_reset_count_hi s i)
    (s_enable_count_hi s) s.s_timer_cmp_hi_reg

end Code

/-- The two counters as one. -/
def State.count (s : State) : BitVec 64 := s.counter_hi_i.s_count_reg++s.counter_lo_i.s_count_reg

/-- The unit and the compare value that its last count was compared with. -/
structure System where
  /-- The unit. -/
  regs : State
  /-- The joined compare registers before the last clock edge. -/
  compared : Option (BitVec 64)

/-- After reset nothing has been compared. -/
def System.start : System := ⟨reset,none⟩

/-- One clock edge. -/
def System.step (s : System) (i : Input) : System :=
  ⟨TimerUnit.step s.regs i,some (s.regs.s_timer_cmp_hi_reg++s.regs.s_timer_cmp_lo_reg)⟩

section Property

variable (s : System) (i : Input)

/-- The count is the compare value. -/
def System.matched : Bool := s.compared==some s.regs.count

/-- A cycle with 64 bits and neither a write nor a reset of a counter. -/
structure Runs64 : Prop where
  /-- The counters are joined. -/
  mode : s.regs.s_cfg_lo_reg.getLsbD MODE_64_BIT=true
  /-- The lower counter is not written. -/
  kept_lo : i.writes TIMER_VAL_LO=false
  /-- Nor is the upper one. -/
  kept_hi : i.writes TIMER_VAL_HI=false
  /-- No reset of the lower counter by bit or command. -/
  running_lo : (s.regs.s_cfg_lo_reg.getLsbD RESET_BIT || i.writes TIMER_RESET_LO)=false
  /-- No reset of the upper counter. -/
  running_hi : (s.regs.s_cfg_hi_reg.getLsbD RESET_BIT || i.writes TIMER_RESET_HI)=false

/-- The start event or command of the lower counter. -/
def starts : Bool := i.event_lo_i || i.writes TIMER_START_LO

/-- The unit is one timer of 64 bits. -/
structure Counts64 : Prop where
  /-- The interrupt is raised exactly at the match. -/
  irq : irq_lo_o s.regs=(s.regs.s_cfg_lo_reg.getLsbD IRQ_BIT && s.matched)
  /-- The lower word is cleared exactly at the match. -/
  clears_lo : s_reset_count_lo s.regs i=(s.regs.s_cfg_lo_reg.getLsbD CMP_CLR_BIT && s.matched)
  /-- So is the upper word. -/
  clears_hi : s_reset_count_hi s.regs i=(s.regs.s_cfg_lo_reg.getLsbD CMP_CLR_BIT && s.matched)
  /-- Otherwise a tick adds one to the count. -/
  advances : (s.regs.s_cfg_lo_reg.getLsbD CMP_CLR_BIT && s.matched)=false →
    (s.step i).regs.count=
      if s_enable_count_lo s.regs then s.regs.count+1#64 else s.regs.count
  /-- The timer stops exactly at the match of a one-shot run, or by a write. -/
  stops : (s.step i).regs.s_cfg_lo_reg.getLsbD ENABLE_BIT=
    (starts i || (write i CFG_REG_LO s.regs.s_cfg_lo_reg).getLsbD ENABLE_BIT &&
      !((write i CFG_REG_LO s.regs.s_cfg_lo_reg).getLsbD ONE_SHOT_BIT && s.matched))

/-- The compared upper word is the upper word of the count. -/
def System.matched_hi : Bool :=
  s.compared.any fun value => value.extractLsb' 32 32==s.regs.counter_hi_i.s_count_reg

/-- Where the upper word matches, the lower word of the compare value is met exactly at
`0xFFFFFFFF`. -/
def System.MatchesLast : Prop :=
  s.matched_hi=true → (s.matched=true ↔ s.regs.counter_lo_i.s_count_reg=0xFFFFFFFF#32)

/-- The condition on a cycle. -/
structure Fits : Prop where
  /-- A clear at the match finds the lower word at its last value. -/
  clears : s.regs.s_cfg_lo_reg.getLsbD CMP_CLR_BIT=true → s.MatchesLast
  /-- Without one, the enable of the upper word, which is whether the lower compare value is
  `0xFFFFFFFF` while the timer is enabled, is the wrap of the lower word. -/
  carries : (s.regs.s_cfg_lo_reg.getLsbD CMP_CLR_BIT && s.matched)=false →
    ((if s.regs.s_cfg_lo_reg.getLsbD ENABLE_BIT then s.regs.s_timer_cmp_lo_reg==0xFFFFFFFF#32
      else enable_count s.regs.s_cfg_hi_reg (s_ref_clk_edge s.regs)
        s.regs.prescaler_hi_i.target_reached_o)=
    (enable_count s.regs.s_cfg_lo_reg (s_ref_clk_edge s.regs)
      s.regs.prescaler_lo_i.target_reached_o && s.regs.counter_lo_i.s_count_reg==0xFFFFFFFF#32))
  /-- A stop at the match finds the lower word at its last value. -/
  stops : starts i=false →
    (write i CFG_REG_LO s.regs.s_cfg_lo_reg).getLsbD ENABLE_BIT=true →
    (write i CFG_REG_LO s.regs.s_cfg_lo_reg).getLsbD ONE_SHOT_BIT=true → s.MatchesLast

end Property

section Flags

variable {s : System}

/-- The compared lower word is the lower word of the count. -/
def System.matched_lo (s : System) : Bool :=
  s.compared.any fun value => value.extractLsb' 0 32==s.regs.counter_lo_i.s_count_reg

/-- The match flags are those of the two words. -/
def Flags (s : System) : Prop :=
  s.regs.counter_lo_i.target_reached_o=s.matched_lo ∧
    s.regs.counter_hi_i.target_reached_o=s.matched_hi

theorem flags_start : Flags .start := ⟨rfl,rfl⟩

/-- Every clock edge compares the new count with the old compare values. -/
theorem flags_step (s : System) (i : Input) : Flags (s.step i) := by
  have hlow : ∀ x y : BitVec 32, (x++y).extractLsb' 0 32=y := fun _ _ =>
    BitVec.extractLsb'_append_eq_right
  have hhigh : ∀ x y : BitVec 32, (x++y).extractLsb' 32 32=x := fun _ _ =>
    BitVec.extractLsb'_append_eq_left
  constructor
  · unfold System.matched_lo System.step
    rw [Option.any_some,hlow,Bool.beq_comm]
    rfl
  · unfold System.matched_hi System.step
    rw [Option.any_some,hhigh,Bool.beq_comm]
    rfl

/-- The count matches if both words do. -/
theorem matched_eq (s : System) : s.matched=(s.matched_lo && s.matched_hi) := by
  unfold System.matched System.matched_lo System.matched_hi
  cases s.compared with
  | none => rfl
  | some value =>
    rw [Option.any_some,Option.any_some,Bool.eq_iff_iff,Bool.and_eq_true,beq_iff_eq,beq_iff_eq,
      beq_iff_eq,Option.some_inj]
    have hsplit : value=value.extractLsb' 32 32++value.extractLsb' 0 32 :=
      (@BitVec.extractLsb'_append_extractLsb' 32 32 value).symm
    conv_lhs => rw [hsplit]
    exact append_inj.trans And.comm

end Flags

section Cycle

variable {s : System} {i : Input} (hf : Flags s) (hr : Runs64 s i)

/-- The clear and the stop look at the last value of the lower word where they should look at
its match. -/
theorem matchesLast_iff (s : System) : s.MatchesLast ↔
    (s.regs.counter_lo_i.s_count_reg==0xFFFFFFFF#32 && s.matched_hi)=s.matched := by
  unfold System.MatchesLast
  rw [matched_eq,←beq_iff_eq (a := s.regs.counter_lo_i.s_count_reg)]
  cases s.matched_hi <;> cases s.matched_lo <;>
    cases s.regs.counter_lo_i.s_count_reg==0xFFFFFFFF#32 <;> decide

include hf hr in
/-- The interrupt follows the match. -/
theorem irq_lo_o_eq : irq_lo_o s.regs=(s.regs.s_cfg_lo_reg.getLsbD IRQ_BIT && s.matched) := by
  unfold irq_lo_o
  rw [hr.mode,hf.1,hf.2,matched_eq,Bool.and_comm (s.regs.s_cfg_lo_reg.getLsbD IRQ_BIT)]
  rfl

include hf hr in
/-- Both words are reset by one expression. -/
theorem s_reset_count_eq :
    s_reset_count_lo s.regs i=(s.regs.s_cfg_lo_reg.getLsbD CMP_CLR_BIT &&
      (s.regs.counter_lo_i.s_count_reg==0xFFFFFFFF#32 && s.matched_hi)) ∧
    s_reset_count_hi s.regs i=(s.regs.s_cfg_lo_reg.getLsbD CMP_CLR_BIT &&
      (s.regs.counter_lo_i.s_count_reg==0xFFFFFFFF#32 && s.matched_hi)) := by
  unfold s_reset_count_lo s_reset_count_hi
  rw [hr.running_lo,hr.running_hi,hr.mode,hf.2,Bool.and_assoc]
  exact ⟨rfl,rfl⟩

include hf hr in
/-- The clear is right exactly if it looks at the match. -/
theorem clears_iff :
    s_reset_count_lo s.regs i=(s.regs.s_cfg_lo_reg.getLsbD CMP_CLR_BIT && s.matched) ↔
      (s.regs.s_cfg_lo_reg.getLsbD CMP_CLR_BIT=true → s.MatchesLast) := by
  rw [(s_reset_count_eq hf hr).1,matchesLast_iff]
  cases s.regs.s_cfg_lo_reg.getLsbD CMP_CLR_BIT
  · exact ⟨fun _ h => absurd h (by decide),fun _ => rfl⟩
  · exact ⟨fun h _ => h,fun h => h rfl⟩

include hr in
/-- Without a reset each word counts on its own enable. -/
theorem count_step (hlo : s_reset_count_lo s.regs i=false)
    (hhi : s_reset_count_hi s.regs i=false) : (s.step i).regs.count=
      (if s_enable_count_hi s.regs then s.regs.counter_hi_i.s_count_reg+1#32
        else s.regs.counter_hi_i.s_count_reg)++
      (if s_enable_count_lo s.regs then s.regs.counter_lo_i.s_count_reg+1#32
        else s.regs.counter_lo_i.s_count_reg) := by
  unfold System.step TimerUnit.step State.count Counter.step Counter.s_count
  dsimp only
  rw [hlo,hhi,hr.kept_lo,hr.kept_hi]
  rfl

/-- A word that is or is not one further tells which. -/
theorem ite_add_one_inj (x : BitVec 32) (a b : Bool) :
    ((if a then x+1#32 else x)=if b then x+1#32 else x) ↔ a=b := by
  have hne : x+1#32≠x := by
    intro h
    simp at h
  cases a <;> cases b <;> simp [hne,Ne.symm hne]

/-- Two words count as one exactly if the upper one counts when the lower one wraps. -/
theorem carry_iff (x y : BitVec 32) (tick carry : Bool) :
    ((if carry then x+1#32 else x)++(if tick then y+1#32 else y)=
      if tick then x++y+1#64 else x++y) ↔ carry=(tick && y==0xFFFFFFFF#32) := by
  cases tick with
  | false =>
    have hstay := ite_add_one_inj x carry false
    rw [if_neg Bool.false_ne_true] at hstay
    rw [if_neg Bool.false_ne_true,if_neg Bool.false_ne_true,append_inj,hstay]
    exact and_iff_left rfl
  | true =>
    rw [if_pos rfl,if_pos rfl,append_add_one,append_inj,and_iff_left rfl,Bool.true_and]
    have hmove := ite_add_one_inj x carry (y==0xFFFFFFFF#32)
    simp only [beq_iff_eq] at hmove
    exact hmove

include hr in
/-- In 64-bit mode the upper word is enabled by the compare value, or by its own
configuration while the lower one stands. -/
theorem s_enable_count_hi_eq : s_enable_count_hi s.regs=
    if s.regs.s_cfg_lo_reg.getLsbD ENABLE_BIT then s.regs.s_timer_cmp_lo_reg==0xFFFFFFFF#32
    else enable_count s.regs.s_cfg_hi_reg (s_ref_clk_edge s.regs)
      s.regs.prescaler_hi_i.target_reached_o := by
  unfold s_enable_count_hi
  rw [hr.mode,Bool.and_true]

include hf hr in
/-- The next enable bit. -/
theorem enable_step : (s.step i).regs.s_cfg_lo_reg.getLsbD ENABLE_BIT=
    (starts i || (write i CFG_REG_LO s.regs.s_cfg_lo_reg).getLsbD ENABLE_BIT &&
      !((write i CFG_REG_LO s.regs.s_cfg_lo_reg).getLsbD ONE_SHOT_BIT &&
        (s.regs.counter_lo_i.s_count_reg==0xFFFFFFFF#32 && s.matched_hi))) := by
  change (s_cfg_lo s.regs i).getLsbD ENABLE_BIT=_
  have hreset : ∀ b : Bool, ∀ v : BitVec 32,
      (if b then setBit v RESET_BIT false else v).getLsbD ENABLE_BIT=v.getLsbD ENABLE_BIT := by
    intro b v
    cases b
    · rfl
    · exact getLsbD_setBit v RESET_BIT false (by decide)
  unfold s_cfg_lo
  dsimp only
  rw [hreset,hr.mode,hf.2,Bool.and_assoc]
  unfold starts
  cases i.event_lo_i || i.writes TIMER_START_LO with
  | true => exact getLsbD_setBit _ ENABLE_BIT true (by decide)
  | false =>
    cases (write i CFG_REG_LO s.regs.s_cfg_lo_reg).getLsbD ONE_SHOT_BIT &&
        (s.regs.counter_lo_i.s_count_reg==0xFFFFFFFF#32 && s.matched_hi) with
    | true =>
      rw [Bool.not_true,Bool.and_false]
      exact getLsbD_setBit _ ENABLE_BIT false (by decide)
    | false =>
      rw [Bool.not_false,Bool.and_true]
      rfl

/-- The stop is right exactly if it looks at the match. -/
theorem stops_iff (start enable one_shot last matched : Bool) :
    (start || enable && !(one_shot && last))=(start || enable && !(one_shot && matched)) ↔
      (start=false → enable=true → one_shot=true → last=matched) := by
  cases start <;> cases enable <;> cases one_shot <;> cases last <;> cases matched <;> decide

include hf hr in
/-- In a cycle the unit is one timer exactly under the condition. -/
theorem counts64_iff : Counts64 s i ↔ Fits s i := by
  have hclears := clears_iff hf hr
  have hboth : s_reset_count_hi s.regs i=s_reset_count_lo s.regs i :=
    (s_reset_count_eq hf hr).2.trans (s_reset_count_eq hf hr).1.symm
  have hadvances : s_reset_count_lo s.regs i=false →
      ((s.step i).regs.count=
        (if s_enable_count_lo s.regs then s.regs.count+1#64 else s.regs.count) ↔
      s_enable_count_hi s.regs=
        (s_enable_count_lo s.regs && s.regs.counter_lo_i.s_count_reg==0xFFFFFFFF#32)) := by
    intro hlo
    rw [count_step hr hlo (hboth.trans hlo)]
    exact carry_iff _ _ _ _
  have hstops := stops_iff (starts i) ((write i CFG_REG_LO s.regs.s_cfg_lo_reg).getLsbD ENABLE_BIT)
    ((write i CFG_REG_LO s.regs.s_cfg_lo_reg).getLsbD ONE_SHOT_BIT)
    (s.regs.counter_lo_i.s_count_reg==0xFFFFFFFF#32 && s.matched_hi) s.matched
  rw [←enable_step hf hr,←matchesLast_iff] at hstops
  rw [s_enable_count_hi_eq hr] at hadvances
  constructor
  · intro h
    refine ⟨hclears.mp h.clears_lo,fun hnone => ?_,hstops.mp h.stops⟩
    exact (hadvances (h.clears_lo.trans hnone)).mp (h.advances hnone)
  · intro h
    have hlo := hclears.mpr h.clears
    refine ⟨irq_lo_o_eq hf hr,hlo,hboth.trans hlo,fun hnone => ?_,hstops.mpr h.stops⟩
    exact (hadvances (hlo.trans hnone)).mpr (h.carries hnone)

end Cycle

/-- A cycle that writes a register. -/
def writing (addr : BitVec 6) (value : BitVec 32) : Input :=
  ⟨false,true,addr.setWidth 32,false,value,false,false⟩

/-- A cycle without access. -/
def idle : Input := ⟨false,false,0#32,false,0#32,false,false⟩

end Pulpissimo.Timer.TimerUnit

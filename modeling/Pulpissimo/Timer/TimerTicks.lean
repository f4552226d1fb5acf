import Mathlib.Logic.Function.Iterate
import Mathlib.Tactic.Ring
import Pulpissimo.Timer.TimerUnit

/-!
# Ticks and periods of the timer unit

The low counter in 32-bit mode, from an enable on. Ticks are clocks or edges of the
reference clock, and a step of the count is due with each of them, or with
each `p+1` of them where the prescaler is used. What is done at the match
follows clocks, not ticks, so period and stop are right only where the two agree.
-/

namespace Pulpissimo.Timer.TimerTicks

open Pulpissimo.Machine Pulpissimo.Bits Pulpissimo.Timer.TimerUnit

/-- No register is written and no event comes. -/
def Quiet (i : Input) : Prop := i.event_lo_i=false ∧ (i.req_i=true → i.wen_i=true)

section Settings

variable (cfg c : BitVec 32)

/-- Target of the prescaler. -/
def target : ℕ := (prescaler_target cfg).toNat

/-- A configuration of 32 bits that is enabled and not being reset, with a compare value and a
target of the prescaler that are not zero. -/
structure Config : Prop where
  enable : cfg.getLsbD ENABLE_BIT=true
  reset : cfg.getLsbD RESET_BIT=false
  mode : cfg.getLsbD MODE_64_BIT=false
  compare : c≠0#32
  prescaler : cfg.getLsbD PRESCALER_EN_BIT=true → 1 ≤ target cfg

/-- The first clock of an enable. The count is not at the compare value, and the prescaler, which
is cleared while the counter is not enabled, is at zero. -/
structure Enabled (s : State) : Prop where
  config : s.s_cfg_lo_reg=cfg
  compare : s.s_timer_cmp_lo_reg=c
  count : s.counter_lo_i.s_count_reg≠c
  flag : s.counter_lo_i.target_reached_o=false
  prescaler : s.prescaler_lo_i.s_count_reg=0#32

/-- A tick of the source that the configuration chooses. -/
def tick (s : State) : Bool := !cfg.getLsbD REF_CLK_EN_BIT || s_ref_clk_edge s

/-- Steps that are due with some ticks. -/
def steps (ticks : ℕ) : ℕ :=
  if cfg.getLsbD PRESCALER_EN_BIT=true then ticks/(target cfg+1) else ticks

/-- The count after one more step: at the match a one-shot stays and a compare-clear begins anew. -/
def advance (v : BitVec 32) : BitVec 32 :=
  if v=c then
    if cfg.getLsbD ONE_SHOT_BIT=true then c
    else if cfg.getLsbD CMP_CLR_BIT=true then 0#32
    else v+1#32
  else v+1#32

/-- The unit, the ticks since the enable, and whether a count before was the compare value. -/
structure Watch where
  regs : State
  ticks : ℕ
  hit : Bool

/-- One clock edge. -/
def Watch.step (w : Watch) (i : Input) : Watch where
  regs := TimerUnit.step w.regs i
  ticks := if tick cfg w.regs=true then w.ticks+1 else w.ticks
  hit := w.hit || w.regs.counter_lo_i.s_count_reg==c

/-- The count is what the steps make of the first one. A one-shot with compare-clear is
cleared once it has matched. -/
def Watch.Shows (v : BitVec 32) (w : Watch) : Prop :=
  w.regs.counter_lo_i.s_count_reg=(advance cfg c)^[steps cfg w.ticks] v ∨
    cfg.getLsbD ONE_SHOT_BIT=true ∧ cfg.getLsbD CMP_CLR_BIT=true ∧ w.hit=true ∧
      (advance cfg c)^[steps cfg w.ticks] v=c ∧ w.regs.counter_lo_i.s_count_reg=0#32

/-- The unit some clocks after an enable. -/
def run (s : State) (env : ℕ → Input) (t : ℕ) : Watch :=
  states (Watch.step cfg c) ⟨s,0,false⟩ env t

/-- In all clocks after the enable, whatever the reference clock does, the count is right. -/
def Exact (s : State) : Prop :=
  ∀ env : ℕ → Input, (∀ t, Quiet (env t)) → ∀ t,
    (run cfg c s env t).Shows cfg c s.counter_lo_i.s_count_reg

/-- The configurations in which clocks and ticks agree where it matters: the prescaler does not
count edges of the reference clock, a compare-clear goes with each clock as the tick, and a one-shot
that is not cleared with ticks that leave a clock between them. -/
structure Regular : Prop where
  prescaler : cfg.getLsbD PRESCALER_EN_BIT=true → cfg.getLsbD REF_CLK_EN_BIT=false
  clear : cfg.getLsbD CMP_CLR_BIT=true → cfg.getLsbD ONE_SHOT_BIT=false →
    cfg.getLsbD PRESCALER_EN_BIT=false ∧ cfg.getLsbD REF_CLK_EN_BIT=false
  oneShot : cfg.getLsbD ONE_SHOT_BIT=true → cfg.getLsbD CMP_CLR_BIT=false →
    cfg.getLsbD PRESCALER_EN_BIT=true ∨ cfg.getLsbD REF_CLK_EN_BIT=true

end Settings

section Walk

variable {cfg c : BitVec 32}

/-- A one-shot is over at the match. -/
theorem iterate_advance_stopped (hshot : cfg.getLsbD ONE_SHOT_BIT=true) {v : BitVec 32} {m n : ℕ}
    (hm : (advance cfg c)^[m] v=c) (hle : m ≤ n) : (advance cfg c)^[n] v=c := by
  induction n, hle using Nat.le_induction with
  | base => exact hm
  | succ n _ ih => rw [Function.iterate_succ_apply',ih,advance,if_pos rfl,if_pos hshot]

/-- Up to the match the count goes up by one. -/
theorem iterate_advance_below {v : BitVec 32} {n : ℕ} (hn : n ≤ (c-v).toNat) :
    (advance cfg c)^[n] v=v+BitVec.ofNat 32 n := by
  induction n with
  | zero => exact (BitVec.add_zero v).symm
  | succ n ih =>
    have hne : v+BitVec.ofNat 32 n≠c := by
      intro heq
      have hgap : c-v=BitVec.ofNat 32 n := by
        rw [←heq,BitVec.add_comm,BitVec.add_sub_cancel]
      have hval := congrArg BitVec.toNat hgap
      have hlt := (c-v).isLt
      rw [BitVec.toNat_ofNat,Nat.mod_eq_of_lt (by omega)] at hval
      omega
    rw [Function.iterate_succ_apply',ih (by omega),advance,if_neg hne,BitVec.add_assoc,
      ←BitVec.ofNat_add]

theorem iterate_advance_match (v : BitVec 32) : (advance cfg c)^[(c-v).toNat] v=c := by
  rw [iterate_advance_below (Nat.le_refl _),BitVec.ofNat_toNat,BitVec.setWidth_eq,BitVec.add_comm,
    BitVec.sub_add_cancel]

theorem iterate_advance_ne {v : BitVec 32} {n : ℕ} (hn : n<(c-v).toNat) :
    (advance cfg c)^[n] v≠c := by
  intro heq
  have hgap : c-v=BitVec.ofNat 32 n := by
    rw [←heq,iterate_advance_below (Nat.le_of_lt hn),BitVec.add_comm,BitVec.add_sub_cancel]
  have hval := congrArg BitVec.toNat hgap
  have hlt := (c-v).isLt
  rw [BitVec.toNat_ofNat,Nat.mod_eq_of_lt (by omega)] at hval
  omega

/-- With compare-clear the count goes round from zero to the compare value, so matches are `c+1`
steps apart. -/
theorem iterate_advance_clear (hclear : cfg.getLsbD CMP_CLR_BIT=true)
    (hshot : cfg.getLsbD ONE_SHOT_BIT=false) (n : ℕ) :
    (advance cfg c)^[n] 0#32=BitVec.ofNat 32 (n%(c.toNat+1)) := by
  have hlt := c.isLt
  induction n with
  | zero => rfl
  | succ n ih =>
    have hmod : n%(c.toNat+1) < c.toNat+1 := Nat.mod_lt _ (Nat.succ_pos _)
    have hnext : (n+1)%(c.toNat+1)=(n%(c.toNat+1)+1)%(c.toNat+1) := (Nat.mod_add_mod _ _ _).symm
    have hval : BitVec.ofNat 32 (n%(c.toNat+1))=c ↔ n%(c.toNat+1)=c.toNat := by
      rw [←BitVec.toNat_inj,BitVec.toNat_ofNat,Nat.mod_eq_of_lt (by omega)]
    rw [Function.iterate_succ_apply',ih,advance,hnext]
    rw [if_neg (Bool.eq_false_iff.mp hshot),if_pos hclear]
    split_ifs with hmatch
    · rw [hval.mp hmatch,Nat.mod_self]
    · have hne : n%(c.toNat+1)≠c.toNat := fun heq => hmatch (hval.mpr heq)
      rw [Nat.mod_eq_of_lt (a:=n%(c.toNat+1)+1) (by omega),BitVec.ofNat_add]

/-- A one-shot from zero is over at the compare value. -/
theorem iterate_advance_oneShot (hshot : cfg.getLsbD ONE_SHOT_BIT=true) (n : ℕ) :
    (advance cfg c)^[n] 0#32=BitVec.ofNat 32 (min n c.toNat) := by
  have hzero : (c-0#32).toNat=c.toNat := by rw [BitVec.sub_zero]
  rcases Nat.le_total n c.toNat with hle | hge
  · rw [Nat.min_eq_left hle,iterate_advance_below (by omega),BitVec.zero_add]
  · have hmatch : (advance cfg c)^[(c-0#32).toNat] 0#32=c := iterate_advance_match 0#32
    rw [Nat.min_eq_right hge,BitVec.ofNat_toNat,BitVec.setWidth_eq]
    exact iterate_advance_stopped hshot hmatch (by omega)

end Walk

section Cycle

variable {cfg c v : BitVec 32} {w : Watch} {i : Input}

/-- A quiet cycle writes nothing. -/
theorem Quiet.writes (hi : Quiet i) (addr : BitVec 6) : i.writes addr=false := by
  unfold Input.writes
  cases hreq : i.req_i with
  | false => rfl
  | true =>
    rw [hi.2 hreq]
    rfl

/-- The counter moves by its own enable and by the clear at the match. -/
theorem step_counter (hi : Quiet i) (s : State) (hreset : s.s_cfg_lo_reg.getLsbD RESET_BIT=false)
    (hmode : s.s_cfg_lo_reg.getLsbD MODE_64_BIT=false) :
    (TimerUnit.step s i).counter_lo_i.s_count_reg=
        (if (s.s_cfg_lo_reg.getLsbD CMP_CLR_BIT && s.counter_lo_i.target_reached_o)=true then 0#32
        else if s_enable_count_lo s=true then s.counter_lo_i.s_count_reg+1#32
        else s.counter_lo_i.s_count_reg) ∧
      (TimerUnit.step s i).counter_lo_i.target_reached_o=
        ((TimerUnit.step s i).counter_lo_i.s_count_reg==s.s_timer_cmp_lo_reg) := by
  refine ⟨?_,rfl⟩
  show Counter.s_count _ _ _ _ _=_
  simp only [Counter.s_count,s_reset_count_lo,hi.writes,hreset,hmode,Bool.or_false,
    Bool.false_eq_true,if_false,Bool.not_false,if_true]

/-- Of the configuration only the enable changes, at the match of a one-shot. -/
theorem step_cfg_bit (hi : Quiet i) (s : State) (hreset : s.s_cfg_lo_reg.getLsbD RESET_BIT=false)
    (hmode : s.s_cfg_lo_reg.getLsbD MODE_64_BIT=false) {k : ℕ} (hk : k<32) :
    (TimerUnit.step s i).s_cfg_lo_reg.getLsbD k=
      if k=ENABLE_BIT ∧ (s.s_cfg_lo_reg.getLsbD ONE_SHOT_BIT && s.counter_lo_i.target_reached_o)=true
        then false else s.s_cfg_lo_reg.getLsbD k := by
  have hkept : ∀ (b : Bool) (x : BitVec 32), x.getLsbD RESET_BIT=false →
      (if b=true then setBit x RESET_BIT false else x).getLsbD k=x.getLsbD k := by
    intro b x hx
    split_ifs
    · rw [getLsbD_setBit _ _ _ hk]
      split_ifs with hkR
      · rw [hkR,hx]
      · rfl
    · rfl
  have hstep : (TimerUnit.step s i).s_cfg_lo_reg=
      let stopped := if (s.s_cfg_lo_reg.getLsbD ONE_SHOT_BIT && s.counter_lo_i.target_reached_o)=true
        then setBit s.s_cfg_lo_reg ENABLE_BIT false else s.s_cfg_lo_reg
      if (s.s_cfg_lo_reg.getLsbD CMP_CLR_BIT && s.counter_lo_i.target_reached_o)=true
        then setBit stopped RESET_BIT false else stopped := by
    show s_cfg_lo s i=_
    simp only [s_cfg_lo,s_reset_count_lo,write,hi.1,hi.writes,hreset,hmode,Bool.or_false,
      Bool.false_eq_true,if_false,Bool.not_false,if_true]
  rw [hstep]
  dsimp only
  cases s.s_cfg_lo_reg.getLsbD ONE_SHOT_BIT && s.counter_lo_i.target_reached_o with
  | false =>
    rw [if_neg Bool.false_ne_true,hkept _ _ hreset]
    exact (if_neg fun h => absurd h.2 nofun).symm
  | true =>
    have hbit := getLsbD_setBit s.s_cfg_lo_reg ENABLE_BIT false (i:=RESET_BIT) (by decide)
    rw [if_pos rfl,hkept _ _ (hbit.trans hreset),getLsbD_setBit _ _ _ hk]
    exact if_congr (and_iff_left rfl).symm rfl rfl

/-- Where it is not a one-shot that matches, it stays as it is. -/
theorem step_cfg (hi : Quiet i) (s : State) (hreset : s.s_cfg_lo_reg.getLsbD RESET_BIT=false)
    (hmode : s.s_cfg_lo_reg.getLsbD MODE_64_BIT=false)
    (hgo : (s.s_cfg_lo_reg.getLsbD ONE_SHOT_BIT && s.counter_lo_i.target_reached_o)=false) :
    (TimerUnit.step s i).s_cfg_lo_reg=s.s_cfg_lo_reg := by
  refine BitVec.eq_of_getLsbD_eq fun k hk => ?_
  rw [step_cfg_bit hi s hreset hmode hk,hgo]
  exact if_neg fun h => absurd h.2 nofun

theorem step_compare (hi : Quiet i) (s : State) :
    (TimerUnit.step s i).s_timer_cmp_lo_reg=s.s_timer_cmp_lo_reg := by
  show write i TIMER_CMP_LO s.s_timer_cmp_lo_reg=_
  simp only [write,hi.writes,Bool.false_eq_true,if_false]

/-- The count of one more tick. -/
theorem div_mod_succ (a b : ℕ) :
    (a+1)/(b+1)=a/(b+1)+(if a%(b+1)=b then 1 else 0) ∧
      (a+1)%(b+1)=if a%(b+1)=b then 0 else a%(b+1)+1 := by
  have hlt : a%(b+1)<b+1 := Nat.mod_lt _ (Nat.succ_pos _)
  have hsum := Nat.mod_add_div a (b+1)
  rw [Nat.div_mod_unique (show 0<b+1 from Nat.succ_pos b)]
  generalize a/(b+1)=q at *
  generalize a%(b+1)=r at *
  split_ifs with hlast
  · refine ⟨?_,Nat.succ_pos _⟩
    rw [←hsum,hlast]
    ring
  · refine ⟨?_,by omega⟩
    rw [←hsum]
    ring

/-- The count goes on by its steps. -/
structure Running (cfg c v : BitVec 32) (w : Watch) : Prop where
  config : w.regs.s_cfg_lo_reg=cfg
  compare : w.regs.s_timer_cmp_lo_reg=c
  count : w.regs.counter_lo_i.s_count_reg=(advance cfg c)^[steps cfg w.ticks] v
  flag : w.regs.counter_lo_i.target_reached_o=(w.regs.counter_lo_i.s_count_reg==c)
  /-- The prescaler has counted the ticks since the last step. -/
  prescaler : cfg.getLsbD PRESCALER_EN_BIT=true →
    w.regs.prescaler_lo_i.s_count_reg.toNat=w.ticks%(target cfg+1) ∧
      w.regs.prescaler_lo_i.target_reached_o=decide (w.ticks%(target cfg+1)=target cfg)

/-- A step of the count happens in this cycle. -/
def goes (cfg : BitVec 32) (w : Watch) : Bool :=
  enable_count cfg (s_ref_clk_edge w.regs) w.regs.prescaler_lo_i.target_reached_o

/-- The steps that are due are those that happen. -/
theorem Running.steps_step (h : Running cfg c v w) (hcfg : Config cfg c)
    (hboth : cfg.getLsbD PRESCALER_EN_BIT=true → cfg.getLsbD REF_CLK_EN_BIT=false) :
    steps cfg (w.step cfg c i).ticks=steps cfg w.ticks+if goes cfg w=true then 1 else 0 := by
  unfold steps Watch.step tick goes enable_count
  dsimp only
  rw [hcfg.enable,if_pos rfl]
  cases hpre : cfg.getLsbD PRESCALER_EN_BIT with
  | true =>
    rw [hboth hpre,(h.prescaler hpre).2]
    simp only [if_true,Bool.not_false,Bool.true_or,Bool.not_true,Bool.false_and,Bool.false_eq_true,
      if_false,decide_eq_true_eq]
    exact (div_mod_succ _ _).1
  | false =>
    cases cfg.getLsbD REF_CLK_EN_BIT with
    | false => rfl
    | true => cases s_ref_clk_edge w.regs <;> rfl

/-- The prescaler begins anew with each step. -/
theorem Running.prescaler_step (h : Running cfg c v w) (hcfg : Config cfg c)
    (hboth : cfg.getLsbD PRESCALER_EN_BIT=true → cfg.getLsbD REF_CLK_EN_BIT=false) (hi : Quiet i)
    (hpre : cfg.getLsbD PRESCALER_EN_BIT=true) :
    (w.step cfg c i).regs.prescaler_lo_i.s_count_reg.toNat=
        (w.step cfg c i).ticks%(target cfg+1) ∧
      (w.step cfg c i).regs.prescaler_lo_i.target_reached_o=
        decide ((w.step cfg c i).ticks%(target cfg+1)=target cfg) := by
  have href := hboth hpre
  have hold := h.prescaler hpre
  have hticks : (w.step cfg c i).ticks=w.ticks+1 := by simp [Watch.step,tick,href]
  have hmod := (div_mod_succ w.ticks (target cfg)).2
  have hlt : target cfg<2^32 := (prescaler_target cfg).isLt
  have hcount : (w.step cfg c i).regs.prescaler_lo_i.s_count_reg=
      if w.regs.prescaler_lo_i.target_reached_o=true then 0#32
      else w.regs.prescaler_lo_i.s_count_reg+1#32 := by
    show Counter.s_count_presc _ _ _=_
    rw [Counter.s_count_presc,s_reset_count_prescaler,enable_count_prescaler,h.config,hcfg.enable,
      hcfg.reset,hi.writes,hpre,href]
    cases w.regs.prescaler_lo_i.target_reached_o <;> rfl
  have hval : (w.step cfg c i).regs.prescaler_lo_i.s_count_reg.toNat=
      (w.ticks+1)%(target cfg+1) := by
    have hrest : w.ticks%(target cfg+1)<target cfg+1 := Nat.mod_lt _ (Nat.succ_pos _)
    rw [hcount,hold.2,hmod]
    simp only [decide_eq_true_eq]
    split_ifs with hlast
    · rfl
    · rw [BitVec.toNat_add,hold.1]
      exact Nat.mod_eq_of_lt (by simp only [BitVec.toNat_ofNat]; omega)
  have hflag : (w.step cfg c i).regs.prescaler_lo_i.target_reached_o=
      ((w.step cfg c i).regs.prescaler_lo_i.s_count_reg==prescaler_target w.regs.s_cfg_lo_reg) := rfl
  rw [hticks]
  refine ⟨hval,?_⟩
  rw [hflag,h.config,Bool.beq_eq_decide_eq,decide_eq_decide,←BitVec.toNat_inj,hval]
  rfl

/-- Below the match a clock keeps the count right. -/
theorem Running.step_below (h : Running cfg c v w) (hcfg : Config cfg c)
    (hboth : cfg.getLsbD PRESCALER_EN_BIT=true → cfg.getLsbD REF_CLK_EN_BIT=false) (hi : Quiet i)
    (hflag : w.regs.counter_lo_i.target_reached_o=false) : Running cfg c v (w.step cfg c i) := by
  have hreset : w.regs.s_cfg_lo_reg.getLsbD RESET_BIT=false := h.config ▸ hcfg.reset
  have hmode : w.regs.s_cfg_lo_reg.getLsbD MODE_64_BIT=false := h.config ▸ hcfg.mode
  have hne : (advance cfg c)^[steps cfg w.ticks] v≠c := by
    rw [←h.count]
    exact beq_eq_false_iff_ne.mp (h.flag.symm.trans hflag)
  have hconfig : (w.step cfg c i).regs.s_cfg_lo_reg=cfg :=
    (step_cfg hi _ hreset hmode (by rw [hflag,Bool.and_false])).trans h.config
  have hcompare := (step_compare hi w.regs).trans h.compare
  have hcounter := step_counter hi w.regs hreset hmode
  refine ⟨hconfig,hcompare,?_,?_,fun hpre => h.prescaler_step hcfg hboth hi hpre⟩
  · have hgoes : s_enable_count_lo w.regs=goes cfg w := by
      rw [s_enable_count_lo,h.config]
      rfl
    rw [h.steps_step hcfg hboth]
    show (TimerUnit.step w.regs i).counter_lo_i.s_count_reg=_
    rw [hcounter.1,hflag,Bool.and_false,if_neg Bool.false_ne_true,hgoes,h.count]
    split_ifs
    · rw [Function.iterate_succ_apply',advance,if_neg hne]
    · rfl
  · exact hcounter.2.trans (by rw [h.compare]; rfl)

/-- Where ticks leave a clock between them, no step happens in the clock after a match. -/
theorem Running.rests (h : Running cfg c v w) (hcfg : Config cfg c) (hi : Quiet i)
    (hboth : cfg.getLsbD PRESCALER_EN_BIT=true → cfg.getLsbD REF_CLK_EN_BIT=false)
    (hslow : cfg.getLsbD PRESCALER_EN_BIT=true ∨ cfg.getLsbD REF_CLK_EN_BIT=true)
    (hgoes : goes cfg w=true) : goes cfg (w.step cfg c i)=false := by
  unfold goes enable_count at hgoes ⊢
  rw [hcfg.enable,if_pos rfl] at hgoes ⊢
  cases hpre : cfg.getLsbD PRESCALER_EN_BIT with
  | true =>
    have href := hboth hpre
    have hnew := h.prescaler_step hcfg hboth hi hpre
    have hticks : (w.step cfg c i).ticks=w.ticks+1 := by simp [Watch.step,tick,href]
    simp only [hpre,href,Bool.not_true,Bool.false_and,Bool.false_eq_true,if_false] at hgoes ⊢
    rw [(h.prescaler hpre).2,decide_eq_true_iff] at hgoes
    rw [hnew.2,hticks,(div_mod_succ w.ticks (target cfg)).2,if_pos hgoes]
    exact decide_eq_false (Nat.ne_of_lt (hcfg.prescaler hpre))
  | false =>
    have href := hslow.resolve_left (Bool.eq_false_iff.mp hpre)
    simp only [hpre,href,Bool.not_true,Bool.not_false,Bool.and_false,Bool.and_self,Bool.false_eq_true,
      if_false,if_true] at hgoes ⊢
    have hold : w.regs.s_ref_clk1=true := (Bool.and_eq_true_iff.mp hgoes).1
    show (w.regs.s_ref_clk0 && !w.regs.s_ref_clk1)=false
    rw [hold]
    exact Bool.and_false _

/-- A match comes with a step. -/
theorem Running.goes_of_match (h : Running cfg c v w) (hcfg : Config cfg c)
    (hboth : cfg.getLsbD PRESCALER_EN_BIT=true → cfg.getLsbD REF_CLK_EN_BIT=false) (hi : Quiet i)
    (hflag : w.regs.counter_lo_i.target_reached_o=false)
    (hmatch : (w.step cfg c i).regs.counter_lo_i.target_reached_o=true) : goes cfg w=true := by
  have hnew := h.step_below hcfg hboth hi hflag
  by_contra hgoes
  have hsame := hnew.count
  rw [h.steps_step hcfg hboth,if_neg hgoes,Nat.add_zero,←h.count] at hsame
  have heq := hnew.flag
  rw [hsame,←h.flag,hflag] at heq
  exact absurd (hmatch.symm.trans heq) nofun

/-- The one-shot is over. -/
structure Stopped (cfg c v : BitVec 32) (w : Watch) : Prop where
  shot : cfg.getLsbD ONE_SHOT_BIT=true
  enable : w.regs.s_cfg_lo_reg.getLsbD ENABLE_BIT=false
  reset : w.regs.s_cfg_lo_reg.getLsbD RESET_BIT=false
  mode : w.regs.s_cfg_lo_reg.getLsbD MODE_64_BIT=false
  clear : w.regs.s_cfg_lo_reg.getLsbD CMP_CLR_BIT=cfg.getLsbD CMP_CLR_BIT
  past : (advance cfg c)^[steps cfg w.ticks] v=c
  count : w.regs.counter_lo_i.s_count_reg=c ∨
    cfg.getLsbD CMP_CLR_BIT=true ∧ w.hit=true ∧ w.regs.counter_lo_i.s_count_reg=0#32

/-- Steps that are due do not get fewer. -/
theorem steps_le (cfg c : BitVec 32) (w : Watch) (i : Input) :
    steps cfg w.ticks ≤ steps cfg (w.step cfg c i).ticks := by
  have hticks : w.ticks ≤ (w.step cfg c i).ticks := by
    unfold Watch.step
    dsimp only
    split_ifs
    · exact Nat.le_succ _
    · exact Nat.le_refl _
  unfold steps
  split_ifs
  · exact Nat.div_le_div_right hticks
  · exact hticks

/-- A counter that has stopped is at most cleared. -/
theorem Stopped.step (h : Stopped cfg c v w) (hi : Quiet i) :
    Stopped cfg c v (w.step cfg c i) := by
  have hcounter := (step_counter hi w.regs h.reset h.mode).1
  have hidle : s_enable_count_lo w.regs=false := by
    rw [s_enable_count_lo,enable_count,h.enable]
    rfl
  have hbit : ∀ k<32, k≠ENABLE_BIT →
      (TimerUnit.step w.regs i).s_cfg_lo_reg.getLsbD k=w.regs.s_cfg_lo_reg.getLsbD k := by
    intro k hk hne
    rw [step_cfg_bit hi _ h.reset h.mode hk]
    exact if_neg fun hboth => hne hboth.1
  refine ⟨h.shot,?_,?_,?_,?_,?_,?_⟩
  · have hE := step_cfg_bit hi _ h.reset h.mode (k:=ENABLE_BIT) (by decide)
    rw [h.enable,ite_self] at hE
    exact hE
  · exact (hbit RESET_BIT (by decide) (by decide)).trans h.reset
  · exact (hbit MODE_64_BIT (by decide) (by decide)).trans h.mode
  · exact (hbit CMP_CLR_BIT (by decide) (by decide)).trans h.clear
  · exact iterate_advance_stopped h.shot h.past (steps_le cfg c w i)
  · show (TimerUnit.step w.regs i).counter_lo_i.s_count_reg=c ∨ _ ∧ (w.hit || _)=true ∧
      (TimerUnit.step w.regs i).counter_lo_i.s_count_reg=0#32
    have hpast : (w.hit || w.regs.counter_lo_i.s_count_reg==c)=true := by
      rcases h.count with heq | ⟨-,hhit,-⟩
      · rw [heq,beq_self_eq_true,Bool.or_true]
      · rw [hhit,Bool.true_or]
    rw [hcounter,hidle,h.clear,if_neg Bool.false_ne_true]
    split_ifs with hgo
    · exact Or.inr ⟨(Bool.and_eq_true_iff.mp hgo).1,hpast,rfl⟩
    · exact h.count.imp_right fun hclear => ⟨hclear.1,hpast,hclear.2.2⟩

/-- At the match of a regular configuration the count goes on or stops as it should. -/
theorem Running.step_match (h : Running cfg c v w) (hcfg : Config cfg c) (hregular : Regular cfg)
    (hi : Quiet i) (hflag : w.regs.counter_lo_i.target_reached_o=true)
    (hrests : cfg.getLsbD ONE_SHOT_BIT=true → cfg.getLsbD CMP_CLR_BIT=false → goes cfg w=false) :
    (cfg.getLsbD ONE_SHOT_BIT=false ∧ Running cfg c v (w.step cfg c i)) ∨
      Stopped cfg c v (w.step cfg c i) := by
  have hreset : w.regs.s_cfg_lo_reg.getLsbD RESET_BIT=false := h.config ▸ hcfg.reset
  have hmode : w.regs.s_cfg_lo_reg.getLsbD MODE_64_BIT=false := h.config ▸ hcfg.mode
  have hcount : w.regs.counter_lo_i.s_count_reg=c := by
    have heq := h.flag.symm.trans hflag
    exact beq_iff_eq.mp heq
  have hmatch := h.count.symm.trans hcount
  have hcompare := (step_compare hi w.regs).trans h.compare
  have hcounter := step_counter hi w.regs hreset hmode
  have hgoes : s_enable_count_lo w.regs=goes cfg w := by
    rw [s_enable_count_lo,h.config]
    rfl
  have hsteps := h.steps_step (i:=i) hcfg hregular.prescaler
  rw [hgoes,h.config,hflag,Bool.and_true,hcount] at hcounter
  cases hshot : cfg.getLsbD ONE_SHOT_BIT with
  | false =>
    left
    refine ⟨rfl,?_,hcompare,?_,?_,fun hpre => h.prescaler_step hcfg hregular.prescaler hi hpre⟩
    · exact (step_cfg hi _ hreset hmode (by rw [h.config,hshot]; rfl)).trans h.config
    · rw [hsteps]
      show (TimerUnit.step w.regs i).counter_lo_i.s_count_reg=_
      rw [hcounter.1]
      cases hclear : cfg.getLsbD CMP_CLR_BIT with
      | false =>
        rw [if_neg Bool.false_ne_true]
        split_ifs
        · rw [Function.iterate_succ_apply',hmatch,advance,if_pos rfl,hshot,hclear]
          rfl
        · exact hmatch.symm
      | true =>
        have hcore := hregular.clear hclear hshot
        have hgo : goes cfg w=true := by
          rw [goes,enable_count,hcfg.enable,hcore.1,hcore.2]
          rfl
        rw [if_pos rfl,if_pos hgo,Function.iterate_succ_apply',hmatch,advance,if_pos rfl,hshot,hclear]
        rfl
    · exact hcounter.2.trans (by rw [h.compare]; rfl)
  | true =>
    right
    have hbit : ∀ k<32, k≠ENABLE_BIT →
        (TimerUnit.step w.regs i).s_cfg_lo_reg.getLsbD k=cfg.getLsbD k := by
      intro k hk hne
      rw [step_cfg_bit hi _ hreset hmode hk,h.config]
      exact if_neg fun hboth => hne hboth.1
    refine ⟨hshot,?_,?_,?_,?_,?_,?_⟩
    · refine (step_cfg_bit hi _ hreset hmode (by decide)).trans (if_pos ⟨rfl,?_⟩)
      rw [h.config,hshot,hflag]
      rfl
    · exact (hbit RESET_BIT (by decide) (by decide)).trans hcfg.reset
    · exact (hbit MODE_64_BIT (by decide) (by decide)).trans hcfg.mode
    · exact hbit CMP_CLR_BIT (by decide) (by decide)
    · exact iterate_advance_stopped hshot hmatch (steps_le cfg c w i)
    · show (TimerUnit.step w.regs i).counter_lo_i.s_count_reg=c ∨ _ ∧ (w.hit || _)=true ∧
        (TimerUnit.step w.regs i).counter_lo_i.s_count_reg=0#32
      rw [hcounter.1,hcount,beq_self_eq_true,Bool.or_true]
      cases hclear : cfg.getLsbD CMP_CLR_BIT with
      | false =>
        left
        rw [hrests hshot hclear,if_neg Bool.false_ne_true,if_neg Bool.false_ne_true]
      | true => exact Or.inr ⟨rfl,rfl,if_pos rfl⟩

/-- The count goes on by its steps, or the one-shot is over. -/
def Inv (cfg c v : BitVec 32) (w : Watch) : Prop :=
  (Running cfg c v w ∧ (cfg.getLsbD ONE_SHOT_BIT=true → cfg.getLsbD CMP_CLR_BIT=false →
    w.regs.counter_lo_i.target_reached_o=true → goes cfg w=false)) ∨ Stopped cfg c v w

theorem Inv.step (h : Inv cfg c v w) (hcfg : Config cfg c) (hregular : Regular cfg) (hi : Quiet i) :
    Inv cfg c v (w.step cfg c i) := by
  rcases h with ⟨hrun,hrests⟩ | hstop
  · cases hflag : w.regs.counter_lo_i.target_reached_o with
    | false =>
      refine Or.inl ⟨hrun.step_below hcfg hregular.prescaler hi hflag,fun hshot hclear hmatch => ?_⟩
      exact hrun.rests hcfg hi hregular.prescaler (hregular.oneShot hshot hclear)
        (hrun.goes_of_match hcfg hregular.prescaler hi hflag hmatch)
    | true =>
      rcases hrun.step_match hcfg hregular hi hflag fun hshot hclear => hrests hshot hclear hflag
        with ⟨hshot,hrun'⟩ | hstop
      · exact Or.inl ⟨hrun',fun hshot' => absurd (hshot.symm.trans hshot') nofun⟩
      · exact Or.inr hstop
  · exact Or.inr (hstop.step hi)

theorem Inv.shows (h : Inv cfg c v w) : w.Shows cfg c v := by
  rcases h with ⟨hrun,-⟩ | hstop
  · exact Or.inl hrun.count
  · rcases hstop.count with heq | ⟨hclear,hhit,hzero⟩
    · exact Or.inl (heq.trans hstop.past.symm)
    · exact Or.inr ⟨hstop.shot,hclear,hhit,hstop.past,hzero⟩

end Cycle

section Runs

variable {cfg c : BitVec 32} {s : State}

/-- With its prescaler at rest an enabled counter is one that goes on. -/
theorem Enabled.running (h : Enabled cfg c s) (hcfg : Config cfg c)
    (hrest : cfg.getLsbD PRESCALER_EN_BIT=true → s.prescaler_lo_i.target_reached_o=false) :
    Running cfg c s.counter_lo_i.s_count_reg ⟨s,0,false⟩ where
  config := h.config
  compare := h.compare
  count := by
    have hzero : steps cfg 0=0 := by
      unfold steps
      rw [Nat.zero_div,ite_self]
    rw [hzero]
    rfl
  flag := h.flag.trans (beq_eq_false_iff_ne.mpr h.count).symm
  prescaler hpre := by
    have hpos := hcfg.prescaler hpre
    refine ⟨by rw [h.prescaler,Nat.zero_mod]; rfl,?_⟩
    rw [hrest hpre,Nat.zero_mod]
    exact (decide_eq_false (by omega)).symm

/-- A regular configuration counts right. -/
theorem exact_of_regular (hcfg : Config cfg c) (h : Enabled cfg c s) (hregular : Regular cfg)
    (hrest : cfg.getLsbD PRESCALER_EN_BIT=true → s.prescaler_lo_i.target_reached_o=false) :
    Exact cfg c s := by
  intro env hquiet t
  have hinv : ∀ t, Inv cfg c s.counter_lo_i.s_count_reg (run cfg c s env t) := by
    intro t
    induction t with
    | zero =>
      exact Or.inl ⟨h.running hcfg hrest,fun _ _ hflag => absurd (h.flag.symm.trans hflag) nofun⟩
    | succ t ih => exact ih.step hcfg hregular (hquiet t)
  exact (hinv t).shows

/-- A reference clock of half the rate. -/
def halfRate (t : ℕ) : Input := ⟨decide (t%2=0),false,0#32,false,0#32,false,false⟩

theorem halfRate_quiet (t : ℕ) : Quiet (halfRate t) := ⟨rfl,nofun⟩

/-- The unit with this clock. -/
def clocked (cfg c : BitVec 32) (s : State) (t : ℕ) : Watch := run cfg c s halfRate t

theorem clocked_succ (t : ℕ) :
    clocked cfg c s (t+1)=(clocked cfg c s t).step cfg c (halfRate t) := rfl

/-- Ticks come again and again. -/
theorem exists_tick (t : ℕ) : ∃ m, tick cfg (clocked cfg c s (t+m)).regs=true := by
  have hedge : ∀ u, s_ref_clk_edge (clocked cfg c s (u+3)).regs=
      (decide ((u+1)%2=0) && !decide (u%2=0)) := fun u => rfl
  unfold tick
  cases cfg.getLsbD REF_CLK_EN_BIT with
  | false => exact ⟨0,rfl⟩
  | true =>
    by_cases hodd : t%2=1
    · refine ⟨3,?_⟩
      rw [hedge]
      simp only [Bool.not_true,Bool.false_or,Bool.and_eq_true_iff,Bool.not_eq_true',
        decide_eq_true_iff,decide_eq_false_iff_not]
      omega
    · refine ⟨4,?_⟩
      rw [show t+4=t+1+3 by omega,hedge]
      simp only [Bool.not_true,Bool.false_or,Bool.and_eq_true_iff,Bool.not_eq_true',
        decide_eq_true_iff,decide_eq_false_iff_not]
      omega

/-- Each number of ticks is reached. -/
theorem exists_ticks (n : ℕ) : ∃ t, (clocked cfg c s t).ticks=n := by
  induction n with
  | zero => exact ⟨0,rfl⟩
  | succ n ih =>
    rcases ih with ⟨t,ht⟩
    have hwait : ∀ u, (clocked cfg c s u).ticks=n → ¬tick cfg (clocked cfg c s u).regs=true →
        (clocked cfg c s (u+1)).ticks=n := by
      intro u hu hno
      show (if tick cfg (clocked cfg c s u).regs=true then _ else (clocked cfg c s u).ticks)=n
      rw [if_neg hno,hu]
    rcases states_until (W:=fun w : Watch => w.ticks=n)
      (G:=fun u => tick cfg (clocked cfg c s u).regs=true) hwait ht (exists_tick t) with ⟨u,-,hu,htick⟩
    refine ⟨u+1,?_⟩
    show (if tick cfg (clocked cfg c s u).regs=true then (clocked cfg c s u).ticks+1 else _)=n+1
    rw [if_pos htick]
    exact congrArg (·+1) hu

/-- A counter that goes on comes to a match. -/
theorem exists_match (hcfg : Config cfg c) (h : Enabled cfg c s)
    (hboth : cfg.getLsbD PRESCALER_EN_BIT=true → cfg.getLsbD REF_CLK_EN_BIT=false)
    (hrest : cfg.getLsbD PRESCALER_EN_BIT=true → s.prescaler_lo_i.target_reached_o=false) :
    ∃ u, Running cfg c s.counter_lo_i.s_count_reg (clocked cfg c s u) ∧
      (clocked cfg c s u).regs.counter_lo_i.target_reached_o=false ∧
      (clocked cfg c s (u+1)).regs.counter_lo_i.target_reached_o=true := by
  by_contra hnone
  have hall : ∀ t, Running cfg c s.counter_lo_i.s_count_reg (clocked cfg c s t) ∧
      (clocked cfg c s t).regs.counter_lo_i.target_reached_o=false := by
    intro t
    induction t with
    | zero => exact ⟨h.running hcfg hrest,h.flag⟩
    | succ t ih =>
      refine ⟨ih.1.step_below hcfg hboth (halfRate_quiet t) ih.2,?_⟩
      by_contra hflag
      exact hnone ⟨t,ih.1,ih.2,Bool.not_eq_false _ ▸ hflag⟩
  have hdue : ∀ m, ∃ n, steps cfg n=m := by
    intro m
    unfold steps
    split_ifs
    · exact ⟨m*(target cfg+1),Nat.mul_div_cancel m (Nat.succ_pos _)⟩
    · exact ⟨m,rfl⟩
  rcases hdue (c-s.counter_lo_i.s_count_reg).toNat with ⟨n,hn⟩
  have hreach : ∃ t, (clocked cfg c s t).ticks=n := exists_ticks n
  rcases hreach with ⟨t,ht⟩
  have hcount := (hall t).1.count
  rw [ht,hn,iterate_advance_match] at hcount
  have hflag := (hall t).1.flag
  rw [hcount,beq_self_eq_true,(hall t).2] at hflag
  exact absurd hflag nofun

/-- One more is another count. -/
theorem add_one_ne (x : BitVec 32) : x+1#32≠x := by
  intro h
  simp at h

/-- The count is still the first one. -/
structure Stands (cfg c v : BitVec 32) (w : Watch) : Prop where
  config : w.regs.s_cfg_lo_reg=cfg
  compare : w.regs.s_timer_cmp_lo_reg=c
  count : w.regs.counter_lo_i.s_count_reg=v
  flag : w.regs.counter_lo_i.target_reached_o=false
  hit : w.hit=false

/-- The prescaler with edges of the reference clock: it is cleared in the clock after an edge. -/
structure Slow (cfg c v : BitVec 32) (w : Watch) : Prop extends Stands cfg c v w where
  rest : w.regs.prescaler_lo_i.target_reached_o=false
  prescaler : w.regs.prescaler_lo_i.s_count_reg=0#32 ∨
    w.regs.prescaler_lo_i.s_count_reg=1#32 ∧ w.regs.s_ref_clk2=true

section Edges

variable {v : BitVec 32} {w : Watch} {i : Input}

/-- It counts an edge and forgets it. -/
theorem Slow.prescaler_step (h : Slow cfg c v w) (hcfg : Config cfg c) (hi : Quiet i)
    (hpre : cfg.getLsbD PRESCALER_EN_BIT=true) (href : cfg.getLsbD REF_CLK_EN_BIT=true) :
    (w.step cfg c i).regs.prescaler_lo_i.s_count_reg=
        (if s_ref_clk_edge w.regs=true then 1#32 else 0#32) ∧
      (w.step cfg c i).regs.prescaler_lo_i.target_reached_o=
        ((w.step cfg c i).regs.prescaler_lo_i.s_count_reg==prescaler_target cfg) := by
  constructor
  · show Counter.s_count_presc _ _ _=_
    rw [Counter.s_count_presc,s_reset_count_prescaler,enable_count_prescaler,h.config,hcfg.enable,
      hcfg.reset,hi.writes,hpre,href,h.rest]
    cases hedge : s_ref_clk_edge w.regs with
    | false => rfl
    | true =>
      have hzero : w.regs.prescaler_lo_i.s_count_reg=0#32 := by
        refine h.prescaler.resolve_right fun hone => ?_
        rw [s_ref_clk_edge,hone.2,Bool.not_true,Bool.and_false] at hedge
        exact absurd hedge nofun
      rw [hzero]
      rfl
  · have hflag : (w.step cfg c i).regs.prescaler_lo_i.target_reached_o=
        ((w.step cfg c i).regs.prescaler_lo_i.s_count_reg==
          prescaler_target w.regs.s_cfg_lo_reg) := rfl
    rw [hflag,h.config]

/-- Without the prescaler the count stands. -/
theorem Slow.stands_step (h : Slow cfg c v w) (hv : v≠c) (hcfg : Config cfg c) (hi : Quiet i)
    (hpre : cfg.getLsbD PRESCALER_EN_BIT=true) : Stands cfg c v (w.step cfg c i) := by
  have hreset : w.regs.s_cfg_lo_reg.getLsbD RESET_BIT=false := h.config ▸ hcfg.reset
  have hmode : w.regs.s_cfg_lo_reg.getLsbD MODE_64_BIT=false := h.config ▸ hcfg.mode
  have hcounter := step_counter hi w.regs hreset hmode
  have hcount : (w.step cfg c i).regs.counter_lo_i.s_count_reg=v := by
    have hgoes : s_enable_count_lo w.regs=false := by
      rw [s_enable_count_lo,enable_count,h.config,hcfg.enable,hpre,h.rest]
      rfl
    refine hcounter.1.trans ?_
    rw [h.flag,Bool.and_false,if_neg Bool.false_ne_true,hgoes,if_neg Bool.false_ne_true,h.count]
  refine ⟨?_,(step_compare hi _).trans h.compare,hcount,?_,?_⟩
  · exact (step_cfg hi _ hreset hmode (by rw [h.flag,Bool.and_false])).trans h.config
  · refine hcounter.2.trans ?_
    change (TimerUnit.step w.regs i).counter_lo_i.s_count_reg=v at hcount
    rw [hcount,h.compare]
    exact beq_eq_false_iff_ne.mpr hv
  · show (w.hit || w.regs.counter_lo_i.s_count_reg==c)=false
    rw [h.hit,h.count,beq_eq_false_iff_ne.mpr hv]
    rfl

/-- The unit stays slow unless the prescaler has reached its target. -/
theorem Slow.step (h : Slow cfg c v w) (hv : v≠c) (hcfg : Config cfg c) (hi : Quiet i)
    (hpre : cfg.getLsbD PRESCALER_EN_BIT=true) (href : cfg.getLsbD REF_CLK_EN_BIT=true)
    (hrest : (w.step cfg c i).regs.prescaler_lo_i.target_reached_o=false) :
    Slow cfg c v (w.step cfg c i) := by
  refine ⟨h.stands_step hv hcfg hi hpre,hrest,?_⟩
  rw [(h.prescaler_step hcfg hi hpre href).1]
  cases hedge : s_ref_clk_edge w.regs with
  | false => exact Or.inl rfl
  | true => exact Or.inr ⟨rfl,(Bool.and_eq_true_iff.mp hedge).1⟩

/-- A prescaler at its target makes a step. -/
theorem Stands.step_at_target (h : Stands cfg c v w) (hcfg : Config cfg c) (hi : Quiet i)
    (hpre : cfg.getLsbD PRESCALER_EN_BIT=true)
    (htarget : w.regs.prescaler_lo_i.target_reached_o=true) :
    (w.step cfg c i).regs.counter_lo_i.s_count_reg=v+1#32 := by
  have hreset : w.regs.s_cfg_lo_reg.getLsbD RESET_BIT=false := h.config ▸ hcfg.reset
  have hmode : w.regs.s_cfg_lo_reg.getLsbD MODE_64_BIT=false := h.config ▸ hcfg.mode
  have hgoes : s_enable_count_lo w.regs=true := by
    rw [s_enable_count_lo,enable_count,h.config,hcfg.enable,hpre,htarget]
    rfl
  refine (step_counter hi w.regs hreset hmode).1.trans ?_
  rw [h.flag,Bool.and_false,if_neg Bool.false_ne_true,if_pos hgoes,h.count]

end Edges

/-- A prescaler at its target when the counter is enabled makes a step at once. -/
theorem rest_of_exact (hcfg : Config cfg c) (h : Enabled cfg c s) (hexact : Exact cfg c s)
    (hpre : cfg.getLsbD PRESCALER_EN_BIT=true) : s.prescaler_lo_i.target_reached_o=false := by
  by_contra hflag
  rw [Bool.not_eq_false] at hflag
  have hstands : Stands cfg c s.counter_lo_i.s_count_reg ⟨s,0,false⟩ :=
    ⟨h.config,h.compare,rfl,h.flag,rfl⟩
  have hcount := hstands.step_at_target hcfg (halfRate_quiet 0) hpre hflag
  have hsteps : steps cfg (clocked cfg c s 1).ticks=0 := by
    have hle : (clocked cfg c s 1).ticks ≤ 1 := by
      show (if tick cfg s=true then 0+1 else 0) ≤ 1
      split_ifs <;> omega
    have hpos := hcfg.prescaler hpre
    rw [steps,if_pos hpre]
    exact Nat.div_eq_of_lt (by omega)
  rcases hexact halfRate halfRate_quiet 1 with heq | ⟨-,-,-,heq,-⟩
  · change (clocked cfg c s 1).regs.counter_lo_i.s_count_reg=
      (advance cfg c)^[steps cfg (clocked cfg c s 1).ticks] _ at heq
    rw [hsteps] at heq
    exact add_one_ne _ (hcount.symm.trans heq)
  · change (advance cfg c)^[steps cfg (clocked cfg c s 1).ticks] _=c at heq
    rw [hsteps] at heq
    exact h.count heq

/-- An enabled counter with its prescaler at rest is slow. -/
theorem Enabled.slow (h : Enabled cfg c s) (hrest : s.prescaler_lo_i.target_reached_o=false) :
    Slow cfg c s.counter_lo_i.s_count_reg ⟨s,0,false⟩ :=
  ⟨⟨h.config,h.compare,rfl,h.flag,rfl⟩,hrest,Or.inl h.prescaler⟩

/-- With a target of two or more no step is ever made. -/
theorem slow_forever (hcfg : Config cfg c) (h : Enabled cfg c s)
    (hrest : s.prescaler_lo_i.target_reached_o=false) (hpre : cfg.getLsbD PRESCALER_EN_BIT=true)
    (href : cfg.getLsbD REF_CLK_EN_BIT=true) (htarget : 2 ≤ target cfg) (t : ℕ) :
    Slow cfg c s.counter_lo_i.s_count_reg (clocked cfg c s t) := by
  induction t with
  | zero => exact h.slow hrest
  | succ t ih =>
    have hnew := ih.prescaler_step hcfg (halfRate_quiet t) hpre href
    refine ih.step h.count hcfg (halfRate_quiet t) hpre href (hnew.2.trans ?_)
    rw [hnew.1,beq_eq_false_iff_ne]
    intro heq
    have hval : target cfg ≤ 1 := by
      unfold target
      rw [←heq]
      split_ifs <;> decide
    omega

/-- The prescaler does not count edges of the reference clock. -/
theorem prescaler_of_exact (hcfg : Config cfg c) (h : Enabled cfg c s) (hexact : Exact cfg c s)
    (hpre : cfg.getLsbD PRESCALER_EN_BIT=true) : cfg.getLsbD REF_CLK_EN_BIT=false := by
  by_contra href
  rw [Bool.not_eq_false] at href
  have hrest := rest_of_exact hcfg h hexact hpre
  have hpos := hcfg.prescaler hpre
  by_cases htarget : 2 ≤ target cfg
  · have hreach : ∃ t, (clocked cfg c s t).ticks=target cfg+1 := exists_ticks _
    rcases hreach with ⟨t,ht⟩
    have hslow := slow_forever hcfg h hrest hpre href htarget t
    rcases hexact halfRate halfRate_quiet t with heq | ⟨-,-,hhit,-⟩
    · have hdue : steps cfg (clocked cfg c s t).ticks=1 := by
        rw [ht,steps,if_pos hpre,Nat.div_self (Nat.succ_pos _)]
      change (clocked cfg c s t).regs.counter_lo_i.s_count_reg=
        (advance cfg c)^[steps cfg (clocked cfg c s t).ticks] _ at heq
      rw [hslow.count,hdue,Function.iterate_one,advance,if_neg h.count] at heq
      exact add_one_ne _ heq.symm
    · exact absurd (hslow.hit.symm.trans hhit) nofun
  · -- with a target of one each edge makes a step
    have hone : target cfg=1 := by omega
    have hgap : prescaler_target cfg=1#32 := BitVec.eq_of_toNat_eq hone
    have hwait : ∀ u, (Slow cfg c s.counter_lo_i.s_count_reg (clocked cfg c s u) ∧
          (clocked cfg c s u).ticks=0) → ¬tick cfg (clocked cfg c s u).regs=true →
        Slow cfg c s.counter_lo_i.s_count_reg (clocked cfg c s (u+1)) ∧
          (clocked cfg c s (u+1)).ticks=0 := by
      rintro u ⟨hslow,hticks⟩ hno
      have hedge : ¬s_ref_clk_edge (clocked cfg c s u).regs=true := fun hedge =>
        hno (by rw [tick,hedge,Bool.or_true])
      have hnew := hslow.prescaler_step hcfg (halfRate_quiet u) hpre href
      rw [if_neg hedge] at hnew
      refine ⟨hslow.step h.count hcfg (halfRate_quiet u) hpre href ?_,?_⟩
      · rw [hnew.2,hnew.1,hgap]
        rfl
      · show (if tick cfg (clocked cfg c s u).regs=true then _ else (clocked cfg c s u).ticks)=0
        rw [if_neg hno,hticks]
    have hfirst : Slow cfg c s.counter_lo_i.s_count_reg (clocked cfg c s 0) ∧
        (clocked cfg c s 0).ticks=0 := ⟨h.slow hrest,rfl⟩
    rcases states_until (W:=fun w : Watch => Slow cfg c s.counter_lo_i.s_count_reg w ∧ w.ticks=0)
      (G:=fun u => tick cfg (clocked cfg c s u).regs=true) hwait hfirst (exists_tick 0)
      with ⟨u,-,⟨hslow,hticks⟩,htick⟩
    change Slow cfg c s.counter_lo_i.s_count_reg (clocked cfg c s u) at hslow
    change (clocked cfg c s u).ticks=0 at hticks
    have hedge : s_ref_clk_edge (clocked cfg c s u).regs=true := by
      rw [tick,href] at htick
      exact htick
    have hnew := hslow.prescaler_step hcfg (halfRate_quiet u) hpre href
    have htarget' : (clocked cfg c s (u+1)).regs.prescaler_lo_i.target_reached_o=true := by
      rw [clocked_succ,hnew.2,hnew.1,if_pos hedge,hgap]
      rfl
    have hstands := hslow.stands_step h.count hcfg (halfRate_quiet u) hpre
    have hcount := Stands.step_at_target hstands hcfg (halfRate_quiet (u+1)) hpre htarget'
    have hdue : steps cfg (clocked cfg c s (u+2)).ticks=0 := by
      have hfirst : (clocked cfg c s (u+1)).ticks=1 := by
        show (if tick cfg (clocked cfg c s u).regs=true then (clocked cfg c s u).ticks+1 else _)=1
        rw [if_pos htick,hticks]
      have hlast : tick cfg (clocked cfg c s (u+1)).regs=false := by
        have hold : (clocked cfg c s u).regs.s_ref_clk1=true := (Bool.and_eq_true_iff.mp hedge).1
        show (!cfg.getLsbD REF_CLK_EN_BIT || ((clocked cfg c s u).regs.s_ref_clk0 &&
          !(clocked cfg c s u).regs.s_ref_clk1))=false
        rw [href,hold,Bool.not_true,Bool.and_false]
        rfl
      have hsecond : (clocked cfg c s (u+2)).ticks=1 := by
        show (if tick cfg (clocked cfg c s (u+1)).regs=true then _
          else (clocked cfg c s (u+1)).ticks)=1
        rw [hlast,if_neg Bool.false_ne_true,hfirst]
      rw [hsecond,steps,if_pos hpre,hone]
    rcases hexact halfRate halfRate_quiet (u+2) with heq | ⟨-,-,-,heq,-⟩
    · change (clocked cfg c s (u+2)).regs.counter_lo_i.s_count_reg=
        (advance cfg c)^[steps cfg (clocked cfg c s (u+2)).ticks] _ at heq
      rw [hdue] at heq
      exact add_one_ne _ (hcount.symm.trans heq)
    · change (advance cfg c)^[steps cfg (clocked cfg c s (u+2)).ticks] _=c at heq
      rw [hdue] at heq
      exact h.count heq

/-- Count and steps in the clock after a match. -/
theorem Running.after_match {v : BitVec 32} {w : Watch} {i : Input} (h : Running cfg c v w)
    (hcfg : Config cfg c) (hi : Quiet i)
    (hboth : cfg.getLsbD PRESCALER_EN_BIT=true → cfg.getLsbD REF_CLK_EN_BIT=false)
    (hflag : w.regs.counter_lo_i.target_reached_o=true) :
    (w.step cfg c i).regs.counter_lo_i.s_count_reg=
        (if cfg.getLsbD CMP_CLR_BIT=true then 0#32 else if goes cfg w=true then c+1#32 else c) ∧
      (advance cfg c)^[steps cfg (w.step cfg c i).ticks] v=
        if goes cfg w=true then advance cfg c c else c := by
  have hreset : w.regs.s_cfg_lo_reg.getLsbD RESET_BIT=false := h.config ▸ hcfg.reset
  have hmode : w.regs.s_cfg_lo_reg.getLsbD MODE_64_BIT=false := h.config ▸ hcfg.mode
  have hcount : w.regs.counter_lo_i.s_count_reg=c := beq_iff_eq.mp (h.flag.symm.trans hflag)
  have hcounter := (step_counter hi w.regs hreset hmode).1
  have hgoes : s_enable_count_lo w.regs=goes cfg w := by
    rw [s_enable_count_lo,h.config]
    rfl
  rw [hgoes,h.config,hflag,Bool.and_true,hcount] at hcounter
  refine ⟨hcounter,?_⟩
  rw [h.steps_step hcfg hboth]
  split_ifs
  · rw [Function.iterate_succ_apply',←h.count,hcount]
  · rw [Nat.add_zero,←h.count,hcount]

/-- Only regular configurations count right. -/
theorem regular_of_exact (hcfg : Config cfg c) (h : Enabled cfg c s) (hexact : Exact cfg c s) :
    Regular cfg := by
  have hboth := prescaler_of_exact hcfg h hexact
  have hrest := rest_of_exact hcfg h hexact
  rcases exists_match hcfg h hboth hrest with ⟨u,hrun,hlow,hmatch⟩
  have hgoes := hrun.goes_of_match hcfg hboth (halfRate_quiet u) hlow hmatch
  have hrun' : Running cfg c s.counter_lo_i.s_count_reg (clocked cfg c s (u+1)) :=
    hrun.step_below hcfg hboth (halfRate_quiet u) hlow
  have hafter := hrun'.after_match hcfg (halfRate_quiet (u+1)) hboth hmatch
  have hshows : (clocked cfg c s (u+2)).Shows cfg c s.counter_lo_i.s_count_reg :=
    hexact halfRate halfRate_quiet (u+2)
  rw [Watch.Shows,clocked_succ (u+1),hafter.1,hafter.2] at hshows
  refine ⟨hboth,fun hclear hshot => ?_,fun hshot hclear => ?_⟩
  · by_contra hslow
    rw [not_and_or,Bool.not_eq_false,Bool.not_eq_false] at hslow
    have hstill : goes cfg (clocked cfg c s (u+1))=false :=
      hrun.rests hcfg (halfRate_quiet u) hboth hslow hgoes
    rw [hstill,hclear,if_pos rfl,if_neg Bool.false_ne_true] at hshows
    rcases hshows with heq | ⟨hone,-⟩
    · exact hcfg.compare heq.symm
    · exact absurd (hshot.symm.trans hone) nofun
  · by_contra hcore
    rw [not_or,Bool.not_eq_true,Bool.not_eq_true] at hcore
    have hgo : goes cfg (clocked cfg c s (u+1))=true := by
      rw [goes,enable_count,hcfg.enable,hcore.1,hcore.2]
      rfl
    rw [hgo,hclear,if_neg Bool.false_ne_true,if_pos rfl,if_pos rfl,advance,if_pos rfl,
      if_pos hshot] at hshows
    rcases hshows with heq | ⟨-,hone,-⟩
    · exact add_one_ne _ heq
    · exact absurd hone nofun

/-- From an enable on the count is right in all clocks, whatever the reference clock does, exactly
in the regular configurations with a prescaler that is not at its target when the counter is
enabled. -/
theorem ticks_exactly (hcfg : Config cfg c) (h : Enabled cfg c s) :
    Exact cfg c s ↔ Regular cfg ∧
      (cfg.getLsbD PRESCALER_EN_BIT=true → s.prescaler_lo_i.target_reached_o=false) :=
  ⟨fun hexact => ⟨regular_of_exact hcfg h hexact,rest_of_exact hcfg h hexact⟩,
    fun hright => exact_of_regular hcfg h hright.1 hright.2⟩

end Runs

/-- The unit after writes of the compare value and of the configuration without its enable, and of
the enable two clocks later. -/
def configured (cfg c : BitVec 32) : State :=
  [writing TIMER_CMP_LO c,writing CFG_REG_LO (setBit cfg ENABLE_BIT false),idle,
    writing CFG_REG_LO cfg].foldl TimerUnit.step reset

/-- A prescaler with a target of one, without compare-clear. -/
theorem ticks_exactly_prescaled : Exact 0x141#32 2#32 (configured 0x141#32 2#32) := by
  have hcfg : Config 0x141#32 2#32 := ⟨by decide,by decide,by decide,by decide,by decide⟩
  have henabled : Enabled 0x141#32 2#32 (configured 0x141#32 2#32) :=
    ⟨by decide,by decide,by decide,by decide,by decide⟩
  have hregular : Regular 0x141#32 := ⟨by decide,by decide,by decide⟩
  exact (ticks_exactly hcfg henabled).mpr ⟨hregular,by decide⟩

/-- With compare-clear the same prescaler leaves the count at two for one clock only: it is cleared
before the next step is due. -/
theorem cleared_between_steps : Config 0x151#32 2#32 ∧
    Enabled 0x151#32 2#32 (configured 0x151#32 2#32) ∧
    ¬Exact 0x151#32 2#32 (configured 0x151#32 2#32) := by
  refine ⟨⟨by decide,by decide,by decide,by decide,by decide⟩,
    ⟨by decide,by decide,by decide,by decide,by decide⟩,fun hexact => ?_⟩
  rcases hexact (fun _ => idle) (fun _ => ⟨rfl,nofun⟩) 5 with heq | ⟨hshot,-⟩
  · exact absurd heq (by decide +kernel)
  · exact absurd hshot (by decide)

end Pulpissimo.Timer.TimerTicks

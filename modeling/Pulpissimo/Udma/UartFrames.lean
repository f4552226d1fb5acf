import Pulpissimo.Lib.Machine
import Pulpissimo.Udma.UartTx

/-!
# The frames of the transmitter

The enable of the transmitter comes and goes as it likes. The frame of every byte that is accepted
with a clean bit counter runs bit by bit for as long as the enable lasts. Its start bit is one cycle
longer than the others, since the pulse that ends a bit comes a cycle after the divider. The
counter is clean unless a disable has cut the data bits of a frame.
-/

namespace Pulpissimo.Udma.UartFrames

open Pulpissimo.Machine Pulpissimo.BitClock Pulpissimo.Udma.UartTx

/-- The transmitter with what was accepted. -/
structure Sys where
  s : State
  /-- The byte of the frame on the line, and the cycles since it was accepted. -/
  frame : Option (BitVec 8 × ℕ)
  /-- The data bits of a frame were cut, and none have been completed since. -/
  cut : Bool

def start : Sys := ⟨reset,none,false⟩

section Code

variable (cfg : Cfg) (u : Sys) (i : Input)

/-- A byte is accepted. -/
def accepts : Bool := i.tx_valid_i && tx_ready_o u.s i

/-- The frame goes on while the enable lasts, up to its end. -/
def frameNext : Option (BitVec 8 × ℕ) :=
  if i.cfg_en_i then
    if accepts u i then if u.cut then none else some (i.tx_data_i,0)
    else u.frame.bind fun f => if f.2 < cfg.bits*cfg.P then some (f.1,f.2+1) else none
  else none

/-- A disable between the end of the first data bit and that of the last one. -/
def cuts : Bool := !i.cfg_en_i && decide (u.s.CS=.DATA) && reg_bit_count_next cfg u.s != 0

/-- The last data bit ends. -/
def completes : Bool :=
  decide (u.s.CS=.DATA) && u.s.bit_done && u.s.reg_bit_count==s_target_bits cfg

/-- One cycle. -/
def next : Sys where
  s := step cfg u.s i
  frame := frameNext cfg u i
  cut := cuts cfg u i || (u.cut && !completes cfg u)

end Code

/-- The bit of a frame in a cycle: the first one lasts two cycles more than the divider, the
others one. -/
def bitAt (cfg : Cfg) (p : ℕ) : ℕ :=
  if p < cfg.cfg_div_i.toNat+2 then 0
  else (p-(cfg.cfg_div_i.toNat+2))/(cfg.cfg_div_i.toNat+1)+1

/-- Cycles of a frame. -/
def length (cfg : Cfg) : ℕ := (cfg.cfg_div_i.toNat+1)*cfg.bits+1

/-- The line carries the frame of the byte, with a bit in each cycle as `place` has it. -/
structure Framed (place : Cfg → ℕ → ℕ) (cfg : Cfg) (u : Sys) (i : Input) : Prop where
  /-- The line is at the level of the bit. -/
  line : ∀ f,u.frame=some f → tx_o u.s=level cfg f.1 (place cfg f.2)
  /-- No byte is accepted meanwhile. -/
  alone : u.frame≠none → tx_ready_o u.s i=false
  /-- A frame begins exactly where a byte is accepted. -/
  begins : u.s.CS≠.START_BIT ∧ (step cfg u.s i).CS=.START_BIT ↔ accepts u i=true
  /-- A frame ends after its last bit. -/
  ends : ∀ f,u.frame=some f → i.cfg_en_i=true →
    ((step cfg u.s i).CS=.IDLE ↔ f.2+1=length cfg)
  idle : u.s.CS=.IDLE → tx_o u.s=true

/-- The bits as slots of the divider. -/
theorem bitAt_eq (cfg : Cfg) (p : ℕ) : bitAt cfg p=slot cfg.P p := by
  unfold bitAt slot Cfg.P
  by_cases hfirst : p < cfg.cfg_div_i.toNat+2
  · rw [if_pos hfirst,Nat.div_eq_of_lt (by omega)]
  · have hplace : p-1=p-(cfg.cfg_div_i.toNat+2)+(cfg.cfg_div_i.toNat+1) := by omega
    rw [if_neg hfirst,hplace,Nat.add_div_right _ (Nat.succ_pos _)]

/-- The frame is in one of its bits, and a counter that was not cut is clean outside of the data. -/
structure Inv (cfg : Cfg) (u : Sys) : Prop where
  bound : ∀ f,u.frame=some f → f.2 ≤ cfg.bits*cfg.P
  sends : ∀ f,u.frame=some f → Sends cfg f.1 (slot cfg.P f.2) u.s
  ticks : ∀ f,u.frame=some f → Ticks cfg.P f.2 u.s.baud_cnt u.s.bit_done
  clean : u.cut=false → u.s.CS≠.DATA → u.s.reg_bit_count=0#3

section Inv

variable {cfg : Cfg} {u : Sys} {i : Input}

theorem inv_start (cfg : Cfg) : Inv cfg start :=
  ⟨fun _ h => (nomatch h),fun _ h => (nomatch h),fun _ h => (nomatch h),fun _ _ => rfl⟩

theorem P_pos (cfg : Cfg) : 0 < cfg.P := Nat.succ_pos _

/-- The frame ends with its last bit. -/
theorem slot_lt_bits {p : ℕ} (hp : p ≤ cfg.bits*cfg.P) : slot cfg.P p < cfg.bits := by
  have hbits : 0 < cfg.bits := Nat.lt_add_right _ (Nat.succ_pos _)
  have hpos : 0 < cfg.bits*cfg.P := Nat.mul_pos hbits (P_pos cfg)
  rw [slot_lt (P_pos cfg)]
  omega

theorem Inv.busy (h : Inv cfg u) {f : BitVec 8 × ℕ} (hf : u.frame=some f) : u.s.CS≠.IDLE := by
  rw [(h.sends f hf).stage,Ne,stage_idle_iff,Nat.not_le]
  exact slot_lt_bits (h.bound f hf)

/-- One more cycle of a frame. -/
theorem Inv.sends_step (h : Inv cfg u) {f : BitVec 8 × ℕ} (hf : u.frame=some f)
    (hen : i.cfg_en_i=true) : Sends cfg f.1 (slot cfg.P (f.2+1)) (step cfg u.s i) := by
  have hlt := slot_lt_bits (h.bound f hf)
  cases hdone : u.s.bit_done with
  | false =>
    rw [(h.ticks f hf).slot_of_not_done hdone]
    exact (h.sends f hf).stay hen hlt hdone
  | true =>
    rw [(h.ticks f hf).slot_of_done hdone]
    exact (h.sends f hf).next hen hlt hdone

/-- The divider goes on with the frame. -/
theorem Inv.ticks_step (h : Inv cfg u) {f : BitVec 8 × ℕ} (hf : u.frame=some f) :
    Ticks cfg.P (f.2+1) (step cfg u.s i).baud_cnt (step cfg u.s i).bit_done := by
  have hen : baudgen_en u.s=true := decide_eq_true (h.busy hf)
  simp only [step,hen,if_true]
  exact (h.ticks f hf).next rfl

/-- A byte is accepted by an idle transmitter, and its divider has not begun. -/
theorem accepts_iff : accepts u i=true ↔
    i.tx_valid_i=true ∧ u.s.CS=.IDLE ∧ i.cfg_en_i=true := by
  rw [accepts,tx_ready_o,Bool.and_eq_true_iff,Bool.and_eq_true_iff,decide_eq_true_iff]

theorem ticks_start (hidle : u.s.CS=.IDLE) :
    Ticks cfg.P 0 (step cfg u.s i).baud_cnt (step cfg u.s i).bit_done := by
  have hen : baudgen_en u.s=false := decide_eq_false (not_not.mpr hidle)
  simp only [step,hen,Bool.false_eq_true,if_false]
  exact ⟨(Nat.zero_mod _).symm,rfl⟩

/-- The counter is clean outside of the data, unless a disable cuts them. -/
theorem Inv.clean_step (h : Inv cfg u) (hcut : (next cfg u i).cut=false)
    (hdata : (step cfg u.s i).CS≠.DATA) : (step cfg u.s i).reg_bit_count=0#3 := by
  have hcuts : cuts cfg u i=false := (Bool.or_eq_false_iff.mp hcut).1
  have hkeep : (u.cut && !completes cfg u)=false := (Bool.or_eq_false_iff.mp hcut).2
  by_cases hcs : u.s.CS=.DATA
  · -- The data are left with the last bit or with a disable.
    cases hen : i.cfg_en_i with
    | false =>
      rw [cuts,hen,decide_eq_true hcs] at hcuts
      simpa [step] using hcuts
    | true =>
      have hcs' : (step cfg u.s i).CS=NS cfg u.s i := step_CS hen
      have hlast : (u.s.bit_done && u.s.reg_bit_count==s_target_bits cfg)=true := by
        by_contra hno
        refine hdata (hcs'.trans ?_)
        simp only [NS,hcs,if_neg hno]
      obtain ⟨hdone,htarget⟩ := Bool.and_eq_true_iff.mp hlast
      simp only [step,reg_bit_count_next,hcs,hdone,htarget,if_true]
  · have hcomplete : completes cfg u=false := by
      rw [completes,decide_eq_false hcs,Bool.false_and,Bool.false_and]
    rw [hcomplete,Bool.not_false,Bool.and_true] at hkeep
    have hsame : (step cfg u.s i).reg_bit_count=u.s.reg_bit_count := by
      simp only [step,reg_bit_count_next]
    exact hsame.trans (h.clean hkeep hcs)

/-- What a frame is after a cycle. -/
theorem frameNext_cases {f : BitVec 8 × ℕ} (hf : frameNext cfg u i=some f) :
    i.cfg_en_i=true ∧ ((accepts u i=true ∧ u.cut=false ∧ f=(i.tx_data_i,0)) ∨
      ∃ e,u.frame=some e ∧ e.2 < cfg.bits*cfg.P ∧ f=(e.1,e.2+1)) := by
  unfold frameNext at hf
  split_ifs at hf with hen haccept hcut
  · exact ⟨hen,.inl ⟨haccept,Bool.eq_false_of_not_eq_true hcut,(Option.some.inj hf).symm⟩⟩
  · obtain ⟨e,he,hnext⟩ := Option.bind_eq_some_iff.mp hf
    split_ifs at hnext with hlt
    exact ⟨hen,.inr ⟨e,he,hlt,(Option.some.inj hnext).symm⟩⟩

theorem Inv.next (h : Inv cfg u) (i : Input) : Inv cfg (UartFrames.next cfg u i) := by
  refine ⟨fun f hf => ?_,fun f hf => ?_,fun f hf => ?_,h.clean_step⟩
  all_goals obtain ⟨hen,⟨haccept,hcut,rfl⟩ | ⟨e,he,hlt,rfl⟩⟩ := frameNext_cases hf
  · exact Nat.zero_le _
  · exact hlt
  · obtain ⟨hvalid,hidle,-⟩ := accepts_iff.mp haccept
    have hzero := h.clean hcut (by rw [hidle]; decide)
    rw [slot_zero]
    exact Sends.start hidle hzero hen hvalid
  · exact h.sends_step he hen
  · exact ticks_start (accepts_iff.mp haccept).2.1
  · exact h.ticks_step he

/-- The start bit is entered from the idle state only. -/
theorem begins_iff : u.s.CS≠.START_BIT ∧ (step cfg u.s i).CS=.START_BIT ↔ accepts u i=true := by
  rw [accepts_iff]
  cases hen : i.cfg_en_i with
  | false => simp [step,hen]
  | true =>
    rw [step_CS hen]
    unfold NS
    cases hcs : u.s.CS <;> simp <;> split_ifs <;> simp_all

/-- In every cycle the frame is as it should be. -/
theorem Inv.framed (h : Inv cfg u) (i : Input) : Framed bitAt cfg u i := by
  refine ⟨fun f hf => ?_,fun hne => ?_,begins_iff,fun f hf hen => ?_,fun hidle => ?_⟩
  · rw [bitAt_eq]
    exact (h.sends f hf).line
  · obtain ⟨f,hf⟩ := Option.ne_none_iff_exists'.mp hne
    rw [tx_ready_o,decide_eq_false (h.busy hf),Bool.false_and]
  · have hbound := h.bound f hf
    rw [(h.sends_step hf hen).stage,stage_idle_iff,le_slot (P_pos cfg),length,Nat.mul_comm]
    unfold Cfg.P at hbound ⊢
    rw [Nat.mul_comm cfg.bits] at hbound
    omega
  · rw [tx_o,hidle]

end Inv

/-- In every run each frame of a byte that is accepted after no cut has its bits on the line, the
start bit for one cycle more than the others, and a frame begins exactly with a byte. -/
theorem frames_run (cfg : Cfg) (is : List Input) :
    Meets (next cfg) (Framed bitAt cfg) start is :=
  meets_of_invariant (fun _ i h => h.next i) (fun _ i h => h.framed i) (inv_start cfg) is

/-- The start bit is not as long as the others. -/
theorem not_even_start : ¬Meets (next ⟨0,false,3,false⟩)
    (Framed (fun cfg p => p/(cfg.cfg_div_i.toNat+1)) ⟨0,false,3,false⟩) start
    [⟨true,0xFF,true⟩,⟨true,0,false⟩,⟨true,0,false⟩] := by
  intro h
  exact absurd (h.2.2.1.line (0xFF,1) rfl) (by decide)

/-- After a cut the frame is short. Five data bits are configured and the first frame is disabled
at the end of the third one; the next frame has two of them. -/
example : (after (next ⟨0,false,0,false⟩) start
      ([⟨true,0,true⟩]++List.replicate 4 ⟨true,0,false⟩++[⟨false,0,false⟩,⟨true,0,true⟩]++
        List.replicate 5 ⟨true,0,false⟩)).s.CS=.IDLE ∧
    length ⟨0,false,0,false⟩=8 := by decide +kernel

end Pulpissimo.Udma.UartFrames

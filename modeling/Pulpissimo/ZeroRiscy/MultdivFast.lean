import Pulpissimo.ZeroRiscy.LongDivider

/-!
# The fast multiplier and divider of zero-riscy

`zeroriscy_multdiv_fast` multiplies with one 16 by 16 bit kernel in three or four cycles
and divides bit by bit with the adder of the ALU. The accumulator of the multiplier holds
the remainder of the division.
-/

namespace Pulpissimo.ZeroRiscy.MultdivFast

open Pulpissimo.Machine Pulpissimo.Signed
open Pulpissimo.Riscv Pulpissimo.ZeroRiscy.ExBlock Pulpissimo.ZeroRiscy.LongDivider

/-- `mult_state_q`. -/
inductive MultState where
  | ALBL
  | ALBH
  | AHBL
  | AHBH
  deriving DecidableEq

/-- Registers. -/
structure State where
  mult_state_q : MultState
  mac_res_q : BitVec 34
  div_counter_q : BitVec 5
  divcurr_state_q : MdState
  op_denominator_q : BitVec 32
  op_numerator_q : BitVec 32
  op_quotient_q : BitVec 32

/-- Values after reset. -/
def reset : State := ⟨.ALBL,0,0,.MD_IDLE,0,0,0⟩

section Multiplier

def OP_L (x : BitVec 32) : BitVec 16 := x.extractLsb' 0 16

def OP_H (x : BitVec 32) : BitVec 16 := x.extractLsb' 16 16

/-- What the multiplier state gives the kernel. -/
structure Kernel where
  mult_op_a : BitVec 16
  mult_op_b : BitVec 16
  sign_a : Bool
  sign_b : Bool
  accum : BitVec 34

variable (s : State) (o : Md)

def kernel : Kernel :=
  match s.mult_state_q with
  | .ALBL => ⟨OP_L o.op_a_i,OP_L o.op_b_i,false,false,0⟩
  | .ALBH =>
    ⟨OP_L o.op_a_i,OP_H o.op_b_i,false,o.signed_mode_i.getLsbD 1 && o.op_b_i.getLsbD 31,
      0#18++s.mac_res_q.extractLsb' 16 16⟩
  | .AHBL =>
    ⟨OP_H o.op_a_i,OP_L o.op_b_i,o.signed_mode_i.getLsbD 0 && o.op_a_i.getLsbD 31,false,
      if o.operator_i=.MULL then 0#18++s.mac_res_q.extractLsb' 16 16 else s.mac_res_q⟩
  | .AHBH =>
    ⟨OP_H o.op_a_i,OP_H o.op_b_i,o.signed_mode_i.getLsbD 0 && o.op_a_i.getLsbD 31,
      o.signed_mode_i.getLsbD 1 && o.op_b_i.getLsbD 31,
      BitVec.fill 16 (o.signed_mode_i != 0 && s.mac_res_q.getLsbD 33)++s.mac_res_q.extractLsb' 16 18⟩

/-- The multiply-accumulate path. -/
def mac_res : BitVec 34 :=
  let k := kernel s o
  ((BitVec.cons k.sign_a k.mult_op_a).signExtend 35*(BitVec.cons k.sign_b k.mult_op_b).signExtend 35+
    k.accum.signExtend 35).setWidth 34

def mac_res_n : BitVec 34 :=
  match s.mult_state_q,o.operator_i with
  | .ALBH,.MULL => 0#2++((mac_res s o).extractLsb' 0 16++s.mac_res_q.extractLsb' 0 16)
  | .AHBL,.MULL => 0#2++((mac_res s o).extractLsb' 0 16++s.mac_res_q.extractLsb' 0 16)
  | _,_ => mac_res s o

def mult_state_n : MultState :=
  match s.mult_state_q with
  | .ALBL => .ALBH
  | .ALBH => .AHBL
  | .AHBL => if o.operator_i=.MULL then .ALBL else .AHBH
  | .AHBH => .ALBL

def mult_is_ready : Bool :=
  match s.mult_state_q with
  | .AHBL => decide (o.operator_i=.MULL)
  | .AHBH => true
  | _ => false

end Multiplier

section Divider

variable (s : State) (o : Md)

/-- The operands the divider state gives the adder. -/
def alu_operand_a_o : BitVec 33 :=
  match s.divcurr_state_q with
  | .MD_COMP | .MD_LAST => s.mac_res_q.extractLsb' 0 32++1#1
  | _ => zeroOperand

def alu_operand_b_o : BitVec 33 :=
  match s.divcurr_state_q with
  | .MD_ABS_A => negOperand o.op_a_i
  | .MD_COMP | .MD_LAST => negOperand s.op_denominator_q
  | .MD_CHANGE_SIGN => negOperand (s.mac_res_q.extractLsb' 0 32)
  | _ => negOperand o.op_b_i

def div_sign_a : Bool := o.op_a_i.getLsbD 31 && o.signed_mode_i.getLsbD 0

def div_sign_b : Bool := o.op_b_i.getLsbD 31 && o.signed_mode_i.getLsbD 1

def div_change_sign : Bool := div_sign_a o ^^ div_sign_b o

def rem_change_sign : Bool := div_sign_a o

variable (ad : Adder)

def res_adder_h : BitVec 33 := ad.alu_adder_ext_i.extractLsb' 1 33

/-- The remainder is at least the divisor. -/
def greater : Bool :=
  is_greater_equal (s.mac_res_q.extractLsb' 0 32) s.op_denominator_q (res_adder_h ad)

def next_reminder : BitVec 33 := if greater s ad then res_adder_h ad else s.mac_res_q.extractLsb' 0 33

def next_quotient : BitVec 32 :=
  if greater s ad then s.op_quotient_q ||| 1#32<<<s.div_counter_q.toNat else s.op_quotient_q

/-- Next values of the divider's registers. -/
structure DivNext where
  div_counter_n : BitVec 5
  op_reminder_n : BitVec 34
  op_quotient_n : BitVec 32
  divcurr_state_n : MdState
  op_numerator_n : BitVec 32
  op_denominator_n : BitVec 32

/-- The divider's machine. -/
def div_fsm : DivNext :=
  let hold : DivNext := ⟨s.div_counter_q-1,s.mac_res_q,s.op_quotient_q,s.divcurr_state_q,
    s.op_numerator_q,s.op_denominator_q⟩
  match s.divcurr_state_q with
  | .MD_IDLE =>
    { hold with
      op_reminder_n := if o.operator_i=.DIV then BitVec.allOnes 34 else o.op_a_i.setWidth 34
      divcurr_state_n := if ad.equal_to_zero then .MD_FINISH else .MD_ABS_A
      div_counter_n := 31 }
  | .MD_ABS_A =>
    { hold with
      op_quotient_n := 0
      op_numerator_n := if div_sign_a o then ad.alu_adder_i else o.op_a_i
      divcurr_state_n := .MD_ABS_B
      div_counter_n := 31 }
  | .MD_ABS_B =>
    { hold with
      op_reminder_n := 0#33++BitVec.ofBool (s.op_numerator_q.getLsbD 31)
      op_denominator_n := if div_sign_b o then ad.alu_adder_i else o.op_b_i
      divcurr_state_n := .MD_COMP
      div_counter_n := 31 }
  | .MD_COMP =>
    { hold with
      op_reminder_n := 0#1++((next_reminder s ad).extractLsb' 0 32++
        BitVec.ofBool (s.op_numerator_q.getLsbD (s.div_counter_q-1).toNat))
      op_quotient_n := next_quotient s ad
      divcurr_state_n := if s.div_counter_q=1 then .MD_LAST else .MD_COMP }
  | .MD_LAST =>
    { hold with
      op_reminder_n := if o.operator_i=.DIV then (next_quotient s ad).setWidth 34
        else 0#2++(next_reminder s ad).extractLsb' 0 32
      divcurr_state_n := .MD_CHANGE_SIGN }
  | .MD_CHANGE_SIGN =>
    { hold with
      op_reminder_n :=
        if if o.operator_i=.DIV then div_change_sign o else rem_change_sign o then
          ad.alu_adder_i.setWidth 34
        else s.mac_res_q
      divcurr_state_n := .MD_FINISH }
  | .MD_FINISH => { hold with divcurr_state_n := .MD_IDLE }

end Divider

/-- One clock edge. -/
def step (s : State) (o : Md) (ad : Adder) : State :=
  let d := div_fsm s o ad
  { mult_state_q := if o.mult_en_i then mult_state_n s o else s.mult_state_q
    mac_res_q := if o.mult_en_i then mac_res_n s o else if o.div_en_i then d.op_reminder_n
      else s.mac_res_q
    div_counter_q := if o.div_en_i then d.div_counter_n else s.div_counter_q
    divcurr_state_q := if o.div_en_i then d.divcurr_state_n else s.divcurr_state_q
    op_denominator_q := if o.div_en_i then d.op_denominator_n else s.op_denominator_q
    op_numerator_q := if o.div_en_i then d.op_numerator_n else s.op_numerator_q
    op_quotient_q := if o.div_en_i then d.op_quotient_n else s.op_quotient_q }

def multdiv_result_o (s : State) (o : Md) : BitVec 32 :=
  if o.div_en_i then s.mac_res_q.extractLsb' 0 32 else (mac_res_n s o).extractLsb' 0 32

def ready_o (s : State) (o : Md) : Bool := mult_is_ready s o || s.divcurr_state_q=.MD_FINISH

/-- The unit as the execute block has it, `MULT_TYPE` 1. -/
def unit : Multdiv State where
  slow := false
  reset := reset
  alu_operand_a_o := fun s _ => alu_operand_a_o s
  alu_operand_b_o := alu_operand_b_o
  multdiv_result_o := fun s o _ => multdiv_result_o s o
  ready_o := ready_o
  step := step

/-- Both machines are idle. -/
structure Idle (s : State) : Prop where
  mult : s.mult_state_q=.ALBL
  div : s.divcurr_state_q=.MD_IDLE

section Division

variable {o : Md} {sign : Bool} {s : State} {i : Input}

/-- The adder's sum in a cycle of a division. -/
def divSum (s : State) (o : Md) : Adder := adder (alu_operand_a_o s) (alu_operand_b_o s o)

/-- In a division the registers of the divider move, and the accumulator with them. -/
theorem step_div (h : Divides o sign) (hi : i.md=o) : ExBlock.step unit s i=
    ⟨s.mult_state_q,(div_fsm s o (divSum s o)).op_reminder_n,(div_fsm s o (divSum s o)).div_counter_n,
      (div_fsm s o (divSum s o)).divcurr_state_n,(div_fsm s o (divSum s o)).op_denominator_n,
      (div_fsm s o (divSum s o)).op_numerator_n,(div_fsm s o (divSum s o)).op_quotient_n⟩ := by
  have hsum : sum unit s i=divSum s o := by
    rw [sum_eq]
    · rw [hi]
      rfl
    · rw [hi]
      exact h.div
  unfold ExBlock.step
  rw [hsum,hi]
  change step s o _=_
  simp only [step,h.mult,h.div,if_true,Bool.false_eq_true,if_false]

/-- The words of the divider. The accumulator is the remainder. -/
def view (s : State) : Words :=
  ⟨s.divcurr_state_q,s.mac_res_q.extractLsb' 0 32,s.op_denominator_q,s.op_numerator_q,s.op_quotient_q⟩

section Compare

variable (hs : s.divcurr_state_q=.MD_COMP ∨ s.divcurr_state_q=.MD_LAST)

include hs

theorem divSum_compare : divSum s o=adder (s.mac_res_q.extractLsb' 0 32++1#1)
    (negOperand s.op_denominator_q) := by
  unfold divSum alu_operand_a_o alu_operand_b_o
  rcases hs with hs | hs <;> rw [hs]

/-- The comparison is that of the words. -/
theorem greater_iff : greater s (divSum s o)=true ↔ (view s).denominator ≤ (view s).reminder := by
  unfold greater res_adder_h
  rw [divSum_compare hs,compare_eq,decide_eq_true_iff]
  rfl

theorem next_reminder_low :
    (next_reminder s (divSum s o)).extractLsb' 0 32=(view s).reduced := by
  unfold next_reminder Words.reduced
  by_cases hfit : (view s).denominator ≤ (view s).reminder
  · rw [if_pos ((greater_iff hs).mpr hfit),if_pos hfit,←BitVec.setWidth_eq_extractLsb' (by omega)]
    unfold res_adder_h
    rw [divSum_compare hs,setWidth_difference]
    rfl
  · rw [if_neg (mt (greater_iff hs).mp hfit),if_neg hfit,
      BitVec.extractLsb'_extractLsb'_of_le (by omega)]
    rfl

theorem next_quotient_eq :
    next_quotient s (divSum s o)=(view s).extended s.div_counter_q := by
  unfold next_quotient Words.extended
  rw [if_congr (greater_iff hs) rfl rfl]
  rfl

end Compare

/-- The unit divides on its words. -/
theorem refines : Refines unit view State.div_counter_q (fun s => s.mult_state_q=.ALBL) Idle where
  words := by
    intro o sign s i h hi
    rw [step_div h hi]
    unfold view
    cases hs : s.divcurr_state_q with
    | MD_IDLE =>
      simp only [div_fsm,divSum,alu_operand_a_o,alu_operand_b_o,hs,Words.next,equal_to_zero_iff]
      congr 1
      split_ifs
      · rfl
      · exact low_setWidth (by omega) o.op_a_i
    | MD_ABS_A =>
      simp only [div_fsm,divSum,alu_operand_a_o,alu_operand_b_o,hs,Words.next,negate]
      rfl
    | MD_ABS_B =>
      simp only [div_fsm,divSum,alu_operand_a_o,alu_operand_b_o,hs,Words.next,negate]
      congr 1
      rw [zero_append,zero_append,←BitVec.setWidth_eq_extractLsb' (by omega)]
      exact BitVec.setWidth_setWidth_of_le _ (by omega)
    | MD_COMP =>
      have hrem := next_reminder_low (o:=o) (Or.inl hs)
      have hquot := next_quotient_eq (o:=o) (Or.inl hs)
      unfold view at hrem hquot
      rw [hs] at hrem hquot
      simp only [div_fsm,hs,Words.next,hrem,hquot]
      congr 1
      exact (low_zero_append _).trans (low_append ..)
    | MD_LAST =>
      have hrem := next_reminder_low (o:=o) (Or.inr hs)
      have hquot := next_quotient_eq (o:=o) (Or.inr hs)
      unfold view at hrem hquot
      rw [hs] at hrem hquot
      simp only [div_fsm,hs,Words.next,hrem,hquot,zero_append]
      congr 1
      split_ifs
      · exact low_setWidth (by omega) _
      · exact low_setWidth (by omega) _
    | MD_CHANGE_SIGN =>
      simp only [div_fsm,divSum,alu_operand_a_o,alu_operand_b_o,hs,Words.next,negate]
      congr 1
      change BitVec.extractLsb' 0 32 (if changes o=true then _ else _)=_
      split_ifs
      · exact low_setWidth (by omega) _
      · rfl
    | MD_FINISH => simp only [div_fsm,hs,Words.next]
  rest := by
    intro o sign s i h hi hr
    rw [step_div h hi]
    exact hr
  start := by
    intro o sign s i h hi hp
    rw [step_div h hi]
    change s.divcurr_state_q=_ at hp
    simp only [div_fsm,hp]
  hold := by
    intro o sign s i h hi hp hc
    rw [step_div h hi]
    change s.divcurr_state_q=_ ∨ s.divcurr_state_q=_ at hp
    rcases hp with hp | hp <;> simp only [div_fsm,hp]
  count := by
    intro o sign s i h hi hp
    rw [step_div h hi]
    change s.divcurr_state_q=_ at hp
    simp only [div_fsm,hp]
  ready := by
    intro o sign s h hr
    change ready_o s o=decide (s.divcurr_state_q=_)
    unfold ready_o mult_is_ready
    rw [hr]
    rfl
  result := by
    intro o sign s i h hi
    change multdiv_result_o s i.md=s.mac_res_q.extractLsb' 0 32
    unfold multdiv_result_o
    rw [hi,h.div,if_pos rfl]
  idle := fun hr hp => ⟨hr,hp⟩

end Division

section Multiplication

variable {o : Md} {s : State} {i : Input}

/-- In a multiplication the multiplier's state and the accumulator move. -/
theorem step_mult (h : Multiplies o) (hi : i.md=o) : ExBlock.step unit s i=
    { s with mult_state_q := mult_state_n s o, mac_res_q := mac_res_n s o } := by
  unfold ExBlock.step
  rw [hi]
  change step s o _=_
  simp only [step,h.mult,h.div,if_true,Bool.false_eq_true,if_false]

/-- The upper half has the sign of the word. -/
theorem msb_OP_H (x : BitVec 32) : (OP_H x).msb=x.getLsbD 31 := by
  unfold OP_H
  rw [BitVec.msb_eq_getLsbD_last]
  simp

/-- A half with a zero in front. -/
theorem toInt_OP_L (x : BitVec 32) : (BitVec.cons false (OP_L x)).toInt=Mult.halfValue false false x :=
  Mult.shortOp_toInt false false x

/-- A half with its gated sign in front. -/
theorem toInt_OP_H (g : Bool) (x : BitVec 32) :
    (BitVec.cons (g && x.getLsbD 31) (OP_H x)).toInt=Mult.halfValue true g x := by
  rw [←msb_OP_H]
  exact Mult.shortOp_toInt true g x

theorem toInt_OP_H_unsigned (x : BitVec 32) :
    (BitVec.cons false (OP_H x)).toInt=Mult.halfValue true false x :=
  Mult.shortOp_toInt true false x

/-- The path is exact up to its width. -/
theorem mac_res_eq {x y : BitVec 16} {f g : Bool} {acc : BitVec 34} {p q z : ℤ}
    (hk : kernel s o=⟨x,y,f,g,acc⟩) (hp : (BitVec.cons f x).toInt=p) (hq : (BitVec.cons g y).toInt=q)
    (hz : acc.toInt=z) : mac_res s o=BitVec.ofInt 34 (p*q+z) := by
  unfold mac_res BitVec.signExtend
  dsimp only
  rw [hk,hp,hq,hz,←BitVec.ofInt_mul,←BitVec.ofInt_add,setWidth_ofInt _ (by omega)]

/-- A field of 16 bits as the accumulator. -/
theorem toInt_accum {z : ℤ} (h0 : 0≤z) (h1 : z<2^32) :
    (0#18++(BitVec.ofInt 34 z).extractLsb' 16 16).toInt=z/2^16 := by
  rw [extract_ofInt z 16 (by omega),zero_append,BitVec.toInt_setWidth,BitVec.toNat_ofInt]
  have hpos : 0≤z/2^16 := by omega
  have hlt : z/2^16<2^16 := by omega
  rw [Int.emod_eq_of_lt hpos (by exact_mod_cast hlt),Int.toNat_of_nonneg hpos]
  exact bmod_eq_of_fits (by omega) ⟨by omega,by omega⟩

/-- The sum shifted right, with its sign if the product is signed. -/
theorem toInt_shifted {z : ℤ} {g : Bool} (hz : Fits 34 z) (hg : g=true ∨ 0≤z) :
    (BitVec.fill 16 (g && (BitVec.ofInt 34 z).getLsbD 33)++
      (BitVec.ofInt 34 z).extractLsb' 16 18).toInt=z/2^16 := by
  have hfield := extract_ofInt (w:=18) (v:=34) z 16 (by omega)
  have hfits : Fits 18 (z/2^16) := by
    unfold Fits at hz ⊢
    omega
  have htop : ((BitVec.ofInt 34 z).extractLsb' 16 18).msb=(BitVec.ofInt 34 z).getLsbD 33 := by
    rw [BitVec.msb_eq_getLsbD_last,BitVec.getLsbD_extractLsb']
    rfl
  have hsign : (g && (BitVec.ofInt 34 z).getLsbD 33)=(BitVec.ofInt 34 z).getLsbD 33 := by
    rcases hg with hg | hg
    · rw [hg,Bool.true_and]
    · rw [←htop,hfield,BitVec.msb_eq_toInt,toInt_ofInt_of_fits (by omega) hfits,
        decide_eq_false (by omega),Bool.and_false]
  have hext : BitVec.fill 16 ((BitVec.ofInt 34 z).getLsbD 33)++
      (BitVec.ofInt 34 z).extractLsb' 16 18=((BitVec.ofInt 34 z).extractLsb' 16 18).signExtend 34 := by
    apply BitVec.eq_of_getLsbD_eq
    intro k hk
    rw [BitVec.getLsbD_signExtend,BitVec.getLsbD_append,htop]
    by_cases hlow : k<18
    · rw [if_pos hlow,if_pos hlow]
      simp [hk]
    · rw [if_neg hlow,if_neg hlow]
      cases (BitVec.ofInt 34 z).getLsbD 33
      · simp [BitVec.fill,hk]
      · have hones : BitVec.fill 16 true=BitVec.allOnes 16 := by decide
        rw [hones,BitVec.getLsbD_allOnes,decide_eq_true (by omega)]
        simp [hk]
  rw [hsign,hext,BitVec.toInt_signExtend_of_le (by omega),hfield,toInt_ofInt_of_fits (by omega) hfits]

section Upper

/-- The exact sums after each pass. -/
def pass0 (o : Md) : ℤ := Mult.halfValue false false o.op_a_i*Mult.halfValue false false o.op_b_i

def pass1 (o : Md) : ℤ := Mult.halfValue false false o.op_a_i*
  Mult.halfValue true (o.signed_mode_i.getLsbD 1) o.op_b_i+pass0 o/2^16

def pass2 (o : Md) : ℤ := Mult.halfValue true (o.signed_mode_i.getLsbD 0) o.op_a_i*
  Mult.halfValue false false o.op_b_i+pass1 o

theorem pass0_bounds (o : Md) : 0≤pass0 o ∧ pass0 o≤4294836225 := by
  have ha := Mult.halfValue_unsigned_nonneg false o.op_a_i
  have hb := Mult.halfValue_unsigned_nonneg false o.op_b_i
  exact ⟨mul_nonneg ha hb,(Mult.halfProduct_bounds false false false false _ _).2⟩

theorem pass2_fits (o : Md) : Fits 34 (pass2 o) ∧ (o.signed_mode_i=0 → 0≤pass2 o) := by
  have h0 := pass0_bounds o
  have h1 := Mult.halfProduct_bounds false false true (o.signed_mode_i.getLsbD 1) o.op_a_i o.op_b_i
  have h2 := Mult.halfProduct_bounds true (o.signed_mode_i.getLsbD 0) false false o.op_a_i o.op_b_i
  refine ⟨?_,fun hmode => ?_⟩
  · unfold Fits pass2 pass1
    omega
  · have hla := Mult.halfValue_unsigned_nonneg false o.op_a_i
    have hlb := Mult.halfValue_unsigned_nonneg false o.op_b_i
    have hua := Mult.halfValue_unsigned_nonneg true o.op_a_i
    have hub := Mult.halfValue_unsigned_nonneg true o.op_b_i
    have hcross1 := mul_nonneg hla hub
    have hcross2 := mul_nonneg hua hlb
    have hg0 : o.signed_mode_i.getLsbD 0=false := by rw [hmode]; rfl
    have hg1 : o.signed_mode_i.getLsbD 1=false := by rw [hmode]; rfl
    unfold pass2 pass1
    rw [hg0,hg1]
    omega

/-- A multiplier in its sequence, with the sum so far. -/
structure Passing (m : MultState) (z : ℤ) (s : State) : Prop where
  mult : s.mult_state_q=m
  div : s.divcurr_state_q=.MD_IDLE
  sum : s.mac_res_q=BitVec.ofInt 34 z

theorem Passing.busy {m : MultState} {z : ℤ} (hs : Passing m z s)
    (hm : m=.ALBL ∨ m=.ALBH ∨ m=.AHBL ∧ o.operator_i≠.MULL) : unit.ready_o s o=false := by
  change ready_o s o=false
  unfold ready_o mult_is_ready
  rw [hs.mult,hs.div]
  rcases hm with hm | hm | ⟨hm,hop⟩ <;> rw [hm]
  · rfl
  · rfl
  · simp [hop]

theorem mac_res_albl (hs : s.mult_state_q=.ALBL) : mac_res s o=BitVec.ofInt 34 (pass0 o) := by
  have hk : kernel s o=⟨OP_L o.op_a_i,OP_L o.op_b_i,false,false,0⟩ := by
    unfold kernel
    rw [hs]
  rw [mac_res_eq hk (toInt_OP_L _) (toInt_OP_L _) BitVec.toInt_zero,add_zero]
  rfl

theorem mac_res_albh (hs : Passing .ALBH (pass0 o) s) : mac_res s o=BitVec.ofInt 34 (pass1 o) := by
  have h0 := pass0_bounds o
  have hk : kernel s o=⟨OP_L o.op_a_i,OP_H o.op_b_i,false,
      o.signed_mode_i.getLsbD 1 && o.op_b_i.getLsbD 31,0#18++s.mac_res_q.extractLsb' 16 16⟩ := by
    unfold kernel
    rw [hs.mult]
  rw [hs.sum] at hk
  exact mac_res_eq hk (toInt_OP_L _) (toInt_OP_H ..) (toInt_accum h0.1 (by omega))

theorem mac_res_ahbl (hop : o.operator_i=.MULH) (hs : Passing .AHBL (pass1 o) s) :
    mac_res s o=BitVec.ofInt 34 (pass2 o) := by
  have h0 := pass0_bounds o
  have h1 := Mult.halfProduct_bounds false false true (o.signed_mode_i.getLsbD 1) o.op_a_i o.op_b_i
  have hk : kernel s o=⟨OP_H o.op_a_i,OP_L o.op_b_i,
      o.signed_mode_i.getLsbD 0 && o.op_a_i.getLsbD 31,false,s.mac_res_q⟩ := by
    unfold kernel
    rw [hs.mult,hop]
    rfl
  have hfits : Fits 34 (pass1 o) := by
    unfold Fits pass1
    omega
  rw [hs.sum] at hk
  exact mac_res_eq hk (toInt_OP_H ..) (toInt_OP_L _) (toInt_ofInt_of_fits (by omega) hfits)

theorem mac_res_ahbh (hs : Passing .AHBH (pass2 o) s) : mac_res s o=BitVec.ofInt 34
    (Mult.halfValue true (o.signed_mode_i.getLsbD 0) o.op_a_i*
      Mult.halfValue true (o.signed_mode_i.getLsbD 1) o.op_b_i+pass2 o/2^16) := by
  have hk : kernel s o=⟨OP_H o.op_a_i,OP_H o.op_b_i,
      o.signed_mode_i.getLsbD 0 && o.op_a_i.getLsbD 31,o.signed_mode_i.getLsbD 1 && o.op_b_i.getLsbD 31,
      BitVec.fill 16 (o.signed_mode_i != 0 && s.mac_res_q.getLsbD 33)++
        s.mac_res_q.extractLsb' 16 18⟩ := by
    unfold kernel
    rw [hs.mult]
  have hg : (o.signed_mode_i != 0)=true ∨ 0≤pass2 o := by
    by_cases hmode : o.signed_mode_i=0
    · exact Or.inr ((pass2_fits o).2 hmode)
    · exact Or.inl (bne_iff_ne.mpr hmode)
  rw [hs.sum] at hk
  exact mac_res_eq hk (toInt_OP_H ..) (toInt_OP_H ..) (toInt_shifted (pass2_fits o).1 hg)

/-- The result of the last pass is the upper half of the product. -/
theorem upperProduct_passes (o : Md) : (BitVec.ofInt 34
    (Mult.halfValue true (o.signed_mode_i.getLsbD 0) o.op_a_i*
      Mult.halfValue true (o.signed_mode_i.getLsbD 1) o.op_b_i+pass2 o/2^16)).extractLsb' 0 32=
      Mult.upperProduct o.signed_mode_i o.op_a_i o.op_b_i := by
  rw [extract_ofInt _ 0 (by omega),Mult.upperProduct_eq,pow_zero,Int.ediv_one]
  congr 1
  unfold pass2 pass1 pass0
  omega

theorem finishes_mulh (h : Multiplies o) (hop : o.operator_i=.MULH) (hs : Idle s) :
    Finishes unit Idle s o 3 (Mult.upperProduct o.signed_mode_i o.op_a_i o.op_b_i) := by
  have hidle : Passing .ALBL s.mac_res_q.toInt s := ⟨hs.mult,hs.div,(BitVec.ofInt_toInt).symm⟩
  refine finishes_succ (hidle.busy (Or.inl rfl)) fun i hi => ?_
  have h1 : Passing .ALBH (pass0 o) (ExBlock.step unit s i) := by
    rw [step_mult h hi]
    refine ⟨?_,hs.div,?_⟩
    · simp only [mult_state_n,hs.mult]
    · simp only [mac_res_n,hs.mult,mac_res_albl hs.mult]
  refine finishes_succ (h1.busy (Or.inr (Or.inl rfl))) fun j hj => ?_
  have h2 : Passing .AHBL (pass1 o) (ExBlock.step unit (ExBlock.step unit s i) j) := by
    have hmac := mac_res_albh h1
    revert h1 hmac
    generalize ExBlock.step unit s i=t
    intro h1 hmac
    rw [step_mult h hj]
    refine ⟨?_,h1.div,?_⟩
    · simp only [mult_state_n,h1.mult]
    · simp only [mac_res_n,h1.mult,hop,hmac]
  refine finishes_succ (h2.busy (Or.inr (Or.inr ⟨rfl,by rw [hop]; nofun⟩))) fun k hk => ?_
  have h3 : Passing .AHBH (pass2 o)
      (ExBlock.step unit (ExBlock.step unit (ExBlock.step unit s i) j) k) := by
    have hmac := mac_res_ahbl hop h2
    revert h2 hmac
    generalize ExBlock.step unit (ExBlock.step unit s i) j=t
    intro h2 hmac
    rw [step_mult h hk]
    refine ⟨?_,h2.div,?_⟩
    · simp only [mult_state_n,h2.mult,hop,reduceCtorEq,if_false]
    · simp only [mac_res_n,h2.mult,hop,hmac]
  revert h3
  generalize ExBlock.step unit (ExBlock.step unit (ExBlock.step unit s i) j) k=t
  intro h3
  have hmac := mac_res_ahbh h3
  refine finishes_zero ?_ (fun l hl => ?_) fun l hl => ?_
  · change ready_o t o=true
    unfold ready_o mult_is_ready
    rw [h3.mult,Bool.true_or]
  · change multdiv_result_o t l.md=_
    rw [hl,←upperProduct_passes,←hmac]
    unfold multdiv_result_o mac_res_n
    rw [h.div,h3.mult]
    rfl
  · rw [step_mult h hl]
    exact ⟨by simp only [mult_state_n,h3.mult],h3.div⟩

end Upper

section Lower

/-- Two fields of 16 bits side by side. -/
theorem append_ofInt (p q : ℤ) :
    BitVec.ofInt 16 p++BitVec.ofInt 16 q=BitVec.ofInt 32 (p*2^16+q%2^16) := by
  apply BitVec.eq_of_toNat_eq
  have hq : (BitVec.ofInt 16 q).toNat<2^16 := (BitVec.ofInt 16 q).isLt
  rw [BitVec.toNat_append,Nat.shiftLeft_eq,Nat.mul_comm,←Nat.two_pow_add_eq_or_of_lt hq,
    BitVec.toNat_ofInt,BitVec.toNat_ofInt,BitVec.toNat_ofInt]
  omega

/-- The two low halves that the sequence leaves are the product. -/
theorem product_passes (o : Md) (hmode : o.signed_mode_i=0) :
    BitVec.ofInt 16 (Mult.halfValue true false o.op_a_i*Mult.halfValue false false o.op_b_i+
      pass1 o%2^16)++BitVec.ofInt 16 (pass0 o)=o.op_a_i*o.op_b_i := by
  have hword : ∀ x : BitVec 32, x=BitVec.ofInt 32
      (Mult.halfValue true false x*65536+Mult.halfValue false false x) := fun x => by
    rw [←Mult.operandValue_split false x]
    unfold Mult.operandValue
    rw [if_neg nofun,BitVec.ofInt_natCast,BitVec.ofNat_toNat,BitVec.setWidth_eq]
  have hg1 : o.signed_mode_i.getLsbD 1=false := by rw [hmode]; rfl
  conv_rhs => rw [hword o.op_a_i,hword o.op_b_i,←BitVec.ofInt_mul]
  rw [append_ofInt]
  unfold pass1 pass0
  rw [hg1]
  generalize Mult.halfValue true false o.op_a_i=ah
  generalize Mult.halfValue true false o.op_b_i=bh
  generalize Mult.halfValue false false o.op_a_i=al
  generalize Mult.halfValue false false o.op_b_i=bl
  have hexpand : (ah*65536+al)*(bh*65536+bl)=
      ah*bh*4294967296+(ah*bl+al*bh)*65536+al*bl := by ring
  rw [hexpand]
  apply BitVec.eq_of_toNat_eq
  rw [BitVec.toNat_ofInt,BitVec.toNat_ofInt]
  omega

/-- A word of two halves in the accumulator. -/
theorem halves (x y : BitVec 16) :
    (0#2++(x++y)).extractLsb' 0 16=y ∧ (0#2++(x++y)).extractLsb' 16 16=x ∧
      (0#2++(x++y)).extractLsb' 0 32=x++y := by
  have hx := x.isLt
  have hy := y.isLt
  have hword : (x++y).toNat=2^16*x.toNat+y.toNat := by
    rw [BitVec.toNat_append,Nat.shiftLeft_eq,Nat.mul_comm,Nat.two_pow_add_eq_or_of_lt hy]
  have hwide : (0#2++(x++y)).toNat=2^16*x.toNat+y.toNat := by
    rw [zero_append,BitVec.toNat_setWidth,hword]
    omega
  refine ⟨?_,?_,?_⟩ <;> apply BitVec.eq_of_toNat_eq <;>
    rw [BitVec.extractLsb'_toNat,hwide,Nat.shiftRight_eq_div_pow]
  · omega
  · omega
  · omega

/-- The accumulator between the last two passes of a lower product. -/
def lowerSum (o : Md) : BitVec 34 := 0#2++(BitVec.ofInt 16 (pass1 o)++BitVec.ofInt 16 (pass0 o))

theorem extract_low (z : ℤ) : (BitVec.ofInt 34 z).extractLsb' 0 16=BitVec.ofInt 16 z := by
  rw [extract_ofInt z 0 (by omega),pow_zero,Int.ediv_one]

theorem mac_res_lower (hop : o.operator_i=.MULL) (hmode : o.signed_mode_i=0)
    (hs : s.mult_state_q=.AHBL) (hsum : s.mac_res_q=lowerSum o) : mac_res s o=BitVec.ofInt 34
      (Mult.halfValue true false o.op_a_i*Mult.halfValue false false o.op_b_i+pass1 o%2^16) := by
  have hk : kernel s o=⟨OP_H o.op_a_i,OP_L o.op_b_i,false,false,0#18++BitVec.ofInt 16 (pass1 o)⟩ := by
    unfold kernel
    rw [hs,hop,hmode,hsum,lowerSum,(halves ..).2.1]
    rfl
  refine mac_res_eq hk (toInt_OP_H_unsigned _) (toInt_OP_L _) ?_
  have hpos := Int.emod_nonneg (pass1 o) (by norm_num : (2 : ℤ)^16≠0)
  have hlt := Int.emod_lt_of_pos (pass1 o) (by norm_num : (0 : ℤ)<2^16)
  rw [zero_append,BitVec.toInt_setWidth,BitVec.toNat_ofInt]
  have hcast : (((pass1 o%((2^16 : ℕ) : ℤ)).toNat : ℕ) : ℤ)=pass1 o%2^16 := Int.toNat_of_nonneg hpos
  rw [hcast]
  exact bmod_eq_of_fits (by omega) ⟨by omega,by omega⟩

theorem finishes_mul (h : Multiplies o) (hop : o.operator_i=.MULL) (hmode : o.signed_mode_i=0)
    (hs : Idle s) : Finishes unit Idle s o 2 (o.op_a_i*o.op_b_i) := by
  have hidle : Passing .ALBL s.mac_res_q.toInt s := ⟨hs.mult,hs.div,(BitVec.ofInt_toInt).symm⟩
  refine finishes_succ (hidle.busy (Or.inl rfl)) fun i hi => ?_
  have h1 : Passing .ALBH (pass0 o) (ExBlock.step unit s i) := by
    rw [step_mult h hi]
    refine ⟨?_,hs.div,?_⟩
    · simp only [mult_state_n,hs.mult]
    · simp only [mac_res_n,hs.mult,mac_res_albl hs.mult]
  revert h1
  generalize ExBlock.step unit s i=t
  intro h1
  refine finishes_succ (h1.busy (Or.inr (Or.inl rfl))) fun j hj => ?_
  have hstep := step_mult (s:=t) h hj
  have hmult : (ExBlock.step unit t j).mult_state_q=.AHBL := by
    rw [hstep]
    simp only [mult_state_n,h1.mult]
  have hdiv : (ExBlock.step unit t j).divcurr_state_q=.MD_IDLE := by
    rw [hstep]
    exact h1.div
  have hsum : (ExBlock.step unit t j).mac_res_q=lowerSum o := by
    rw [hstep]
    simp only [mac_res_n,h1.mult,hop,mac_res_albh h1,h1.sum,extract_low]
    rfl
  revert hmult hdiv hsum
  generalize ExBlock.step unit t j=v
  intro hmult hdiv hsum
  have hmac := mac_res_lower hop hmode hmult hsum
  refine finishes_zero ?_ (fun l hl => ?_) fun l hl => ?_
  · change ready_o v o=true
    unfold ready_o mult_is_ready
    rw [hmult,hop]
    rfl
  · change multdiv_result_o v l.md=_
    rw [hl,←product_passes o hmode]
    unfold multdiv_result_o mac_res_n
    rw [h.div,hmult,hop,if_neg nofun]
    simp only [hmac,hsum]
    rw [(halves ..).2.2,extract_low,lowerSum,(halves ..).1]
  · rw [step_mult h hl]
    exact ⟨by simp only [mult_state_n,hmult,hop,if_true],hdiv⟩

end Lower

end Multiplication

end Pulpissimo.ZeroRiscy.MultdivFast

import Pulpissimo.ZeroRiscy.LongDivider

/-!
# The slow multiplier and divider of zero-riscy

`zeroriscy_multdiv_slow` uses the adder of the ALU in every cycle. It multiplies bit by
bit: a lower product by shifting the multiplicand, an upper product with Baugh-Wooley
partial products on operands of 33 bits. Its divisions are those of the fast unit.
-/

namespace Pulpissimo.ZeroRiscy.MultdivSlow

open Pulpissimo.Machine Pulpissimo.Signed
open Pulpissimo.Riscv Pulpissimo.ZeroRiscy.ExBlock
open Pulpissimo.ZeroRiscy.LongDivider (Words Divides Refines changes)

/-- Registers. -/
structure State where
  multdiv_state_q : BitVec 5
  accum_window_q : BitVec 33
  op_b_shift_q : BitVec 33
  op_a_shift_q : BitVec 33
  curr_state_q : MdState
  op_numerator_q : BitVec 32

/-- Values after reset. -/
def reset : State := ⟨0,0,0,0,.MD_IDLE,0⟩

section Code

variable (s : State) (o : Md)

/-- A partial product, its sign inverted. -/
def op_a_bw_pp : BitVec 33 :=
  BitVec.cons (!(s.op_a_shift_q.getLsbD 32 && s.op_b_shift_q.getLsbD 0))
    (s.op_a_shift_q.extractLsb' 0 32 &&& BitVec.fill 32 (s.op_b_shift_q.getLsbD 0))

/-- The last one, inverted but for its sign. -/
def op_a_bw_last_pp : BitVec 33 :=
  BitVec.cons (s.op_a_shift_q.getLsbD 32 && s.op_b_shift_q.getLsbD 0)
    (~~~(s.op_a_shift_q.extractLsb' 0 32 &&& BitVec.fill 32 (s.op_b_shift_q.getLsbD 0)))

/-- The operands for the adder. -/
def alu_operand_a_o : BitVec 33 :=
  match o.operator_i with
  | .MULL | .MULH => s.accum_window_q
  | .DIV | .REM =>
    match s.curr_state_q with
    | .MD_IDLE | .MD_ABS_A | .MD_ABS_B | .MD_CHANGE_SIGN => zeroOperand
    | _ => s.accum_window_q.extractLsb' 0 32++1#1

def alu_operand_b_o : BitVec 33 :=
  match o.operator_i with
  | .MULL => op_a_bw_pp s
  | .MULH => if s.curr_state_q=.MD_LAST then op_a_bw_last_pp s else op_a_bw_pp s
  | .DIV | .REM =>
    match s.curr_state_q with
    | .MD_IDLE | .MD_ABS_B => negOperand o.op_b_i
    | .MD_ABS_A => negOperand o.op_a_i
    | .MD_CHANGE_SIGN => negOperand (s.accum_window_q.extractLsb' 0 32)
    | _ => negOperand (s.op_b_shift_q.extractLsb' 0 32)

def sign_a : Bool := o.op_a_i.getLsbD 31 && o.signed_mode_i.getLsbD 0

def sign_b : Bool := o.op_b_i.getLsbD 31 && o.signed_mode_i.getLsbD 1

def op_a_ext : BitVec 33 := BitVec.cons (sign_a o) o.op_a_i

def op_b_ext : BitVec 33 := BitVec.cons (sign_b o) o.op_b_i

def div_change_sign : Bool := sign_a o ^^ sign_b o

def rem_change_sign : Bool := sign_a o

variable (ad : Adder)

def res_adder_l : BitVec 33 := ad.alu_adder_ext_i.extractLsb' 0 33

def res_adder_h : BitVec 33 := ad.alu_adder_ext_i.extractLsb' 1 33

/-- The remainder is at least the divisor. -/
def greater : Bool :=
  is_greater_equal (s.accum_window_q.extractLsb' 0 32) (s.op_b_shift_q.extractLsb' 0 32)
    (res_adder_h ad)

def next_reminder : BitVec 33 := if greater s ad then res_adder_h ad else s.accum_window_q

def next_quotient : BitVec 33 :=
  if greater s ad then s.op_a_shift_q ||| 1#33<<<s.multdiv_state_q.toNat else s.op_a_shift_q

def ready_o : Bool :=
  s.curr_state_q=.MD_FINISH ||
    (s.curr_state_q=.MD_LAST && (o.operator_i=.MULL || o.operator_i=.MULH))

def multdiv_result_o : BitVec 32 :=
  if o.div_en_i then s.accum_window_q.extractLsb' 0 32 else (res_adder_l ad).extractLsb' 0 32

/-- The first partial product. -/
def first_pp : BitVec 33 :=
  BitVec.cons (!((op_a_ext o).getLsbD 32 && o.op_b_i.getLsbD 0))
    ((op_a_ext o).extractLsb' 0 32 &&& BitVec.fill 32 (o.op_b_i.getLsbD 0))

/-- The machine, in a cycle in which it is enabled. -/
def next : State :=
  match s.curr_state_q with
  | .MD_IDLE =>
    match o.operator_i with
    | .MULL => { s with
        op_a_shift_q := op_a_ext o<<<1
        accum_window_q := first_pp o
        op_b_shift_q := op_b_ext o>>>1
        curr_state_q := .MD_COMP
        multdiv_state_q := 31 }
    | .MULH => { s with
        op_a_shift_q := op_a_ext o
        accum_window_q := BitVec.cons true ((first_pp o).extractLsb' 1 32)
        op_b_shift_q := op_b_ext o>>>1
        curr_state_q := .MD_COMP
        multdiv_state_q := 31 }
    | .DIV => { s with
        accum_window_q := BitVec.allOnes 33
        curr_state_q := if ad.equal_to_zero then .MD_FINISH else .MD_ABS_A
        multdiv_state_q := 31 }
    | .REM => { s with
        accum_window_q := op_a_ext o
        curr_state_q := if ad.equal_to_zero then .MD_FINISH else .MD_ABS_A
        multdiv_state_q := 31 }
  | .MD_ABS_A => { s with
      op_a_shift_q := 0
      op_numerator_q := if sign_a o then ad.alu_adder_i else o.op_a_i
      curr_state_q := .MD_ABS_B }
  | .MD_ABS_B => { s with
      accum_window_q := 0#32++BitVec.ofBool (s.op_numerator_q.getLsbD 31)
      op_b_shift_q := (if sign_b o then ad.alu_adder_i else o.op_b_i).setWidth 33
      curr_state_q := .MD_COMP }
  | .MD_COMP =>
    let t : State := { s with
      multdiv_state_q := s.multdiv_state_q-1
      curr_state_q := if s.multdiv_state_q=1 then .MD_LAST else .MD_COMP }
    match o.operator_i with
    | .MULL => { t with
        accum_window_q := res_adder_l ad
        op_a_shift_q := s.op_a_shift_q<<<1
        op_b_shift_q := s.op_b_shift_q>>>1 }
    | .MULH => { t with
        accum_window_q := res_adder_h ad
        op_b_shift_q := s.op_b_shift_q>>>1 }
    | _ => { t with
        accum_window_q := (next_reminder s ad).extractLsb' 0 32++
          BitVec.ofBool (s.op_numerator_q.getLsbD (s.multdiv_state_q-1).toNat)
        op_a_shift_q := next_quotient s ad }
  | .MD_LAST =>
    match o.operator_i with
    | .MULL => { s with accum_window_q := res_adder_l ad, curr_state_q := .MD_IDLE }
    | .MULH => { s with accum_window_q := res_adder_l ad, curr_state_q := .MD_IDLE }
    | .DIV => { s with accum_window_q := next_quotient s ad, curr_state_q := .MD_CHANGE_SIGN }
    | .REM => { s with
        accum_window_q := 0#1++(next_reminder s ad).extractLsb' 0 32
        curr_state_q := .MD_CHANGE_SIGN }
  | .MD_CHANGE_SIGN => { s with
      curr_state_q := .MD_FINISH
      accum_window_q :=
        if if o.operator_i=.DIV then div_change_sign o else rem_change_sign o then
          ad.alu_adder_i.setWidth 33
        else s.accum_window_q }
  | .MD_FINISH => { s with curr_state_q := .MD_IDLE }

/-- One clock edge. -/
def step : State := if o.mult_en_i || o.div_en_i then next s o ad else s

end Code

/-- The unit as the execute block would have it with `MULT_TYPE` 0. -/
def unit : Multdiv State where
  slow := true
  reset := reset
  alu_operand_a_o := alu_operand_a_o
  alu_operand_b_o := alu_operand_b_o
  multdiv_result_o := multdiv_result_o
  ready_o := ready_o
  step := step

/-- The machine is idle. -/
def Idle (s : State) : Prop := s.curr_state_q=.MD_IDLE

/-- The adder's sum in a cycle. -/
def unitSum (s : State) (o : Md) : Adder := adder (alu_operand_a_o s o) (alu_operand_b_o s o)

/-- An enabled unit has the adder and moves. -/
theorem step_enabled {o : Md} {s : State} {i : Input} (h : (o.mult_en_i || o.div_en_i)=true)
    (hi : i.md=o) : sum unit s i=unitSum s o ∧ ExBlock.step unit s i=next s o (unitSum s o) := by
  have hsum : sum unit s i=unitSum s o := by
    rw [sum_eq]
    · rw [hi]
      rfl
    · rw [hi]
      exact h
  refine ⟨hsum,?_⟩
  unfold ExBlock.step
  rw [hsum,hi]
  exact if_pos h

section Division

variable {o : Md} {sign : Bool} {s : State} {i : Input}

/-- In a division the adder negates or subtracts. -/
theorem operands_div (h : Divides o sign) :
    alu_operand_a_o s o=(match s.curr_state_q with
      | .MD_IDLE | .MD_ABS_A | .MD_ABS_B | .MD_CHANGE_SIGN => zeroOperand
      | _ => s.accum_window_q.extractLsb' 0 32++1#1) ∧
    alu_operand_b_o s o=(match s.curr_state_q with
      | .MD_IDLE | .MD_ABS_B => negOperand o.op_b_i
      | .MD_ABS_A => negOperand o.op_a_i
      | .MD_CHANGE_SIGN => negOperand (s.accum_window_q.extractLsb' 0 32)
      | _ => negOperand (s.op_b_shift_q.extractLsb' 0 32)) := by
  unfold alu_operand_a_o alu_operand_b_o
  rcases h.op with hop | hop <;> rw [hop] <;> exact ⟨rfl,rfl⟩

/-- The words of the divider. The quotient grows in the register of the multiplicand. -/
def view (s : State) : Words :=
  ⟨s.curr_state_q,s.accum_window_q.extractLsb' 0 32,s.op_b_shift_q.extractLsb' 0 32,s.op_numerator_q,
    s.op_a_shift_q.extractLsb' 0 32⟩

section Compare

variable (h : Divides o sign) (hs : s.curr_state_q=.MD_COMP ∨ s.curr_state_q=.MD_LAST)

include h hs

theorem unitSum_compare : unitSum s o=adder (s.accum_window_q.extractLsb' 0 32++1#1)
    (negOperand (s.op_b_shift_q.extractLsb' 0 32)) := by
  unfold unitSum
  rw [(operands_div h).1,(operands_div h).2]
  rcases hs with hs | hs <;> rw [hs]

/-- The comparison is that of the words. -/
theorem greater_iff : greater s (unitSum s o)=true ↔ (view s).denominator ≤ (view s).reminder := by
  unfold greater res_adder_h
  rw [unitSum_compare h hs,compare_eq,decide_eq_true_iff]
  rfl

theorem next_reminder_low :
    (next_reminder s (unitSum s o)).extractLsb' 0 32=(view s).reduced := by
  unfold next_reminder Words.reduced
  by_cases hfit : (view s).denominator ≤ (view s).reminder
  · rw [if_pos ((greater_iff h hs).mpr hfit),if_pos hfit,←BitVec.setWidth_eq_extractLsb' (by omega)]
    unfold res_adder_h
    rw [unitSum_compare h hs,setWidth_difference]
    rfl
  · rw [if_neg (mt (greater_iff h hs).mp hfit),if_neg hfit]
    rfl

theorem next_quotient_low :
    (next_quotient s (unitSum s o)).extractLsb' 0 32=(view s).extended s.multdiv_state_q := by
  unfold next_quotient Words.extended
  by_cases hfit : (view s).denominator ≤ (view s).reminder
  · rw [if_pos ((greater_iff h hs).mpr hfit),if_pos hfit]
    have hone : (1#33<<<s.multdiv_state_q.toNat).extractLsb' 0 32=1#32<<<s.multdiv_state_q.toNat := by
      apply BitVec.eq_of_toNat_eq
      rw [BitVec.extractLsb'_toNat,BitVec.toNat_shiftLeft,BitVec.toNat_shiftLeft,Nat.shiftRight_zero,
        Nat.mod_mod_of_dvd _ (Nat.pow_dvd_pow 2 (by omega))]
      rfl
    rw [BitVec.extractLsb'_or,hone]
    rfl
  · rw [if_neg (mt (greater_iff h hs).mp hfit),if_neg hfit]
    rfl

end Compare

/-- The unit divides on its words. -/
theorem refines : Refines unit view State.multdiv_state_q (fun _ => True) Idle where
  words := by
    intro o sign s i h hi
    rw [(step_enabled (by rw [h.div,Bool.or_true]) hi).2]
    have hab := operands_div (s:=s) h
    unfold view
    cases hs : s.curr_state_q with
    | MD_IDLE =>
      rcases h.op with hop | hop
      · simp only [next,unitSum,hab.1,hab.2,hs,hop,Words.next,equal_to_zero_iff,if_true]
        rfl
      · simp only [next,unitSum,hab.1,hab.2,hs,hop,Words.next,equal_to_zero_iff,reduceCtorEq,if_false]
        congr 1
        exact BitVec.extractLsb'_cons ..
    | MD_ABS_A =>
      simp only [next,unitSum,hab.1,hab.2,hs,Words.next,negate]
      rfl
    | MD_ABS_B =>
      simp only [next,unitSum,hab.1,hab.2,hs,Words.next,negate,low_setWidth (show 32≤33 by omega)]
      congr 1
      rw [zero_append,zero_append,←BitVec.setWidth_eq_extractLsb' (by omega)]
      exact BitVec.setWidth_setWidth_of_le _ (by omega)
    | MD_COMP =>
      have hrem := next_reminder_low h (Or.inl hs)
      have hquot := next_quotient_low h (Or.inl hs)
      unfold view at hrem hquot
      rw [hs] at hrem hquot
      rcases h.op with hop | hop <;>
        simp only [next,hs,hop,Words.next,hrem,hquot,low_append]
    | MD_LAST =>
      have hrem := next_reminder_low h (Or.inr hs)
      have hquot := next_quotient_low h (Or.inr hs)
      unfold view at hrem hquot
      rw [hs] at hrem hquot
      rcases h.op with hop | hop
      · simp only [next,hs,hop,Words.next,hquot,if_true]
      · simp only [next,hs,hop,Words.next,hrem,zero_append,reduceCtorEq,if_false]
        congr 1
        exact low_setWidth (by omega) _
    | MD_CHANGE_SIGN =>
      simp only [next,unitSum,hab.1,hab.2,hs,Words.next,negate]
      congr 1
      change BitVec.extractLsb' 0 32 (if changes o=true then _ else _)=_
      split_ifs
      · exact low_setWidth (by omega) _
      · rfl
    | MD_FINISH => simp only [next,hs,Words.next]
  rest := fun _ _ _ => trivial
  start := by
    intro o sign s i h hi hp
    rw [(step_enabled (by rw [h.div,Bool.or_true]) hi).2]
    change s.curr_state_q=_ at hp
    rcases h.op with hop | hop <;> simp only [next,hp,hop]
  hold := by
    intro o sign s i h hi hp hc
    rw [(step_enabled (by rw [h.div,Bool.or_true]) hi).2]
    change s.curr_state_q=_ ∨ s.curr_state_q=_ at hp
    rcases hp with hp | hp <;> simp only [next,hp] <;> exact hc
  count := by
    intro o sign s i h hi hp
    rw [(step_enabled (by rw [h.div,Bool.or_true]) hi).2]
    change s.curr_state_q=_ at hp
    rcases h.op with hop | hop <;> simp only [next,hp,hop]
  ready := by
    intro o sign s h _
    change ready_o s o=decide (s.curr_state_q=_)
    unfold ready_o
    rcases h.op with hop | hop <;> simp [hop]
  result := by
    intro o sign s i h hi
    change multdiv_result_o s i.md _=s.accum_window_q.extractLsb' 0 32
    unfold multdiv_result_o
    rw [hi,h.div,if_pos rfl]
  idle := fun _ hp => hp

end Division

section Multiplication

variable {o : Md} {s : State} {i : Input} {c : ℕ}

/-- A multiplier at bit `32-c`, its counter at `c`. -/
structure Serial (o : Md) (c : ℕ) (s : State) : Prop where
  phase : s.curr_state_q=if c=0 then .MD_LAST else .MD_COMP
  counter : s.multdiv_state_q=BitVec.ofNat 5 c
  op_b : s.op_b_shift_q=op_b_ext o>>>(32-c)

theorem step_mult (h : Multiplies o) (hi : i.md=o) :
    sum unit s i=unitSum s o ∧ ExBlock.step unit s i=next s o (unitSum s o) :=
  step_enabled (by rw [h.mult,Bool.true_or]) hi

theorem operand_a_mult (h : Multiplies o) : alu_operand_a_o s o=s.accum_window_q := by
  unfold alu_operand_a_o
  rcases h.op with hop | hop <;> rw [hop]

/-- The sum keeps its carry. -/
theorem toNat_unitSum (h : Multiplies o) : (unitSum s o).alu_adder_ext_i.toNat=
    s.accum_window_q.toNat+(alu_operand_b_o s o).toNat := by
  have ha := s.accum_window_q.isLt
  have hb := (alu_operand_b_o s o).isLt
  unfold unitSum adder
  rw [operand_a_mult h,BitVec.toNat_add,BitVec.toNat_setWidth,BitVec.toNat_setWidth]
  omega

/-- The next bit of the multiplier. -/
theorem Serial.bit (hs : Serial o c s) :
    s.op_b_shift_q.getLsbD 0=(op_b_ext o).getLsbD (32-c) := by
  rw [hs.op_b,BitVec.getLsbD_ushiftRight,Nat.add_zero]

theorem op_b_bit {k : ℕ} (hk : k<32) :
    ((op_b_ext o).getLsbD k).toNat=o.op_b_i.toNat/2^k%2 := by
  unfold op_b_ext
  rw [BitVec.getLsbD_cons,if_neg (by omega),BitVec.getLsbD,Nat.testBit_eq_decide_div_mod_eq]
  rcases Nat.mod_two_eq_zero_or_one (o.op_b_i.toNat/2^k) with hzero | hone
  · rw [hzero]
    rfl
  · rw [hone]
    rfl

theorem op_b_bit_zero (o : Md) : (o.op_b_i.getLsbD 0).toNat=o.op_b_i.toNat%2 := by
  have hbit := op_b_bit (o:=o) (k:=0) (by omega)
  unfold op_b_ext at hbit
  rwa [BitVec.getLsbD_cons,if_neg (by omega),Nat.pow_zero,Nat.div_one] at hbit

/-- An idle unit is not ready. -/
theorem idle_busy (hs : Idle s) : unit.ready_o s o=false := by
  change ready_o s o=false
  unfold ready_o
  rw [show s.curr_state_q=.MD_IDLE from hs]
  rfl

/-- The multiplier is busy until its counter is zero. -/
theorem Serial.busy (hs : Serial o (c+1) s) : unit.ready_o s o=false := by
  change ready_o s o=false
  unfold ready_o
  rw [hs.phase]
  rfl

theorem Serial.ready (h : Multiplies o) (hs : Serial o 0 s) : unit.ready_o s o=true := by
  change ready_o s o=true
  unfold ready_o
  rw [hs.phase]
  rcases h.op with hop | hop <;> rw [hop] <;> rfl

/-- The sequence goes on. -/
theorem Serial.next (h : Multiplies o) (hs : Serial o (c+1) s) (hc : c+1<32) :
    Serial o c (MultdivSlow.next s o (unitSum s o)) := by
  have hphase : s.curr_state_q=.MD_COMP := hs.phase
  have hless : s.multdiv_state_q-1=BitVec.ofNat 5 c := by
    rw [hs.counter,BitVec.ofNat_add]
    exact BitVec.add_sub_cancel _ _
  have hone : s.multdiv_state_q=1 ↔ c=0 := by
    rw [hs.counter,←BitVec.toNat_inj,BitVec.toNat_ofNat]
    change (c+1)%2^5=1 ↔ _
    omega
  have hshift : s.op_b_shift_q>>>1=op_b_ext o>>>(32-c) := by
    rw [hs.op_b,←BitVec.shiftRight_add]
    congr 1
    omega
  rcases h.op with hop | hop <;> refine ⟨?_,?_,?_⟩ <;>
    simp only [MultdivSlow.next,hphase,hop,hless,hshift,hone]

section Lower

/-- The low words of accumulator and multiplicand. -/
structure Lower (o : Md) (c : ℕ) (s : State) : Prop extends Serial o c s where
  accum : s.accum_window_q.extractLsb' 0 32=
    BitVec.ofNat 32 (o.op_a_i.toNat*(o.op_b_i.toNat%2^(32-c)))
  op_a : s.op_a_shift_q=BitVec.ofNat 33 (o.op_a_i.toNat*2^(32-c))

/-- A word gated by a bit. -/
theorem toNat_gated (x : BitVec 32) (b : Bool) :
    (x &&& BitVec.fill 32 b).toNat=b.toNat*x.toNat := by
  cases b with
  | false =>
    have hzero : BitVec.fill 32 false=0#32 := by decide
    rw [hzero,BitVec.and_zero,Bool.toNat_false,Nat.zero_mul]
    rfl
  | true =>
    have hones : BitVec.fill 32 true=BitVec.allOnes 32 := by decide
    rw [hones,BitVec.and_allOnes,Bool.toNat_true,Nat.one_mul]

/-- The low word of the sum. -/
theorem low_unitSum (h : Multiplies o) : (res_adder_l (unitSum s o)).extractLsb' 0 32=
    s.accum_window_q.extractLsb' 0 32+(alu_operand_b_o s o).extractLsb' 0 32 := by
  have hsum := toNat_unitSum (s:=s) h
  apply BitVec.eq_of_toNat_eq
  unfold res_adder_l
  rw [BitVec.toNat_add,BitVec.extractLsb'_toNat,BitVec.extractLsb'_toNat,BitVec.extractLsb'_toNat,
    BitVec.extractLsb'_toNat,hsum]
  simp only [Nat.shiftRight_zero]
  omega

theorem operand_b_mull (hop : o.operator_i=.MULL) : (alu_operand_b_o s o).extractLsb' 0 32=
    s.op_a_shift_q.extractLsb' 0 32 &&& BitVec.fill 32 (s.op_b_shift_q.getLsbD 0) := by
  unfold alu_operand_b_o
  rw [hop]
  exact BitVec.extractLsb'_cons ..

/-- Another bit of the multiplier is in the low word. -/
theorem Lower.low_succ (h : Multiplies o) (hop : o.operator_i=.MULL) (hs : Lower o (c+1) s)
    (hc : c+1<32) : (res_adder_l (unitSum s o)).extractLsb' 0 32=
      BitVec.ofNat 32 (o.op_a_i.toNat*(o.op_b_i.toNat%2^(32-c))) := by
  have hk : 32-c=32-(c+1)+1 := by omega
  have hbit := op_b_bit (o:=o) (k:=32-(c+1)) (by omega)
  have hsplit : o.op_b_i.toNat%2^(32-(c+1)+1)=o.op_b_i.toNat%2^(32-(c+1))+
    2^(32-(c+1))*(o.op_b_i.toNat/2^(32-(c+1))%2) := Nat.mod_pow_succ
  rw [low_unitSum h,operand_b_mull hop,hs.accum,hs.toSerial.bit,hs.op_a]
  apply BitVec.eq_of_toNat_eq
  rw [BitVec.toNat_add,toNat_gated,hbit,hk,hsplit,BitVec.extractLsb'_toNat,
    BitVec.toNat_ofNat,BitVec.toNat_ofNat,BitVec.toNat_ofNat,Nat.shiftRight_zero]
  generalize 2^(32-(c+1))=p
  have hexpand : o.op_a_i.toNat*(o.op_b_i.toNat%p+p*(o.op_b_i.toNat/p%2))=
      o.op_a_i.toNat*(o.op_b_i.toNat%p)+o.op_b_i.toNat/p%2*(o.op_a_i.toNat*p) := by ring
  rw [hexpand]
  rcases Nat.mod_two_eq_zero_or_one (o.op_b_i.toNat/p) with hzero | hone
  · rw [hzero]
    omega
  · rw [hone]
    omega

theorem Lower.next (h : Multiplies o) (hop : o.operator_i=.MULL) (hs : Lower o (c+1) s)
    (hc : c+1<32) : Lower o c (MultdivSlow.next s o (unitSum s o)) := by
  have hphase : s.curr_state_q=.MD_COMP := hs.phase
  have hlow := hs.low_succ h hop hc
  refine ⟨hs.toSerial.next h hc,?_,?_⟩ <;> simp only [MultdivSlow.next,hphase,hop]
  · exact hlow
  · have hk : 32-c=32-(c+1)+1 := by omega
    rw [hs.op_a,hk,Nat.pow_succ]
    apply BitVec.eq_of_toNat_eq
    rw [BitVec.toNat_shiftLeft,BitVec.toNat_ofNat,BitVec.toNat_ofNat,Nat.shiftLeft_eq,Nat.mod_mul_mod,
      Nat.mul_assoc]

/-- After all bits the multiplicand has left the low word. -/
theorem Lower.low_zero (h : Multiplies o) (hop : o.operator_i=.MULL) (hs : Lower o 0 s) :
    (res_adder_l (unitSum s o)).extractLsb' 0 32=o.op_a_i*o.op_b_i := by
  have hb := o.op_b_i.isLt
  rw [low_unitSum h,operand_b_mull hop,hs.accum,hs.op_a]
  apply BitVec.eq_of_toNat_eq
  rw [BitVec.toNat_add,toNat_gated,BitVec.extractLsb'_toNat,BitVec.toNat_ofNat,BitVec.toNat_ofNat,
    BitVec.toNat_mul,Nat.shiftRight_zero,Nat.mod_eq_of_lt hb]
  cases s.op_b_shift_q.getLsbD 0
  · rw [Bool.toNat_false]
    omega
  · rw [Bool.toNat_true]
    omega

theorem Lower.finishes (h : Multiplies o) (hop : o.operator_i=.MULL) (hc : c<32) (hs : Lower o c s) :
    Finishes unit Idle s o c (o.op_a_i*o.op_b_i) := by
  induction c generalizing s with
  | zero =>
    have hphase : s.curr_state_q=.MD_LAST := hs.phase
    refine finishes_zero (hs.toSerial.ready h) (fun i hi => ?_) fun i hi => ?_
    · change multdiv_result_o s i.md (sum unit s i)=_
      unfold multdiv_result_o
      rw [(step_mult h hi).1,hi,h.div,if_neg nofun]
      exact hs.low_zero h hop
    · rw [(step_mult h hi).2]
      unfold Idle
      simp only [MultdivSlow.next,hphase,hop]
  | succ c ih =>
    refine finishes_succ hs.toSerial.busy fun i hi => ?_
    rw [(step_mult h hi).2]
    exact ih (Nat.lt_of_succ_lt hc) (hs.next h hop hc)

theorem finishes_mul (h : Multiplies o) (hop : o.operator_i=.MULL) (hmode : o.signed_mode_i=0)
    (hs : Idle s) : Finishes unit Idle s o 32 (o.op_a_i*o.op_b_i) := by
  refine finishes_succ (idle_busy hs) fun i hi => Lower.finishes h hop (c:=31) (by omega) ?_
  rw [(step_mult h hi).2]
  have hsign : sign_a o=false := by
    unfold sign_a
    rw [hmode]
    exact Bool.and_false _
  refine ⟨⟨?_,?_,?_⟩,?_,?_⟩ <;>
    simp only [MultdivSlow.next,show s.curr_state_q=.MD_IDLE from hs,hop]
  · rfl
  · rfl
  · unfold first_pp op_a_ext
    rw [BitVec.extractLsb'_cons,BitVec.extractLsb'_cons]
    apply BitVec.eq_of_toNat_eq
    rw [toNat_gated,op_b_bit_zero,BitVec.toNat_ofNat,Nat.mul_comm]
    have hlt : o.op_a_i.toNat*(o.op_b_i.toNat%2)<2^32 := by
      have ha := o.op_a_i.isLt
      rcases Nat.mod_two_eq_zero_or_one o.op_b_i.toNat with hz | hz <;> rw [hz] <;> omega
    exact (Nat.mod_eq_of_lt hlt).symm
  · unfold op_a_ext
    rw [hsign]
    apply BitVec.eq_of_toNat_eq
    rw [BitVec.toNat_shiftLeft,BitVec.toNat_cons,BitVec.toNat_ofNat,Nat.shiftLeft_eq]
    simp

end Lower

section Upper

/-- Baugh-Wooley sum of the partial products up to bit `k`, with the correction that the
first cycle puts into the accumulator. -/
def upperSum (o : Md) (k : ℕ) : ℤ :=
  (2^33+2^32*(2^k-1)+(op_a_ext o).toInt*(o.op_b_i.toNat%2^k : ℕ))/2^k

/-- The accumulator of an upper product. -/
structure Upper (o : Md) (c : ℕ) (s : State) : Prop extends Serial o c s where
  accum : (s.accum_window_q.toNat : ℤ)=upperSum o (32-c)
  op_a : s.op_a_shift_q=op_a_ext o

/-- A number of 33 bits by its word and its sign. -/
theorem toInt_word (x : BitVec 33) :
    x.toInt=(x.extractLsb' 0 32).toNat-2^32*((x.getLsbD 32).toNat : ℤ) := by
  have hx := x.isLt
  have htop : (x.getLsbD 32).toNat=x.toNat/2^32 := by
    rw [BitVec.getLsbD,Nat.testBit_eq_decide_div_mod_eq]
    rcases Nat.mod_two_eq_zero_or_one (x.toNat/2^32) with hzero | hone
    · rw [hzero]
      change 0=_
      omega
    · rw [hone]
      change 1=_
      omega
  rw [htop,BitVec.toInt_eq_toNat_cond,BitVec.extractLsb'_toNat,Nat.shiftRight_zero]
  split_ifs <;> omega

/-- A partial product with its sign inverted is off by `2^32`. -/
theorem toNat_pp (x : BitVec 33) (b : Bool) :
    ((BitVec.cons (!(x.getLsbD 32 && b)) (x.extractLsb' 0 32 &&& BitVec.fill 32 b)).toNat : ℤ)=
      2^32+b.toNat*x.toInt := by
  rw [BitVec.toNat_cons',toNat_gated,Nat.shiftLeft_eq,toInt_word]
  cases x.getLsbD 32 <;> cases b <;> simp

/-- The last one is subtracted. -/
theorem toNat_last_pp (x : BitVec 33) (b : Bool) :
    ((BitVec.cons (x.getLsbD 32 && b) (~~~(x.extractLsb' 0 32 &&& BitVec.fill 32 b))).toNat : ℤ)=
      2^32-1-b.toNat*x.toInt := by
  have hx := (x.extractLsb' 0 32).isLt
  have hnot : ((~~~(x.extractLsb' 0 32 &&& BitVec.fill 32 b)).toNat : ℤ)=
      2^32-1-b.toNat*(x.extractLsb' 0 32).toNat := by
    rw [BitVec.toNat_not,toNat_gated]
    cases b
    · rw [Bool.toNat_false]
      omega
    · rw [Bool.toNat_true]
      omega
  rw [BitVec.toNat_cons',Nat.shiftLeft_eq,Nat.cast_add,hnot,toInt_word]
  cases x.getLsbD 32 <;> cases b <;> simp
  ring

/-- One bit more. -/
theorem upperSum_succ (o : Md) (k : ℕ) : upperSum o (k+1)=
    (upperSum o k+(2^32+(o.op_b_i.toNat/2^k%2 : ℕ)*(op_a_ext o).toInt))/2 := by
  have hsplit : o.op_b_i.toNat%2^(k+1)=o.op_b_i.toNat%2^k+2^k*(o.op_b_i.toNat/2^k%2) :=
    Nat.mod_pow_succ
  have hpos : (2 : ℤ)^k≠0 := by positivity
  unfold upperSum
  rw [←Int.add_mul_ediv_right _ _ hpos,Int.ediv_ediv_of_nonneg (by positivity),hsplit,pow_succ (2 : ℤ)]
  congr 1
  push_cast
  ring

theorem Upper.next (h : Multiplies o) (hop : o.operator_i=.MULH) (hs : Upper o (c+1) s)
    (hc : c+1<32) : Upper o c (MultdivSlow.next s o (unitSum s o)) := by
  have hphase : s.curr_state_q=.MD_COMP := hs.phase
  have hpp : ((alu_operand_b_o s o).toNat : ℤ)=
      2^32+(o.op_b_i.toNat/2^(32-(c+1))%2 : ℕ)*(op_a_ext o).toInt := by
    unfold alu_operand_b_o op_a_bw_pp
    rw [hop,hphase,←op_b_bit (by omega),←hs.toSerial.bit,←hs.op_a]
    exact toNat_pp ..
  refine ⟨hs.toSerial.next h hc,?_,?_⟩ <;> simp only [MultdivSlow.next,hphase,hop]
  · have hk : 32-c=32-(c+1)+1 := by omega
    have hsum := toNat_unitSum (s:=s) h
    have ha := s.accum_window_q.isLt
    have hb := (alu_operand_b_o s o).isLt
    rw [hk,upperSum_succ,←hpp,←hs.accum]
    unfold res_adder_h
    rw [BitVec.extractLsb'_toNat,hsum,Nat.shiftRight_eq_div_pow]
    omega
  · exact hs.op_a

/-- The value of the second operand. -/
theorem toInt_op_b_ext (o : Md) : (op_b_ext o).toInt=
    o.op_b_i.toNat-2^32*((sign_b o).toNat : ℤ) := by
  rw [toInt_word]
  unfold op_b_ext
  rw [BitVec.extractLsb'_cons,BitVec.getLsbD_cons]
  rfl

/-- The last partial product completes the upper word. -/
theorem Upper.low_zero (h : Multiplies o) (hop : o.operator_i=.MULH) (hs : Upper o 0 s) :
    (res_adder_l (unitSum s o)).extractLsb' 0 32=
      BitVec.ofInt 32 ((op_a_ext o).toInt*(op_b_ext o).toInt/2^32) := by
  have hphase : s.curr_state_q=.MD_LAST := hs.phase
  have hb := o.op_b_i.isLt
  have hbit : s.op_b_shift_q.getLsbD 0=sign_b o := by
    rw [hs.toSerial.bit]
    unfold op_b_ext
    rw [BitVec.getLsbD_cons]
    rfl
  have hpp : ((alu_operand_b_o s o).toNat : ℤ)=2^32-1-(sign_b o).toNat*(op_a_ext o).toInt := by
    unfold alu_operand_b_o op_a_bw_last_pp
    rw [hop,hphase,←hs.op_a,hbit]
    exact toNat_last_pp ..
  have hsum : ((unitSum s o).alu_adder_ext_i.toNat : ℤ)=
      (op_a_ext o).toInt*(op_b_ext o).toInt/2^32+2^33 := by
    have hsplit : (op_a_ext o).toInt*(op_b_ext o).toInt=
        (op_a_ext o).toInt*o.op_b_i.toNat+(-((sign_b o).toNat*(op_a_ext o).toInt))*2^32 := by
      rw [toInt_op_b_ext]
      ring
    rw [toNat_unitSum h,Nat.cast_add,hs.accum,hpp,hsplit]
    unfold upperSum
    rw [Nat.mod_eq_of_lt hb]
    omega
  apply BitVec.eq_of_toNat_eq
  unfold res_adder_l
  rw [BitVec.extractLsb'_toNat,BitVec.extractLsb'_toNat,BitVec.toNat_ofInt,Nat.shiftRight_zero,
    Nat.shiftRight_zero]
  omega

/-- The extended operands read with their signs. -/
theorem upperProduct_ext (o : Md) : BitVec.ofInt 32 ((op_a_ext o).toInt*(op_b_ext o).toInt/2^32)=
    Mult.upperProduct o.signed_mode_i o.op_a_i o.op_b_i := by
  have hvalue : ∀ (g : Bool) (x : BitVec 32),
      (BitVec.cons (x.getLsbD 31 && g) x).toInt=Mult.operandValue g x := fun g x => by
    rw [Bool.and_comm]
    exact toInt_cons_sign g x
  unfold Mult.upperProduct
  rw [extract_ofInt _ 32 (by omega),←hvalue,←hvalue]
  rfl

theorem Upper.finishes (h : Multiplies o) (hop : o.operator_i=.MULH) (hc : c<32) (hs : Upper o c s) :
    Finishes unit Idle s o c (Mult.upperProduct o.signed_mode_i o.op_a_i o.op_b_i) := by
  induction c generalizing s with
  | zero =>
    have hphase : s.curr_state_q=.MD_LAST := hs.phase
    refine finishes_zero (hs.toSerial.ready h) (fun i hi => ?_) fun i hi => ?_
    · change multdiv_result_o s i.md (sum unit s i)=_
      unfold multdiv_result_o
      rw [(step_mult h hi).1,hi,h.div,if_neg nofun,hs.low_zero h hop]
      exact upperProduct_ext o
    · rw [(step_mult h hi).2]
      unfold Idle
      simp only [MultdivSlow.next,hphase,hop]
  | succ c ih =>
    refine finishes_succ hs.toSerial.busy fun i hi => ?_
    rw [(step_mult h hi).2]
    exact ih (Nat.lt_of_succ_lt hc) (hs.next h hop hc)

theorem finishes_mulh (h : Multiplies o) (hop : o.operator_i=.MULH) (hs : Idle s) :
    Finishes unit Idle s o 32 (Mult.upperProduct o.signed_mode_i o.op_a_i o.op_b_i) := by
  refine finishes_succ (idle_busy hs) fun i hi => Upper.finishes h hop (c:=31) (by omega) ?_
  rw [(step_mult h hi).2]
  refine ⟨⟨?_,?_,?_⟩,?_,?_⟩ <;>
    simp only [MultdivSlow.next,show s.curr_state_q=.MD_IDLE from hs,hop]
  · rfl
  · rfl
  · -- the first partial product already has the correction below it
    have hfirst : ((first_pp o).toNat : ℤ)=
        2^32+(o.op_b_i.getLsbD 0).toNat*(op_a_ext o).toInt := toNat_pp ..
    have hbit := op_b_bit_zero o
    have hpp := (first_pp o).isLt
    unfold upperSum
    rw [BitVec.toNat_cons',BitVec.extractLsb'_toNat,Nat.shiftRight_eq_div_pow,Nat.shiftLeft_eq,
      Bool.toNat_true,Nat.sub_sub_self (by omega : 1≤32),pow_one,pow_one,←hbit,
      mul_comm (op_a_ext o).toInt]
    omega

end Upper

end Multiplication

end Pulpissimo.ZeroRiscy.MultdivSlow

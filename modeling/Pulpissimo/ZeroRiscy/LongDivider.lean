import Pulpissimo.ZeroRiscy.ExBlock

/-!
# Long division on words

The two units of zero-riscy divide alike: magnitudes first, then a quotient bit a cycle
with the remainder compared and reduced by the adder, the sign last. `Words` are the
registers that matter and `Words.next` what happens to them in a cycle, with subtraction
and comparison of words in place of the adder. A unit that moves its words so divides.
-/

namespace Pulpissimo.ZeroRiscy.LongDivider

open Pulpissimo.Machine Pulpissimo.Division
open Pulpissimo.Riscv Pulpissimo.ZeroRiscy.ExBlock

/-- Registers of a divider, but for its counter. -/
structure Words where
  phase : MdState
  reminder : BitVec 32
  denominator : BitVec 32
  numerator : BitVec 32
  quotient : BitVec 32

/-- Sign of the first operand. -/
def sign_a (o : Md) : Bool := o.op_a_i.getLsbD 31 && o.signed_mode_i.getLsbD 0

/-- Sign of the second operand. -/
def sign_b (o : Md) : Bool := o.op_b_i.getLsbD 31 && o.signed_mode_i.getLsbD 1

/-- Whether the result changes its sign. -/
def changes (o : Md) : Bool := if o.operator_i=.DIV then sign_a o ^^ sign_b o else sign_a o

section Next

variable (w : Words) (counter : BitVec 5) (o : Md)

/-- The remainder, less the divisor where it fits. -/
def Words.reduced : BitVec 32 :=
  if w.denominator ≤ w.reminder then w.reminder-w.denominator else w.reminder

/-- The quotient with the bit of the counter. -/
def Words.extended : BitVec 32 :=
  if w.denominator ≤ w.reminder then w.quotient ||| 1#32<<<counter.toNat else w.quotient

def Words.next : Words :=
  match w.phase with
  | .MD_IDLE => { w with
      reminder := if o.operator_i=.DIV then BitVec.allOnes 32 else o.op_a_i
      phase := if o.op_b_i=0 then .MD_FINISH else .MD_ABS_A }
  | .MD_ABS_A => { w with
      quotient := 0
      numerator := if sign_a o then -o.op_a_i else o.op_a_i
      phase := .MD_ABS_B }
  | .MD_ABS_B => { w with
      reminder := 0#31++BitVec.ofBool (w.numerator.getLsbD 31)
      denominator := if sign_b o then -o.op_b_i else o.op_b_i
      phase := .MD_COMP }
  | .MD_COMP => { w with
      reminder := w.reduced.extractLsb' 0 31++BitVec.ofBool (w.numerator.getLsbD (counter-1).toNat)
      quotient := w.extended counter
      phase := if counter=1 then .MD_LAST else .MD_COMP }
  | .MD_LAST => { w with
      reminder := if o.operator_i=.DIV then w.extended counter else w.reduced
      phase := .MD_CHANGE_SIGN }
  | .MD_CHANGE_SIGN => { w with
      reminder := if changes o then -w.reminder else w.reminder
      phase := .MD_FINISH }
  | .MD_FINISH => { w with phase := .MD_IDLE }

end Next

/-- What a division asks. -/
structure Divides (o : Md) (sign : Bool) : Prop where
  mult : o.mult_en_i=false
  div : o.div_en_i=true
  op : o.operator_i=.DIV ∨ o.operator_i=.REM
  sign_a : o.signed_mode_i.getLsbD 0=sign
  sign_b : o.signed_mode_i.getLsbD 1=sign

/-- A unit whose words move as `Words.next` says when it divides. `Rest` holds while its
other parts rest. -/
structure Refines {σ : Type} (u : Multdiv σ) (view : σ → Words) (counter : σ → BitVec 5)
    (Rest Idle : σ → Prop) : Prop where
  words : ∀ {o sign s i}, Divides o sign → i.md=o →
    view (ExBlock.step u s i)=(view s).next (counter s) o
  rest : ∀ {o sign s i}, Divides o sign → i.md=o → Rest s → Rest (ExBlock.step u s i)
  start : ∀ {o sign s i}, Divides o sign → i.md=o → (view s).phase=.MD_IDLE →
    counter (ExBlock.step u s i)=31
  hold : ∀ {o sign s i}, Divides o sign → i.md=o → (view s).phase=.MD_ABS_A ∨
    (view s).phase=.MD_ABS_B → counter s=31 → counter (ExBlock.step u s i)=31
  count : ∀ {o sign s i}, Divides o sign → i.md=o → (view s).phase=.MD_COMP →
    counter (ExBlock.step u s i)=counter s-1
  ready : ∀ {o sign s}, Divides o sign → Rest s →
    u.ready_o s o=decide ((view s).phase=.MD_FINISH)
  result : ∀ {o sign s i}, Divides o sign → i.md=o → multdiv_result u s i=(view s).reminder
  idle : ∀ {s}, Rest s → (view s).phase=.MD_IDLE → Idle s

section Bit

variable {N D c : ℕ} {w : Words} {o : Md}

/-- The words at bit `c` of the division of `N` by `D`. -/
structure Dividing (N D c : ℕ) (w : Words) : Prop where
  phase : w.phase=if c=0 then .MD_LAST else .MD_COMP
  reminder : w.reminder=BitVec.ofNat 32 (window N D c)
  denominator : w.denominator=BitVec.ofNat 32 D
  numerator : w.numerator=BitVec.ofNat 32 N
  quotient : w.quotient=BitVec.ofNat 32 (2^(c+1)*(N/2^(c+1)/D))

theorem Dividing.fits_iff (hw : Dividing N D c w) (hN : N<2^32) (hD : D<2^32) :
    w.denominator ≤ w.reminder ↔ D ≤ window N D c := by
  have hle := window_le (N:=N) (D:=D) c
  rw [hw.denominator,hw.reminder,BitVec.le_def,BitVec.toNat_ofNat,BitVec.toNat_ofNat,
    Nat.mod_eq_of_lt hD,Nat.mod_eq_of_lt (by omega)]

/-- The reduced remainder is that of the dividend down to bit `c`. -/
theorem Dividing.reduced_eq (hw : Dividing N D c w) (hN : N<2^32) (hD0 : 0<D) (hD : D<2^32) :
    w.reduced=BitVec.ofNat 32 (N/2^c%D) := by
  have hle := window_le (N:=N) (D:=D) c
  have hiff := hw.fits_iff hN hD
  rw [←window_sub hD0 c]
  unfold Words.reduced
  by_cases hfit : D ≤ window N D c
  · rw [if_pos (hiff.mpr hfit),if_pos hfit,hw.denominator,hw.reminder]
    apply BitVec.eq_of_toNat_eq
    rw [BitVec.toNat_sub,BitVec.toNat_ofNat,BitVec.toNat_ofNat,BitVec.toNat_ofNat]
    omega
  · rw [if_neg (mt hiff.mp hfit),if_neg hfit,hw.reminder]

/-- The quotient with its bit is that of the dividend down to bit `c`. -/
theorem Dividing.extended_eq (hw : Dividing N D c w) (hN : N<2^32) (hD0 : 0<D) (hD : D<2^32)
    {counter : BitVec 5} (hc : counter.toNat=c) :
    w.extended counter=BitVec.ofNat 32 (2^c*(N/2^c/D)) := by
  have hiff := hw.fits_iff hN hD
  have hpow : ∀ q, 2^(c+1)*q=2^c*(2*q) := fun q => by ring
  have hone : 1#32<<<c=BitVec.ofNat 32 (2^c) := by
    apply BitVec.eq_of_toNat_eq
    rw [BitVec.toNat_shiftLeft,BitVec.toNat_ofNat,BitVec.toNat_ofNat,Nat.shiftLeft_eq,Nat.mod_mul_mod,
      Nat.one_mul]
  rw [quotient_window hD0 c]
  unfold Words.extended
  by_cases hfit : D ≤ window N D c
  · rw [if_pos (hiff.mpr hfit),if_pos hfit,hw.quotient,hc,hone,←BitVec.ofNat_or,
      ←Nat.two_pow_add_eq_or_of_lt (Nat.pow_lt_pow_right (by omega) (Nat.lt_succ_self c)),hpow]
    congr 1
  · rw [if_neg (mt hiff.mp hfit),if_neg hfit,hw.quotient,hpow]
    rfl

/-- The next bit of the dividend goes behind the remainder. -/
theorem append_window (hc : c<32) :
    (BitVec.ofNat 32 (N/2^(c+1)%D)).extractLsb' 0 31++BitVec.ofBool ((BitVec.ofNat 32 N).getLsbD c)=
      BitVec.ofNat 32 (window N D c) := by
  have hbit : ((BitVec.ofNat 32 N).getLsbD c).toNat=N/2^c%2 := by
    rw [BitVec.getLsbD_ofNat,decide_eq_true hc,Bool.true_and,Nat.testBit_eq_decide_div_mod_eq]
    rcases Nat.mod_two_eq_zero_or_one (N/2^c) with hzero | hone
    · rw [hzero]
      rfl
    · rw [hone]
      rfl
  apply BitVec.eq_of_toNat_eq
  rw [BitVec.toNat_append,BitVec.extractLsb'_toNat,BitVec.toNat_ofNat,BitVec.toNat_ofBool,hbit,
    Nat.shiftRight_zero,Nat.shiftLeft_eq,Nat.mul_comm,←Nat.two_pow_add_eq_or_of_lt (by omega),
    BitVec.toNat_ofNat]
  unfold window
  omega

/-- Bit `c+1` is done, bit `c` is next. -/
theorem Dividing.next_succ (hw : Dividing N D (c+1) w) (hN : N<2^32) (hD0 : 0<D) (hD : D<2^32)
    (hc : c+1<32) {counter : BitVec 5} (hcount : counter.toNat=c+1) :
    Dividing N D c (w.next counter o) ∧ (counter-1).toNat=c := by
  have hphase : w.phase=.MD_COMP := hw.phase
  have hless : (counter-1).toNat=c := by
    rw [BitVec.toNat_sub,hcount]
    change (2^5-1+(c+1))%2^5=c
    omega
  have hone : counter=1 ↔ c=0 := by
    rw [←BitVec.toNat_inj,hcount]
    change c+1=1 ↔ _
    omega
  refine ⟨⟨?_,?_,?_,?_,?_⟩,hless⟩ <;> simp only [Words.next,hphase]
  · by_cases hzero : c=0
    · rw [if_pos (hone.mpr hzero),if_pos hzero]
    · rw [if_neg (mt hone.mp hzero),if_neg hzero]
  · rw [hless,hw.reduced_eq hN hD0 hD,hw.numerator,append_window (by omega)]
  · exact hw.denominator
  · exact hw.numerator
  · exact hw.extended_eq hN hD0 hD hcount

/-- The magnitude of the result. -/
def magnitudeOf (o : Md) (N D : ℕ) : ℕ := if o.operator_i=.DIV then N/D else N%D

/-- The last bit. -/
theorem Dividing.next_zero (hw : Dividing N D 0 w) (hN : N<2^32) (hD0 : 0<D) (hD : D<2^32)
    {counter : BitVec 5} (hcount : counter.toNat=0) :
    (w.next counter o).phase=.MD_CHANGE_SIGN ∧
      (w.next counter o).reminder=BitVec.ofNat 32 (magnitudeOf o N D) := by
  have hphase : w.phase=.MD_LAST := hw.phase
  have hrem := hw.reduced_eq hN hD0 hD
  have hquot := hw.extended_eq hN hD0 hD hcount
  rw [Nat.pow_zero,Nat.div_one] at hrem
  rw [Nat.pow_zero,Nat.div_one,Nat.one_mul] at hquot
  refine ⟨?_,?_⟩ <;> simp only [Words.next,hphase]
  rw [hrem,hquot]
  unfold magnitudeOf
  split_ifs <;> rfl

end Bit

section Signs

/-- The word of a magnitude, by negation under the sign. -/
theorem word_magnitude (sign : Bool) (x : BitVec 32) :
    (if x.getLsbD 31 && sign then -x else x)=BitVec.ofNat 32 (Riscv.Alu.magnitude sign x) := by
  have hx := x.isLt
  have hmsb : x.msb=x.getLsbD 31 := BitVec.msb_eq_getLsbD_last x
  unfold Riscv.Alu.magnitude
  rw [hmsb]
  apply BitVec.eq_of_toNat_eq
  split_ifs
  · rw [BitVec.toNat_neg,BitVec.toNat_ofNat]
  · rw [BitVec.toNat_ofNat,Nat.mod_eq_of_lt hx]

/-- Only zero has no magnitude. -/
theorem magnitude_pos {sign : Bool} {x : BitVec 32} (hx : x≠0#32) :
    0<Riscv.Alu.magnitude sign x := by
  have hlt := x.isLt
  have hne : x.toNat≠0 := fun h => hx (BitVec.eq_of_toNat_eq h)
  unfold Riscv.Alu.magnitude
  split_ifs <;> omega

/-- The quotient or the remainder of RISC-V. -/
def specOf (o : Md) (sign : Bool) : BitVec 32 :=
  if o.operator_i=.DIV then Riscv.Alu.quotientSpec sign o.op_a_i o.op_b_i
  else Riscv.Alu.remainderSpec sign o.op_a_i o.op_b_i

variable {o : Md} {sign : Bool}

theorem sign_a_eq (h : Divides o sign) : sign_a o=(o.op_a_i.getLsbD 31 && sign) := by
  unfold sign_a
  rw [h.sign_a]

theorem sign_b_eq (h : Divides o sign) : sign_b o=(o.op_b_i.getLsbD 31 && sign) := by
  unfold sign_b
  rw [h.sign_b]

/-- The magnitude under its sign is the result. -/
theorem signed_magnitudeOf (h : Divides o sign) (hb : o.op_b_i≠0#32) :
    AluDiv.signed (changes o) (magnitudeOf o (Riscv.Alu.magnitude sign o.op_a_i)
      (Riscv.Alu.magnitude sign o.op_b_i))=specOf o sign := by
  have hmsb : ∀ x : BitVec 32, x.getLsbD 31=x.msb := fun x => (BitVec.msb_eq_getLsbD_last x).symm
  unfold changes magnitudeOf specOf
  rw [sign_a_eq h,sign_b_eq h,hmsb,hmsb]
  split_ifs
  · unfold Riscv.Alu.quotientSpec
    rw [Riscv.Alu.signed_quotient,if_neg hb]
  · unfold Riscv.Alu.remainderSpec
    rw [Riscv.Alu.signed_remainder,if_neg hb]

end Signs

section Run

variable {σ : Type} {u : Multdiv σ} {view : σ → Words} {counter : σ → BitVec 5}
  {Rest Idle : σ → Prop} {o : Md} {sign : Bool} {s : σ} {N D c : ℕ}

/-- A divider with its result. -/
theorem finishes_finish (hu : Refines u view counter Rest Idle) (h : Divides o sign) (hr : Rest s)
    (hp : (view s).phase=.MD_FINISH) : Finishes u Idle s o 0 (view s).reminder := by
  refine finishes_zero ?_ (fun i hi => hu.result h hi) fun i hi => ?_
  · rw [hu.ready h hr,hp]
    rfl
  · refine hu.idle (hu.rest h hi hr) ?_
    rw [hu.words h hi]
    simp only [Words.next,hp]

theorem busy (hu : Refines u view counter Rest Idle) (h : Divides o sign) (hr : Rest s)
    (hp : (view s).phase≠.MD_FINISH) : u.ready_o s o=false := by
  rw [hu.ready h hr,decide_eq_false hp]

/-- A divider with the magnitude of its result. -/
theorem finishes_change (hu : Refines u view counter Rest Idle) (h : Divides o sign) (hr : Rest s)
    (hp : (view s).phase=.MD_CHANGE_SIGN) {r : ℕ} (hrem : (view s).reminder=BitVec.ofNat 32 r) :
    Finishes u Idle s o 1 (AluDiv.signed (changes o) r) := by
  refine finishes_succ (busy hu h hr (by rw [hp]; nofun)) fun i hi => ?_
  have hnext := hu.words (s:=s) h hi
  have hphase : (view (ExBlock.step u s i)).phase=.MD_FINISH := by
    rw [hnext]
    simp only [Words.next,hp]
  have hvalue : (view (ExBlock.step u s i)).reminder=AluDiv.signed (changes o) r := by
    rw [hnext]
    simp only [Words.next,hp,hrem]
    rfl
  rw [←hvalue]
  exact finishes_finish hu h (hu.rest h hi hr) hphase

/-- The divider finishes from bit `c`. -/
theorem finishes_comp (hu : Refines u view counter Rest Idle) (h : Divides o sign) (hN : N<2^32)
    (hD0 : 0<D) (hD : D<2^32) (hc : c<32) (hr : Rest s) (hw : Dividing N D c (view s))
    (hcount : (counter s).toNat=c) :
    Finishes u Idle s o (c+2) (AluDiv.signed (changes o) (magnitudeOf o N D)) := by
  induction c generalizing s with
  | zero =>
    refine finishes_succ (busy hu h hr (by rw [hw.phase]; nofun)) fun i hi => ?_
    rcases hw.next_zero (o:=o) hN hD0 hD hcount with ⟨hphase,hrem⟩
    rw [←hu.words h hi] at hphase hrem
    exact finishes_change hu h (hu.rest h hi hr) hphase hrem
  | succ c ih =>
    refine finishes_succ (busy hu h hr (by rw [hw.phase]; nofun)) fun i hi => ?_
    rcases hw.next_succ (o:=o) hN hD0 hD hc hcount with ⟨hnext,hless⟩
    rw [←hu.words h hi] at hnext
    rw [←hu.count h hi hw.phase] at hless
    exact ih (Nat.lt_of_succ_lt hc) (hu.rest h hi hr) hnext hless

/-- The divider finishes from the dividend's magnitude. -/
theorem finishes_abs_b (hu : Refines u view counter Rest Idle) (h : Divides o sign)
    (hb : o.op_b_i≠0#32) (hr : Rest s) (hp : (view s).phase=.MD_ABS_B)
    (hnum : (view s).numerator=BitVec.ofNat 32 (Riscv.Alu.magnitude sign o.op_a_i))
    (hquot : (view s).quotient=0) (hcount : counter s=31) :
    Finishes u Idle s o 34 (specOf o sign) := by
  have hN := Riscv.Alu.magnitude_lt sign o.op_a_i
  have hD := Riscv.Alu.magnitude_lt sign o.op_b_i
  have hzero : Riscv.Alu.magnitude sign o.op_a_i/2^(31+1)=0 := Nat.div_eq_of_lt hN
  have hfirst := append_window (N:=Riscv.Alu.magnitude sign o.op_a_i) (c:=31)
    (D:=Riscv.Alu.magnitude sign o.op_b_i) (by omega)
  rw [hzero,Nat.zero_mod] at hfirst
  rw [←signed_magnitudeOf h hb]
  refine finishes_succ (busy hu h hr (by rw [hp]; nofun)) fun i hi => ?_
  refine finishes_comp hu h hN (magnitude_pos hb) hD (c:=31) (by omega) (hu.rest h hi hr) ?_ ?_
  · rw [hu.words h hi]
    refine ⟨?_,?_,?_,?_,?_⟩ <;> simp only [Words.next,hp]
    · rfl
    · rw [hnum,←hfirst]
      rfl
    · rw [sign_b_eq h,word_magnitude]
    · exact hnum
    · rw [hquot,hzero,Nat.zero_div,Nat.mul_zero]
      rfl
  · rw [hu.hold h hi (Or.inr hp) hcount]
    rfl

/-- Cycles before the result of a division. -/
def divCycles (b : BitVec 32) : ℕ := if b=0#32 then 1 else 36

/-- A unit that refines the words divides. -/
theorem finishes_div (hu : Refines u view counter Rest Idle) (h : Divides o sign) (hr : Rest s)
    (hp : (view s).phase=.MD_IDLE) :
    Finishes u Idle s o (divCycles o.op_b_i) (specOf o sign) := by
  have hbusy := busy hu h hr (by rw [hp]; nofun)
  unfold divCycles
  by_cases hb : o.op_b_i=0#32
  · rw [if_pos hb]
    refine finishes_succ hbusy fun i hi => ?_
    have hnext := hu.words (s:=s) h hi
    have hphase : (view (ExBlock.step u s i)).phase=.MD_FINISH := by
      rw [hnext]
      simp only [Words.next,hp]
      exact if_pos hb
    have hvalue : (view (ExBlock.step u s i)).reminder=specOf o sign := by
      unfold specOf Riscv.Alu.quotientSpec Riscv.Alu.remainderSpec
      rw [hnext,if_pos hb,if_pos hb]
      simp only [Words.next,hp]
    rw [←hvalue]
    exact finishes_finish hu h (hu.rest h hi hr) hphase
  · rw [if_neg hb]
    refine finishes_succ hbusy fun i hi => ?_
    have hfirst := hu.words (s:=s) h hi
    have hphase : (view (ExBlock.step u s i)).phase=.MD_ABS_A := by
      rw [hfirst]
      simp only [Words.next,hp]
      exact if_neg hb
    have hcount := hu.start h hi hp
    have hrest := hu.rest h hi hr
    revert hphase hcount hrest
    generalize ExBlock.step u s i=t
    intro hphase hcount hrest
    refine finishes_succ (busy hu h hrest (by rw [hphase]; nofun)) fun j hj => ?_
    have hsecond := hu.words (s:=t) h hj
    refine finishes_abs_b hu h hb (hu.rest h hj hrest) ?_ ?_ ?_ (hu.hold h hj (Or.inl hphase) hcount)
    · rw [hsecond]
      simp only [Words.next,hphase]
    · rw [hsecond]
      simp only [Words.next,hphase]
      rw [sign_a_eq h,word_magnitude]
    · rw [hsecond]
      simp only [Words.next,hphase]

end Run

end Pulpissimo.ZeroRiscy.LongDivider

import Mathlib.Data.Nat.Log
import Mathlib.Tactic.Ring
import Pulpissimo.Lib.Machine

/-!
# The sequential multiplier

`hwpe_ctrl_seq_mult` adds one shifted partial product in each cycle. The start
strobe takes in the first of them, and a counter says which bit of the first
operand is next. The counter is back at zero with the last partial product, so
`valid_o` is high again in the cycle that shows the whole product.
-/

namespace Pulpissimo.Hwpe.SeqMult

open Pulpissimo.Machine

/-- Registers. -/
structure Regs (AW BW : ℕ) where
  /-- Bit of the first operand that is next. -/
  cnt : BitVec (Nat.clog 2 (AW+1))
  /-- Partial products so far. -/
  prod_o : BitVec (AW+BW)

/-- One cycle of inputs. -/
structure Input (AW BW : ℕ) where
  clear_i : Bool
  start_i : Bool
  a_i : BitVec AW
  b_i : BitVec BW

variable {AW BW : ℕ}

/-- Registers after reset. -/
def reset (AW BW : ℕ) : Regs AW BW := ⟨0,0⟩

/-- The unit is not at work. -/
def Regs.valid_o (s : Regs AW BW) : Bool := s.cnt==0

/-- Partial product of the bit that is next. -/
def Regs.shifted (s : Regs AW BW) (i : Input AW BW) : BitVec (AW+BW) :=
  (BitVec.fill BW (i.a_i.getLsbD s.cnt.toNat) &&& i.b_i).setWidth (AW+BW) <<< s.cnt.toNat

/-- One clock. -/
def step (s : Regs AW BW) (i : Input AW BW) : Regs AW BW where
  cnt :=
    if i.clear_i=true then 0
    else if s.cnt.toNat=AW-1 then 0
    else if i.start_i=true ∨ 0 < s.cnt.toNat then s.cnt+1
    else s.cnt
  prod_o :=
    if i.clear_i=true then 0
    else if i.start_i=true then s.shifted i
    else if 0 < s.cnt.toNat then s.prod_o+s.shifted i
    else s.prod_o

theorem Regs.valid_o_iff (s : Regs AW BW) : s.valid_o=true ↔ s.cnt.toNat=0 := by
  rw [Regs.valid_o,beq_iff_eq,←BitVec.toNat_inj]
  rfl

/-- A partial product fits in the width of the product. -/
theorem Regs.toNat_shifted (s : Regs AW BW) (i : Input AW BW) (hcnt : s.cnt.toNat<AW) :
    (s.shifted i).toNat=2^s.cnt.toNat*(i.a_i.toNat/2^s.cnt.toNat%2)*i.b_i.toNat := by
  have hpow : 2^s.cnt.toNat<2^AW := Nat.pow_lt_pow_right (by decide) hcnt
  have hfit : i.b_i.toNat*2^s.cnt.toNat<2^(AW+BW) := by
    rw [Nat.pow_add,Nat.mul_comm (2^AW)]
    exact Nat.mul_lt_mul'' i.b_i.isLt hpow
  have hbit := Nat.toNat_testBit i.a_i.toNat s.cnt.toNat
  rw [Regs.shifted,BitVec.toNat_shiftLeft,Nat.shiftLeft_eq,BitVec.toNat_setWidth,
    BitVec.toNat_and,←hbit,←BitVec.testBit_toNat]
  cases i.a_i.toNat.testBit s.cnt.toNat with
  | false => simp
  | true =>
    have hwide : i.b_i.toNat<2^(AW+BW) :=
      Nat.lt_of_lt_of_le i.b_i.isLt (Nat.pow_le_pow_right (by decide) (by omega))
    rw [BitVec.fill_true,←BitVec.toNat_and,BitVec.allOnes_and,Nat.mod_eq_of_lt hwide,
      Nat.mod_eq_of_lt hfit,Bool.toNat_true,Nat.mul_one,Nat.mul_comm]

/-- A product up to one bit more. -/
theorem mod_mul_succ (a b k : ℕ) :
    a%2^(k+1)*b=a%2^k*b+2^k*(a/2^k%2)*b := by
  rw [Nat.mod_pow_succ]
  ring

/-- The counter does not wrap before it is compared. -/
theorem toNat_succ (s : Regs AW BW) (hcnt : s.cnt.toNat<AW) :
    (s.cnt+1).toNat=s.cnt.toNat+1 := by
  have hfit : AW+1≤2^Nat.clog 2 (AW+1) := Nat.le_pow_clog (by decide) _
  have htwo : 1<2^Nat.clog 2 (AW+1) := by omega
  have hone : (1 : BitVec (Nat.clog 2 (AW+1))).toNat=1 := Nat.mod_eq_of_lt htwo
  rw [BitVec.toNat_add]
  rw [hone]
  exact Nat.mod_eq_of_lt (by omega)

/-- A multiplication: its operands, and how many clocks ago it was started. -/
structure Job (AW BW : ℕ) where
  a : BitVec AW
  b : BitVec BW
  age : ℕ

/-- The unit with the multiplication it was started for last. -/
structure Watch (AW BW : ℕ) where
  unit : Regs AW BW
  job : Option (Job AW BW)

/-- Nothing was started yet. -/
def Watch.reset (AW BW : ℕ) : Watch AW BW := ⟨SeqMult.reset AW BW,none⟩

/-- One clock. A clear ends a multiplication, a start begins one. -/
def Watch.step (w : Watch AW BW) (i : Input AW BW) : Watch AW BW where
  unit := SeqMult.step w.unit i
  job :=
    if i.clear_i=true then none
    else if i.start_i=true then some ⟨i.a_i,i.b_i,1⟩
    else w.job.map fun j => { j with age := j.age+1 }

/-- Starts come while the unit is idle, and the operands stand still while it is at work. -/
def Watch.Legal (w : Watch AW BW) (i : Input AW BW) : Prop :=
  (i.start_i=true → w.unit.valid_o=true) ∧
    ∀ j, w.job=some j → w.unit.valid_o=false → i.a_i=j.a ∧ i.b_i=j.b

/-- `valid_o` is low until the bits of the first operand are used up, and high from then on
with the product. -/
def Watch.Right (w : Watch AW BW) : Prop :=
  match w.job with
  | none => w.unit.valid_o=true
  | some j => (w.unit.valid_o=true ↔ AW ≤ j.age) ∧
      (AW ≤ j.age → w.unit.prod_o.toNat=j.a.toNat*j.b.toNat)

/-- Number of bits that the product of a multiplication has in it. -/
def Job.bits (j : Job AW BW) : ℕ := min j.age AW

/-- The counter is the number of bits in the product, and zero when these are all. -/
structure Watch.Inv (w : Watch AW BW) : Prop where
  idle : w.job=none → w.unit.cnt.toNat=0
  cnt : ∀ j, w.job=some j → w.unit.cnt.toNat=if j.age<AW then j.age else 0
  prod : ∀ j, w.job=some j → w.unit.prod_o.toNat=j.a.toNat%2^j.bits*j.b.toNat
  age : ∀ j, w.job=some j → 1 ≤ j.age

theorem Watch.Inv.reset (AW BW : ℕ) : (Watch.reset AW BW).Inv where
  idle _ := BitVec.toNat_ofNat _ _
  cnt _ h := nomatch h
  prod _ h := nomatch h
  age _ h := nomatch h

/-- The counter stays below the number of bits. -/
theorem Watch.Inv.cnt_lt {w : Watch AW BW} (h : w.Inv) (hAW : 1 ≤ AW) : w.unit.cnt.toNat<AW := by
  cases hjob : w.job with
  | none =>
    rw [h.idle hjob]
    exact hAW
  | some j =>
    rw [h.cnt j hjob]
    split_ifs with hage
    · exact hage
    · exact hAW

/-- An idle unit is started with the first partial product. -/
theorem Watch.Inv.step_start {w : Watch AW BW} (h : w.Inv) (hAW : 1 ≤ AW) {i : Input AW BW}
    (hlegal : w.Legal i) (hclear : i.clear_i=false) (hstart : i.start_i=true) :
    (w.step i).Inv := by
  have hzero : w.unit.cnt.toNat=0 := (Regs.valid_o_iff _).mp (hlegal.1 hstart)
  have hjob : (w.step i).job=some ⟨i.a_i,i.b_i,1⟩ := by
    simp [Watch.step,hclear,hstart]
  have hcnt : (w.step i).unit.cnt=if w.unit.cnt.toNat=AW-1 then 0 else w.unit.cnt+1 := by
    simp [Watch.step,SeqMult.step,hclear,hstart]
  have hprod : (w.step i).unit.prod_o=w.unit.shifted i := by
    simp [Watch.step,SeqMult.step,hclear,hstart]
  have hsum := mod_mul_succ i.a_i.toNat i.b_i.toNat 0
  have hshift := w.unit.toNat_shifted i (h.cnt_lt hAW)
  rw [hzero] at hshift hcnt
  refine ⟨fun hn => (nomatch hjob.symm.trans hn),?_,?_,?_⟩
  · intro j hj
    cases hjob.symm.trans hj
    rw [hcnt]
    dsimp only
    by_cases hone : AW=1
    · rw [if_pos (by omega),if_neg (by omega)]
      exact BitVec.toNat_ofNat _ _
    · rw [if_neg (by omega),if_pos (by omega),toNat_succ _ (h.cnt_lt hAW),hzero]
  · intro j hj
    cases hjob.symm.trans hj
    have hbits : min 1 AW=0+1 := Nat.min_eq_left hAW
    rw [hprod,hshift,Job.bits,hbits,hsum,Nat.pow_zero,Nat.mod_one,Nat.zero_mul,Nat.zero_add]
  · intro j hj
    cases hjob.symm.trans hj
    exact Nat.le_refl 1

/-- A unit at work adds the partial product that is next, and one that is done keeps its own. -/
theorem Watch.Inv.step_work {w : Watch AW BW} (h : w.Inv) (hAW : 1 ≤ AW) {i : Input AW BW}
    (hlegal : w.Legal i) (hclear : i.clear_i=false) (hstart : i.start_i=false) {j : Job AW BW}
    (hj : w.job=some j) : (w.step i).Inv := by
  have hjob : (w.step i).job=some { j with age := j.age+1 } := by
    simp [Watch.step,hclear,hstart,hj]
  have hcnt : (w.step i).unit.cnt=if w.unit.cnt.toNat=AW-1 then 0
      else if 0<w.unit.cnt.toNat then w.unit.cnt+1 else w.unit.cnt := by
    simp [Watch.step,SeqMult.step,hclear,hstart]
  have hprod : (w.step i).unit.prod_o=if 0<w.unit.cnt.toNat then w.unit.prod_o+w.unit.shifted i
      else w.unit.prod_o := by
    simp [Watch.step,SeqMult.step,hclear,hstart]
  have hnow := h.cnt j hj
  have hage := h.age j hj
  refine ⟨fun hn => (nomatch hjob.symm.trans hn),?_,?_,?_⟩
  · intro k hk
    cases hjob.symm.trans hk
    have hsucc := toNat_succ _ (h.cnt_lt hAW)
    rw [hcnt]
    dsimp only
    split_ifs at hnow ⊢ <;> first | exact BitVec.toNat_ofNat _ _ | omega
  · intro k hk
    cases hjob.symm.trans hk
    rw [hprod]
    by_cases hbusy : j.age<AW
    · -- the operands have not changed since the start
      rw [if_pos hbusy] at hnow
      have hlow : w.unit.valid_o=false := by
        rw [←Bool.not_eq_true,Regs.valid_o_iff]
        omega
      have hsame := hlegal.2 j hj hlow
      have hshift := w.unit.toNat_shifted i (h.cnt_lt hAW)
      rw [hsame.1,hsame.2,hnow] at hshift
      have hold := h.prod j hj
      have hbits : j.bits=j.age := Nat.min_eq_left (Nat.le_of_lt hbusy)
      have hbits' : min (j.age+1) AW=j.age+1 := Nat.min_eq_left hbusy
      rw [hbits] at hold
      rw [if_pos (by omega),BitVec.toNat_add,hold,hshift,←mod_mul_succ,Job.bits,hbits']
      apply Nat.mod_eq_of_lt
      calc j.a.toNat%2^(j.age+1)*j.b.toNat
          < 2^AW*2^BW := Nat.mul_lt_mul'' (Nat.lt_of_le_of_lt (Nat.mod_le _ _) j.a.isLt) j.b.isLt
        _ = 2^(AW+BW) := (Nat.pow_add _ _ _).symm
    · rw [if_neg hbusy] at hnow
      have hbits : j.bits=AW := Nat.min_eq_right (by omega)
      have hbits' : min (j.age+1) AW=AW := Nat.min_eq_right (by omega)
      rw [if_neg (by omega),h.prod j hj,hbits,Job.bits,hbits']
  · intro k hk
    cases hjob.symm.trans hk
    exact Nat.le_add_left 1 _

/-- One cycle keeps the count and the sum. -/
theorem Watch.Inv.step {w : Watch AW BW} (h : w.Inv) (hAW : 1 ≤ AW) {i : Input AW BW}
    (hlegal : w.Legal i) : (w.step i).Inv := by
  cases hclear : i.clear_i with
  | true =>
    have hjob : (w.step i).job=none := by simp [Watch.step,hclear]
    refine ⟨fun _ => ?_,?_,?_,?_⟩
    · simp [Watch.step,SeqMult.step,hclear]
    all_goals exact fun j hj => (nomatch hjob.symm.trans hj)
  | false =>
    cases hstart : i.start_i with
    | true => exact h.step_start hAW hlegal hclear hstart
    | false =>
      cases hj : w.job with
      | some j => exact h.step_work hAW hlegal hclear hstart hj
      | none =>
        have hjob : (w.step i).job=none := by simp [Watch.step,hclear,hstart,hj]
        have hzero := h.idle hj
        refine ⟨fun _ => ?_,?_,?_,?_⟩
        · have hcnt : (w.step i).unit.cnt=if w.unit.cnt.toNat=AW-1 then 0 else w.unit.cnt := by
            simp [Watch.step,SeqMult.step,hclear,hstart,hzero]
          rw [hcnt]
          split_ifs
          · exact BitVec.toNat_ofNat _ _
          · exact hzero
        all_goals exact fun j hk => (nomatch hjob.symm.trans hk)

/-- The product is complete when the counter is back at zero. -/
theorem Watch.Inv.right {w : Watch AW BW} (h : w.Inv) : w.Right := by
  unfold Watch.Right
  cases hjob : w.job with
  | none => exact (Regs.valid_o_iff _).mpr (h.idle hjob)
  | some j =>
    have hcnt := h.cnt j hjob
    have hage := h.age j hjob
    refine ⟨?_,fun hdone => ?_⟩
    · rw [Regs.valid_o_iff,hcnt]
      split_ifs <;> omega
    · have hbits : j.bits=AW := Nat.min_eq_right hdone
      rw [h.prod j hjob,hbits,Nat.mod_eq_of_lt j.a.isLt]

/-- For all widths, in all runs with starts while the unit is idle and operands that stand still
while it is at work: `valid_o` is low after a start until each bit of the first operand had its
clock, and from then on until the next start, or a clear, it is high with the exact product. -/
theorem multiplies (hAW : 1 ≤ AW) (is : List (Input AW BW))
    (hlegal : Meets Watch.step Watch.Legal (Watch.reset AW BW) is) :
    Meets Watch.step (fun w _ => w.Right) (Watch.reset AW BW) is ∧
      (after Watch.step (Watch.reset AW BW) is).Right := by
  have hstep : ∀ (w : Watch AW BW) i, w.Inv → w.Legal i → (w.step i).Inv :=
    fun w i h hl => h.step hAW hl
  exact ⟨meets_of_meets hstep (fun w i h _ => h.right) (Watch.Inv.reset AW BW) hlegal,
    (after_invariant_of_meets hstep (Watch.Inv.reset AW BW) hlegal).right⟩

/-- A cycle in which two operands of two bits are shown, and the strobe that starts with them. -/
def hold (a b : BitVec 2) : Input 2 2 := ⟨false,false,a,b⟩

def strobe (a b : BitVec 2) : Input 2 2 := ⟨false,true,a,b⟩

/-- Two multiplications back to back, the second with other operands, and a third that a clear
ends. -/
def backToBack : List (Input 2 2) :=
  [strobe 3 3,hold 3 3,strobe 2 3,hold 2 3,hold 0 0,strobe 1 1,⟨true,false,1,1⟩]

theorem multiplies_back_to_back :
    Meets Watch.step (fun w _ => w.Right) (Watch.reset 2 2) backToBack ∧
      (after Watch.step (Watch.reset 2 2) backToBack).Right := by
  refine multiplies (by decide) _ ⟨?_,?_,?_,?_,?_,?_,?_,trivial⟩
  · exact ⟨fun _ => rfl,fun j hj => (nomatch hj)⟩
  · exact ⟨fun h => (nomatch h),fun j hj _ => by cases hj; exact ⟨rfl,rfl⟩⟩
  · exact ⟨fun _ => rfl,fun j _ hlow => absurd hlow (by decide)⟩
  · exact ⟨fun h => (nomatch h),fun j hj _ => by cases hj; exact ⟨rfl,rfl⟩⟩
  · exact ⟨fun h => (nomatch h),fun j _ hlow => absurd hlow (by decide)⟩
  · exact ⟨fun _ => rfl,fun j _ hlow => absurd hlow (by decide)⟩
  · exact ⟨fun h => (nomatch h),fun j hj _ => by cases hj; exact ⟨rfl,rfl⟩⟩

end Pulpissimo.Hwpe.SeqMult

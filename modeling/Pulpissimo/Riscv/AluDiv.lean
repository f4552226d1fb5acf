import Mathlib.Data.BitVec
import Pulpissimo.Lib.Bits
import Pulpissimo.Lib.Division
import Pulpissimo.Lib.Machine

/-!
# The serial divider of RI5CY

`riscv_alu_div` at its width of 32 bits. It holds a remainder and a shifted
divisor of equal sign, compares their magnitudes once per cycle, and collects
the quotient bits from the top of a register that is read out reversed. Its
cycles are the passes of restoring division on those magnitudes.
-/

namespace Pulpissimo.Riscv.AluDiv

open Pulpissimo.Machine Pulpissimo.Bits Pulpissimo.Division

/-- Divider states. -/
inductive FsmState
  | IDLE | DIVIDE | FINISH
  deriving DecidableEq

/-- Registers of the divider. -/
structure State where
  /-- Sequence state. -/
  State_SP : FsmState
  /-- Remainder. -/
  AReg_DP : BitVec 32
  /-- Divisor, shifted. -/
  BReg_DP : BitVec 32
  /-- Quotient bits, last one on top. -/
  ResReg_DP : BitVec 32
  /-- Passes left after the current one. -/
  Cnt_DP : BitVec 6
  /-- Return the remainder. -/
  RemSel_SP : Bool
  /-- The divisor is negative. -/
  CompInv_SP : Bool
  /-- Negate the result. -/
  ResInv_SP : Bool

/-- One cycle of inputs. -/
structure Input where
  /-- Dividend. -/
  OpA_DI : BitVec 32
  /-- Divisor, shifted to the top. -/
  OpB_DI : BitVec 32
  /-- Amount of that shift. -/
  OpBShift_DI : BitVec 6
  /-- The divisor is zero. -/
  OpBIsZero_SI : Bool
  /-- The divisor is negative. -/
  OpBSign_SI : Bool
  /-- Remainder (bit 1) and signed (bit 0). -/
  OpCode_SI : BitVec 2
  /-- Start. -/
  InVld_SI : Bool
  /-- The result is taken. -/
  OutRdy_SI : Bool

/-- Load the operands. -/
def LoadEn_S (s : State) (i : Input) : Bool := s.State_SP==.IDLE && i.InVld_SI

/-- Add the dividend instead of subtracting it. -/
def PmSel_S (s : State) (i : Input) : Bool :=
  LoadEn_S s i && !(i.OpCode_SI.getLsbD 0 && (i.OpA_DI.msb ^^ i.OpBSign_SI))

/-- Operand of the adder. -/
def AddMux_D (s : State) (i : Input) : BitVec 32 := if LoadEn_S s i then i.OpA_DI else s.BReg_DP

/-- Next divisor. -/
def BMux_D (s : State) (i : Input) : BitVec 32 :=
  if LoadEn_S s i then i.OpB_DI else BitVec.cons s.CompInv_SP (s.BReg_DP.extractLsb' 1 31)

/-- Bit `k` of the quotient register. Bit 32 is outside its range; what a read
of it gives is not determined by the code. -/
def resBit (outOfRange : Bool) (s : State) (k : ℕ) : Bool :=
  if k<32 then s.ResReg_DP.getLsbD k else outOfRange

/-- The quotient register reversed, with its index running from 32 to 1. -/
def ResReg_DP_rev (outOfRange : Bool) (s : State) : BitVec 32 :=
  ofBits (fun i => resBit outOfRange s (32-i.val))

/-- Remainder or quotient. -/
def OutMux_D (outOfRange : Bool) (s : State) : BitVec 32 :=
  if s.RemSel_SP then s.AReg_DP else ResReg_DP_rev outOfRange s

/-- The result. -/
def Res_DO (outOfRange : Bool) (s : State) : BitVec 32 :=
  if s.ResInv_SP then -OutMux_D outOfRange s else OutMux_D outOfRange s

/-- The remainder's magnitude reaches the divisor's. -/
def ABComp_S (s : State) (i : Input) : Bool :=
  (s.AReg_DP==s.BReg_DP || (decide (s.BReg_DP < s.AReg_DP) ^^ s.CompInv_SP)) &&
    (s.AReg_DP != 0#32 || i.OpBIsZero_SI)

/-- The adder. -/
def AddOut_D (s : State) (i : Input) : BitVec 32 :=
  let AddTmp_D := if LoadEn_S s i then 0 else s.AReg_DP
  if PmSel_S s i then AddTmp_D+AddMux_D s i else AddTmp_D-AddMux_D s i

/-- Result valid, or nothing to do. -/
def OutVld_SO (s : State) (i : Input) : Bool :=
  match s.State_SP with
  | .IDLE => !i.InVld_SI
  | .DIVIDE => false
  | .FINISH => true

/-- Next state. -/
def State_SN (s : State) (i : Input) : FsmState :=
  match s.State_SP with
  | .IDLE => if i.InVld_SI then .DIVIDE else .IDLE
  | .DIVIDE => if s.Cnt_DP=0#6 then .FINISH else .DIVIDE
  | .FINISH => if i.OutRdy_SI then .IDLE else .FINISH

/-- Remainder register enable. -/
def ARegEn_S (s : State) (i : Input) : Bool :=
  match s.State_SP with
  | .IDLE => i.InVld_SI
  | .DIVIDE => ABComp_S s i
  | .FINISH => false

/-- Divisor register enable. -/
def BRegEn_S (s : State) (i : Input) : Bool :=
  match s.State_SP with
  | .IDLE => i.InVld_SI
  | .DIVIDE => true
  | .FINISH => false

/-- Values after reset. -/
def reset : State := ⟨.IDLE,0,0,0,0,false,false,false⟩

/-- One clock edge. -/
def step (s : State) (i : Input) : State where
  State_SP := State_SN s i
  AReg_DP := if ARegEn_S s i then AddOut_D s i else s.AReg_DP
  BReg_DP := if BRegEn_S s i then BMux_D s i else s.BReg_DP
  ResReg_DP :=
    if LoadEn_S s i then 0
    else if s.State_SP=.DIVIDE then BitVec.cons (ABComp_S s i) (s.ResReg_DP.extractLsb' 1 31)
    else s.ResReg_DP
  Cnt_DP :=
    if LoadEn_S s i then i.OpBShift_DI
    else if s.Cnt_DP=0#6 then s.Cnt_DP
    else s.Cnt_DP-1#6
  RemSel_SP := if LoadEn_S s i then i.OpCode_SI.getLsbD 1 else s.RemSel_SP
  CompInv_SP := if LoadEn_S s i then i.OpBSign_SI else s.CompInv_SP
  ResInv_SP :=
    if LoadEn_S s i then
      (!i.OpBIsZero_SI || i.OpCode_SI.getLsbD 1) && i.OpCode_SI.getLsbD 0 &&
        (i.OpA_DI.msb ^^ i.OpBSign_SI)
    else s.ResInv_SP

/-- A magnitude with the divider's common sign. -/
def signed (neg : Bool) (m : ℕ) : BitVec 32 := if neg=true then -BitVec.ofNat 32 m else BitVec.ofNat 32 m

/-- The quotient bits in their order of weight. -/
def quotient (s : State) : BitVec 32 := ofBits (fun i => s.ResReg_DP.getLsbD (31-i.val))

section Signed

variable {m r : ℕ}

theorem toNat_signed (neg : Bool) (hm : m<2^32) :
    (signed neg m).toNat=if neg=true then (4294967296-m)%4294967296 else m := by
  cases neg with
  | false => simpa [signed] using hm
  | true =>
    simp [signed]
    omega

/-- Subtraction of magnitudes of one sign. -/
theorem signed_sub (neg : Bool) (hm : m<2^32) (h : r ≤ m) :
    signed neg m-signed neg r=signed neg (m-r) := by
  apply BitVec.eq_of_toNat_eq
  rw [BitVec.toNat_sub,toNat_signed neg hm,toNat_signed neg (by omega),toNat_signed neg (by omega)]
  split_ifs <;> omega

/-- Halving a magnitude, with the sign shifted in. -/
theorem signed_half (neg : Bool) (hm : 2*m<2^32) (hpos : neg=true → 0 < m) :
    BitVec.cons neg ((signed neg (2*m)).extractLsb' 1 31)=signed neg m := by
  apply BitVec.eq_of_toNat_eq
  rw [BitVec.toNat_cons',BitVec.extractLsb'_toNat,toNat_signed neg hm,toNat_signed neg (by omega),
    Nat.shiftRight_eq_div_pow,Nat.shiftLeft_eq]
  cases neg with
  | false =>
    simp only [Bool.false_eq_true,if_false,Bool.toNat_false]
    omega
  | true =>
    have hm0 := hpos rfl
    simp only [if_true,Bool.toNat_true]
    omega

/-- The comparator compares magnitudes, and finds a zero divisor reached. -/
theorem comp_signed (neg : Bool) {d : ℕ} (hr : r<2^32) (hd : d<2^32) (hpos : neg=true → 0<d)
    (zero : Bool) (hzero : zero=true ↔ d=0) :
    (((signed neg r==signed neg d || (decide (signed neg d < signed neg r) ^^ neg)) &&
      (signed neg r != 0#32 || zero))=true) ↔ d ≤ r := by
  have hne : signed neg r=0#32 ↔ r=0 := by
    rw [←BitVec.toNat_inj,toNat_signed neg hr]
    simp only [BitVec.toNat_ofNat]
    split_ifs <;> omega
  have heq : signed neg r=signed neg d ↔ r=d := by
    rw [←BitVec.toNat_inj,toNat_signed neg hr,toNat_signed neg hd]
    split_ifs <;> omega
  have hlt : signed neg d < signed neg r ↔
      if neg=true then r<d ∧ r≠0 else d < r := by
    rw [BitVec.lt_def,toNat_signed neg hr,toNat_signed neg hd]
    split_ifs with hn
    · have hd0 := hpos hn
      omega
    · rfl
  have hxor : ((decide (signed neg d < signed neg r) ^^ neg)=true) ↔
      if neg=true then ¬(r<d ∧ r≠0) else d < r := by
    cases neg with
    | false => simp [hlt]
    | true => rw [Bool.xor_true,Bool.not_eq_true',decide_eq_false_iff_not,hlt]; rfl
  have hne' : signed neg r≠0#32 ↔ r≠0 := not_congr hne
  rw [Bool.and_eq_true,Bool.or_eq_true,Bool.or_eq_true,hxor,beq_iff_eq,bne_iff_ne,heq,hne',hzero]
  cases neg with
  | false => simp only [Bool.false_eq_true,if_false]; omega
  | true =>
    have hd0 := hpos rfl
    simp only [if_true]
    omega

end Signed

/-- One more quotient bit. -/
theorem quotient_cons {s t : State} {c : Bool}
    (h : t.ResReg_DP=BitVec.cons c (s.ResReg_DP.extractLsb' 1 31)) :
    quotient t=(quotient s).shiftConcat c := by
  apply BitVec.eq_of_getLsbD_eq
  intro k hk
  rw [quotient,getLsbD_ofBits_lt _ hk,h,BitVec.getLsbD_shiftConcat,BitVec.getLsbD_cons,
    BitVec.getLsbD_extractLsb']
  cases k with
  | zero => simp
  | succ k =>
    rw [quotient,getLsbD_ofBits_lt _ (by omega)]
    simp [show ¬30-k=31 by omega,show 30-k<31 by omega,show 1+(30-k)=31-k by omega,hk]

/-- What the code reads out is the quotient shifted up by one. -/
theorem ResReg_DP_rev_eq (outOfRange : Bool) (s : State) :
    ResReg_DP_rev outOfRange s=(quotient s).shiftConcat outOfRange := by
  apply BitVec.eq_of_getLsbD_eq
  intro k hk
  rw [ResReg_DP_rev,getLsbD_ofBits_lt _ hk,BitVec.getLsbD_shiftConcat]
  cases k with
  | zero => simp [resBit]
  | succ k =>
    rw [quotient,getLsbD_ofBits_lt _ (by omega)]
    simp [resBit,show ¬32≤31-k by omega,hk]

/-- Quotients as vectors append bits. -/
theorem shiftConcat_ofNat (q : ℕ) (c : Bool) :
    (BitVec.ofNat 32 q).shiftConcat c=BitVec.ofNat 32 (2*q+c.toNat) := by
  apply BitVec.eq_of_toNat_eq
  rw [BitVec.toNat_shiftConcat,BitVec.toNat_ofNat,BitVec.toNat_ofNat,Nat.shiftLeft_eq]
  omega

/-- The divider before a pass with divisor `b*2^n`: the registers hold the
remainder `r`, that divisor and the quotient bits `q` found so far. -/
structure Dividing (neg : Bool) (b n r q : ℕ) (rem inv : Bool) (s : State) : Prop where
  state : s.State_SP=.DIVIDE
  remainder : s.AReg_DP=signed neg r
  divisor : s.BReg_DP=signed neg (b*2^n)
  quotient : quotient s=BitVec.ofNat 32 q
  count : s.Cnt_DP=BitVec.ofNat 6 n
  sign : s.CompInv_SP=neg
  remSel : s.RemSel_SP=rem
  resInv : s.ResInv_SP=inv

/-- The divider with its result ready. -/
structure Finished (neg : Bool) (r q : ℕ) (rem inv : Bool) (s : State) : Prop where
  state : s.State_SP=.FINISH
  remainder : s.AReg_DP=signed neg r
  quotient : quotient s=BitVec.ofNat 32 q
  remSel : s.RemSel_SP=rem
  resInv : s.ResInv_SP=inv

section Passes

variable {neg : Bool} {b n r q : ℕ} {rem inv : Bool} {s : State} {i : Input}

/-- The comparator decides a pass. -/
theorem Dividing.comp (hs : Dividing neg b n r q rem inv s) (hr : r<2^32) (hb : b*2^n<2^32)
    (hneg : neg=true → 0<b) (hzero : i.OpBIsZero_SI=true ↔ b=0) :
    ABComp_S s i=decide (b*2^n ≤ r) := by
  have hpow : 0<2^n := Nat.two_pow_pos n
  have hz : i.OpBIsZero_SI=true ↔ b*2^n=0 := by
    rw [hzero,Nat.mul_eq_zero]
    omega
  rw [Bool.eq_iff_iff,decide_eq_true_iff,ABComp_S,hs.remainder,hs.divisor,hs.sign]
  exact comp_signed neg hr hb (fun hn => Nat.mul_pos (hneg hn) hpow) _ hz

/-- Remainder and quotient after a pass. -/
theorem Dividing.registers (hs : Dividing neg b n r q rem inv s) (hr : r<2^32) (hb : b*2^n<2^32)
    (hneg : neg=true → 0<b) (hzero : i.OpBIsZero_SI=true ↔ b=0) :
    (step s i).AReg_DP=signed neg (if b*2^n ≤ r then r-b*2^n else r) ∧
      AluDiv.quotient (step s i)=BitVec.ofNat 32 (if b*2^n ≤ r then 2*q+1 else 2*q) ∧
      (step s i).CompInv_SP=neg ∧ (step s i).RemSel_SP=rem ∧ (step s i).ResInv_SP=inv := by
  have hc : ABComp_S s i=decide (b*2^n ≤ r) := hs.comp hr hb hneg hzero
  have hload : LoadEn_S s i=false := by simp [LoadEn_S,hs.state]
  refine ⟨?_,?_,?_,?_,?_⟩
  · simp only [step,ARegEn_S,AddOut_D,PmSel_S,AddMux_D,hs.state,hload,hc,Bool.false_and,
      Bool.false_eq_true,if_false,hs.remainder,hs.divisor,decide_eq_true_eq]
    split_ifs with h
    · exact signed_sub neg hr h
    · rfl
  · have hres : (step s i).ResReg_DP=
        BitVec.cons (decide (b*2^n ≤ r)) (s.ResReg_DP.extractLsb' 1 31) := by
      simp [step,hload,hs.state,hc]
    rw [quotient_cons hres,hs.quotient,shiftConcat_ofNat]
    split_ifs with h <;> simp [h]
  · simp [step,hload,hs.sign]
  · simp [step,hload,hs.remSel]
  · simp [step,hload,hs.resInv]

/-- A pass that is not the last one. -/
theorem Dividing.step_succ (hs : Dividing neg b (n+1) r q rem inv s) (hr : r<2^32)
    (hb : b*2^(n+1)<2^32) (hn : n+1<64) (hneg : neg=true → 0<b)
    (hzero : i.OpBIsZero_SI=true ↔ b=0) :
    Dividing neg b n (if b*2^(n+1) ≤ r then r-b*2^(n+1) else r)
      (if b*2^(n+1) ≤ r then 2*q+1 else 2*q) rem inv (step s i) := by
  obtain ⟨hA,hQ,hC,hR,hI⟩ := hs.registers hr hb hneg hzero
  have hload : LoadEn_S s i=false := by simp [LoadEn_S,hs.state]
  have hcnt : s.Cnt_DP≠0#6 := by
    rw [hs.count]
    intro h
    have hnat := congrArg BitVec.toNat h
    simp only [BitVec.toNat_ofNat] at hnat
    omega
  have hdouble : b*2^(n+1)=2*(b*2^n) := by ring
  refine ⟨?_,hA,?_,hQ,?_,hC,hR,hI⟩
  · simp [step,State_SN,hs.state,hcnt]
  · simp only [step,BRegEn_S,BMux_D,hs.state,hload,Bool.false_eq_true,if_false,if_true,hs.divisor,
      hs.sign]
    rw [hdouble]
    exact signed_half neg (by omega) (fun h => Nat.mul_pos (hneg h) (Nat.two_pow_pos n))
  · simp only [step,hload,Bool.false_eq_true,if_false]
    rw [if_neg hcnt,hs.count]
    apply BitVec.eq_of_toNat_eq
    rw [BitVec.toNat_sub,BitVec.toNat_ofNat,BitVec.toNat_ofNat,BitVec.toNat_ofNat]
    omega

/-- The last pass. -/
theorem Dividing.step_zero (hs : Dividing neg b 0 r q rem inv s) (hr : r<2^32)
    (hb : b*2^0<2^32) (hneg : neg=true → 0<b) (hzero : i.OpBIsZero_SI=true ↔ b=0) :
    Finished neg (if b*2^0 ≤ r then r-b*2^0 else r) (if b*2^0 ≤ r then 2*q+1 else 2*q) rem inv
      (step s i) := by
  obtain ⟨hA,hQ,-,hR,hI⟩ := hs.registers hr hb hneg hzero
  refine ⟨?_,hA,hQ,hR,hI⟩
  simp [step,State_SN,hs.state,hs.count]

end Passes

/-- The passes run to the end in one cycle each, with the ready output low,
whatever the EX stage does meanwhile. -/
theorem divide_run {neg : Bool} {b : ℕ} {rem inv : Bool} (hneg : neg=true → 0<b) (n : ℕ) :
    ∀ {r q : ℕ} {s : State}, Dividing neg b n r q rem inv s → r<2^32 → b*2^n<2^32 → n<64 →
      ∀ is : List Input, is.length=n+1 → (∀ i ∈ is, i.OpBIsZero_SI=true ↔ b=0) →
        Meets step (fun s i => OutVld_SO s i=false) s is ∧
          Finished neg (passes b (n+1) (r,q)).1 (passes b (n+1) (r,q)).2 rem inv
            (after step s is) := by
  induction n with
  | zero =>
    intro r q s hs hr hb hn is hlen hzero
    obtain ⟨i,rfl⟩ := List.length_eq_one_iff.mp hlen
    have hlast := hs.step_zero hr hb hneg (hzero i (by simp))
    refine ⟨⟨by simp [OutVld_SO,hs.state],trivial⟩,?_⟩
    unfold passes
    split_ifs at hlast ⊢ <;> exact hlast
  | succ n ih =>
    intro r q s hs hr hb hn is hlen hzero
    rcases is with _ | ⟨i,is⟩
    · simp at hlen
    have hnext := hs.step_succ hr hb hn hneg (hzero i (by simp))
    have hdouble : b*2^(n+1)=2*(b*2^n) := by ring
    have hr' : (if b*2^(n+1) ≤ r then r-b*2^(n+1) else r)<2^32 := by split_ifs <;> omega
    obtain ⟨hready,hdone⟩ := ih hnext hr' (by omega) (by omega) is (by simpa using hlen)
      (fun j hj => hzero j (by simp [hj]))
    refine ⟨⟨by simp [OutVld_SO,hs.state],hready⟩,?_⟩
    rw [after_cons]
    conv => enter [2]; unfold passes
    conv => enter [3]; unfold passes
    split_ifs at hdone ⊢ <;> exact hdone

/-- A finished divider holds its result until it is taken. -/
theorem Finished.step {neg : Bool} {r q : ℕ} {rem inv : Bool} {s : State}
    (hs : Finished neg r q rem inv s) {i : Input} (hi : i.OutRdy_SI=false) :
    Finished neg r q rem inv (step s i) := by
  have hload : LoadEn_S s i=false := by simp [LoadEn_S,hs.state]
  have hres : (AluDiv.step s i).ResReg_DP=s.ResReg_DP := by simp [AluDiv.step,hload,hs.state]
  refine ⟨?_,?_,?_,?_,?_⟩
  · simp [AluDiv.step,State_SN,hs.state,hi]
  · simp [AluDiv.step,ARegEn_S,hs.state,hs.remainder]
  · rw [AluDiv.quotient,hres]
    exact hs.quotient
  · simp [AluDiv.step,hload,hs.remSel]
  · simp [AluDiv.step,hload,hs.resInv]

/-- It holds it over any number of stalled cycles. -/
theorem Finished.run {neg : Bool} {r q : ℕ} {rem inv : Bool} {s : State}
    (hs : Finished neg r q rem inv s) {is : List Input} (his : ∀ i ∈ is, i.OutRdy_SI=false) :
    Finished neg r q rem inv (after AluDiv.step s is) := by
  induction is generalizing s with
  | nil => exact hs
  | cons i is ih => exact ih (hs.step (his i (by simp))) (fun j hj => his j (by simp [hj]))

end Pulpissimo.Riscv.AluDiv

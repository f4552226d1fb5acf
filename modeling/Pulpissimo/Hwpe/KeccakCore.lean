import Mathlib.Data.List.GetD
import Pulpissimo.Hwpe.KeccakRound
import Pulpissimo.Lib.Machine

/-!
# The Keccak core

Model of `keccak` with its parts `padder`, `padder1` and `f_permutation`. The padder shifts words
of the user into its buffer, pads the last one and fills the buffer with zeros. The permutation
takes a full buffer when it is idle, in the cycle of its first two rounds, and needs eleven
cycles more for the others.
-/

namespace Pulpissimo.Hwpe.KeccakCore

open Pulpissimo.Bits Pulpissimo.Lanes Pulpissimo.Keccak Pulpissimo.Hwpe.KeccakRound

section Model

/-- Inputs of one cycle; `word` is the port `in`. -/
structure Input where
  word : BitVec 64
  in_ready : Bool
  is_last : Bool
  byte_num : BitVec 3

/-- Registers of `padder`. -/
structure Padder where
  out : BitVec 576
  state : Bool
  done : Bool
  i : BitVec 9

/-- Registers of `f_permutation`; `calculating` is the source's `calc`. -/
structure FPermutation where
  out : BitVec 1600
  out_ready : Bool
  i : BitVec 11
  calculating : Bool

/-- Registers of `keccak` and its parts. -/
structure State where
  padder : Padder
  f : FPermutation
  i : BitVec 11
  state : Bool
  out_ready : Bool

def reset : State :=
  ⟨⟨0,false,false,0⟩,⟨0,false,0,false⟩,0,false,false⟩

/-- The first bytes of a word, then a one. -/
def padder1 (word : BitVec 64) (byte_num : BitVec 3) : BitVec 64 :=
  match byte_num.toNat with
  | 0 => 0x0100000000000000#64
  | 1 => word.extractLsb' 56 8++0x01000000000000#56
  | 2 => word.extractLsb' 48 16++0x010000000000#48
  | 3 => word.extractLsb' 40 24++0x0100000000#40
  | 4 => word.extractLsb' 32 32++0x01000000#32
  | 5 => word.extractLsb' 24 40++0x010000#24
  | 6 => word.extractLsb' 16 48++0x0100#16
  | _ => word.extractLsb' 8 56++0x01#8

namespace Padder

variable (s : Padder) (i : Input)

def buffer_full : Bool := s.i.getLsbD 8

def accept : Bool := !s.state && i.in_ready && !s.buffer_full

def update : Bool := (s.accept i || (s.state && !s.buffer_full)) && !s.done

/-- The word to be shifted in. -/
def v1 : BitVec 64 :=
  if s.state then setBit 0 7 (s.i.getLsbD 7)
  else if i.is_last=false then i.word
  else
    let v0 := padder1 i.word i.byte_num
    setBit v0 7 (v0.getLsbD 7 || s.i.getLsbD 7)

def step (f_ack : Bool) : Padder where
  out := if s.update i then s.out.extractLsb' 0 512++s.v1 i else s.out
  i := if f_ack || s.update i then (if f_ack then 0 else s.i.extractLsb' 0 8++1#1) else s.i
  state := i.is_last || s.state
  done := (s.state && s.buffer_full) || s.done

end Padder

namespace FPermutation

variable (s : FPermutation) (word : BitVec 576) (in_ready : Bool)

def accept : Bool := in_ready && !s.calculating

def update : Bool := s.calculating || s.accept in_ready

/-- The block goes into the upper part of the state. -/
def round_in : BitVec 1600 :=
  if s.accept in_ready then (word ^^^ s.out.extractLsb' 1024 576)++s.out.extractLsb' 0 1024
  else s.out

def round_out : BitVec 1600 :=
  let index := s.i++BitVec.ofBool (s.accept in_ready)
  round2in1 (s.round_in word in_ready) (rc1 index) (rc2 index)

def step : FPermutation where
  out := if s.update in_ready then s.round_out word in_ready else s.out
  out_ready := if s.accept in_ready then false else s.i.getLsbD 10 || s.out_ready
  i := s.i.extractLsb' 0 10++BitVec.ofBool (s.accept in_ready)
  calculating := (s.calculating && !s.i.getLsbD 10) || s.accept in_ready

end FPermutation

/-- The bytes of a word in the other order. -/
def swapped (v : BitVec 64) : BitVec 64 := pack (w:=8) fun b : Fin 8 => lane 8 (7-b.val) v

/-- The bytes of each word in the other order. -/
def reordered (m : ℕ) {n : ℕ} (v : BitVec n) : BitVec (m*64) :=
  pack fun w : Fin m => swapped (lane 64 w v)

variable (s : State) (i : Input)

def padder_out : BitVec 576 := reordered 9 s.padder.out

def f_ack : Bool := s.f.accept s.padder.buffer_full

def out1 : BitVec 512 := s.f.out.extractLsb' 1088 512

/-- Output port of the core. -/
def out : BitVec 512 := reordered 8 (out1 s)

def step : State where
  padder := s.padder.step i (f_ack s)
  f := s.f.step (padder_out s) s.padder.buffer_full
  i := s.i.extractLsb' 0 10++BitVec.ofBool (s.state && f_ack s)
  state := i.is_last || s.state
  out_ready := s.i.getLsbD 10 || s.out_ready

end Model

section Message

/-- The bits of a word, from its upper byte down, each byte from its lowest bit up. -/
def wordBits (v : BitVec 64) : List Bool :=
  List.ofFn fun z : Fin 64 => v.getLsbD (8*(7-z.val/8)+z.val%8)

/-- Bits of the message that the user gives in a cycle. -/
def given (s : State) (i : Input) : List Bool :=
  if s.padder.accept i then
    if i.is_last then (wordBits i.word).take (8*i.byte_num.toNat) else wordBits i.word
  else []

/-- What the user gave over a run. -/
def message (is : List Input) : List Bool := (Machine.driven step given reset is).flatten

/-- The last word is given in a cycle in which the core takes it. -/
def Careful (s : State) (i : Input) : Prop :=
  i.is_last=true → s.state=false → i.in_ready=true ∧ s.padder.buffer_full=false

end Message

section Rounds

/-- After `c` of its twelve cycles the permutation is on the way to the state `A`. -/
structure Computes (s : FPermutation) (A : Lanes 64) (c : ℕ) : Prop where
  started : 1 ≤ c
  ends : c ≤ 12
  calculating : s.calculating=decide (c < 12)
  index : s.i=1#11<<<(c-1)
  result : rounds (2*c) (24-2*c) (lanes s.out)=A

variable {s : FPermutation} {A : Lanes 64} {c : ℕ}

/-- While the permutation is on its way it takes nothing and does two rounds. -/
theorem computes_step (h : Computes s A c) (hc : c < 12) (word : BitVec 576) (in_ready : Bool) :
    Computes (s.step word in_ready) A (c+1) := by
  have hstarted := h.started
  have hbusy : s.calculating=true := by rw [h.calculating,decide_eq_true hc]
  have haccept : s.accept in_ready=false := by
    rw [FPermutation.accept,hbusy,Bool.not_true,Bool.and_false]
  have hupdate : s.update in_ready=true := by rw [FPermutation.update,hbusy,Bool.true_or]
  have hindex : ∀ k : Fin 12, 1 ≤ k.val → 1#11<<<(k.val-1)++BitVec.ofBool false=1#12<<<k.val ∧
      (1#11<<<(k.val-1)).extractLsb' 0 10++BitVec.ofBool false=1#11<<<k.val ∧
      (!(1#11<<<(k.val-1)).getLsbD 10)=decide (k.val+1 < 12) := by
    decide
  rcases hindex ⟨c,hc⟩ hstarted with ⟨hconstant,hnext,hlast⟩
  refine ⟨by omega,by omega,?_,?_,?_⟩
  · show (s.calculating && !s.i.getLsbD 10 || s.accept in_ready)=_
    rw [haccept,hbusy,h.index,Bool.true_and,Bool.or_false,hlast]
  · show s.i.extractLsb' 0 10++BitVec.ofBool (s.accept in_ready)=_
    rw [haccept,h.index,hnext,Nat.add_sub_cancel]
  · show rounds _ _ (lanes (if s.update in_ready then s.round_out word in_ready else s.out))=_
    rw [if_pos hupdate,FPermutation.round_out,FPermutation.round_in,haccept,
      if_neg Bool.false_ne_true,h.index,hconstant,lanes_round2in1 _ hc,Nat.mul_succ,←rounds_add,
      ←h.result]
    congr 1
    omega

/-- An idle permutation without a block stays. -/
theorem computes_idle (h : Computes s A 12) (word : BitVec 576) :
    Computes (s.step word false) A 12 := by
  have hidle : s.calculating=false := h.calculating
  refine ⟨by decide,Nat.le_refl 12,?_,?_,?_⟩
  · show (s.calculating && !s.i.getLsbD 10 || false)=_
    rw [hidle]
    rfl
  · show s.i.extractLsb' 0 10++BitVec.ofBool false=_
    rw [h.index]
    decide
  · show rounds _ _ (lanes (if (s.calculating || false)=true then _ else s.out))=_
    rw [hidle]
    exact h.result

/-- What a block changes in the upper part of the state. -/
theorem lanes_round_in (h : Computes s A 12) {word : BitVec 576} {block : List Bool}
    (hblock : ∀ k z, k < 9 → z < 64 → block.getD (64*k+z) false=(lane 64 (8-k) word).getLsbD z)
    (hlength : block.length=576) : lanes (s.round_in word true)=mix A block := by
  have hidle : s.calculating=false := h.calculating
  have hout : lanes s.out=A := h.result
  have haccept : s.accept true=true := by
    rw [FPermutation.accept,hidle]
    rfl
  rw [FPermutation.round_in,haccept,if_pos rfl,←hout]
  funext x y
  apply BitVec.eq_of_getLsbD_eq
  intro z hz
  have hx := x.isLt
  have hy := y.isLt
  rw [mix,BitVec.getLsbD_xor,getLsbD_ofBits_lt _ hz,lanes_eq,lanes_eq,getLsbD_lane _ hz,
    getLsbD_lane _ hz,BitVec.getLsbD_append]
  rcases Nat.lt_or_ge (5*y.val+x.val) 9 with hlt | hge
  · have hplace : 64*(24-(5*y.val+x.val))+z=1024+(64*(8-(5*y.val+x.val))+z) := by omega
    rw [hplace,if_neg (by omega),Nat.add_sub_cancel_left,BitVec.getLsbD_xor,
      BitVec.getLsbD_extractLsb',decide_eq_true (by omega),Bool.true_and,hblock _ _ hlt hz,
      getLsbD_lane _ hz,Bool.xor_comm]
  · rw [if_pos (by omega),BitVec.getLsbD_extractLsb',decide_eq_true (by omega),Bool.true_and,
      List.getD_eq_default _ _ (by omega),Bool.xor_false,Nat.zero_add]

/-- An idle permutation takes a block and does its first two rounds. -/
theorem computes_accept (h : Computes s A 12) (word : BitVec 576) :
    Computes (s.step word true) (permute (lanes (s.round_in word true))) 1 := by
  have hidle : s.calculating=false := h.calculating
  have haccept : s.accept true=true := by
    rw [FPermutation.accept,hidle]
    rfl
  have hupdate : s.update true=true := by rw [FPermutation.update,haccept,Bool.or_true]
  have hindex : s.i++BitVec.ofBool true=1#12<<<0 := by
    rw [h.index]
    decide
  refine ⟨Nat.le_refl 1,by decide,?_,?_,?_⟩
  · show (_ || s.accept true)=_
    rw [haccept,Bool.or_true]
    rfl
  · show s.i.extractLsb' 0 10++BitVec.ofBool (s.accept true)=_
    rw [haccept,h.index]
    decide
  · show rounds _ _ (lanes (if s.update true then s.round_out word true else s.out))=_
    rw [if_pos hupdate,FPermutation.round_out,haccept,hindex,lanes_round2in1 _ (by decide)]
    exact (rounds_add 0 2 22 _).symm

end Rounds

end Pulpissimo.Hwpe.KeccakCore

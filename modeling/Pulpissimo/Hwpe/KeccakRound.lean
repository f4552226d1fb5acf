import Mathlib.Tactic.FinCases
import Pulpissimo.Lib.Indices
import Pulpissimo.Lib.Keccak
import Pulpissimo.Lib.Lanes

/-!
# Two rounds of Keccak in one cycle

Model of `round2in1` and `rconst2in1`. The state of the core is one word of 1600 bits with the
lanes from its top down. The tables of the core, for the turns, the moves and the constants,
agree with the walk and the shift register that define the permutation, and the twelve cycles
of the core are its twenty-four rounds.
-/

namespace Pulpissimo.Hwpe.KeccakRound

open Pulpissimo.Bits Pulpissimo.Lanes Pulpissimo.Keccak

section Round

/-- Position of the lowest bit of lane `x`,`y`. -/
def low_pos (x y : Fin 5) : ℕ := 1599-64*(5*y.val+x.val)-63

def add_1 (x : Fin 5) : Fin 5 := if x=4 then 0 else x+1

def add_2 (x : Fin 5) : Fin 5 := if x=3 then 0 else if x=4 then 1 else x+2

def sub_1 (x : Fin 5) : Fin 5 := if x=0 then 4 else x-1

/-- The lower bits of a lane in front of its upper `n` bits. -/
def rot_up (v : BitVec 64) (n : ℕ) : BitVec 64 :=
  (v.extractLsb' 0 (64-n)++v.extractLsb' (64-n) n).setWidth 64

def rot_up_1 (v : BitVec 64) : BitVec 64 := rot_up v 1

/-- The lanes `a` of the input. -/
def lanes (s : BitVec 1600) : Lanes 64 := fun x y => s.extractLsb' (low_pos x y) 64

/-- The parities `b`. -/
def b (a : Lanes 64) (x : Fin 5) : BitVec 64 := a x 0 ^^^ a x 1 ^^^ a x 2 ^^^ a x 3 ^^^ a x 4

def c (a : Lanes 64) : Lanes 64 := fun x y => a x y ^^^ b a (sub_1 x) ^^^ rot_up_1 (b a (add_1 x))

/-- Amounts of the turns, as the source lists them for `d`. -/
def turn (x y : Fin 5) : ℕ :=
  match x,y with
  | 0,0 => 0 | 1,0 => 1 | 2,0 => 62 | 3,0 => 28 | 4,0 => 27
  | 0,1 => 36 | 1,1 => 44 | 2,1 => 6 | 3,1 => 55 | 4,1 => 20
  | 0,2 => 3 | 1,2 => 10 | 2,2 => 43 | 3,2 => 25 | 4,2 => 39
  | 0,3 => 41 | 1,3 => 45 | 2,3 => 15 | 3,3 => 21 | 4,3 => 8
  | 0,4 => 18 | 1,4 => 2 | 2,4 => 61 | 3,4 => 56 | 4,4 => 14

/-- The first lane is not turned. -/
def d (c : Lanes 64) : Lanes 64 := fun x y =>
  if x=0 ∧ y=0 then c x y else rot_up (c x y) (turn x y)

/-- The moved lanes, as the source wires them. -/
def e (d : Lanes 64) : Lanes 64 := fun x y =>
  match x,y with
  | 0,0 => d 0 0
  | 0,2 => d 1 0
  | 0,4 => d 2 0
  | 0,1 => d 3 0
  | 0,3 => d 4 0
  | 1,3 => d 0 1
  | 1,0 => d 1 1
  | 1,2 => d 2 1
  | 1,4 => d 3 1
  | 1,1 => d 4 1
  | 2,1 => d 0 2
  | 2,3 => d 1 2
  | 2,0 => d 2 2
  | 2,2 => d 3 2
  | 2,4 => d 4 2
  | 3,4 => d 0 3
  | 3,1 => d 1 3
  | 3,3 => d 2 3
  | 3,0 => d 3 3
  | 3,2 => d 4 3
  | 4,2 => d 0 4
  | 4,4 => d 1 4
  | 4,1 => d 2 4
  | 4,3 => d 3 4
  | 4,0 => d 4 4

def f (e : Lanes 64) : Lanes 64 := fun x y => e x y ^^^ (~~~e (add_1 x) y &&& e (add_2 x) y)

/-- The only places where a round constant is added. -/
def constantPlace (z : ℕ) : Bool := z==0 || z==1 || z==3 || z==7 || z==15 || z==31 || z==63

def g (f : Lanes 64) (round_const : BitVec 64) : Lanes 64 := fun x y =>
  if x≠0 ∨ y≠0 then f x y else
    ofBits fun z : Fin 64 =>
      if constantPlace z then (f 0 0).getLsbD z ^^ round_const.getLsbD z else (f 0 0).getLsbD z

/-- The source writes this chain twice, `a` to `g` and `g` to `gg`. -/
def halfRound (a : Lanes 64) (round_const : BitVec 64) : Lanes 64 := g (f (e (d (c a)))) round_const

/-- The lanes side by side, the first one on top. -/
def joined (gg : Lanes 64) : BitVec 1600 :=
  pack fun k : Fin 25 => gg (Fin.ofNat 5 ((24-k.val)%5)) (Fin.ofNat 5 ((24-k.val)/5))

def round2in1 (s : BitVec 1600) (round_const_1 round_const_2 : BitVec 64) : BitVec 1600 :=
  joined (halfRound (halfRound (lanes s) round_const_1) round_const_2)

end Round

section Constants

variable (i : BitVec 12)

/-- Whether one of the named bits of the index is set. -/
def anyOf (ks : List ℕ) : Bool := ks.any fun k => i.getLsbD k

/-- First constant of `rconst2in1`. -/
def rc1 : BitVec 64 := ofBits fun z : Fin 64 =>
  match z.val with
  | 0 => anyOf i [0,2,3,5,6,7,10,11]
  | 1 => anyOf i [1,2,4,6,8,9]
  | 3 => anyOf i [1,2,4,5,6,7,9]
  | 7 => anyOf i [1,2,3,4,6,7,10]
  | 15 => anyOf i [1,2,3,5,6,7,8,9,10]
  | 31 => anyOf i [3,5,6,10,11]
  | 63 => anyOf i [1,3,7,8,10]
  | _ => false

/-- Second constant of `rconst2in1`. -/
def rc2 : BitVec 64 := ofBits fun z : Fin 64 =>
  match z.val with
  | 0 => anyOf i [2,3,6,7]
  | 1 => anyOf i [0,5,6,7,9]
  | 3 => anyOf i [3,4,5,6,9,11]
  | 7 => anyOf i [0,4,6,8,10]
  | 15 => anyOf i [0,1,3,7,10,11]
  | 31 => anyOf i [1,2,5,9,11]
  | 63 => anyOf i [1,3,6,7,8,9,10,11]
  | _ => false

end Constants

section Steps

theorem low_pos_eq (x y : Fin 5) : low_pos x y=64*(24-(5*y.val+x.val)) := by
  unfold low_pos
  omega

theorem lanes_eq (s : BitVec 1600) (x y : Fin 5) : lanes s x y=lane 64 (24-(5*y.val+x.val)) s := by
  rw [lanes,low_pos_eq,lane]

/-- The lanes of a joined state are those it is joined from. -/
theorem lanes_joined (a : Lanes 64) : lanes (joined a)=a := by
  funext x y
  have hk : 24-(5*y.val+x.val) < 25 := by omega
  have hx : Fin.ofNat 5 ((24-(24-(5*y.val+x.val)))%5)=x := by
    apply Fin.ext
    show (24-(24-(5*y.val+x.val)))%5%5=x.val
    omega
  have hy : Fin.ofNat 5 ((24-(24-(5*y.val+x.val)))/5)=y := by
    apply Fin.ext
    show (24-(24-(5*y.val+x.val)))/5%5=y.val
    omega
  have hlane := lane_pack (w:=64) (fun k : Fin 25 =>
    a (Fin.ofNat 5 ((24-k.val)%5)) (Fin.ofNat 5 ((24-k.val)/5))) ⟨_,hk⟩
  rw [lanes_eq]
  refine hlane.trans ?_
  show a (Fin.ofNat 5 ((24-(24-(5*y.val+x.val)))%5)) (Fin.ofNat 5 ((24-(24-(5*y.val+x.val)))/5))=_
  rw [hx,hy]

theorem add_1_eq : ∀ x, add_1 x=x+1 := by decide

theorem add_2_eq : ∀ x, add_2 x=x+2 := by decide

theorem sub_1_eq : ∀ x, sub_1 x=x-1 := by decide

theorem rot_up_eq (v : BitVec 64) {n : ℕ} (hn : n < 64) : rot_up v n=v.rotateLeft n := by
  apply BitVec.eq_of_getLsbD_eq
  intro i hi
  rw [rot_up,BitVec.getLsbD_setWidth,decide_eq_true hi,Bool.true_and,BitVec.getLsbD_append,
    BitVec.getLsbD_rotateLeft,Nat.mod_eq_of_lt hn]
  rcases Nat.lt_or_ge i n with hlt | hge
  · rw [if_pos hlt,decide_eq_true hlt,cond_true,BitVec.getLsbD_extractLsb',decide_eq_true hlt,
      Bool.true_and]
  · rw [if_neg (by omega),decide_eq_false (by omega),cond_false,BitVec.getLsbD_extractLsb',
      decide_eq_true (by omega : i-n < 64-n),decide_eq_true hi,Nat.zero_add]

theorem c_eq (a : Lanes 64) : c a=theta a := by
  funext x y
  rw [c,rot_up_1,rot_up_eq _ (by decide),sub_1_eq,add_1_eq]
  rfl

/-- The table of turns is the one of the walk. -/
theorem turn_eq : ∀ x y, turn x y=offset x y%64 := by decide

theorem d_eq (c : Lanes 64) : d c=rho c := by
  have hsmall : ∀ x y, turn x y < 64 := by decide
  have hfirst : ∀ x y : Fin 5, x=0 ∧ y=0 → offset x y=0 := by decide
  funext x y
  unfold d rho
  split_ifs with hzero
  · rw [hfirst x y hzero]
    apply BitVec.eq_of_getLsbD_eq
    intro i hi
    rw [getLsbD_turned _ _ hi]
    congr 1
    omega
  · rw [rot_up_eq _ (hsmall x y),turn_eq,BitVec.rotateLeft_mod_eq_rotateLeft]

theorem e_eq (d : Lanes 64) : e d=pi d := by
  funext x y
  fin_cases x <;> fin_cases y <;> rfl

theorem f_eq (e : Lanes 64) : f e=chi e := by
  funext x y
  rw [f,add_1_eq,add_2_eq]
  rfl

/-- A constant with bits only where the source adds them. -/
def Sparse (rc : BitVec 64) : Prop := ∀ z, constantPlace z=false → rc.getLsbD z=false

theorem g_eq (f : Lanes 64) {rc : BitVec 64} (h : Sparse rc) : g f rc=iota f rc := by
  funext x y
  unfold g iota
  by_cases hzero : x=0 ∧ y=0
  · rw [if_neg (by simp [hzero.1,hzero.2]),if_pos hzero,hzero.1,hzero.2]
    apply BitVec.eq_of_getLsbD_eq
    intro z hz
    rw [getLsbD_ofBits_lt _ hz,BitVec.getLsbD_xor]
    split_ifs with hplace
    · rfl
    · rw [h z (Bool.eq_false_of_not_eq_true hplace),Bool.xor_false]
  · rw [if_pos (by tauto),if_neg hzero]

/-- The chain from `a` to `g` is a round. -/
theorem halfRound_eq (a : Lanes 64) {rc : BitVec 64} (h : Sparse rc) :
    halfRound a rc=round a rc := by
  rw [halfRound,g_eq _ h,f_eq,e_eq,d_eq,c_eq]
  rfl

theorem rc1_sparse (i : BitVec 12) : Sparse (rc1 i) := by
  intro z hz
  by_cases hlt : z < 64
  · rw [rc1,getLsbD_ofBits_lt _ hlt]
    show (match z with | 0 => _ | 1 => _ | 3 => _ | 7 => _ | 15 => _ | 31 => _ | 63 => _ | _ => _)=_
    split <;> first | exact absurd hz (by decide) | rfl
  · exact BitVec.getLsbD_of_ge _ _ (Nat.le_of_not_lt hlt)

theorem rc2_sparse (i : BitVec 12) : Sparse (rc2 i) := by
  intro z hz
  by_cases hlt : z < 64
  · rw [rc2,getLsbD_ofBits_lt _ hlt]
    show (match z with | 0 => _ | 1 => _ | 3 => _ | 7 => _ | 15 => _ | 31 => _ | 63 => _ | _ => _)=_
    split <;> first | exact absurd hz (by decide) | rfl
  · exact BitVec.getLsbD_of_ge _ _ (Nat.le_of_not_lt hlt)

/-- The constants of the source are those of the shift register. -/
theorem constants_eq : ∀ k : Fin 12, rc1 (1#12<<<k.val)=constant (2*k) ∧
    rc2 (1#12<<<k.val)=constant (2*k+1) := by
  decide +kernel

/-- One cycle of the core is two rounds. -/
theorem lanes_round2in1 (s : BitVec 1600) {k : ℕ} (hk : k < 12) :
    lanes (round2in1 s (rc1 (1#12<<<k)) (rc2 (1#12<<<k)))=rounds (2*k) 2 (lanes s) := by
  have hconstants := constants_eq ⟨k,hk⟩
  rw [round2in1,lanes_joined,halfRound_eq _ (rc1_sparse _),halfRound_eq _ (rc2_sparse _),
    hconstants.1,hconstants.2]
  rfl

end Steps

end Pulpissimo.Hwpe.KeccakRound

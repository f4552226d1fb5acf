import Mathlib.Data.BitVec
import Mathlib.Data.Fintype.Basic
import Mathlib.Logic.Function.Iterate
import Pulpissimo.Lib.Bits
import Pulpissimo.Lib.Sponge

/-!
# The permutation of Keccak

The state is five by five lanes. A round mixes the columns, turns each lane, moves the lanes,
combines the lanes of each row, and adds a constant to the first lane. The offsets of the turns
and the constants are given by the walk and the shift register that define them. Each of the five
steps is one to one, and so is the permutation. The hash of a message is what the sponge over
this permutation gives in its first block.
-/

namespace Pulpissimo.Keccak

instance neZero_five : NeZero 5 := ⟨by decide⟩

/-- Lane `x` of row `y`. -/
abbrev Lanes (w : ℕ) := Fin 5 → Fin 5 → BitVec w

section Steps

variable {w : ℕ} (A : Lanes w)

/-- The parity of a column. -/
def parity (x : Fin 5) : BitVec w := A x 0 ^^^ A x 1 ^^^ A x 2 ^^^ A x 3 ^^^ A x 4

def theta : Lanes w := fun x y => A x y ^^^ parity A (x-1) ^^^ (parity A (x+1)).rotateLeft 1

/-- The walk over all lanes but the first. -/
def walk : ℕ → Fin 5×Fin 5
  | 0 => (1,0)
  | t+1 => ((walk t).2,2*(walk t).1+3*(walk t).2)

/-- Lane number `t` of the walk is turned by the triangular number of `t+1`. -/
def offset (x y : Fin 5) : ℕ :=
  match (List.range 24).find? fun t => walk t==(x,y) with
  | some t => (t+1)*(t+2)/2
  | none => 0

def rho : Lanes w := fun x y => (A x y).rotateLeft (offset x y)

def pi : Lanes w := fun x y => A (x+3*y) x

def chi : Lanes w := fun x y => A x y ^^^ (~~~A (x+1) y &&& A (x+2) y)

def iota (rc : BitVec w) : Lanes w := fun x y => if x=0 ∧ y=0 then A x y ^^^ rc else A x y

def round (rc : BitVec w) : Lanes w := iota (chi (pi (rho (theta A)))) rc

end Steps

section Constants

/-- The shift register behind the constants. -/
def shift (r : BitVec 8) : BitVec 8 := if r.msb then r<<<1 ^^^ 0x71 else r<<<1

/-- Seven bits of the register are at one less than the powers of two. -/
def spreadBits (r : BitVec 8) : BitVec 64 :=
  (List.range 7).foldl
    (fun c j => c ||| (BitVec.ofBool ((shift^[j] r).getLsbD 0)).setWidth 64<<<(2^j-1)) 0

/-- Each round takes the next seven bits. -/
def constant (k : ℕ) : BitVec 64 := spreadBits (shift^[7*k] 1)

/-- Rounds with numbers from `k` on. -/
def rounds (k n : ℕ) (A : Lanes 64) : Lanes 64 :=
  (List.range' k n).foldl (fun A j => round A (constant j)) A

/-- All rounds. -/
def permute (A : Lanes 64) : Lanes 64 := rounds 0 24 A

theorem rounds_succ (k n : ℕ) (A : Lanes 64) :
    rounds k (n+1) A=round (rounds k n A) (constant (k+n)) := by
  unfold rounds
  rw [List.range'_1_concat,List.foldl_append]
  rfl

/-- Rounds follow each other. -/
theorem rounds_add (k m n : ℕ) (A : Lanes 64) :
    rounds k (m+n) A=rounds (k+m) n (rounds k m A) := by
  unfold rounds
  rw [←List.range'_append_1,List.foldl_append]

end Constants

section Hash

/-- Bit `z` of lane `x`,`y` is bit number `64*(5*y+x)+z` of the string. -/
def mix (A : Lanes 64) (block : List Bool) : Lanes 64 := fun x y =>
  A x y ^^^ Bits.ofBits fun z : Fin 64 => block.getD (64*(5*y.val+x.val)+z.val) false

/-- State of the sponge after some blocks. -/
def absorbed (bs : List (List Bool)) : Lanes 64 := Sponge.absorb permute mix (fun _ _ => 0) bs

/-- Bit `k` of the string of a state. -/
def stateBit (A : Lanes 64) (k : ℕ) : Bool :=
  (A (Fin.ofNat 5 (k/64)) (Fin.ofNat 5 (k/64/5))).getLsbD (k%64)

/-- Hash of at most one block, `d` bits of a sponge of rate `r`. -/
def hash (r d : ℕ) (m : List Bool) : List Bool :=
  (List.range d).map (stateBit (absorbed (Sponge.blocks r (Sponge.pad r m))))

end Hash

section Injective

variable {w : ℕ}

theorem rotateLeft_injective (r : ℕ) :
    Function.Injective fun x : BitVec w => x.rotateLeft r := by
  intro x y h
  apply BitVec.eq_of_getLsbD_eq
  intro i hi
  have hw : 0 < w := by omega
  have hr := Nat.mod_lt r hw
  have hbit := congrArg (fun z : BitVec w => z.getLsbD ((i+r%w)%w)) h
  simp only [BitVec.getLsbD_rotateLeft] at hbit
  rcases Nat.lt_or_ge (i+r%w) w with hlt | hge
  · rw [Nat.mod_eq_of_lt hlt] at hbit
    simpa [hlt,Nat.not_lt.mpr (Nat.le_add_left (r%w) i)] using hbit
  · rw [Nat.mod_eq_sub_mod hge,Nat.mod_eq_of_lt (by omega)] at hbit
    have hlow : i+r%w-w < r%w := by omega
    have hindex : w-r%w+(i+r%w-w)=i := by omega
    simpa [hlow,hindex] using hbit

theorem rho_injective : Function.Injective (rho (w := w)) := by
  intro A B h
  funext x y
  exact rotateLeft_injective (offset x y) (congrFun (congrFun h x) y)

theorem pi_injective : Function.Injective (pi (w := w)) := by
  have hreach : ∀ u v : Fin 5, ∃ y : Fin 5, v+3*y=u := by decide
  intro A B h
  funext u v
  rcases hreach u v with ⟨y,hy⟩
  have hlane := congrFun (congrFun h v) y
  unfold pi at hlane
  rwa [hy] at hlane

theorem iota_injective (rc : BitVec w) : Function.Injective fun A : Lanes w => iota A rc := by
  intro A B h
  funext x y
  have hlane : (if x=0 ∧ y=0 then A x y ^^^ rc else A x y)=
      if x=0 ∧ y=0 then B x y ^^^ rc else B x y := congrFun (congrFun h x) y
  split_ifs at hlane
  · exact (BitVec.xor_left_inj rc).mp hlane
  · exact hlane

theorem bits_injective : ∀ a b c d e a' b' c' d' e' : Bool,
    (a ^^ (!b && c))=(a' ^^ (!b' && c')) → (b ^^ (!c && d))=(b' ^^ (!c' && d')) →
    (c ^^ (!d && e))=(c' ^^ (!d' && e')) → (d ^^ (!e && a))=(d' ^^ (!e' && a')) →
    (e ^^ (!a && b))=(e' ^^ (!a' && b')) → a=a' ∧ b=b' ∧ c=c' ∧ d=d' ∧ e=e' := by
  decide +kernel

/-- A row is determined by what its bits are combined to. -/
theorem row_injective {a b : Fin 5 → Bool}
    (h : ∀ x, (a x ^^ (!a (x+1) && a (x+2)))=(b x ^^ (!b (x+1) && b (x+2)))) : a=b := by
  have hrow := bits_injective (a 0) (a 1) (a 2) (a 3) (a 4) (b 0) (b 1) (b 2) (b 3) (b 4)
    (h 0) (h 1) (h 2) (h 3) (h 4)
  funext x
  match x with
  | 0 => exact hrow.1
  | 1 => exact hrow.2.1
  | 2 => exact hrow.2.2.1
  | 3 => exact hrow.2.2.2.1
  | 4 => exact hrow.2.2.2.2

theorem chi_injective : Function.Injective (chi (w := w)) := by
  intro A B h
  funext x y
  apply BitVec.eq_of_getLsbD_eq
  intro i hi
  refine congrFun (row_injective (a:=fun u => (A u y).getLsbD i) (b:=fun u => (B u y).getLsbD i)
    fun u => ?_) x
  have hlane := congrArg (fun z : BitVec w => z.getLsbD i) (congrFun (congrFun h u) y)
  simpa [chi,hi] using hlane

end Injective

section Columns

/-- Where a bit of a turned lane comes from. -/
theorem getLsbD_turned (x : BitVec 64) (k : ℕ) {i : ℕ} (hi : i < 64) :
    (x.rotateLeft k).getLsbD i=x.getLsbD ((i+64-k%64)%64) := by
  rw [BitVec.getLsbD_rotateLeft]
  rcases Nat.lt_or_ge i (k%64) with hlt | hge
  · rw [decide_eq_true hlt,cond_true]
    congr 1
    omega
  · rw [decide_eq_false (by omega),cond_false,decide_eq_true hi,Bool.true_and]
    congr 1
    omega

theorem turned_xor (x y : BitVec 64) (k : ℕ) :
    (x ^^^ y).rotateLeft k=x.rotateLeft k ^^^ y.rotateLeft k := by
  apply BitVec.eq_of_getLsbD_eq
  intro i hi
  rw [BitVec.getLsbD_xor,getLsbD_turned _ _ hi,getLsbD_turned _ _ hi,getLsbD_turned _ _ hi,
    BitVec.getLsbD_xor]

theorem turned_turned (x : BitVec 64) (j k : ℕ) :
    (x.rotateLeft j).rotateLeft k=x.rotateLeft (j+k) := by
  apply BitVec.eq_of_getLsbD_eq
  intro i hi
  rw [getLsbD_turned _ _ hi,getLsbD_turned _ _ (Nat.mod_lt _ (by decide)),getLsbD_turned _ _ hi]
  congr 1
  omega

/-- What the mixing makes of the parities, with both neighbours at distance `n`. -/
def spread (n : ℕ) (p : Fin 5 → BitVec 64) (x : Fin 5) : BitVec 64 :=
  p x ^^^ p (x-Fin.ofNat 5 n) ^^^ (p (x+Fin.ofNat 5 n)).rotateLeft n

/-- What occurs twice in a sum cancels out. -/
theorem xor_cancel (a b c d e f : BitVec 64) :
    (a ^^^ b ^^^ c) ^^^ (b ^^^ d ^^^ e) ^^^ (c ^^^ e ^^^ f)=a ^^^ d ^^^ f := by
  have hpairs : (a ^^^ b ^^^ c) ^^^ (b ^^^ d ^^^ e) ^^^ (c ^^^ e ^^^ f)=
      (b ^^^ b) ^^^ (c ^^^ c) ^^^ (e ^^^ e) ^^^ (a ^^^ d ^^^ f) := by ac_rfl
  rw [hpairs,BitVec.xor_self,BitVec.xor_self,BitVec.xor_self,BitVec.xor_self,BitVec.xor_self,
    BitVec.zero_xor]

/-- Twice is once at twice the distance. -/
theorem spread_spread (n : ℕ) (p : Fin 5 → BitVec 64) :
    spread n (spread n p)=spread (n+n) p := by
  funext x
  have hadd : Fin.ofNat 5 (n+n)=Fin.ofNat 5 n+Fin.ofNat 5 n := by
    apply Fin.ext
    show (n+n)%5=(n%5+n%5)%5
    omega
  unfold spread
  rw [turned_xor,turned_xor,turned_turned,hadd,sub_add_cancel,add_sub_cancel_right,←sub_sub,
    ←add_assoc,xor_cancel]

/-- Over a distance of a whole lane nothing is turned any more. -/
theorem spread_whole (p : Fin 5 → BitVec 64) (x : Fin 5) :
    spread 64 p x=p x ^^^ p (x+1) ^^^ p (x-1) := by
  have hleft : x-Fin.ofNat 5 64=x+1 := by
    revert x
    decide
  have hright : x+Fin.ofNat 5 64=x-1 := by
    revert x
    decide
  have hturn : (p (x-1)).rotateLeft 64=p (x-1) := by
    apply BitVec.eq_of_getLsbD_eq
    intro i hi
    rw [getLsbD_turned _ _ hi]
    congr 1
    omega
  unfold spread
  rw [hleft,hright,hturn]

/-- Of nine lanes, each but one occurs twice. -/
theorem xor_thrice (a b c d e : BitVec 64) :
    (a ^^^ b ^^^ c) ^^^ (b ^^^ d ^^^ a) ^^^ (c ^^^ a ^^^ e) ^^^
      ((b ^^^ d ^^^ a) ^^^ (d ^^^ e ^^^ b) ^^^ (a ^^^ b ^^^ c)) ^^^
      ((c ^^^ a ^^^ e) ^^^ (a ^^^ b ^^^ c) ^^^ (e ^^^ c ^^^ d))=a := by
  have hbits : ∀ a b c d e : Bool,
      ((((a ^^ b) ^^ c) ^^ ((b ^^ d) ^^ a)) ^^ ((c ^^ a) ^^ e) ^^
        ((((b ^^ d) ^^ a) ^^ ((d ^^ e) ^^ b)) ^^ ((a ^^ b) ^^ c)) ^^
        ((((c ^^ a) ^^ e) ^^ ((a ^^ b) ^^ c)) ^^ ((e ^^ c) ^^ d)))=a := by
    decide
  apply BitVec.eq_of_getLsbD_eq
  intro i hi
  simp only [BitVec.getLsbD_xor]
  exact hbits _ _ _ _ _

/-- Mixing over a whole lane three times changes nothing. -/
theorem spread_thrice (p : Fin 5 → BitVec 64) : spread 64 (spread 64 (spread 64 p))=p := by
  funext x
  have hfar : x-1-1=x+1+1+1 := by
    revert x
    decide
  simp only [spread_whole,add_sub_cancel_right,sub_add_cancel]
  rw [show x-1-1-1=x+1+1 by revert x; decide,hfar]
  exact xor_thrice _ _ _ _ _

/-- Sixty-four times, every lane has been turned around, and three times more is the identity. -/
theorem spread_injective : Function.Injective (spread 1) := by
  intro p q h
  have hgrow : ∀ n, spread n p=spread n q → spread (n+n) p=spread (n+n) q := by
    intro n hn
    rw [←spread_spread,hn,spread_spread]
  have hwhole : spread 64 p=spread 64 q :=
    hgrow 32 (hgrow 16 (hgrow 8 (hgrow 4 (hgrow 2 (hgrow 1 h)))))
  rw [←spread_thrice p,hwhole,spread_thrice]

/-- Five times the same lane added to a column is once that lane in its parity. -/
theorem parity_theta (A : Lanes 64) : parity (theta A)=spread 1 (parity A) := by
  funext x
  have hodd : ∀ a b c d e f : BitVec 64,
      (a ^^^ f) ^^^ (b ^^^ f) ^^^ (c ^^^ f) ^^^ (d ^^^ f) ^^^ (e ^^^ f)=
        a ^^^ b ^^^ c ^^^ d ^^^ e ^^^ f := by
    intro a b c d e f
    have hpairs : (a ^^^ f) ^^^ (b ^^^ f) ^^^ (c ^^^ f) ^^^ (d ^^^ f) ^^^ (e ^^^ f)=
        a ^^^ b ^^^ c ^^^ d ^^^ e ^^^ f ^^^ (f ^^^ f) ^^^ (f ^^^ f) := by ac_rfl
    rw [hpairs,BitVec.xor_self,BitVec.xor_zero,BitVec.xor_zero]
  have hone : Fin.ofNat 5 1=1 := by decide
  have hmix : ∀ y, theta A x y=
      A x y ^^^ (parity A (x-1) ^^^ (parity A (x+1)).rotateLeft 1) := fun y => BitVec.xor_assoc ..
  unfold spread
  rw [hone,BitVec.xor_assoc (parity A x)]
  show theta A x 0 ^^^ theta A x 1 ^^^ theta A x 2 ^^^ theta A x 3 ^^^ theta A x 4=_
  rw [hmix,hmix,hmix,hmix,hmix]
  exact hodd _ _ _ _ _ _

theorem theta_injective : Function.Injective (theta (w := 64)) := by
  intro A B h
  have hparity : parity A=parity B := by
    apply spread_injective
    rw [←parity_theta,←parity_theta,h]
  funext x y
  have hlane := congrFun (congrFun h x) y
  unfold theta at hlane
  rw [hparity] at hlane
  exact (BitVec.xor_left_inj _).mp ((BitVec.xor_left_inj _).mp hlane)

theorem round_injective (rc : BitVec 64) : Function.Injective fun A => round A rc := by
  intro A B h
  exact theta_injective (rho_injective (pi_injective (chi_injective (iota_injective rc h))))

theorem rounds_injective (k n : ℕ) : Function.Injective (rounds k n) := by
  induction n with
  | zero => exact fun A B h => h
  | succ n ih =>
    intro A B h
    rw [rounds_succ,rounds_succ] at h
    exact ih (round_injective _ h)

/-- The permutation is one. -/
theorem permute_injective : Function.Injective permute := rounds_injective 0 24

end Columns

end Pulpissimo.Keccak

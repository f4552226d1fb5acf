import Mathlib.Data.Nat.ModEq
import Pulpissimo.Lib.Bits

/-!
# Tokens on a ring of bits

A position on a ring is kept as a vector with one bit set, or two neighbours.
Moving on is a rotation. Two positions are compared by a conjunction. A copy of
a position that was taken bit by bit while it moved on has each bit from one of
the two positions; this still tells whether another position, that is not
behind, has been reached.
-/

namespace Pulpissimo.HotCode

open Pulpissimo.Bits

variable {D : ℕ}

/-- The low bits in front of the top ones. -/
def rotl (k : ℕ) (x : BitVec D) : BitVec D := ofBits fun i => x.getLsbD ((i.val+(D-k))%D)

/-- The top bits behind the low ones. -/
def rotr (k : ℕ) (x : BitVec D) : BitVec D := ofBits fun i => x.getLsbD ((i.val+k)%D)

/-- The bit of a position. -/
def hot (D n : ℕ) : BitVec D := ofBits fun i => decide (i.val=n%D)

/-- The bits of a position and the next. -/
def twoHot (D n : ℕ) : BitVec D := hot D n ||| hot D (n+1)

section Positions

variable {a b i k n : ℕ}

/-- Positions less than a turn apart are different. -/
theorem mod_ne (h : a<b) (hlt : b<a+D) : a%D≠b%D := by
  intro heq
  have hdvd : D ∣ b-a := (Nat.modEq_iff_dvd' h.le).mp heq
  exact absurd (Nat.le_of_dvd (by omega) hdvd) (by omega)

theorem mod_eq_iff (h : a≤b) (hlt : b<a+D) : a%D=b%D ↔ a=b := by
  refine ⟨fun heq => ?_,fun heq => by rw [heq]⟩
  by_contra hne
  exact mod_ne (by omega) hlt heq

theorem mod_turn_iff (hk : k≤D) (hi : i<D) : (i+(D-k))%D=n%D ↔ i=(n+k)%D := by
  have hcancel : i+(D-k) ≡ n [MOD D] ↔ i+(D-k)+k ≡ n+k [MOD D] :=
    ⟨fun h => h.add_right k,fun h => h.add_right_cancel' k⟩
  have hturn : i+(D-k)+k=i+D := by omega
  rw [show (i+(D-k))%D=n%D ↔ i+(D-k) ≡ n [MOD D] from Iff.rfl,hcancel,hturn,Nat.ModEq,
    Nat.add_mod_right,Nat.mod_eq_of_lt hi]

theorem getLsbD_rotl (x : BitVec D) (hi : i<D) :
    (rotl k x).getLsbD i=x.getLsbD ((i+(D-k))%D) := getLsbD_ofBits_lt _ hi

theorem getLsbD_rotr (x : BitVec D) (hi : i<D) : (rotr k x).getLsbD i=x.getLsbD ((i+k)%D) :=
  getLsbD_ofBits_lt _ hi

theorem getLsbD_hot (hi : i<D) : (hot D n).getLsbD i=decide (i=n%D) := getLsbD_ofBits_lt _ hi

theorem getLsbD_twoHot (hi : i<D) :
    (twoHot D n).getLsbD i=decide (i=n%D ∨ i=(n+1)%D) := by
  rw [twoHot,BitVec.getLsbD_or,getLsbD_hot hi,getLsbD_hot hi,Bool.decide_or]

theorem hot_eq_ofNat (hn : n<D) : hot D n=BitVec.ofNat D (2^n) := by
  apply BitVec.eq_of_getLsbD_eq
  intro i hi
  rw [getLsbD_hot hi,BitVec.getLsbD_ofNat,decide_eq_true hi,Bool.true_and,Nat.testBit_two_pow,
    Nat.mod_eq_of_lt hn,decide_eq_decide]
  exact eq_comm

theorem twoHot_eq_ofNat (hn : n+1<D) : twoHot D n=BitVec.ofNat D (2^n ||| 2^(n+1)) := by
  rw [twoHot,hot_eq_ofNat (by omega),hot_eq_ofNat hn,BitVec.ofNat_or]

/-- Moving on. -/
theorem rotl_hot (hk : k≤D) : rotl k (hot D n)=hot D (n+k) := by
  apply BitVec.eq_of_getLsbD_eq
  intro i hi
  have hpos : 0<D := Nat.zero_lt_of_lt hi
  rw [getLsbD_rotl _ hi,getLsbD_hot (Nat.mod_lt _ hpos),getLsbD_hot hi,decide_eq_decide]
  exact mod_turn_iff hk hi

theorem rotl_or (x y : BitVec D) : rotl k (x ||| y)=rotl k x ||| rotl k y := by
  apply BitVec.eq_of_getLsbD_eq
  intro i hi
  rw [getLsbD_rotl _ hi,BitVec.getLsbD_or,BitVec.getLsbD_or,getLsbD_rotl _ hi,getLsbD_rotl _ hi]

theorem rotl_twoHot (hk : k≤D) : rotl k (twoHot D n)=twoHot D (n+k) := by
  rw [twoHot,rotl_or,rotl_hot hk,rotl_hot hk,twoHot,Nat.add_right_comm]

theorem rotr_hot : rotr k (hot D (n+k))=hot D n := by
  apply BitVec.eq_of_getLsbD_eq
  intro i hi
  have hpos : 0<D := Nat.zero_lt_of_lt hi
  have hcancel : i+k ≡ n+k [MOD D] ↔ i ≡ n [MOD D] :=
    ⟨fun h => h.add_right_cancel' k,fun h => h.add_right k⟩
  rw [getLsbD_rotr _ hi,getLsbD_hot (Nat.mod_lt _ hpos),getLsbD_hot hi,decide_eq_decide]
  rw [show (i+k)%D=(n+k)%D ↔ i+k ≡ n+k [MOD D] from Iff.rfl,hcancel,Nat.ModEq,Nat.mod_eq_of_lt hi]

/-- The bit that two neighbouring pairs share. -/
theorem twoHot_and (hD : 3≤D) : twoHot D (n+1) &&& twoHot D n=hot D (n+1) := by
  apply BitVec.eq_of_getLsbD_eq
  intro i hi
  have h02 : n%D≠(n+1+1)%D := mod_ne (by omega) (by omega)
  rw [BitVec.getLsbD_and,getLsbD_twoHot hi,getLsbD_twoHot hi,getLsbD_hot hi,←Bool.decide_and,
    decide_eq_decide]
  omega

/-- Two positions are the same. -/
theorem hot_and_ne_zero (hD : 0<D) : hot D a &&& hot D b≠0#D ↔ a%D=b%D := by
  constructor
  · intro hne
    by_contra hdiff
    refine hne (BitVec.eq_of_getLsbD_eq fun i hi => ?_)
    rw [BitVec.getLsbD_and,getLsbD_hot hi,getLsbD_hot hi,←Bool.decide_and,BitVec.getLsbD_zero,
      decide_eq_false_iff_not]
    omega
  · intro heq hzero
    have hlt : a%D<D := Nat.mod_lt _ hD
    have hbit : (hot D a &&& hot D b).getLsbD (a%D)=true := by
      rw [BitVec.getLsbD_and,getLsbD_hot hlt,getLsbD_hot hlt,decide_eq_true rfl,
        decide_eq_true heq,Bool.and_true]
    rw [hzero,BitVec.getLsbD_zero] at hbit
    exact Bool.false_ne_true hbit

theorem and_hot_eq_zero {x : BitVec D} (hD : 0<D) : x &&& hot D n=0#D ↔ x.getLsbD (n%D)=false := by
  have hlt : n%D<D := Nat.mod_lt _ hD
  constructor
  · intro hzero
    have hbit := congrArg (fun v => v.getLsbD (n%D)) hzero
    rwa [BitVec.getLsbD_and,getLsbD_hot hlt,decide_eq_true rfl,Bool.and_true,
      BitVec.getLsbD_zero] at hbit
  · intro hbit
    apply BitVec.eq_of_getLsbD_eq
    intro i hi
    rw [BitVec.getLsbD_and,getLsbD_hot hi,BitVec.getLsbD_zero]
    by_cases heq : i=n%D
    · rw [heq,hbit,Bool.false_and]
    · rw [decide_eq_false heq,Bool.and_false]

end Positions

section Copies

variable {x : BitVec D} {m n q : ℕ}

/-- A copy that takes each bit from the old or from the new vector. -/
def mix (choose old new : BitVec D) : BitVec D :=
  ofBits fun i => if choose.getLsbD i then new.getLsbD i else old.getLsbD i

/-- A copy whose bits are each from one of two positions. -/
def Between (D n m : ℕ) (x : BitVec D) : Prop :=
  ∀ i,i<D → x.getLsbD i=(twoHot D n).getLsbD i ∨ x.getLsbD i=(twoHot D m).getLsbD i

theorem between_self (n : ℕ) : Between D n n (twoHot D n) := fun _ _ => Or.inl rfl

theorem between_mix (choose : BitVec D) (n m : ℕ) :
    Between D n m (mix choose (twoHot D n) (twoHot D m)) := by
  intro i hi
  rw [mix,getLsbD_ofBits_lt _ hi]
  split_ifs
  · exact Or.inr rfl
  · exact Or.inl rfl

/-- The copy does not show the pair behind `q`. -/
def past (q : ℕ) (x : BitVec D) : Bool := x.getLsbD (q%D) || !x.getLsbD ((q+1)%D)

/-- A copy of that pair only. -/
theorem not_past (hD : 3≤D) (h : Between D (q+1) (q+1) x) : past q x=false := by
  have hpos : 0<D := by omega
  have hbit : ∀ k,x.getLsbD (k%D)=decide (k%D=(q+1)%D ∨ k%D=(q+1+1)%D) := by
    intro k
    have hlt := Nat.mod_lt k hpos
    rw [←getLsbD_twoHot hlt]
    exact (h _ hlt).elim id id
  have h01 : q%D≠(q+1)%D := mod_ne (by omega) (by omega)
  have h02 : q%D≠(q+1+1)%D := mod_ne (by omega) (by omega)
  rw [past,hbit,hbit,decide_eq_false (not_or.mpr ⟨h01,h02⟩),decide_eq_true (Or.inl rfl)]
  rfl

/-- A copy of pairs that are all further, by less than a turn. -/
theorem past_of_lt (hn : q+1<n) (hnm : n ≤ m) (hmn : m≤n+1) (hm : m<q+1+D) (h : Between D n m x) :
    past q x=true := by
  have hpos : 0<D := by omega
  rw [past,Bool.or_eq_true_iff,Bool.not_eq_true']
  by_cases hnear : (twoHot D n).getLsbD (q%D)=true ∧ (twoHot D m).getLsbD (q%D)=true
  · left
    rcases h _ (Nat.mod_lt q hpos) with hx | hx <;> rw [hx]
    exacts [hnear.1,hnear.2]
  · right
    rw [getLsbD_twoHot (Nat.mod_lt q hpos),getLsbD_twoHot (Nat.mod_lt q hpos),decide_eq_true_iff,
      decide_eq_true_iff] at hnear
    -- Only the last pair of the turn has the bit behind `q`, and it has the bit of `q` as well.
    have hfar : ∀ k,q+1<k → k<q+1+D → ((q+1)%D=k%D ∨ (q+1)%D=(k+1)%D) → k+1=q+1+D := by
      intro k hk hlt hmod
      rcases hmod with hmod | hmod
      · exact absurd hmod (mod_ne hk hlt)
      · by_contra hne
        exact mod_ne (by omega) (by omega) hmod
    have hturn : ∀ k,k=q+D → q%D=k%D := by
      rintro k rfl
      exact (Nat.add_mod_right q D).symm
    have hlate : ¬(q+D ≤ m) := by
      intro hle
      refine hnear ⟨?_,?_⟩
      · by_cases hq : n=q+D
        · exact Or.inl (hturn n hq)
        · exact Or.inr (hturn (n+1) (by omega))
      · exact Or.inl (hturn m (by omega))
    have hlt := Nat.mod_lt (q+1) hpos
    rcases h _ hlt with hx | hx <;> rw [hx,getLsbD_twoHot hlt,decide_eq_false_iff_not]
    · exact fun hmod => hlate (by have := hfar n hn (by omega) hmod; omega)
    · exact fun hmod => hlate (by have := hfar m (by omega) hm hmod; omega)

end Copies

end Pulpissimo.HotCode

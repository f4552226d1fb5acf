import Mathlib.Data.BitVec
import Pulpissimo.Lib.Bits

/-!
# Lanes of a packed word

A packed word is cut into lanes of one width. Four bytes make a word, and lanes of two or four
bytes are joined from them. Reversing a word reverses the order of its lanes and each lane in
itself, so that a shift to the left is a shift to the right between two reversals.
-/

namespace Pulpissimo.Lanes

open Pulpissimo.Bits

/-- Lane `k` of width `w`. -/
def lane (w k : ℕ) {n : ℕ} (x : BitVec n) : BitVec w := x.extractLsb' (w*k) w

theorem getLsbD_lane {w k n : ℕ} (x : BitVec n) {j : ℕ} (hj : j < w) :
    (lane w k x).getLsbD j=x.getLsbD (w*k+j) := by
  rw [lane,BitVec.getLsbD_extractLsb',decide_eq_true hj,Bool.true_and]

theorem toNat_lane {w k n : ℕ} (x : BitVec n) : (lane w k x).toNat=x.toNat/2^(w*k)%2^w := by
  rw [lane,BitVec.extractLsb'_toNat,Nat.shiftRight_eq_div_pow]

@[simp] theorem lane_self {w : ℕ} (x : BitVec w) : lane w 0 x=x := by
  unfold lane
  rw [Nat.mul_zero,BitVec.extractLsb'_eq_self]

theorem msb_lane {w k n : ℕ} (x : BitVec n) (hw : 0 < w) :
    (lane w k x).msb=x.getLsbD (w*k+(w-1)) := by
  rw [BitVec.msb_eq_getLsbD_last,getLsbD_lane x (by omega)]

theorem lane_zero {n : ℕ} (w k : ℕ) : lane w k (0 : BitVec n)=0 := by
  apply BitVec.eq_of_toNat_eq
  rw [toNat_lane]
  change 0%2^n/2^(w*k)%2^w=0%2^w
  rw [Nat.zero_mod,Nat.zero_div]

theorem lane_not {w k n : ℕ} (x : BitVec n) (h : w*k+w ≤ n) :
    lane w k (~~~x)= ~~~lane w k x := by
  apply BitVec.eq_of_getLsbD_eq
  intro j hj
  rw [getLsbD_lane _ hj,BitVec.getLsbD_not,BitVec.getLsbD_not,getLsbD_lane _ hj,
    decide_eq_true (by omega),decide_eq_true hj]

/-- Lanes of a reversed word. -/
theorem lane_reverse {w k m n : ℕ} (x : BitVec n) (hn : n=w*m) (hk : k < m) :
    lane w k x.reverse=(lane w (m-1-k) x).reverse := by
  subst hn
  apply BitVec.eq_of_getLsbD_eq
  intro j hj
  obtain ⟨q,rfl⟩ : ∃ q,m=q+k+1 := ⟨m-1-k,by omega⟩
  have hq : q+k+1-1-k=q := by omega
  have hsize : w*(q+k+1)=w*q+w*k+w := by rw [Nat.mul_succ,Nat.mul_add]
  rw [getLsbD_lane _ hj,BitVec.getLsbD_reverse,BitVec.getLsbD_reverse,BitVec.getMsbD_eq_getLsbD,
    BitVec.getMsbD_eq_getLsbD,decide_eq_true hj,Bool.true_and,hq,getLsbD_lane _ (by omega),
    decide_eq_true (by omega),Bool.true_and]
  congr 1
  omega

/-- A shift to the left by way of a shift to the right. -/
theorem reverse_ushiftRight_reverse {w : ℕ} (x : BitVec w) (n : ℕ) :
    (x.reverse>>>n).reverse=x<<<n := by
  apply BitVec.eq_of_getLsbD_eq
  intro j hj
  rw [BitVec.getLsbD_reverse,BitVec.getMsbD_eq_getLsbD,decide_eq_true hj,Bool.true_and,
    BitVec.getLsbD_ushiftRight,BitVec.getLsbD_reverse,BitVec.getMsbD_eq_getLsbD,
    BitVec.getLsbD_shiftLeft,decide_eq_true hj,Bool.true_and]
  rcases Nat.lt_or_ge j n with hlt | hge
  · rw [decide_eq_false (by omega),decide_eq_true hlt]
    rfl
  · rw [decide_eq_true (by omega),decide_eq_false (by omega),Bool.true_and,Bool.not_false,
      Bool.true_and]
    congr 1
    omega

/-- A shift to the right, with the sign or with zeros. -/
def shifted {w : ℕ} (arith : Bool) (x : BitVec w) (n : ℕ) : BitVec w :=
  if arith then x.sshiftRight n else x>>>n

theorem getLsbD_shifted {w n k : ℕ} (arith : Bool) (x : BitVec w) (h : n+k < w) :
    (shifted arith x n).getLsbD k=x.getLsbD (n+k) := by
  unfold shifted
  cases arith with
  | true =>
    rw [if_pos rfl,BitVec.getLsbD_sshiftRight,decide_eq_false (by omega),if_pos h]
    rfl
  | false => rw [if_neg Bool.false_ne_true,BitVec.getLsbD_ushiftRight]

/-- A shift with one sign bit more on top. -/
theorem shifted_cons {w : ℕ} (arith : Bool) (x : BitVec w) (n : ℕ) :
    ((BitVec.cons (arith && x.msb) x).sshiftRight n).setWidth w=shifted arith x n := by
  apply BitVec.eq_of_getLsbD_eq
  intro j hj
  rw [BitVec.getLsbD_setWidth,decide_eq_true hj,Bool.true_and,BitVec.getLsbD_sshiftRight,
    decide_eq_false (by omega),BitVec.msb_cons,BitVec.getLsbD_cons,Bool.not_false,Bool.true_and]
  unfold shifted
  rcases Nat.lt_trichotomy (n+j) w with hlt | heq | hgt
  · rw [if_pos (by omega),if_neg (by omega)]
    cases arith with
    | true => rw [if_pos rfl,BitVec.getLsbD_sshiftRight,decide_eq_false (by omega),if_pos hlt]; rfl
    | false => rw [if_neg Bool.false_ne_true,BitVec.getLsbD_ushiftRight]
  · rw [if_pos (by omega),if_pos heq]
    cases arith with
    | true =>
      rw [if_pos rfl,BitVec.getLsbD_sshiftRight,decide_eq_false (by omega),if_neg (by omega)]
      rfl
    | false =>
      rw [if_neg Bool.false_ne_true,BitVec.getLsbD_ushiftRight,BitVec.getLsbD_of_ge _ _ heq.ge]
      rfl
  · rw [if_neg (by omega)]
    cases arith with
    | true =>
      rw [if_pos rfl,BitVec.getLsbD_sshiftRight,decide_eq_false (by omega),if_neg (by omega)]
      rfl
    | false =>
      rw [if_neg Bool.false_ne_true,BitVec.getLsbD_ushiftRight,BitVec.getLsbD_of_ge _ _ (by omega)]
      rfl

/-- A shift of a word below its sign bits. -/
theorem shifted_fill {v w : ℕ} (arith : Bool) (x : BitVec w) {n : ℕ} (hn : n ≤ v) :
    ((BitVec.fill v (arith && x.msb)++x)>>>n).setWidth w=shifted arith x n := by
  apply BitVec.eq_of_getLsbD_eq
  intro j hj
  rw [BitVec.getLsbD_setWidth,decide_eq_true hj,Bool.true_and,BitVec.getLsbD_ushiftRight,
    BitVec.getLsbD_append,BitVec.getLsbD_fill]
  unfold shifted
  rcases Nat.lt_or_ge (n+j) w with hlt | hge
  · rw [if_pos hlt]
    cases arith with
    | true =>
      rw [if_pos rfl,BitVec.getLsbD_sshiftRight,decide_eq_false (by omega),if_pos hlt]
      rfl
    | false => rw [if_neg Bool.false_ne_true,BitVec.getLsbD_ushiftRight]
  · rw [if_neg (by omega),decide_eq_true (by omega),Bool.and_true]
    cases arith with
    | true =>
      rw [if_pos rfl,BitVec.getLsbD_sshiftRight,decide_eq_false (by omega),if_neg (by omega)]
      rfl
    | false =>
      rw [if_neg Bool.false_ne_true,BitVec.getLsbD_ushiftRight,BitVec.getLsbD_of_ge _ _ hge]
      rfl

section Pack

variable {w m : ℕ}

/-- The word with the given lanes. -/
def pack (f : Fin m → BitVec w) : BitVec (m*w) :=
  ofBits fun j => (f j.divNat).getLsbD j.modNat

theorem getLsbD_pack (f : Fin m → BitVec w) (k : Fin m) {j : ℕ} (hj : j < w) :
    (pack f).getLsbD (w*k+j)=(f k).getLsbD j := by
  have hle : w*(k.val+1) ≤ w*m := Nat.mul_le_mul_left w k.isLt
  have hlt : w*k+j < m*w := by
    rw [Nat.mul_succ] at hle
    rw [Nat.mul_comm m w]
    omega
  have hdiv : Fin.divNat (⟨w*k+j,hlt⟩ : Fin (m*w))=k := by
    apply Fin.ext
    rw [Fin.coe_divNat,Nat.mul_add_div (by omega),Nat.div_eq_of_lt hj,Nat.add_zero]
  have hmod : (Fin.modNat (⟨w*k+j,hlt⟩ : Fin (m*w))).val=j := by
    rw [Fin.coe_modNat,Nat.mul_add_mod,Nat.mod_eq_of_lt hj]
  rw [pack,getLsbD_ofBits_lt _ hlt,hdiv,hmod]

/-- Each lane of the word is the given one. -/
@[simp] theorem lane_pack (f : Fin m → BitVec w) (k : Fin m) : lane w k (pack f)=f k := by
  apply BitVec.eq_of_getLsbD_eq
  intro j hj
  rw [getLsbD_lane _ hj,getLsbD_pack f k hj]

/-- A wide lane of which every narrow one agrees with another word. -/
theorem lane_pack_of_agree {q k n : ℕ} (f : Fin m → BitVec w) (z : BitVec n)
    (h : ∀ r : Fin m, q*k ≤ r.val → r.val < q*k+q → f r=lane w r z) (hk : q*k+q ≤ m) :
    lane (q*w) k (pack f)=lane (q*w) k z := by
  apply BitVec.eq_of_getLsbD_eq
  intro j hj
  have hw : 0 < w := Nat.pos_of_mul_pos_left (by omega : 0 < q*w)
  have hq : j/w < q := (Nat.div_lt_iff_lt_mul hw).mpr hj
  have hj' : j%w < w := Nat.mod_lt _ hw
  have hpos : q*w*k+j=w*(q*k+j/w)+j%w := by
    rw [Nat.mul_add,Nat.add_assoc,Nat.div_add_mod,Nat.mul_comm q w,Nat.mul_assoc]
  have hr : q*k+j/w < m := by omega
  rw [getLsbD_lane _ hj,getLsbD_lane _ hj,hpos]
  rw [show w*(q*k+j/w)+j%w=w*(⟨q*k+j/w,hr⟩ : Fin m).val+j%w from rfl,getLsbD_pack f _ hj',
    h ⟨_,hr⟩ (Nat.le_add_right _ _) (Nat.add_lt_add_left hq _),getLsbD_lane _ hj']

end Pack

section Carry

variable (a b : ℕ) {m p : ℕ}

/-- Carry out of the places below `m`. -/
def carryOut (m : ℕ) : ℕ := (a%m+b%m)/m

theorem carryOut_one : carryOut a b 1=0 := by
  rw [carryOut,Nat.mod_one,Nat.mod_one]

theorem carryOut_lt_two (hm : 0 < m) : carryOut a b m < 2 := by
  have ha := Nat.mod_lt a hm
  have hb := Nat.mod_lt b hm
  exact Nat.div_lt_of_lt_mul (by omega)

/-- The carry out of one more digit. -/
theorem carryOut_mul (hm : 0 < m) :
    carryOut a b (m*p)=(a/m%p+b/m%p+carryOut a b m)/p := by
  unfold carryOut
  rw [Nat.mod_mul,Nat.mod_mul,←Nat.div_div_eq_div_mul]
  congr 1
  rw [show a%m+m*(a/m%p)+(b%m+m*(b/m%p))=a%m+b%m+m*(a/m%p+b/m%p) by rw [Nat.mul_add]; omega,
    Nat.add_mul_div_left _ _ hm]
  omega

/-- A digit of a sum. -/
theorem digit_add (hm : 0 < m) : (a+b)/m%p=(a/m%p+b/m%p+carryOut a b m)%p := by
  have hsum : a+b=a%m+b%m+m*(a/m+b/m) := by
    rw [Nat.mul_add]
    have ha := Nat.mod_add_div a m
    have hb := Nat.mod_add_div b m
    omega
  rw [carryOut,hsum,Nat.add_mul_div_left _ _ hm,Nat.add_comm ((a%m+b%m)/m)]
  simp only [Nat.add_mod,Nat.mod_mod]

end Carry

section Value

variable {u v : ℕ}

/-- The number of a word with or without a sign. -/
def value {w : ℕ} (sign : Bool) (x : BitVec w) : ℤ := if sign then x.toInt else x.toNat

/-- A part of a word is joined from its upper and its lower part. -/
theorem extract_split {n : ℕ} (x : BitVec n) (s u v : ℕ) :
    x.extractLsb' s (u+v)=x.extractLsb' (s+v) u++x.extractLsb' s v := by
  apply BitVec.eq_of_getLsbD_eq
  intro j hj
  rw [BitVec.getLsbD_append]
  rcases Nat.lt_or_ge j v with hlt | hge
  · rw [if_pos hlt,BitVec.getLsbD_extractLsb',BitVec.getLsbD_extractLsb',decide_eq_true hj,
      decide_eq_true hlt]
  · rw [if_neg (by omega),BitVec.getLsbD_extractLsb',
      BitVec.getLsbD_extractLsb',decide_eq_true hj,decide_eq_true (by omega),Bool.true_and,
      Bool.true_and]
    congr 1
    omega

/-- A lane is joined from its halves. -/
theorem lane_double {n : ℕ} (w k : ℕ) (x : BitVec n) :
    lane (w+w) k x=lane w (2*k+1) x++lane w (2*k) x := by
  unfold lane
  have hlow : (w+w)*k=w*(2*k) := by rw [←Nat.two_mul,Nat.mul_comm 2 w,Nat.mul_assoc]
  rw [extract_split,hlow,Nat.mul_succ]

/-- A word is joined from its bytes. -/
theorem join_bytes (x : BitVec 32) :
    x=lane 8 3 x++(lane 8 2 x++(lane 8 1 x++lane 8 0 x)) := by
  have hword := extract_split x 0 8 (8+(8+8))
  rw [BitVec.extractLsb'_eq_self,extract_split x 0 8 (8+8),extract_split x 0 8 8] at hword
  exact hword

theorem value_join (sign : Bool) (x : BitVec u) (y : BitVec v) (hu : 0 < u) :
    value sign (x++y)=value sign x*2^v+y.toNat := by
  unfold value
  cases sign with
  | true =>
    rw [if_pos rfl,if_pos rfl,BitVec.toInt_append,if_neg (by simpa using hu.ne'),mul_comm]
  | false =>
    rw [if_neg Bool.false_ne_true,if_neg Bool.false_ne_true,toNat_join]
    push_cast
    rfl

theorem value_inj (sign : Bool) {x y : BitVec u} (h : value sign x=value sign y) : x=y := by
  unfold value at h
  cases sign with
  | true => exact BitVec.eq_of_toInt_eq h
  | false => exact BitVec.eq_of_toNat_eq (Int.ofNat_inj.mp h)

/-- The upper parts decide first. -/
theorem join_lt_of_lt {a b p y y' : ℤ} (hy : y < p) (hy' : 0 ≤ y') (hp : 0 ≤ p) (h : a < b) :
    a*p+y < b*p+y' := by
  have hstep : (a+1)*p ≤ b*p := Int.mul_le_mul_of_nonneg_right h hp
  rw [Int.add_mul,Int.one_mul] at hstep
  omega

/-- Joined words are compared by their upper parts first. -/
theorem value_join_lt (sign : Bool) (x x' : BitVec u) (y y' : BitVec v) (hu : 0 < u) :
    value sign (x++y) < value sign (x'++y') ↔
      value sign x < value sign x' ∨ (x=x' ∧ value false y < value false y') := by
  have hp : (0 : ℤ) ≤ 2^v := Int.pow_nonneg (by omega)
  have hbound : ∀ z : BitVec v, (z.toNat : ℤ) < 2^v := fun z => by exact_mod_cast z.isLt
  have hy := hbound y
  have hy' := hbound y'
  rw [value_join sign x y hu,value_join sign x' y' hu]
  change _ ↔ _ ∨ (_ ∧ (y.toNat : ℤ) < y'.toNat)
  rcases Int.lt_trichotomy (value sign x) (value sign x') with hlt | heq | hgt
  · exact iff_of_true (join_lt_of_lt hy (Int.natCast_nonneg _) hp hlt) (Or.inl hlt)
  · rw [value_inj sign heq]
    constructor
    · intro h
      exact Or.inr ⟨rfl,by omega⟩
    · rintro (h | ⟨-,h⟩)
      · omega
      · omega
  · have hafter := join_lt_of_lt hy' (Int.natCast_nonneg y.toNat) hp hgt
    refine iff_of_false (by omega) ?_
    rintro (h | ⟨h,-⟩)
    · omega
    · rw [h] at hgt
      omega

/-- The first word is the greater one. -/
def greater {w : ℕ} (sign : Bool) (x y : BitVec w) : Bool := decide (value sign y < value sign x)

theorem greater_join (sign : Bool) (x x' : BitVec u) (y y' : BitVec v) (hu : 0 < u) :
    greater sign (x++y) (x'++y')=(greater sign x x' || (x==x' && greater false y y')) := by
  rw [Bool.eq_iff_iff,greater,decide_eq_true_iff,value_join_lt sign _ _ _ _ hu,Bool.or_eq_true,
    Bool.and_eq_true,beq_iff_eq,greater,greater,decide_eq_true_iff,decide_eq_true_iff,
    eq_comm (a:=x)]

theorem beq_join (x x' : BitVec u) (y y' : BitVec v) :
    (x++y==x'++y')=(x==x' && y==y') := by
  rw [Bool.eq_iff_iff,beq_iff_eq,append_inj,Bool.and_eq_true,beq_iff_eq,beq_iff_eq]

end Value

end Pulpissimo.Lanes

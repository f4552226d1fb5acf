import Mathlib.Data.Nat.Bitwise
import Mathlib.Tactic.Linarith

/-!
# Trees of two-input arbiters

A binary tree of arbiters passes on one of the requests of its leaves. Every node takes
the only side that requests, or the side that the flag of its level prefers. The flags
order the leaves: a leaf is nearer to the flags the fewer high bits of its number differ
from them, and the request that gets through is the nearest. A leaf whose number is that
of the flags goes before all others.
-/

namespace Pulpissimo.ArbTree

/-- An arbiter takes its second side. -/
def SEL (f r0 r1 : Bool) : Bool := !r0 || (f && r1)

section Tree

variable (r f : ℕ → Bool)

/-- Some leaf below node `k` requests, `d` levels above the leaves. -/
def anyReq : ℕ → ℕ → Bool
  | 0,k => r k
  | d+1,k => anyReq d (2*k) || anyReq d (2*k+1)

/-- Leaf whose request gets through to node `k`. -/
def winner : ℕ → ℕ → ℕ
  | 0,k => k
  | d+1,k => if SEL (f d) (anyReq r d (2*k)) (anyReq r d (2*k+1)) then winner d (2*k+1)
      else winner d (2*k)

/-- Grant of node `p`, `j` levels below the root of a tree of `n` levels. -/
def granted (n : ℕ) (gnt : Bool) : ℕ → ℕ → Bool
  | 0,_ => gnt
  | j+1,p =>
    let r0 := anyReq r (n-j-1) (2*(p/2))
    let r1 := anyReq r (n-j-1) (2*(p/2)+1)
    let b := f (n-j-1)
    if p%2=0 then ((r0 && !r1) || (r0 && !b)) && granted n gnt j (p/2)
    else ((!r0 && r1) || (r1 && b)) && granted n gnt j (p/2)

/-- Distance of a leaf from the flags of `d` levels. -/
def rank : ℕ → ℕ → ℕ
  | 0,_ => 0
  | d+1,i => (if i.testBit d=f d then 0 else 2^d)+rank d i

end Tree

variable {r f : ℕ → Bool}

/-- The leaves below node `k`. -/
def Below (d k i : ℕ) : Prop := k*2^d ≤ i ∧ i<(k+1)*2^d

theorem below_zero {k i : ℕ} : Below 0 k i ↔ i=k := by
  unfold Below
  rw [Nat.pow_zero,Nat.mul_one,Nat.mul_one]
  omega

/-- The leaves below a node are those below its two sides. -/
theorem below_succ {d k i : ℕ} : Below (d+1) k i ↔ Below d (2*k) i ∨ Below d (2*k+1) i := by
  unfold Below
  have hpow : 2^(d+1)=2*2^d := Nat.pow_succ'
  rw [hpow]
  constructor
  · rintro ⟨hlo,hhi⟩
    rcases Nat.lt_or_ge i ((2*k+1)*2^d) with hi | hi
    · exact Or.inl ⟨by linarith,hi⟩
    · exact Or.inr ⟨hi,by linarith⟩
  · rintro (⟨hlo,hhi⟩ | ⟨hlo,hhi⟩)
    · exact ⟨by linarith,by nlinarith [Nat.two_pow_pos d]⟩
    · exact ⟨by nlinarith [Nat.two_pow_pos d],by linarith⟩

/-- A leaf is below one node of every level. -/
theorem Below.node_eq {d k i : ℕ} (h : Below d k i) : i/2^d=k := by
  rcases h with ⟨hlo,hhi⟩
  exact Nat.div_eq_of_lt_le hlo hhi

theorem Below.testBit {d k i : ℕ} (h : Below d k i) : i.testBit d=decide (k%2=1) := by
  rw [Nat.testBit_eq_decide_div_mod_eq,h.node_eq]

theorem anyReq_iff {d k : ℕ} : anyReq r d k=true ↔ ∃ i, Below d k i ∧ r i=true := by
  induction d generalizing k with
  | zero =>
    unfold anyReq
    constructor
    · exact fun h => ⟨k,below_zero.mpr rfl,h⟩
    · rintro ⟨i,hi,hreq⟩
      rwa [←below_zero.mp hi]
  | succ d ih =>
    unfold anyReq
    rw [Bool.or_eq_true_iff,ih,ih]
    constructor
    · rintro (⟨i,hi,hreq⟩ | ⟨i,hi,hreq⟩)
      · exact ⟨i,(below_succ).mpr (Or.inl hi),hreq⟩
      · exact ⟨i,(below_succ).mpr (Or.inr hi),hreq⟩
    · rintro ⟨i,hi,hreq⟩
      rcases (below_succ).mp hi with hi | hi
      · exact Or.inl ⟨i,hi,hreq⟩
      · exact Or.inr ⟨i,hi,hreq⟩

theorem winner_below (d k : ℕ) : Below d k (winner r f d k) := by
  induction d generalizing k with
  | zero => exact below_zero.mpr rfl
  | succ d ih =>
    unfold winner
    split_ifs
    · exact (below_succ).mpr (Or.inr (ih (2*k+1)))
    · exact (below_succ).mpr (Or.inl (ih (2*k)))

/-- What gets through is a request. -/
theorem winner_requests {d k : ℕ} (h : anyReq r d k=true) : r (winner r f d k)=true := by
  induction d generalizing k with
  | zero => exact h
  | succ d ih =>
    unfold anyReq at h
    unfold winner SEL
    cases h0 : anyReq r d (2*k) with
    | false =>
      rw [h0,Bool.false_or] at h
      exact ih h
    | true =>
      cases h1 : anyReq r d (2*k+1) with
      | false =>
        rw [Bool.and_false]
        exact ih h0
      | true =>
        rw [Bool.and_true]
        split_ifs
        · exact ih h1
        · exact ih h0

theorem rank_lt (d i : ℕ) : rank f d i<2^d := by
  induction d with
  | zero => exact Nat.one_pos
  | succ d ih =>
    have hpow : 2^(d+1)=2*2^d := Nat.pow_succ'
    unfold rank
    split_ifs <;> omega

/-- Leaves below one node differ in their distance. -/
theorem rank_injective {d k i j : ℕ} (hi : Below d k i) (hj : Below d k j)
    (h : rank f d i=rank f d j) : i=j := by
  induction d generalizing k with
  | zero => rw [below_zero.mp hi,below_zero.mp hj]
  | succ d ih =>
    have hilt := rank_lt (f:=f) d i
    have hjlt := rank_lt (f:=f) d j
    unfold rank at h
    have hbits : i.testBit d=j.testBit d := by
      cases hib : i.testBit d <;> cases hjb : j.testBit d <;> cases hf : f d <;>
        simp only [hib,hjb,hf] at h ⊢ <;> simp at h <;> omega
    have hrest : rank f d i=rank f d j := by
      rw [hbits] at h
      omega
    rcases (below_succ).mp hi with hi | hi <;> rcases (below_succ).mp hj with hj | hj
    · exact ih hi hj hrest
    · rw [hi.testBit,hj.testBit] at hbits
      simp at hbits
    · rw [hi.testBit,hj.testBit] at hbits
      simp at hbits
    · exact ih hi hj hrest

/-- A leaf with the number of the flags is at distance zero. -/
theorem rank_eq_zero {d i : ℕ} (h : ∀ e, e<d → i.testBit e=f e) : rank f d i=0 := by
  induction d with
  | zero => rfl
  | succ d ih =>
    unfold rank
    rw [if_pos (h d (Nat.lt_succ_self d)),ih fun e he => h e (Nat.lt_succ_of_lt he)]

theorem Below.rank_left {d k i : ℕ} (h : Below d (2*k) i) :
    rank f (d+1) i=(if f d=false then 0 else 2^d)+rank f d i := by
  have hbit : i.testBit d=false := by
    rw [h.testBit]
    exact decide_eq_false (by omega)
  rw [rank,hbit]
  exact congrArg (·+_) (if_congr eq_comm rfl rfl)

theorem Below.rank_right {d k i : ℕ} (h : Below d (2*k+1) i) :
    rank f (d+1) i=(if f d=true then 0 else 2^d)+rank f d i := by
  have hbit : i.testBit d=true := by
    rw [h.testBit]
    exact decide_eq_true (by omega)
  rw [rank,hbit]
  exact congrArg (·+_) (if_congr eq_comm rfl rfl)

/-- The request that gets through is the nearest. -/
theorem winner_rank_le {d k i : ℕ} (hi : Below d k i) (hreq : r i=true) :
    rank f d (winner r f d k) ≤ rank f d i := by
  induction d generalizing k with
  | zero => exact Nat.le_refl _
  | succ d ih =>
    have hl := winner_below (r:=r) (f:=f) d (2*k)
    have hr := winner_below (r:=r) (f:=f) d (2*k+1)
    have hlt := rank_lt (f:=f) d
    unfold winner SEL
    rcases (below_succ).mp hi with hi | hi
    · have h0 : anyReq r d (2*k)=true := (anyReq_iff).mpr ⟨i,hi,hreq⟩
      have hle := ih hi
      rw [h0,Bool.not_true,Bool.false_or]
      split_ifs with hsel
      · rw [hr.rank_right,hi.rank_left,(Bool.and_eq_true_iff.mp hsel).1]
        have hw := hlt (winner r f d (2*k+1))
        rw [if_pos rfl,if_neg nofun]
        omega
      · rw [hl.rank_left,hi.rank_left]
        exact Nat.add_le_add_left hle _
    · have h1 : anyReq r d (2*k+1)=true := (anyReq_iff).mpr ⟨i,hi,hreq⟩
      have hle := ih hi
      rw [h1,Bool.and_true]
      split_ifs with hsel
      · rw [hr.rank_right,hi.rank_right]
        exact Nat.add_le_add_left hle _
      · rw [Bool.or_eq_true_iff,not_or,Bool.not_eq_true (f d)] at hsel
        rw [hl.rank_left,hi.rank_right,hsel.2]
        have hw := hlt (winner r f d (2*k))
        rw [if_pos rfl,if_neg nofun]
        omega

/-- A request at distance zero gets through. -/
theorem winner_of_flag {d k i : ℕ} (hi : Below d k i) (hreq : r i=true)
    (hflag : ∀ e, e<d → i.testBit e=f e) : winner r f d k=i := by
  have hle := winner_rank_le (f:=f) hi hreq
  rw [rank_eq_zero hflag] at hle
  refine rank_injective (f:=f) (winner_below d k) hi ?_
  rw [rank_eq_zero hflag]
  exact Nat.le_zero.mp hle

/-- What gets through to a node got through to every node above the leaf. -/
theorem winner_of_below {d e k m : ℕ} (h : Below d k (winner r f (d+e) m)) :
    winner r f (d+e) m=winner r f d k := by
  induction e generalizing m with
  | zero =>
    have hm := (winner_below (r:=r) (f:=f) d m).node_eq
    have hk := h.node_eq
    rw [Nat.add_zero] at hk ⊢
    rw [←hm,hk]
  | succ e ih =>
    rw [←Nat.add_assoc,winner] at h ⊢
    split_ifs at h ⊢
    · exact ih h
    · exact ih h

/-- The side that an arbiter takes. -/
theorem below_left_iff {d k : ℕ} : Below d (2*k) (winner r f (d+1) k) ↔
    SEL (f d) (anyReq r d (2*k)) (anyReq r d (2*k+1))=false := by
  unfold winner
  split_ifs with hsel
  · have hright := (winner_below (r:=r) (f:=f) d (2*k+1)).node_eq
    refine ⟨fun h => ?_,fun h => absurd (hsel.symm.trans h) nofun⟩
    have hleft := h.node_eq
    omega
  · exact ⟨fun _ => Bool.not_eq_true _ ▸ hsel,fun _ => winner_below d (2*k)⟩

theorem below_right_iff {d k : ℕ} : Below d (2*k+1) (winner r f (d+1) k) ↔
    SEL (f d) (anyReq r d (2*k)) (anyReq r d (2*k+1))=true := by
  unfold winner
  split_ifs with hsel
  · exact ⟨fun _ => hsel,fun _ => winner_below d (2*k+1)⟩
  · have hleft := (winner_below (r:=r) (f:=f) d (2*k)).node_eq
    refine ⟨fun h => ?_,fun h => absurd h hsel⟩
    have hright := h.node_eq
    omega

/-- The grant goes down to the leaf whose request gets through. -/
theorem granted_iff {n j p : ℕ} {gnt : Bool} (hany : gnt=true → anyReq r n 0=true) (hj : j≤n)
    (hp : p<2^j) :
    granted r f n gnt j p=true ↔ gnt=true ∧ Below (n-j) p (winner r f n 0) := by
  induction j generalizing p with
  | zero =>
    have hroot : p=0 := by rw [Nat.pow_zero] at hp; omega
    subst hroot
    exact ⟨fun h => ⟨h,winner_below n 0⟩,fun h => h.1⟩
  | succ j ih =>
    have hpow : 2^(j+1)=2*2^j := Nat.pow_succ'
    obtain ⟨d,rfl⟩ : ∃ d, n=d+1+j := ⟨n-j-1,by omega⟩
    have hlevel : d+1+j-j=d+1 := by omega
    have hparent := ih (p:=p/2) (by omega) (by omega)
    rw [hlevel] at hparent
    have hnext : d+1+j-(j+1)=d := by omega
    rw [hnext,granted,hlevel,Nat.add_sub_cancel]
    by_cases hpath : gnt=true ∧ Below (d+1) (p/2) (winner r f (d+1+j) 0)
    · have hwin := winner_of_below hpath.2
      have hreq : anyReq r (d+1) (p/2)=true :=
        (anyReq_iff).mpr ⟨_,hpath.2,winner_requests (hany hpath.1)⟩
      unfold anyReq at hreq
      rw [hparent.mpr hpath,hwin,hpath.1]
      rcases Nat.mod_two_eq_zero_or_one p with hside | hside
      · have hp2 : p=2*(p/2) := by omega
        rw [if_pos hside,Bool.and_true]
        have hleft := below_left_iff (r:=r) (f:=f) (d:=d) (k:=p/2)
        rw [←hp2] at hleft hreq ⊢
        rw [hleft]
        unfold SEL
        revert hreq
        generalize anyReq r d p=r0
        generalize anyReq r d (p+1)=r1
        generalize f d=b
        revert r0 r1 b
        decide
      · have hp2 : p=2*(p/2)+1 := by omega
        rw [if_neg (by omega),Bool.and_true]
        have hright := below_right_iff (r:=r) (f:=f) (d:=d) (k:=p/2)
        rw [←hp2] at hright hreq ⊢
        rw [hright]
        unfold SEL
        revert hreq
        generalize anyReq r d (2*(p/2))=r0
        generalize anyReq r d p=r1
        generalize f d=b
        revert r0 r1 b
        decide
    · have hno : granted r f (d+1+j) gnt j (p/2)=false :=
        Bool.not_eq_true _ ▸ fun h => hpath (hparent.mp h)
      rw [hno,Bool.and_false,Bool.and_false,ite_self]
      refine ⟨fun h => absurd h nofun,fun h => absurd ⟨h.1,(below_succ).mpr ?_⟩ hpath⟩
      rcases Nat.mod_two_eq_zero_or_one p with hside | hside
      · left
        rw [show 2*(p/2)=p by omega]
        exact h.2
      · right
        rw [show 2*(p/2)+1=p by omega]
        exact h.2

end Pulpissimo.ArbTree

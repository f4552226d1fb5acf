import Mathlib.Algebra.Order.Ring.Nat
import Mathlib.Data.BitVec
import Mathlib.Tactic.Linarith
import Mathlib.Tactic.Ring

/-!
# Balanced trees over a row of bits

Selector trees tell at every node whether a bit below it is set and which is
the first of them, taking the left subtree where it has any. Counting trees
add the counts of two subtrees one bit wider. What a node says covers exactly
the bits below it.
-/

namespace Pulpissimo.BitTree

/-- Whether any bit is set below node `k`, `d` levels above the leaf pairs. -/
def sel_nodes (bit : ℕ → Bool) : ℕ → ℕ → Bool
  | 0,k => bit (2*k) || bit (2*k+1)
  | d+1,k => sel_nodes bit d (2*k) || sel_nodes bit d (2*k+1)

/-- Index of the first bit set below node `k`. -/
def index_nodes (bit : ℕ → Bool) : ℕ → ℕ → ℕ
  | 0,k => if bit (2*k)=true then 2*k else 2*k+1
  | d+1,k =>
    if sel_nodes bit d (2*k)=true then index_nodes bit d (2*k) else index_nodes bit d (2*k+1)

/-- A node without a set bit below it covers zeros only. -/
theorem eq_false_of_not_sel {bit : ℕ → Bool} {d k : ℕ} (h : sel_nodes bit d k=false) :
    ∀ i, k*2^(d+1) ≤ i → i<(k+1)*2^(d+1) → bit i=false := by
  induction d generalizing k with
  | zero =>
    intro i hlo hhi
    simp only [sel_nodes,Bool.or_eq_false_iff] at h
    rcases (by omega : i=2*k ∨ i=2*k+1) with rfl | rfl
    · exact h.1
    · exact h.2
  | succ d ih =>
    intro i hlo hhi
    simp only [sel_nodes,Bool.or_eq_false_iff] at h
    rw [pow_succ] at hlo hhi
    rcases lt_or_ge i ((2*k+1)*2^(d+1)) with hi | hi
    · exact ih h.1 i (by linarith) hi
    · exact ih h.2 i hi (by linarith)

/-- A node with a set bit below it points at the first one. -/
theorem index_of_sel {bit : ℕ → Bool} {d k : ℕ} (h : sel_nodes bit d k=true) :
    k*2^(d+1) ≤ index_nodes bit d k ∧ index_nodes bit d k<(k+1)*2^(d+1) ∧
      bit (index_nodes bit d k)=true ∧
      ∀ i, k*2^(d+1) ≤ i → i < index_nodes bit d k → bit i=false := by
  induction d generalizing k with
  | zero =>
    simp only [sel_nodes,Bool.or_eq_true] at h
    unfold index_nodes
    split_ifs with h0
    · exact ⟨by omega,by omega,h0,fun i hlo hhi => by omega⟩
    · refine ⟨by omega,by omega,h.resolve_left h0,fun i hlo hhi => ?_⟩
      have hi : i=2*k := by omega
      rw [hi]
      simpa using h0
  | succ d ih =>
    simp only [sel_nodes,Bool.or_eq_true] at h
    rw [pow_succ']
    unfold index_nodes
    split_ifs with h0
    · obtain ⟨hlo,hhi,hbit,hfirst⟩ := ih h0
      exact ⟨by linarith,by linarith,hbit,fun i hl hi => hfirst i (by linarith) hi⟩
    · obtain ⟨hlo,hhi,hbit,hfirst⟩ := ih (h.resolve_left h0)
      refine ⟨by linarith,by linarith,hbit,fun i hl hi => ?_⟩
      rcases lt_or_ge i ((2*k+1)*2^(d+1)) with hleft | hright
      · exact eq_false_of_not_sel (by simpa using h0) i (by linarith) hleft
      · exact hfirst i hright hi

/-- Number of bits set below node `k`, `d` levels above the bits. -/
def count_nodes (bit : ℕ → Bool) : (d : ℕ) → ℕ → BitVec (d+1)
  | 0,k => BitVec.ofBool (bit k)
  | d+1,k =>
    (count_nodes bit d (2*k)).setWidth (d+2)+(count_nodes bit d (2*k+1)).setWidth (d+2)

/-- Two counts that fit their groups add without carry out. -/
theorem toNat_count_succ {bit : ℕ → Bool} {d k : ℕ}
    (_ : (count_nodes bit d (2*k)).toNat≤2^d) (_ : (count_nodes bit d (2*k+1)).toNat≤2^d) :
    (count_nodes bit (d+1) k).toNat=
      (count_nodes bit d (2*k)).toNat+(count_nodes bit d (2*k+1)).toNat := by
  have hwide : 2^(d+2)=4*2^d := by rw [pow_succ',pow_succ']; omega
  have hpos := Nat.two_pow_pos d
  rw [count_nodes,BitVec.toNat_add,BitVec.toNat_setWidth,BitVec.toNat_setWidth,
    Nat.mod_eq_of_lt (show (count_nodes bit d (2*k)).toNat<2^(d+2) by omega),
    Nat.mod_eq_of_lt (show (count_nodes bit d (2*k+1)).toNat<2^(d+2) by omega),
    Nat.mod_eq_of_lt (by omega)]

/-- A count is at most the number of bits below its node. -/
theorem count_le (bit : ℕ → Bool) (d k : ℕ) : (count_nodes bit d k).toNat≤2^d := by
  induction d generalizing k with
  | zero =>
    have hlt := (count_nodes bit 0 k).isLt
    rw [pow_zero]
    omega
  | succ d ih =>
    have hl := ih (2*k)
    have hr := ih (2*k+1)
    rw [toNat_count_succ hl hr,pow_succ']
    omega

/-- A count is zero exactly over zeros. -/
theorem count_eq_zero_iff (bit : ℕ → Bool) (d k : ℕ) :
    count_nodes bit d k=0 ↔ ∀ i, k*2^d ≤ i → i<(k+1)*2^d → bit i=false := by
  induction d generalizing k with
  | zero =>
    simp only [count_nodes,pow_zero,Nat.mul_one]
    constructor
    · intro h i hlo hhi
      have hi : i=k := by omega
      rw [hi]
      cases hb : bit k with
      | false => rfl
      | true => simp [hb] at h
    · intro h
      rw [h k (Nat.le_refl k) (Nat.lt_succ_self k)]
      rfl
  | succ d ih =>
    have hpow : 2^(d+1)=2*2^d := pow_succ' 2 d
    have hsum : count_nodes bit (d+1) k=0 ↔
        count_nodes bit d (2*k)=0 ∧ count_nodes bit d (2*k+1)=0 := by
      have hnat := toNat_count_succ (count_le bit d (2*k)) (count_le bit d (2*k+1))
      simp only [←BitVec.toNat_inj,hnat,BitVec.ofNat_eq_ofNat,BitVec.toNat_ofNat,Nat.zero_mod]
      omega
    rw [hsum,ih,ih,hpow]
    constructor
    · rintro ⟨hleft,hright⟩ i hlo hhi
      rcases lt_or_ge i ((2*k+1)*2^d) with hi | hi
      · exact hleft i (by linarith) hi
      · exact hright i hi (by linarith)
    · intro h
      exact ⟨fun i hlo hhi => h i (by linarith) (by linarith),
        fun i hlo hhi => h i (by linarith) (by linarith)⟩

/-- A count is that of the ones below its node. -/
theorem toNat_count (bit : ℕ → Bool) (d k : ℕ) :
    (count_nodes bit d k).toNat=(List.range (2^d)).countP fun j => bit (k*2^d+j) := by
  induction d generalizing k with
  | zero =>
    rw [count_nodes,BitVec.toNat_ofBool,pow_zero,List.range_one,List.countP_singleton,Nat.mul_one,
      Nat.add_zero]
    cases bit k <;> rfl
  | succ d ih =>
    have hleft : ∀ j, k*(2^d+2^d)+j=2*k*2^d+j := fun j => by ring
    have hright : ∀ j, 2*k*2^d+(2^d+j)=(2*k+1)*2^d+j := fun j => by ring
    rw [toNat_count_succ (count_le bit d (2*k)) (count_le bit d (2*k+1)),ih,ih,pow_succ,Nat.mul_two,
      List.range_add,List.countP_append,List.countP_map]
    simp only [Function.comp_def,hleft,hright]

end Pulpissimo.BitTree

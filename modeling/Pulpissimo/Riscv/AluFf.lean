import Mathlib.Data.Nat.Log
import Pulpissimo.Lib.BitTree

/-!
# Search for the first one

`alu_ff` searches a vector of any length by a tree of selectors. Where the length is no power of
two the last leaves lie outside the vector, and the leaf at its end may hold one bit only.
-/

namespace Pulpissimo.Riscv.AluFf

open Pulpissimo

variable (LEN : ℕ)

def NUM_LEVELS : ℕ := Nat.clog 2 LEN

variable {LEN} (in_i : BitVec LEN)

/-- Nodes `d` levels above the leaves, which cover the bits `2k` and `2k+1`. -/
def sel_nodes : ℕ → ℕ → Bool
  | 0,k =>
    if k*2 < LEN-1 then in_i.getLsbD (k*2) || in_i.getLsbD (k*2+1)
    else if k*2=LEN-1 then in_i.getLsbD (k*2)
    else false
  | d+1,k => sel_nodes d (k*2) || sel_nodes d (k*2+1)

/-- Index of the first one below a node. -/
def index_nodes : ℕ → ℕ → BitVec (NUM_LEVELS LEN)
  | 0,k =>
    if k*2 < LEN-1 then
      if in_i.getLsbD (k*2) then BitVec.ofNat _ (k*2) else BitVec.ofNat _ (k*2+1)
    else if k*2=LEN-1 then BitVec.ofNat _ (k*2)
    else 0
  | d+1,k => if sel_nodes in_i d (k*2) then index_nodes d (k*2) else index_nodes d (k*2+1)

def first_one_o : BitVec (NUM_LEVELS LEN) := index_nodes in_i (NUM_LEVELS LEN-1) 0

def no_ones_o : Bool := !sel_nodes in_i (NUM_LEVELS LEN-1) 0

/-- Leaves beyond the vector hold nothing. -/
theorem sel_nodes_eq (hLEN : 0 < LEN) (d k : ℕ) :
    sel_nodes in_i d k=BitTree.sel_nodes in_i.getLsbD d k := by
  induction d generalizing k with
  | zero =>
    rw [sel_nodes,BitTree.sel_nodes,Nat.mul_comm k 2]
    split_ifs with hin hend
    · rfl
    · rw [in_i.getLsbD_of_ge (2*k+1) (by omega),Bool.or_false]
    · rw [in_i.getLsbD_of_ge (2*k) (by omega),in_i.getLsbD_of_ge (2*k+1) (by omega),Bool.or_false]
  | succ d ih => rw [sel_nodes,BitTree.sel_nodes,ih,ih,Nat.mul_comm k 2]

/-- Below a node with a one the index is that of the tree over the bits. -/
theorem index_nodes_eq (hLEN : 0 < LEN) {d k : ℕ} (hsel : sel_nodes in_i d k=true) :
    index_nodes in_i d k=BitVec.ofNat _ (BitTree.index_nodes in_i.getLsbD d k) := by
  induction d generalizing k with
  | zero =>
    rw [sel_nodes,Nat.mul_comm k 2] at hsel
    rw [index_nodes,BitTree.index_nodes,Nat.mul_comm k 2]
    split_ifs at hsel with hin hend
    · rw [if_pos hin]
      split_ifs <;> rfl
    · rw [if_neg hin,if_pos hend,if_pos hsel]
  | succ d ih =>
    rw [sel_nodes,Bool.or_eq_true] at hsel
    rw [index_nodes,BitTree.index_nodes,←sel_nodes_eq in_i hLEN,Nat.mul_comm 2 k]
    split_ifs with hleft
    · exact ih hleft
    · exact ih (hsel.resolve_left hleft)

/-- The same below every node that lies within the vector. -/
theorem index_nodes_within {d k : ℕ} (hk : (k+1)*2^(d+1) ≤ LEN) :
    index_nodes in_i d k=BitVec.ofNat _ (BitTree.index_nodes in_i.getLsbD d k) := by
  induction d generalizing k with
  | zero =>
    rw [index_nodes,BitTree.index_nodes,Nat.mul_comm k 2,if_pos (by omega)]
    split_ifs <;> rfl
  | succ d ih =>
    have hpos := Nat.two_pow_pos (d+1)
    rw [pow_succ] at hk
    rw [index_nodes,BitTree.index_nodes,←sel_nodes_eq in_i (by nlinarith),Nat.mul_comm 2 k]
    split_ifs with hleft
    · exact ih (by nlinarith)
    · exact ih (by nlinarith)

/-- The whole vector lies below the root. -/
theorem le_leaves (hLEN : 2 ≤ LEN) : LEN ≤ 2^(NUM_LEVELS LEN-1+1) := by
  have hpos : 0 < NUM_LEVELS LEN := Nat.clog_pos (by omega) hLEN
  rw [Nat.sub_add_cancel hpos]
  exact Nat.le_pow_clog (by omega) LEN

/-- The lowest one is found, and none only in the zero vector. -/
theorem finds_first (hLEN : 2 ≤ LEN) :
    (no_ones_o in_i=true ∧ in_i=0) ∨
      (no_ones_o in_i=false ∧ in_i.getLsbD (first_one_o in_i).toNat=true ∧
        ∀ j < (first_one_o in_i).toNat, in_i.getLsbD j=false) := by
  have hroot := le_leaves hLEN
  unfold no_ones_o first_one_o
  cases hsel : sel_nodes in_i (NUM_LEVELS LEN-1) 0 with
  | false =>
    rw [sel_nodes_eq in_i (by omega)] at hsel
    have hzero := BitTree.eq_false_of_not_sel hsel
    refine Or.inl ⟨rfl,BitVec.eq_of_getLsbD_eq (fun k hk => ?_)⟩
    rw [hzero k (by omega) (by omega)]
    exact (BitVec.getLsbD_zero).symm
  | true =>
    rw [index_nodes_eq in_i (by omega) hsel]
    rw [sel_nodes_eq in_i (by omega)] at hsel
    obtain ⟨hlo,hhi,hbit,hfirst⟩ := BitTree.index_of_sel hsel
    have hlt := BitVec.lt_of_getLsbD hbit
    have hval : (BitVec.ofNat (NUM_LEVELS LEN)
        (BitTree.index_nodes in_i.getLsbD (NUM_LEVELS LEN-1) 0)).toNat=
          BitTree.index_nodes in_i.getLsbD (NUM_LEVELS LEN-1) 0 := by
      rw [BitVec.toNat_ofNat]
      exact Nat.mod_eq_of_lt (lt_of_lt_of_le hlt (Nat.le_pow_clog (by omega) LEN))
    rw [hval]
    exact Or.inr ⟨rfl,hbit,fun j hj => hfirst j (by omega) hj⟩

end Pulpissimo.Riscv.AluFf

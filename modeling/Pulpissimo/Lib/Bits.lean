import Mathlib.Data.BitVec

/-!
# Vectors given bit by bit

Hardware descriptions build vectors from one expression per bit. `ofBits`
does so for a function of the bit index, with its bits as the only lemma
that later proofs need.
-/

namespace Pulpissimo.Bits

/-- The vector whose bit `i` is `f i`. -/
def ofBits : {n : ℕ} → (Fin n → Bool) → BitVec n
  | 0,_ => 0#0
  | n+1,f => BitVec.cons (f (Fin.last n)) (ofBits (fun i => f i.castSucc))

/-- Each bit of the vector is its own expression. -/
theorem getLsbD_ofBits_lt {n : ℕ} (f : Fin n → Bool) {i : ℕ} (hi : i<n) :
    (ofBits f).getLsbD i=f ⟨i,hi⟩ := by
  induction n with
  | zero => omega
  | succ n ih =>
    rw [ofBits,BitVec.getLsbD_cons]
    split_ifs with hlast
    · subst hlast
      rfl
    · exact ih (fun i => f i.castSucc) (by omega)

/-- The same for an index in its type. -/
@[simp] theorem getLsbD_ofBits {n : ℕ} (f : Fin n → Bool) (i : Fin n) : (ofBits f).getLsbD i=f i :=
  getLsbD_ofBits_lt f i.isLt

/-- A vector with one bit overwritten. -/
def setBit {n : ℕ} (v : BitVec n) (k : ℕ) (b : Bool) : BitVec n :=
  ofBits fun i => if i.val=k then b else v.getLsbD i

/-- The overwritten bit is the new one and all others stay. -/
theorem getLsbD_setBit {n : ℕ} (v : BitVec n) (k : ℕ) (b : Bool) {i : ℕ} (hi : i<n) :
    (setBit v k b).getLsbD i=if i=k then b else v.getLsbD i :=
  getLsbD_ofBits_lt _ hi

/-- Joined words are equal exactly if both parts are. -/
theorem append_inj {m n : ℕ} {x x' : BitVec m} {y y' : BitVec n} :
    x++y=x'++y' ↔ x=x' ∧ y=y' := by
  refine ⟨fun h => ?_,fun ⟨hx,hy⟩ => by rw [hx,hy]⟩
  have hy : y=y' := by
    have hlow := congrArg (BitVec.extractLsb' 0 n) h
    rwa [BitVec.extractLsb'_append_eq_right,BitVec.extractLsb'_append_eq_right] at hlow
  rw [hy,BitVec.append_left_inj] at h
  exact ⟨h,hy⟩

/-- Value of joined words. -/
theorem toNat_join {m n : ℕ} (x : BitVec m) (y : BitVec n) :
    (x++y).toNat=x.toNat*2^n+y.toNat := by
  rw [BitVec.toNat_append,Nat.shiftLeft_eq,Nat.mul_comm,Nat.two_pow_add_eq_or_of_lt y.isLt]

/-- The upper word counts exactly when the lower one wraps. -/
theorem append_add_one (x y : BitVec 32) :
    x++y+1#64=(if y=BitVec.allOnes 32 then x+1#32 else x)++(y+1#32) := by
  have hx := x.isLt
  have hy := y.isLt
  have hones : y=BitVec.allOnes 32 ↔ y.toNat=2^32-1 := by
    rw [←BitVec.toNat_inj,BitVec.toNat_allOnes]
  apply BitVec.eq_of_toNat_eq
  rw [BitVec.toNat_add,toNat_join,toNat_join,BitVec.toNat_add,BitVec.toNat_ofNat,
    BitVec.toNat_ofNat]
  split_ifs with hwrap
  · rw [BitVec.toNat_add,hones.mp hwrap,BitVec.toNat_ofNat]
    omega
  · rw [hones] at hwrap
    omega

end Pulpissimo.Bits

import Mathlib.Data.BitVec

/-!
# Agreement outside a taint mask

Two values that may differ only where a mask has a one. Masked values are
then equal, and any bit where they differ is marked.
-/

namespace Pulpissimo.Taint

variable {w : ℕ}

/-- Two vectors agree on every bit that the mask leaves clear. -/
def Agree (mask x y : BitVec w) : Prop :=
  ∀ k, mask.getLsbD k=false → x.getLsbD k=y.getLsbD k

/-- Two flags agree unless the mask is set. -/
def AgreeFlag (mask x y : Bool) : Prop := mask=false → x=y

/-- Without a mask bit two agreeing vectors are equal. -/
theorem Agree.eq_of_zero {mask x y : BitVec w} (h : Agree mask x y) (hm : mask=0) : x=y := by
  apply BitVec.eq_of_getLsbD_eq
  intro k _
  exact h k (by simp [hm])

/-- Vectors agree exactly when they are equal with the mask bits set. -/
theorem agree_iff_or {mask x y : BitVec w} : Agree mask x y ↔ x ||| mask=y ||| mask := by
  constructor
  · intro h
    apply BitVec.eq_of_getLsbD_eq
    intro k _
    rw [BitVec.getLsbD_or,BitVec.getLsbD_or]
    cases hk : mask.getLsbD k with
    | true => simp
    | false => rw [h k hk]
  · intro h k hk
    have hbit := congrArg (fun v => BitVec.getLsbD v k) h
    simpa only [BitVec.getLsbD_or,hk,Bool.or_false] using hbit

instance (mask x y : BitVec w) : Decidable (Agree mask x y) := decidable_of_iff _ agree_iff_or.symm

instance (mask x y : Bool) : Decidable (AgreeFlag mask x y) :=
  inferInstanceAs (Decidable (mask=false → x=y))

/-- With the mask set two agreeing flags are equal. -/
theorem AgreeFlag.or_eq {mask x y : Bool} (h : AgreeFlag mask x y) : (x || mask)=(y || mask) := by
  cases mask with
  | true => simp
  | false => rw [h rfl]

/-- A bit where two agreeing vectors differ is marked. -/
theorem Agree.marked {mask x y : BitVec w} (h : Agree mask x y) {k : ℕ}
    (hne : x.getLsbD k≠y.getLsbD k) : mask.getLsbD k=true := by
  cases hk : mask.getLsbD k with
  | true => rfl
  | false => exact absurd (h k hk) hne

end Pulpissimo.Taint

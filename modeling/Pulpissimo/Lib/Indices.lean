import Mathlib.Data.BitVec

/-!
# Small index types

A literal of `Fin n` needs that `n` is not zero. For the small numbers of ports,
lanes and slots this is known by name.
-/

namespace Pulpissimo.Indices

instance neZero_one : NeZero 1 := ⟨by decide⟩

instance neZero_two : NeZero 2 := ⟨by decide⟩

instance neZero_three : NeZero 3 := ⟨by decide⟩

instance neZero_four : NeZero 4 := ⟨by decide⟩

theorem two_le_two : 2 ≤ 2 := Nat.le_refl 2

theorem one_lt_two : 1 < 2 := Nat.one_lt_two

end Pulpissimo.Indices

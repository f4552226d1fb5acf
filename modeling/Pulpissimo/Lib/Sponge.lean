import Mathlib.Data.List.Basic
import Mathlib.Algebra.Order.Group.Nat

/-!
# The sponge

A message is padded with a one, as few zeros as it takes to fill the last block but for one bit,
and a one. Its blocks are mixed into a state one after the other, with the state permuted after
each of them.
-/

namespace Pulpissimo.Sponge

section Blocks

variable {β : Type*} {r : ℕ}

/-- The whole blocks of a list. -/
def blocks (r : ℕ) (l : List β) : List (List β) :=
  (List.range (l.length/r)).map fun k => (l.drop (r*k)).take r

theorem blocks_append {b l : List β} (hr : 0 < r) (hb : b.length=r) :
    blocks r (b++l)=b::blocks r l := by
  have hcount : (b++l).length/r=l.length/r+1 := by
    rw [List.length_append,hb,Nat.add_comm,Nat.add_div_right _ hr]
  have hfirst : (b++l).take r=b := by rw [←hb,List.take_left]
  have hrest : (b++l).drop r=l := by rw [←hb,List.drop_left]
  unfold blocks
  rw [hcount,List.range_succ_eq_map,List.map_cons,List.map_map,Nat.mul_zero,List.drop_zero,hfirst]
  congr 1
  apply List.map_congr_left
  intro k _
  rw [Function.comp_apply,Nat.mul_succ,Nat.add_comm,←List.drop_drop,hrest]

/-- A list joined from blocks has those blocks. -/
theorem blocks_flatten (hr : 0 < r) {bs : List (List β)} (h : ∀ b∈bs, b.length=r) :
    blocks r bs.flatten=bs := by
  induction bs with
  | nil => simp [blocks]
  | cons b bs ih =>
    rw [List.flatten_cons,blocks_append hr (h b List.mem_cons_self),
      ih fun b hb => h b (List.mem_cons_of_mem _ hb)]

end Blocks

section Padding

variable (r : ℕ) (m : List Bool)

/-- A one, zeros, and a one. -/
def pad : List Bool := m++true::(List.replicate ((r-(m.length+2)%r)%r) false++[true])

variable {r m}

/-- What ends the message in this way within the next block is the padding. -/
theorem pad_eq {n z : ℕ} (hlength : m.length+z+2=r*(n+1)) (hshort : r*n ≤ m.length+1) :
    m++true::(List.replicate z false++[true])=pad r m := by
  have hz : (r-(m.length+2)%r)%r=z := by
    rw [Nat.mul_succ] at hlength
    rcases Nat.lt_or_ge (m.length+2-r*n) r with hlt | hge
    · have hmod : (m.length+2)%r=m.length+2-r*n := by
        rw [←Nat.mod_eq_of_lt hlt,Nat.sub_mul_mod (by omega)]
      rw [hmod,Nat.mod_eq_of_lt (by omega)]
      omega
    · have hmod : (m.length+2)%r=0 := by
        rw [show m.length+2=r*(n+1) by rw [Nat.mul_succ]; omega,Nat.mul_mod_right]
      rw [hmod,Nat.sub_zero,Nat.mod_self]
      omega
  rw [pad,hz]

end Padding

section Absorb

variable {σ β : Type*} (f : σ → σ) (mix : σ → β → σ) (s : σ)

/-- The state after the given blocks. -/
def absorb (bs : List β) : σ := bs.foldl (fun s b => f (mix s b)) s

@[simp] theorem absorb_nil : absorb f mix s []=s := rfl

theorem absorb_concat (bs : List β) (b : β) :
    absorb f mix s (bs++[b])=f (mix (absorb f mix s bs) b) :=
  List.foldl_concat _ _ _ _

end Absorb

end Pulpissimo.Sponge

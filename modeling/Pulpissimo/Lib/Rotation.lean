import Mathlib.Data.List.FinRange
import Mathlib.Data.List.Sort
import Mathlib.Logic.ExistsUnique
import Pulpissimo.Lib.LastWrite

/-!
# Rotated indices and scattered writes

An index that counts from `r` modulo `m` is used to reach `n ≤ m` places. It
reaches each of them exactly once only if it counts from zero or there are `m`
places. A loop that clears place `i` and then writes to the place with index
`i` loses what it wrote to a place that a later iteration clears.
-/

namespace Pulpissimo.Rotation

/-- The place with index `j` when counting from `r`. -/
def turn (m r j : ℕ) : ℕ := (r+j)%m

section Turn

variable {m n r j k : ℕ}

theorem turn_eq (hr : r < m) (hj : j < m) : turn m r j=if r+j < m then r+j else r+j-m := by
  unfold turn
  split_ifs with h
  · exact Nat.mod_eq_of_lt h
  · rw [Nat.mod_eq_sub_mod (Nat.le_of_not_lt h),Nat.mod_eq_of_lt (by omega)]

/-- Different indices reach different places. -/
theorem turn_injective (hr : r < m) (hj : j < m) (hk : k < m) (h : turn m r j=turn m r k) : j=k := by
  rw [turn_eq hr hj,turn_eq hr hk] at h
  split_ifs at h <;> omega

/-- Every place is reached exactly when nothing is turned or no index is left over. -/
theorem turn_covers_iff (hpos : 0<n) (hn : n ≤ m) (hr : r < m) :
    (∀ k<n, ∃ j<n, turn m r j=k) ↔ r=0 ∨ n=m := by
  constructor
  · intro h
    by_contra hno
    rw [not_or] at hno
    -- the place below the first one, or the last place if that is too high
    rcases h (min r n-1) (by omega) with ⟨j,hj,hturn⟩
    rw [turn_eq hr (by omega)] at hturn
    split_ifs at hturn <;> omega
  · intro h k hk
    by_cases hlow : r≤k
    · exact ⟨k-r,by omega,by rw [turn_eq hr (by omega),if_pos (by omega)]; omega⟩
    · exact ⟨m+k-r,by omega,by rw [turn_eq hr (by omega),if_neg (by omega)]; omega⟩

/-- A turned index reaches no higher place exactly when it wraps, or nothing is turned. -/
theorem turn_le_iff (hr : r < m) (hj : j < m) : turn m r j≤j ↔ r=0 ∨ m ≤ r+j := by
  rw [turn_eq hr hj]
  split_ifs <;> omega

end Turn

variable {n : ℕ} {β : Type*}

/-- Write to a place, if there is one with this index. -/
def put (f : Fin n → β) (k : ℕ) (v : β) : Fin n → β := fun i => if i.val=k then v else f i

/-- Iteration `i`: clear its place, and write its value to the place it is for. -/
def iterate (zero : β) (place : Fin n → ℕ) (value : Fin n → β) (f : Fin n → β) (i : Fin n) :
    Fin n → β := put (put f i.val zero) (place i) (value i)

/-- All iterations in order. -/
def scatter (zero : β) (place : Fin n → ℕ) (value : Fin n → β) : Fin n → β :=
  (List.finRange n).foldl (iterate zero place value) fun _ => zero

section Scatter

variable {zero : β} {place : Fin n → ℕ} {value : Fin n → β} {i k : Fin n}

/-- Place `k` is cleared or written in iteration `i`. -/
def Hits (place : Fin n → ℕ) (k i : Fin n) : Prop := i=k ∨ place i=k.val

theorem iterate_miss (f : Fin n → β) (h : ¬Hits place k i) :
    iterate zero place value f i k=f k := by
  have hclear : k.val≠i.val := fun heq => h (Or.inl (Fin.ext heq.symm))
  have hwrite : k.val≠place i := fun heq => h (Or.inr heq.symm)
  unfold iterate put
  rw [if_neg hwrite,if_neg hclear]

theorem iterate_hit (f : Fin n → β) (h : Hits place k i) :
    iterate zero place value f i k=if place i=k.val then value i else zero := by
  unfold iterate put
  by_cases hwrite : place i=k.val
  · rw [if_pos hwrite.symm,if_pos hwrite]
  · rcases h with rfl | hplace
    · rw [if_neg fun heq => hwrite heq.symm,if_pos rfl,if_neg hwrite]
    · exact absurd hplace hwrite

variable (zero place value k) in
/-- Some iteration is the last to reach a place, and it decides what the place holds. -/
theorem scatter_eq : ∃ pre w post,List.finRange n=pre++w::post ∧ Hits place k w ∧
    (∀ y ∈ post,¬Hits place k y) ∧
      scatter zero place value k=if place w=k.val then value w else zero := by
  have hhit : ∃ i ∈ List.finRange n,Hits place k i := ⟨k,List.mem_finRange k,Or.inl rfl⟩
  rcases LastWrite.exists_last hhit with ⟨pre,w,post,hws,hw,hpost⟩
  refine ⟨pre,w,post,hws,hw,hpost,?_⟩
  unfold scatter
  rw [hws]
  have hmiss : ∀ (f : Fin n → β) j,¬Hits place k j → iterate zero place value f j k=f k :=
    fun f _ h => iterate_miss f h
  have hhit : ∀ (f : Fin n → β) j,Hits place k j →
      iterate zero place value f j k=if place j=k.val then value j else zero :=
    fun f _ h => iterate_hit f h
  exact LastWrite.look_of_last (fun f : Fin n → β => f k) hmiss hhit hw hpost

/-- The same for an iteration with no later one that reaches the place. -/
theorem scatter_last (hi : Hits place k i) (hlast : ∀ j, i<j → ¬Hits place k j) :
    scatter zero place value k=if place i=k.val then value i else zero := by
  have hsorted := (List.sortedLT_finRange n).pairwise
  rcases scatter_eq zero place value k with
    ⟨pre,w,post,hws,hw,hpost,heq⟩
  rw [heq]
  rcases lt_trichotomy w i with hlt | rfl | hgt
  · -- what comes after the last one that reaches the place does not
    have hmem : i ∈ pre++w::post := hws ▸ List.mem_finRange i
    rw [hws,List.pairwise_append] at hsorted
    rcases List.mem_append.mp hmem with hpre | hrest
    · exact absurd (hsorted.2.2 i hpre w List.mem_cons_self) (lt_asymm hlt)
    · rcases List.mem_cons.mp hrest with rfl | hrest
      · rfl
      · exact absurd hi (hpost i hrest)
  · rfl
  · exact absurd hw (hlast w hgt)

/-- A value for a place below its source arrives. -/
theorem scatter_kept (hinj : ∀ j, place j=k.val → j=i) (hi : place i=k.val) (hle : k ≤ i) :
    scatter zero place value k=value i := by
  rw [scatter_last (Or.inr hi),if_pos hi]
  rintro j hj (rfl | hplace)
  · exact absurd hle (not_le_of_gt hj)
  · exact absurd (hinj j hplace) (ne_of_gt hj)

/-- A value for a place above its source is cleared. -/
theorem scatter_lost (hlow : ∀ j, place j=k.val → j<k) : scatter zero place value k=zero := by
  have hself : place k≠k.val := fun heq => absurd (hlow k heq) (lt_irrefl k)
  rw [scatter_last (Or.inl rfl),if_neg hself]
  rintro j hj (rfl | hplace)
  · exact absurd hj (lt_irrefl _)
  · exact absurd (hlow j hplace) (lt_asymm hj)

/-- Where only zeros are written there is a zero. -/
theorem scatter_zero (h : ∀ j, place j=k.val → value j=zero) :
    scatter zero place value k=zero := by
  rcases scatter_eq zero place value k with
    ⟨-,w,-,-,-,-,heq⟩
  rw [heq]
  split_ifs with hplace
  · exact h w hplace
  · rfl

end Scatter

end Pulpissimo.Rotation

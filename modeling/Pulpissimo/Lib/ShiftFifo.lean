import Mathlib.Data.Fin.SuccPred
import Mathlib.Tactic.SplitIfs

/-!
# Queues kept in a row of slots

A queue of `n` slots takes a value into its first free slot and gives values
from slot zero, with all others moving down. Its contents are the first values
of a stream: taking in the next value lengthens that window, and giving one
moves it along the stream.
-/

namespace Pulpissimo.ShiftFifo

variable {n : ℕ} {α : Type*}

/-- Slot `j` is the first without a value. -/
def FirstFree (valid : Fin n → Bool) (j : Fin n) : Prop := valid j=false ∧ ∀ i<j, valid i=true

instance (valid : Fin n → Bool) (j : Fin n) : Decidable (FirstFree valid j) :=
  inferInstanceAs (Decidable (_ ∧ ∀ i<j, valid i=true))

/-- Put a value into the first free slot, if there is one. -/
def push (valid : Fin n → Bool) (slots : Fin n → α) (x : α) : Fin n → α :=
  fun j => if FirstFree valid j then x else slots j

/-- Move every slot down by one and fill the last. -/
def shift (fill : α) (slots : Fin n → α) : Fin n → α :=
  fun j => if h : j.val+1<n then slots ⟨j.val+1,h⟩ else fill

/-- The slots below `m`, and no others, hold the first values of a stream. -/
structure Holds (valid : Fin n → Bool) (slots : Fin n → α) (stream : ℕ → α) (m : ℕ) : Prop where
  /-- The queue is large enough. -/
  bound : m≤n
  /-- Which slots are taken. -/
  taken : ∀ j, valid j=decide (j.val < m)
  /-- What they hold. -/
  value : ∀ j : Fin n, j.val < m → slots j=stream j.val

variable {valid : Fin n → Bool} {slots : Fin n → α} {stream : ℕ → α} {m : ℕ}

/-- Cleared slots hold nothing. -/
theorem holds_clear (slots : Fin n → α) (stream : ℕ → α) :
    Holds (fun _ => false) slots stream 0 :=
  ⟨Nat.zero_le _,fun _ => rfl,fun _ h => absurd h (Nat.not_lt_zero _)⟩

/-- The first free slot follows the taken ones. -/
theorem Holds.firstFree_iff (h : Holds valid slots stream m) (j : Fin n) :
    FirstFree valid j ↔ j.val=m := by
  unfold FirstFree
  simp only [h.taken,decide_eq_false_iff_not,decide_eq_true_eq]
  constructor
  · rintro ⟨hfree,hbelow⟩
    by_contra hne
    have hlt : m<j.val := by omega
    have hm := hbelow ⟨m,by omega⟩ hlt
    exact absurd hm (Nat.lt_irrefl m)
  · intro hj
    exact ⟨by omega,fun i hi => by have : i.val<j.val := hi; omega⟩

/-- Taking in the next value of the stream. -/
theorem Holds.push (h : Holds valid slots stream m) (hm : m<n) :
    Holds (push valid valid true) (push valid slots (stream m)) stream (m+1) := by
  refine ⟨hm,fun j => ?_,fun j hj => ?_⟩
  · unfold ShiftFifo.push
    rw [h.taken j]
    by_cases hj : FirstFree valid j
    · have hval := (h.firstFree_iff j).mp hj
      rw [if_pos hj]
      simp [hval]
    · have hne : j.val≠m := fun heq => hj ((h.firstFree_iff j).mpr heq)
      rw [if_neg hj,decide_eq_decide]
      omega
  · unfold ShiftFifo.push
    by_cases hfree : FirstFree valid j
    · rw [if_pos hfree,(h.firstFree_iff j).mp hfree]
    · have hne : j.val≠m := fun heq => hfree ((h.firstFree_iff j).mpr heq)
      rw [if_neg hfree,h.value j (by omega)]

/-- Giving the first value. -/
theorem Holds.shift (h : Holds valid slots stream (m+1)) (fill : α) :
    Holds (shift false valid) (shift fill slots) (fun k => stream (k+1)) m := by
  have hbound := h.bound
  refine ⟨by omega,fun j => ?_,fun j hj => ?_⟩
  · unfold ShiftFifo.shift
    split_ifs with hlast
    · rw [h.taken,decide_eq_decide]
      exact Nat.succ_lt_succ_iff
    · have hlt := j.isLt
      symm
      rw [decide_eq_false_iff_not]
      omega
  · unfold ShiftFifo.shift
    rw [dif_pos (by omega)]
    exact h.value _ (Nat.succ_lt_succ hj)

/-- The same queue with one more slot behind. -/
def deepen (fill : α) (slots : Fin n → α) : Fin (n+1) → α :=
  fun j => if h : j.val<n then slots ⟨j.val,h⟩ else fill

theorem deepen_last (fill : α) (slots : Fin n → α) : deepen fill slots (Fin.last n)=fill :=
  dif_neg (Nat.lt_irrefl n)

theorem deepen_castSucc (fill : α) (slots : Fin n → α) (j : Fin n) :
    deepen fill slots j.castSucc=slots j := dif_pos j.isLt

theorem deepen_const (fill : α) : deepen fill (fun _ : Fin n => fill)=fun _ => fill :=
  funext fun _ => dite_eq_right_iff.mpr fun _ => rfl

/-- Another slot behind does not change which one is the first without a value. -/
theorem firstFree_deepen (valid : Fin n → Bool) (j : Fin n) :
    FirstFree (deepen false valid) j.castSucc ↔ FirstFree valid j := by
  unfold FirstFree
  rw [deepen_castSucc]
  refine and_congr_right fun _ => ⟨fun h k hk => ?_,fun h k hk => ?_⟩
  · have hbelow := h k.castSucc (Fin.castSucc_lt_castSucc_iff.mpr hk)
    rwa [deepen_castSucc] at hbelow
  · rcases Fin.eq_castSucc_or_eq_last k with ⟨k,rfl⟩ | rfl
    · rw [deepen_castSucc]
      exact h k (Fin.castSucc_lt_castSucc_iff.mp hk)
    · exact absurd hk (Nat.lt_asymm (Fin.castSucc_lt_last j))

/-- While there is room, the slot behind takes nothing. -/
theorem push_deepen {valid : Fin n → Bool} (hroom : ∃ k, valid k=false) (fill : α)
    (slots : Fin n → α) (x : α) :
    push (deepen false valid) (deepen fill slots) x=deepen fill (push valid slots x) := by
  funext j
  unfold push
  rcases Fin.eq_castSucc_or_eq_last j with ⟨j,rfl⟩ | rfl
  · rw [deepen_castSucc,deepen_castSucc,if_congr (firstFree_deepen valid j) rfl rfl]
  · rcases hroom with ⟨k,hk⟩
    have hfull : ¬FirstFree (deepen false valid) (Fin.last n) := by
      intro hfree
      have hbelow := hfree.2 k.castSucc (Fin.castSucc_lt_last k)
      rw [deepen_castSucc,hk] at hbelow
      exact absurd hbelow nofun
    rw [if_neg hfull,deepen_last,deepen_last]

/-- An empty slot behind moves down as the filling would. -/
theorem shift_deepen (fill : α) (slots : Fin n → α) :
    shift fill (deepen fill slots)=deepen fill (shift fill slots) := by
  funext j
  unfold shift deepen
  by_cases hlast : j.val+1<n
  · have hj : j.val<n := by omega
    simp [hlast,hj]
  · simp [hlast]

end Pulpissimo.ShiftFifo

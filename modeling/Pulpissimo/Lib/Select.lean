import Mathlib.Data.Fin.Basic
import Mathlib.Data.List.FinRange

/-!
# Selection loops

A multiplexer written as a loop overwrites its output at every selected
port, so the last selected port wins. When exactly one port is selected the
loop is that port's value, and with none selected it keeps its default.
-/

namespace Pulpissimo.Select

variable {n : ℕ} {α : Type*}

/-- The value left by a loop over all ports that overwrites its output at
each selected one. -/
def muxLoop (sel : Fin n → Bool) (x : Fin n → α) (init : α) : α :=
  (List.finRange n).foldl (fun acc i => if sel i=true then x i else acc) init

/-- Ports that are not selected leave the running output alone. -/
theorem foldl_unselected (sel : Fin n → Bool) (x : Fin n → α) (acc : α) (is : List (Fin n))
    (h : ∀ i ∈ is, sel i=false) :
    is.foldl (fun acc i => if sel i=true then x i else acc) acc=acc := by
  induction is generalizing acc with
  | nil => rfl
  | cons i is ih =>
    have hi : sel i=false := h i (by simp)
    simp only [List.foldl_cons,hi,Bool.false_eq_true,if_false]
    exact ih acc (fun j hj => h j (by simp [hj]))

/-- The loop returns the value of a selected port above which none is selected. -/
theorem muxLoop_last (sel : Fin n → Bool) (x : Fin n → α) (init : α) {i : Fin n}
    (hi : sel i=true) (hlast : ∀ j, i<j → sel j=false) : muxLoop sel x init=x i := by
  have hmem : i ∈ List.finRange n := List.mem_finRange i
  obtain ⟨before,later,hsplit⟩ := List.append_of_mem hmem
  have hsorted : (before++i::later).Pairwise (·<·) := by
    rw [←hsplit]
    exact List.pairwise_lt_finRange n
  have hlater : ∀ j ∈ later, sel j=false := by
    intro j hj
    have htail := (List.pairwise_append.mp hsorted).2.1
    exact hlast j ((List.pairwise_cons.mp htail).1 j hj)
  unfold muxLoop
  rw [hsplit,List.foldl_append,List.foldl_cons,if_pos hi]
  exact foldl_unselected sel x (x i) later hlater

/-- With exactly one port selected the loop returns that port's value. -/
theorem muxLoop_unique (sel : Fin n → Bool) (x : Fin n → α) (init : α) {i : Fin n}
    (hi : sel i=true) (hu : ∀ j, sel j=true → j=i) : muxLoop sel x init=x i := by
  refine muxLoop_last sel x init hi (fun j hj => ?_)
  cases hs : sel j with
  | false => rfl
  | true => exact absurd (hu j hs) (ne_of_gt hj)

/-- A port that alone is selected is what the selection is. -/
theorem filter_finRange {sel : Fin n → Bool} {i : Fin n} (h : ∀ j, sel j=true ↔ j=i) :
    (List.finRange n).filter sel=[i] := by
  have hsel : ∀ j ∈ List.finRange n, sel j=decide (j=i) := fun j _ => by
    rw [Bool.eq_iff_iff,h,decide_eq_true_iff]
  rw [List.filter_congr hsel,List.filter_eq,
    List.count_eq_one_of_mem (List.nodup_finRange n) (List.mem_finRange i)]
  rfl

end Pulpissimo.Select

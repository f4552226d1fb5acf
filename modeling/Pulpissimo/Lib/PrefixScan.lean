import Mathlib.Data.BitVec
import Mathlib.Logic.Function.Iterate

/-!
# Parallel prefix networks

A network over positions with a predecessor doubles its span from level to level. At
every position it collects whether a value generated at one of the last positions is
propagated by all positions in between. The predecessors may run in a circle, also
one that is shorter than the span.
-/

namespace Pulpissimo.PrefixScan

variable {α : Type*}

/-- Generate and propagate signals after a number of levels. Level `i` reaches back with `hop i`. -/
def level (hop : ℕ → α → α) (gen prop : α → Bool) : ℕ → (α → Bool) × (α → Bool)
  | 0 => (gen,prop)
  | i+1 =>
    let g := (level hop gen prop i).1
    let p := (level hop gen prop i).2
    (fun j => g j || (p j && g (hop i j)),fun j => p j && p (hop i j))

section Spans

variable {hop : ℕ → α → α} {pred : α → α} {gen prop : α → Bool}

/-- Positions of a doubled span are those of its two halves. -/
theorem forall_double {P : ℕ → Prop} {w : ℕ} :
    (∀ m, m<2*w → P m) ↔ (∀ m, m<w → P m) ∧ ∀ m, m<w → P (m+w) := by
  constructor
  · exact fun h => ⟨fun m hm => h m (by omega),fun m hm => h (m+w) (by omega)⟩
  · rintro ⟨hlow,hhigh⟩ m hm
    by_cases hw : m<w
    · exact hlow m hw
    · have hhalf := hhigh (m-w) (by omega)
      rwa [Nat.sub_add_cancel (Nat.le_of_not_lt hw)] at hhalf

/-- A position propagates over a span when all positions of the span do. -/
theorem propagate_iff {L : ℕ} (hhop : ∀ i, i<L → hop i=pred^[2^i]) (j : α) :
    (level hop gen prop L).2 j=true ↔ ∀ m, m<2^L → prop (pred^[m] j)=true := by
  induction L generalizing j with
  | zero =>
    constructor
    · intro h m hm
      obtain rfl : m=0 := by omega
      exact h
    · exact fun h => h 0 (by omega)
  | succ L ih =>
    have hlow := ih (fun i hi => hhop i (by omega))
    have hstep : (level hop gen prop (L+1)).2 j=true ↔
        (level hop gen prop L).2 j=true ∧ (level hop gen prop L).2 (pred^[2^L] j)=true := by
      rw [←hhop L (Nat.lt_succ_self L)]
      exact Bool.and_eq_true_iff
    rw [hstep,hlow,hlow,Nat.pow_succ',forall_double]
    simp only [Function.iterate_add_apply]

/-- A position generates when one of the last positions does and all later ones propagate. -/
theorem generate_iff {L : ℕ} (hhop : ∀ i, i<L → hop i=pred^[2^i]) (j : α) :
    (level hop gen prop L).1 j=true ↔
      ∃ k, k<2^L ∧ gen (pred^[k] j)=true ∧ ∀ m, m<k → prop (pred^[m] j)=true := by
  induction L generalizing j with
  | zero =>
    constructor
    · exact fun h => ⟨0,by omega,h,nofun⟩
    · rintro ⟨k,hk,hgen,-⟩
      obtain rfl : k=0 := by omega
      exact hgen
  | succ L ih =>
    have hlow := ih (fun i hi => hhop i (by omega))
    have hprop : ∀ j, (level hop gen prop L).2 j=true ↔ ∀ m, m<2^L → prop (pred^[m] j)=true :=
      propagate_iff fun i hi => hhop i (by omega)
    have hstep : (level hop gen prop (L+1)).1 j=true ↔
        (level hop gen prop L).1 j=true ∨
          (level hop gen prop L).2 j=true ∧ (level hop gen prop L).1 (pred^[2^L] j)=true := by
      rw [←hhop L (Nat.lt_succ_self L),←Bool.and_eq_true_iff]
      exact Bool.or_eq_true_iff
    rw [hstep,hlow,hlow,hprop,Nat.pow_succ']
    constructor
    · rintro (⟨k,hk,hgen,hbetween⟩ | ⟨hspan,k,hk,hgen,hbetween⟩)
      · exact ⟨k,by omega,hgen,hbetween⟩
      · refine ⟨k+2^L,by omega,?_,fun m hm => ?_⟩
        · rw [Function.iterate_add_apply]
          exact hgen
        · by_cases hw : m<2^L
          · exact hspan m hw
          · have hhigh := hbetween (m-2^L) (by omega)
            rwa [←Function.iterate_add_apply,Nat.sub_add_cancel (Nat.le_of_not_lt hw)] at hhigh
    · rintro ⟨k,hk,hgen,hbetween⟩
      by_cases hw : k<2^L
      · exact Or.inl ⟨k,hw,hgen,hbetween⟩
      · have hback : k-2^L+2^L=k := Nat.sub_add_cancel (Nat.le_of_not_lt hw)
        refine Or.inr ⟨fun m hm => hbetween m (by omega),k-2^L,by omega,?_,fun m hm => ?_⟩
        · rw [←Function.iterate_add_apply,hback]
          exact hgen
        · rw [←Function.iterate_add_apply]
          exact hbetween _ (by omega)

end Spans

end Pulpissimo.PrefixScan

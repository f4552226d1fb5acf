import Mathlib.Data.List.Basic
import Mathlib.Data.Nat.Find
import Mathlib.Logic.Basic

/-!
# Synchronous machines

A clocked block is a next-state function of its registers and one cycle of
inputs. Runs fold that function over a list of input cycles; endless runs take
a sequence. Invariants are
proved once per cycle and lifted here, either for every run or for the runs
whose cycles all meet a condition on the state before the cycle. Two-run
statements use the same rules on pairs of states.
-/

namespace Pulpissimo.Machine

variable {σ ι τ κ : Type*}

/-- Registers after a finite sequence of input cycles. -/
def after (step : σ → ι → σ) (s : σ) (is : List ι) : σ := is.foldl step s

@[simp] theorem after_nil (step : σ → ι → σ) (s : σ) : after step s []=s := rfl

@[simp] theorem after_cons (step : σ → ι → σ) (s : σ) (i : ι) (is : List ι) :
    after step s (i::is)=after step (step s i) is := rfl

/-- Runs compose at every intermediate cycle. -/
theorem after_append (step : σ → ι → σ) (s : σ) (is js : List ι) :
    after step s (is++js)=after step (after step s is) js :=
  List.foldl_append

/-- The last cycle of a run is one step from the state it starts in. -/
theorem after_concat (step : σ → ι → σ) (s : σ) (is : List ι) (i : ι) :
    after step s (is++[i])=step (after step s is) i := by
  rw [after_append,after_cons,after_nil]

/-- Every cycle of a run meets a condition on the registers before that
cycle and on the cycle's inputs. -/
def Meets (step : σ → ι → σ) (C : σ → ι → Prop) : σ → List ι → Prop
  | _,[] => True
  | s,i::is => C s i ∧ Meets step C (step s i) is

@[simp] theorem meets_nil (step : σ → ι → σ) (C : σ → ι → Prop) (s : σ) :
    Meets step C s [] := trivial

@[simp] theorem meets_cons (step : σ → ι → σ) (C : σ → ι → Prop) (s : σ) (i : ι) (is : List ι) :
    Meets step C s (i::is) ↔ C s i ∧ Meets step C (step s i) is := Iff.rfl

/-- Conditions that agree in every cycle agree on every run. -/
theorem meets_congr {step : σ → ι → σ} {C D : σ → ι → Prop} (h : ∀ s i, C s i ↔ D s i) {s : σ}
    {is : List ι} : Meets step C s is ↔ Meets step D s is := by
  induction is generalizing s with
  | nil => exact Iff.rfl
  | cons i is ih => exact and_congr (h s i) ih

/-- Conditions that agree wherever an invariant holds agree on every run from there. -/
theorem meets_congr_of_invariant {step : σ → ι → σ} {C D : σ → ι → Prop} {P : σ → Prop}
    (hstep : ∀ s i, P s → P (step s i)) (h : ∀ s i, P s → (C s i ↔ D s i)) {s : σ} (hs : P s)
    {is : List ι} : Meets step C s is ↔ Meets step D s is := by
  induction is generalizing s with
  | nil => exact Iff.rfl
  | cons i is ih => exact and_congr (h s i hs) (ih (hstep s i hs))

/-- The same where the invariant is kept by the cycles that meet the conditions. -/
theorem meets_congr_of_meets {step : σ → ι → σ} {C D : σ → ι → Prop} {P : σ → Prop}
    (hstep : ∀ s i, P s → D s i → P (step s i)) (h : ∀ s i, P s → (C s i ↔ D s i)) {s : σ}
    (hs : P s) {is : List ι} : Meets step C s is ↔ Meets step D s is := by
  induction is generalizing s with
  | nil => exact Iff.rfl
  | cons i is ih =>
    rw [meets_cons,meets_cons,h s i hs]
    exact and_congr_right fun hD => ih (hstep s i hs hD)

/-- Conditions that are met each for itself are met together. -/
theorem meets_forall {α : Type*} {step : σ → ι → σ} {C : α → σ → ι → Prop} {s : σ} {is : List ι} :
    (∀ a, Meets step (C a) s is) ↔ Meets step (fun s i => ∀ a, C a s i) s is := by
  induction is generalizing s with
  | nil => exact ⟨fun _ => trivial,fun _ _ => trivial⟩
  | cons i is ih =>
    rw [meets_cons,←ih]
    exact forall_and

/-- The same for two conditions. -/
theorem meets_and {step : σ → ι → σ} {C D : σ → ι → Prop} {s : σ} {is : List ι} :
    Meets step (fun s i => C s i ∧ D s i) s is ↔ Meets step C s is ∧ Meets step D s is := by
  induction is generalizing s with
  | nil => exact ⟨fun _ => ⟨trivial,trivial⟩,fun _ => trivial⟩
  | cons i is ih =>
    rw [meets_cons,meets_cons,meets_cons,ih]
    exact and_and_and_comm

/-- A condition along a joined run splits at the joint. -/
theorem meets_append (step : σ → ι → σ) (C : σ → ι → Prop) (s : σ) (is js : List ι) :
    Meets step C s (is++js) ↔ Meets step C s is ∧ Meets step C (after step s is) js := by
  induction is generalizing s with
  | nil => simp
  | cons i is ih => simp [ih,and_assoc]

instance decidableMeets (step : σ → ι → σ) (C : σ → ι → Prop) [∀ s i, Decidable (C s i)] :
    ∀ s is, Decidable (Meets step C s is)
  | _,[] => isTrue trivial
  | s,i::is =>
    haveI := decidableMeets step C (step s i) is
    inferInstanceAs (Decidable (C s i ∧ Meets step C (step s i) is))

/-- An invariant kept by every cycle that meets the condition holds at the
end of every run whose cycles all meet it. -/
theorem after_invariant_of_meets {step : σ → ι → σ} {C : σ → ι → Prop} {P : σ → Prop}
    (hstep : ∀ s i, P s → C s i → P (step s i)) {s : σ} {is : List ι}
    (hs : P s) (hc : Meets step C s is) : P (after step s is) := by
  induction is generalizing s with
  | nil => exact hs
  | cons i is ih => exact ih (hstep s i hs hc.1) hc.2

/-- An invariant kept by every cycle holds at the end of every run. -/
theorem after_invariant {step : σ → ι → σ} {P : σ → Prop}
    (hstep : ∀ s i, P s → P (step s i)) {s : σ} (hs : P s) (is : List ι) :
    P (after step s is) := by
  induction is generalizing s with
  | nil => exact hs
  | cons i is ih => exact ih (hstep s i hs)

/-- Every cycle of a run meets what an invariant implies. -/
theorem meets_of_invariant {step : σ → ι → σ} {C : σ → ι → Prop} {P : σ → Prop}
    (hstep : ∀ s i, P s → P (step s i)) (himp : ∀ s i, P s → C s i) {s : σ} (hs : P s)
    (is : List ι) : Meets step C s is := by
  induction is generalizing s with
  | nil => exact trivial
  | cons i is ih => exact ⟨himp s i hs,ih (hstep s i hs)⟩

/-- Where the cycles of a run meet a condition under which an invariant is kept, they meet
what the two imply. -/
theorem meets_of_meets {step : σ → ι → σ} {C D : σ → ι → Prop} {P : σ → Prop}
    (hstep : ∀ s i, P s → C s i → P (step s i)) (himp : ∀ s i, P s → C s i → D s i) {s : σ}
    {is : List ι} (hs : P s) (hc : Meets step C s is) : Meets step D s is := by
  induction is generalizing s with
  | nil => exact trivial
  | cons i is ih => exact ⟨himp s i hs hc.1,ih (hstep s i hs hc.1) hc.2⟩

/-- Where a condition keeps an invariant that implies a property, and a cycle that fails it leads
to a state without the property, the property holds at every point of a run exactly when all its
cycles meet the condition. -/
theorem holds_iff_meets_of_invariant {step : σ → ι → σ} {C : σ → ι → Prop} {P Q : σ → Prop}
    (hstep : ∀ s i, P s → C s i → P (step s i)) (himp : ∀ s, P s → Q s)
    (hbreak : ∀ s i, P s → Q (step s i) → C s i) {s : σ} (hs : P s) (is : List ι) :
    (∀ before later, before++later=is → Q (after step s before)) ↔ Meets step C s is := by
  induction is generalizing s with
  | nil =>
    refine ⟨fun _ => trivial,fun _ before later heq => ?_⟩
    rw [(List.append_eq_nil_iff.mp heq).1]
    exact himp s hs
  | cons i is ih =>
    constructor
    · intro h
      have hC : C s i := hbreak s i hs (h [i] is rfl)
      refine ⟨hC,(ih (hstep s i hs hC)).mp fun before later heq => ?_⟩
      exact h (i::before) later (congrArg (List.cons i) heq)
    · rintro ⟨hC,hrest⟩ before later heq
      cases before with
      | nil => exact himp s hs
      | cons j before =>
        rw [List.cons_append,List.cons.injEq] at heq
        rw [heq.1]
        exact (ih (hstep s i hs hC)).mpr hrest before later heq.2

/-- Where a cycle keeps a property exactly under a condition, the property holds
at every point of a run exactly when all its cycles meet the condition. -/
theorem holds_iff_meets {step : σ → ι → σ} {C : σ → ι → Prop} {P : σ → Prop}
    (hstep : ∀ s i, P s → (P (step s i) ↔ C s i)) {s : σ} (hs : P s) (is : List ι) :
    (∀ before later, before++later=is → P (after step s before)) ↔ Meets step C s is :=
  holds_iff_meets_of_invariant (fun s i h hC => (hstep s i h).mpr hC) (fun _ h => h)
    (fun s i h => (hstep s i h).mp) hs is

/-- Where a condition keeps an invariant that implies a property, and every cycle that fails it
shows in the inputs that follow, the condition is exact: all stretches of a run keep the property
through those inputs exactly if the run meets the condition. -/
theorem meets_iff_prefixes {step : σ → ι → σ} {C D : σ → ι → Prop} {P : σ → Prop} {ext : List ι}
    (hstep : ∀ s i, P s → D s i → P (step s i)) (himp : ∀ s i, P s → D s i → C s i)
    (hext : ∀ s, Meets step D s ext) (hbreak : ∀ s i, P s → ¬D s i → ¬Meets step C s (i::ext))
    {s : σ} (hs : P s) {is : List ι} :
    (∀ before later, before++later=is → Meets step C s (before++ext)) ↔ Meets step D s is := by
  constructor
  · intro h
    induction is generalizing s with
    | nil => exact trivial
    | cons i is ih =>
      have hD : D s i := by
        by_contra hnot
        exact hbreak s i hs hnot (h [i] is rfl)
      refine ⟨hD,ih (hstep s i hs hD) fun before later heq => ?_⟩
      exact (h (i::before) later (congrArg (List.cons i) heq)).2
  · rintro h before later rfl
    have hbefore := ((meets_append step D s before later).mp h).1
    exact meets_of_meets hstep himp hs ((meets_append step D s before ext).mpr ⟨hbefore,hext _⟩)

/-- Registers in every cycle of an endless run. -/
def states (step : σ → ι → σ) (s : σ) (env : ℕ → ι) : ℕ → σ
  | 0 => s
  | n+1 => step (states step s env n) (env n)

/-- The first cycle of an endless run is a step to the run of the others. -/
theorem states_shift (step : σ → ι → σ) (s : σ) (env : ℕ → ι) (n : ℕ) :
    states step s env (n+1)=states step (step s (env 0)) (fun t => env (t+1)) n := by
  induction n with
  | zero => rfl
  | succ n ih => exact congrArg (fun t => step t (env (n+1))) ih

/-- An invariant kept by every cycle holds in every cycle of an endless run. -/
theorem states_invariant {step : σ → ι → σ} {P : σ → Prop}
    (hstep : ∀ s i, P s → P (step s i)) {s : σ} (hs : P s) (env : ℕ → ι) (n : ℕ) :
    P (states step s env n) := by
  induction n with
  | zero => exact hs
  | succ n ih => exact hstep _ _ ih

/-- A machine that waits in a state until some cycle's inputs let it go, and
keeps a condition while it waits, waits until the first such cycle. -/
theorem states_wait {step : σ → ι → σ} {Wait : σ → Prop} {Go : ι → Prop}
    (hwait : ∀ s i, Wait s → ¬Go i → Wait (step s i)) {s : σ} {env : ℕ → ι} {t : ℕ}
    (ht : Wait (states step s env t)) (n : ℕ) (hgo : ∀ m, m<n → ¬Go (env (t+m))) :
    Wait (states step s env (t+n)) := by
  induction n with
  | zero => exact ht
  | succ n ih => exact hwait _ _ (ih fun m hm => hgo m (by omega)) (hgo n (by omega))

/-- A machine that waits until a cycle of a kind meets the first such cycle while it waits. -/
theorem states_until {step : σ → ι → σ} {W : σ → Prop} {G : ℕ → Prop} {s : σ} {env : ℕ → ι}
    (hwait : ∀ u, W (states step s env u) → ¬G u → W (states step s env (u+1)))
    {t : ℕ} (ht : W (states step s env t)) (hgo : ∃ m, G (t+m)) :
    ∃ u, t ≤ u ∧ W (states step s env u) ∧ G u := by
  classical
  have hbefore : ∀ m, m≤Nat.find hgo → W (states step s env (t+m)) := by
    intro m
    induction m with
    | zero => exact fun _ => ht
    | succ m ih => exact fun hm => hwait _ (ih (by omega)) (Nat.find_min hgo hm)
  exact ⟨t+Nat.find hgo,Nat.le_add_right _ _,hbefore _ (Nat.le_refl _),Nat.find_spec hgo⟩

/-- Where such inputs come again and again, the machine meets them while it waits. -/
theorem states_reach {step : σ → ι → σ} {W : σ → Prop} {G : ι → Prop} {s : σ} {env : ℕ → ι}
    (hwait : ∀ u, W (states step s env u) → ¬G (env u) → W (states step s env (u+1)))
    {t : ℕ} (ht : W (states step s env t)) (hgo : ∃ m, G (env (t+m))) :
    ∃ u, t ≤ u ∧ W (states step s env u) ∧ G (env u) :=
  states_until (G:=fun u => G (env u)) hwait ht hgo

/-- A rank that goes down now and then while it is positive comes to zero. -/
theorem states_rank {step : σ → ι → σ} {s : σ} {env : ℕ → ι} (rank : σ → ℕ)
    (hdown : ∀ t, 0 < rank (states step s env t) →
      ∃ u, t ≤ u ∧ rank (states step s env u) < rank (states step s env t)) (t : ℕ) :
    ∃ u, t ≤ u ∧ rank (states step s env u)=0 := by
  induction hr : rank (states step s env t) using Nat.strongRecOn generalizing t with
  | ind r ih =>
    by_cases hzero : rank (states step s env t)=0
    · exact ⟨t,Nat.le_refl t,hzero⟩
    · rcases hdown t (Nat.pos_of_ne_zero hzero) with ⟨u,htu,hlt⟩
      rcases ih _ (hr ▸ hlt) u rfl with ⟨v,huv,hv⟩
      exact ⟨v,Nat.le_trans htu huv,hv⟩

/-- Number of cycles of a run that meet a condition. -/
def count (step : σ → ι → σ) (C : σ → ι → Bool) : σ → List ι → ℕ
  | _,[] => 0
  | s,i::is => (if C s i=true then 1 else 0)+count step C (step s i) is

theorem count_cons (step : σ → ι → σ) (C : σ → ι → Bool) (s : σ) (i : ι) (is : List ι) :
    count step C s (i::is)=(if C s i=true then 1 else 0)+count step C (step s i) is := rfl

/-- Counts add up at every intermediate cycle. -/
theorem count_append (step : σ → ι → σ) (C : σ → ι → Bool) (s : σ) (is js : List ι) :
    count step C s (is++js)=count step C s is+count step C (after step s is) js := by
  induction is generalizing s with
  | nil => exact (Nat.zero_add _).symm
  | cons i is ih => rw [List.cons_append,count_cons,count_cons,ih,after_cons,Nat.add_assoc]

/-- A level that every cycle raises by what comes in and lowers by what goes out
is, over a run, the difference of the two counts. The cycles may be restricted by a condition. -/
theorem count_ledger_of_meets {step : σ → ι → σ} {I O : σ → ι → Bool} {C : σ → ι → Prop}
    {P : σ → Prop} (μ : σ → ℕ) (hinv : ∀ s i, P s → C s i → P (step s i))
    (hone : ∀ s i, P s → C s i →
      μ (step s i)+(if O s i=true then 1 else 0)=μ s+(if I s i=true then 1 else 0))
    {s : σ} (hs : P s) {is : List ι} (hc : Meets step C s is) :
    μ (after step s is)+count step O s is=μ s+count step I s is := by
  induction is generalizing s with
  | nil => rfl
  | cons i is ih =>
    have hrest := ih (hinv s i hs hc.1) hc.2
    have hfirst := hone s i hs hc.1
    rw [after_cons,count_cons,count_cons]
    omega

/-- The same for all runs. -/
theorem count_ledger {step : σ → ι → σ} {I O : σ → ι → Bool} {P : σ → Prop} (μ : σ → ℕ)
    (hinv : ∀ s i, P s → P (step s i))
    (hone : ∀ s i, P s →
      μ (step s i)+(if O s i=true then 1 else 0)=μ s+(if I s i=true then 1 else 0))
    {s : σ} (hs : P s) (is : List ι) :
    μ (after step s is)+count step O s is=μ s+count step I s is :=
  count_ledger_of_meets (C:=fun _ _ => True) μ (fun s i h _ => hinv s i h)
    (fun s i h _ => hone s i h) hs (meets_of_invariant hinv (fun _ _ _ => trivial) hs is)

/-- A measure that every counted cycle of a kind lowers bounds the number of them. -/
theorem count_le_measure {step : σ → ι → σ} {O : σ → ι → Bool} {C : σ → ι → Prop} {P : σ → Prop}
    (μ : σ → ℕ) (hinv : ∀ s i, P s → C s i → P (step s i))
    (hone : ∀ s i, P s → C s i → μ (step s i)+(if O s i=true then 1 else 0)≤μ s)
    {s : σ} {is : List ι} (hs : P s) (hc : Meets step C s is) : count step O s is≤μ s := by
  induction is generalizing s with
  | nil => exact Nat.zero_le _
  | cons i is ih =>
    have hrest := ih (hinv s i hs hc.1) hc.2
    have hfirst := hone s i hs hc.1
    rw [count_cons]
    omega

/-- Of two conditions of which one implies the other, the counts over a run are equal
exactly when the two agree in every cycle. -/
theorem count_eq_iff {step : σ → ι → σ} {C D : σ → ι → Bool} {P : σ → Prop}
    (hinv : ∀ s i, P s → P (step s i)) (himp : ∀ s i, P s → D s i=true → C s i=true)
    {s : σ} (hs : P s) (is : List ι) :
    count step D s is ≤ count step C s is ∧ (count step C s is=count step D s is ↔
      Meets step (fun s i => C s i=true → D s i=true) s is) := by
  induction is generalizing s with
  | nil => exact ⟨Nat.le_refl _,fun _ => trivial,fun _ => rfl⟩
  | cons i is ih =>
    rcases ih (hinv s i hs) with ⟨hle,hiff⟩
    have hfirst := himp s i hs
    rw [meets_cons,←hiff,count_cons,count_cons]
    by_cases hD : D s i=true
    · rw [if_pos hD,if_pos (hfirst hD)]
      refine ⟨by omega,fun heq => ⟨fun _ => hD,by omega⟩,fun h => by omega⟩
    · rw [if_neg hD]
      by_cases hC : C s i=true
      · rw [if_pos hC]
        exact ⟨by omega,fun heq => by omega,fun h => absurd (h.1 hC) hD⟩
      · rw [if_neg hC]
        exact ⟨by omega,fun heq => ⟨fun h => absurd h hC,by omega⟩,fun h => by omega⟩

/-- Inputs that a machine gives to a part of it over a run. -/
def driven (step : σ → ι → σ) (f : σ → ι → κ) : σ → List ι → List κ
  | _,[] => []
  | s,i::is => f s i::driven step f (step s i) is

/-- What is given to a part over a joined run. -/
theorem driven_append (step : σ → ι → σ) (f : σ → ι → κ) (s : σ) (is js : List ι) :
    driven step f s (is++js)=driven step f s is++driven step f (after step s is) js := by
  induction is generalizing s with
  | nil => rfl
  | cons i is ih => exact congrArg (List.cons (f s i)) (ih (step s i))

section Driven

variable {ρ : Type*} {step : σ → ι → σ} {part : ρ → κ → ρ} {π : σ → ρ} {f : σ → ι → κ}

/-- A part that moves by its own step runs on what it is given. -/
theorem meets_driven (hpart : ∀ s i, π (step s i)=part (π s) (f s i)) (C : ρ → κ → Prop) (s : σ)
    (is : List ι) : Meets part C (π s) (driven step f s is) ↔
      Meets step (fun s i => C (π s) (f s i)) s is := by
  induction is generalizing s with
  | nil => exact Iff.rfl
  | cons i is ih =>
    have hrest := ih (step s i)
    rw [hpart] at hrest
    exact and_congr Iff.rfl hrest

theorem count_driven (hpart : ∀ s i, π (step s i)=part (π s) (f s i)) (C : ρ → κ → Bool) (s : σ)
    (is : List ι) : count part C (π s) (driven step f s is)=
      count step (fun s i => C (π s) (f s i)) s is := by
  induction is generalizing s with
  | nil => rfl
  | cons i is ih =>
    have hrest := ih (step s i)
    rw [hpart] at hrest
    rw [driven,count_cons,count_cons,hrest]

end Driven

/-- A queue that every cycle takes from in front and puts on behind holds, after a run,
what was put on and not yet taken. The cycles may be restricted by a condition. -/
theorem fifo_ledger_of_meets {step : σ → ι → σ} {I O : σ → ι → List κ} {C : σ → ι → Prop}
    {P : σ → Prop} (q : σ → List κ) (hinv : ∀ s i, P s → C s i → P (step s i))
    (hone : ∀ s i, P s → C s i → O s i++q (step s i)=q s++I s i) {s : σ} (hs : P s)
    {is : List ι} (hc : Meets step C s is) :
    (driven step O s is).flatten++q (after step s is)=q s++(driven step I s is).flatten := by
  induction is generalizing s with
  | nil =>
    rw [driven,driven,List.flatten_nil,List.append_nil]
    rfl
  | cons i is ih =>
    rw [driven,driven,List.flatten_cons,List.flatten_cons,after_cons,List.append_assoc,
      ih (hinv s i hs hc.1) hc.2,←List.append_assoc,hone s i hs hc.1,List.append_assoc]

/-- The same for all runs. -/
theorem fifo_ledger {step : σ → ι → σ} {I O : σ → ι → List κ} {P : σ → Prop} (q : σ → List κ)
    (hinv : ∀ s i, P s → P (step s i)) (hone : ∀ s i, P s → O s i++q (step s i)=q s++I s i)
    {s : σ} (hs : P s) (is : List ι) :
    (driven step O s is).flatten++q (after step s is)=q s++(driven step I s is).flatten :=
  fifo_ledger_of_meets (C:=fun _ _ => True) q (fun s i h _ => hinv s i h)
    (fun s i h _ => hone s i h) hs (meets_of_invariant hinv (fun _ _ _ => trivial) hs is)

/-- What an endless run puts out before cycle `n`. -/
def logged (O : ℕ → List κ) : ℕ → List κ
  | 0 => []
  | n+1 => logged O n++O n

theorem logged_succ (O : ℕ → List κ) (n : ℕ) : logged O (n+1)=logged O n++O n := rfl

/-- A level that starts empty and takes what comes in behind and gives what goes out in
front is what came in and did not go out yet. -/
theorem logged_ledger {I O l : ℕ → List κ} (hinit : l 0=[]) {n : ℕ}
    (hone : ∀ t, t<n → l t++I t=O t++l (t+1)) : logged I n=logged O n++l n := by
  induction n with
  | zero =>
    rw [hinit]
    rfl
  | succ n ih =>
    rw [logged_succ,logged_succ,ih fun t ht => hone t (Nat.lt_succ_of_lt ht),List.append_assoc,
      hone n (Nat.lt_succ_self n),List.append_assoc]

theorem logged_congr {I O : ℕ → List κ} {n : ℕ} (h : ∀ t, t<n → I t=O t) :
    logged I n=logged O n := by
  induction n with
  | zero => rfl
  | succ n ih =>
    rw [logged_succ,logged_succ,ih fun t ht => h t (Nat.lt_succ_of_lt ht),h n (Nat.lt_succ_self n)]

/-- Cutting, choosing and renaming what is put out can be done cycle by cycle. -/
theorem logged_hom {α : Type*} {f : List κ → List α} (hnil : f []=[])
    (happ : ∀ xs ys, f (xs++ys)=f xs++f ys) (O : ℕ → List κ) (n : ℕ) :
    f (logged O n)=logged (fun t => f (O t)) n := by
  induction n with
  | zero => exact hnil
  | succ n ih => rw [logged_succ,logged_succ,happ,ih]

/-- What is put out later comes behind. -/
theorem logged_le (O : ℕ → List κ) {m n : ℕ} (h : m ≤ n) : ∃ rest,logged O n=logged O m++rest := by
  induction h with
  | refl => exact ⟨[],(List.append_nil _).symm⟩
  | step _ ih =>
    rcases ih with ⟨rest,hrest⟩
    exact ⟨rest++O _,by rw [logged_succ,hrest,List.append_assoc]⟩

theorem mem_logged {O : ℕ → List κ} {n : ℕ} {x : κ} (h : x ∈ logged O n) :
    ∃ t, t<n ∧ x ∈ O t := by
  induction n with
  | zero => exact absurd h List.not_mem_nil
  | succ n ih =>
    rcases List.mem_append.mp h with hx | hx
    · rcases ih hx with ⟨t,ht,hxt⟩
      exact ⟨t,Nat.lt_succ_of_lt ht,hxt⟩
    · exact ⟨n,Nat.lt_succ_self n,hx⟩

/-- A measure that no cycle raises, and that every counted cycle lowers while it is positive,
is used up by enough counted cycles. The cycles may be those that meet a condition under which
an invariant is kept. -/
theorem measure_after_of_meets {step : σ → ι → σ} {C : σ → ι → Bool} {P : σ → Prop}
    {Q : σ → ι → Prop} (μ : σ → ℕ) (hinv : ∀ s i, P s → Q s i → P (step s i))
    (hle : ∀ s i, P s → Q s i → μ (step s i)≤μ s)
    (hlt : ∀ s i, P s → Q s i → C s i=true → 0<μ s → μ (step s i)<μ s)
    {s : σ} {is : List ι} (hs : P s) (hq : Meets step Q s is) :
    P (after step s is) ∧ μ (after step s is)≤μ s-count step C s is := by
  induction is generalizing s with
  | nil => exact ⟨hs,Nat.le_refl _⟩
  | cons i is ih =>
    obtain ⟨hlast,hrest⟩ := ih (hinv s i hs hq.1) hq.2
    have hdrop := hle s i hs hq.1
    rw [after_cons]
    refine ⟨hlast,?_⟩
    unfold count
    split_ifs with hc
    · have hstrict := hlt s i hs hq.1 hc
      omega
    · omega

/-- The same for a condition on the inputs alone. -/
theorem measure_after {step : σ → ι → σ} {C : σ → ι → Bool} {P : σ → Prop} {Q : ι → Prop}
    (μ : σ → ℕ) (hinv : ∀ s i, P s → Q i → P (step s i))
    (hle : ∀ s i, P s → Q i → μ (step s i)≤μ s)
    (hlt : ∀ s i, P s → Q i → C s i=true → 0<μ s → μ (step s i)<μ s)
    {s : σ} {is : List ι} (hs : P s) (hq : ∀ i ∈ is, Q i) :
    P (after step s is) ∧ μ (after step s is)≤μ s-count step C s is := by
  have hmeets : ∀ t, Meets step (fun _ i => Q i) t is := by
    induction is with
    | nil => exact fun _ => trivial
    | cons i is ih => exact fun t => ⟨hq i (by simp),ih (fun j hj => hq j (by simp [hj])) _⟩
  exact measure_after_of_meets μ hinv hle hlt hs (hmeets s)

end Pulpissimo.Machine

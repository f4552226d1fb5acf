import Mathlib.Algebra.Order.Ring.Nat
import Mathlib.Data.List.Basic
import Pulpissimo.Lib.Odometer

/-!
# Loop nests

Nested loops, the innermost first, each with a body that runs when its index
moves on and before the inner loops start again. What such a nest does is
written as nested loops and as one sequence over a running number whose places
are the indices; the two are equal.
-/

namespace Pulpissimo.LoopNest

open Pulpissimo.Odometer

variable {α : Type*} (r : ℕ → ℕ)

/-- Index vectors of the inner loops. -/
def weight : ℕ → ℕ
  | 0 => 1
  | k+1 => weight k*r k

/-- Index of a loop in the vector of a number. -/
def index (t k : ℕ) : ℕ := t/weight r k%r k

/-- What the inner loops do, from their first index vector to their last. -/
def nest (body : ℕ → List α) : ℕ → List α
  | 0 => []
  | k+1 => nest body k++(List.replicate (r k-1) (body k++nest body k)).flatten

/-- The loop whose index moves on next. -/
def carry (n t : ℕ) : ℕ :=
  ((List.range n).find? fun k => decide (index r t k+1 < r k)).getD n

/-- Two nested loops over a running number. -/
theorem flatMap_range {n : ℕ} (hn : 0 < n) (f : ℕ → ℕ → α) (m : ℕ) :
    ((List.range m).flatMap fun l => (List.range n).map (f l))=
      (List.range (m*n)).map fun k => f (k/n) (k%n) := by
  induction m with
  | zero => rw [Nat.zero_mul]; rfl
  | succ m ih =>
    rw [List.range_succ,List.flatMap_append,ih,List.flatMap_singleton,Nat.succ_mul,List.range_add,
      List.map_append,List.map_map]
    congr 1
    apply List.map_congr_left
    intro w hw
    have hlt := List.mem_range.mp hw
    have hdiv : (m*n+w)/n=m := by
      rw [Nat.mul_comm,Nat.mul_add_div hn,Nat.div_eq_of_lt hlt,Nat.add_zero]
    have hmod : (m*n+w)%n=w := by rw [Nat.mul_comm,Nat.mul_add_mod,Nat.mod_eq_of_lt hlt]
    rw [Function.comp_apply,hdiv,hmod]

variable {r} {n t k : ℕ}

theorem weight_pos (hr : ∀ j, j<n → 0 < r j) : 0<weight r n := by
  induction n with
  | zero => exact Nat.one_pos
  | succ n ih =>
    have hlow : 0<weight r n := ih fun j hj => hr j (Nat.lt_succ_of_lt hj)
    exact Nat.mul_pos hlow (hr n (Nat.lt_succ_self n))

theorem index_zero : index r 0 k=0 := by
  rw [index,Nat.zero_div,Nat.zero_mod]

theorem index_lt (hr : 0 < r k) : index r t k < r k := Nat.mod_lt _ hr

/-- The places above one that carries. -/
theorem div_succ (hlow : ∀ j, j<k → index r t j+1=r j) :
    (t+1)/weight r k=t/weight r k+1 ∧ ∀ j, j<k → index r (t+1) j=0 := by
  induction k with
  | zero =>
    refine ⟨?_,fun j hj => absurd hj (Nat.not_lt_zero j)⟩
    rw [weight,Nat.div_one,Nat.div_one]
  | succ k ih =>
    rcases ih fun j hj => hlow j (Nat.lt_succ_of_lt hj) with ⟨hdiv,hzero⟩
    have hcarry := next_carry (hlow k (Nat.lt_succ_self k))
    rw [←hdiv] at hcarry
    refine ⟨?_,fun j hj => ?_⟩
    · rw [weight,←Nat.div_div_eq_div_mul,←Nat.div_div_eq_div_mul,hcarry.2]
    · rcases Nat.lt_succ_iff_lt_or_eq.mp hj with hj | rfl
      · exact hzero j hj
      · exact hcarry.1

/-- The lowest index that is not the last one moves on, and the inner loops start again. -/
theorem advance (hlow : ∀ j, j<k → index r t j+1=r j) (hk : index r t k+1 < r k) :
    (∀ j, j<k → index r (t+1) j=0) ∧ index r (t+1) k=index r t k+1 ∧
      ∀ j, k<j → index r (t+1) j=index r t j := by
  rcases div_succ hlow with ⟨hdiv,hzero⟩
  have hinside := next_inside (Nat.ne_of_lt hk)
  rw [←hdiv] at hinside
  refine ⟨hzero,hinside.1,fun j hj => ?_⟩
  have hsame : ∀ m, (t+1)/weight r (k+1+m)=t/weight r (k+1+m) := by
    intro m
    induction m with
    | zero =>
      change (t+1)/(weight r k*r k)=t/(weight r k*r k)
      rw [←Nat.div_div_eq_div_mul,←Nat.div_div_eq_div_mul,hinside.2]
    | succ m ih =>
      change (t+1)/(weight r (k+1+m)*_)=t/(weight r (k+1+m)*_)
      rw [←Nat.div_div_eq_div_mul,←Nat.div_div_eq_div_mul,ih]
  obtain ⟨m,rfl⟩ := Nat.exists_eq_add_of_le hj
  rw [index,index,hsame]

/-- Where all indices are the last ones, the vector is the last one. -/
theorem eq_last (ht : t<weight r n) (hall : ∀ j, j<n → index r t j+1=r j) : t+1=weight r n := by
  have hdiv := (div_succ hall).1
  rw [Nat.div_eq_of_lt ht,Nat.zero_add] at hdiv
  have hle : weight r n≤t+1 := by
    by_contra hlt
    rw [Nat.div_eq_of_lt (by omega)] at hdiv
    omega
  omega

theorem dvd_weight (hk : k<n) : weight r k*r k ∣ weight r n := by
  induction n with
  | zero => exact absurd hk (Nat.not_lt_zero k)
  | succ n ih =>
    rcases Nat.lt_succ_iff_lt_or_eq.mp hk with hk | rfl
    · exact Dvd.dvd.mul_right (ih hk) _
    · exact dvd_rfl

/-- Inner loops do not see the indices of the outer ones. -/
theorem index_shift (hr : ∀ j, j<n → 0 < r j) (c : ℕ) (hk : k<n) :
    index r (weight r n*c+t) k=index r t k := by
  rcases dvd_weight hk with ⟨m,hm⟩
  have hpos : 0<weight r k := weight_pos fun j hj => hr j (hj.trans hk)
  rw [index,index,hm,Nat.mul_assoc,Nat.mul_assoc,Nat.mul_add_div hpos,Nat.mul_add_mod]

/-- In the last vector all indices are the last ones. -/
theorem last_index (hr : ∀ j, j<n → 0 < r j) (ht : t+1=weight r n) (hk : k<n) :
    index r t k+1=r k := by
  induction k using Nat.strong_induction_on with
  | _ k ih =>
    have hlow : ∀ j, j<k → index r t j+1=r j := fun j hj => ih j hj (hj.trans hk)
    by_contra hne
    have hlt : index r t k < r k := index_lt (hr k hk)
    have hnext := (advance hlow (by omega)).2.1
    have hshift := index_shift (t:=0) hr 1 hk
    rw [Nat.mul_one,Nat.add_zero,←ht,index_zero] at hshift
    omega

/-- The carry is the lowest index that is not the last one. -/
theorem carry_eq (hk : k<n) (hlow : ∀ j, j<k → index r t j+1=r j) (hlt : index r t k+1 < r k) :
    carry r n t=k := by
  have hfind : (List.range n).find? (fun k => decide (index r t k+1 < r k))=some k := by
    rw [List.find?_range_eq_some]
    refine ⟨decide_eq_true hlt,List.mem_range.mpr hk,fun j hj => ?_⟩
    rw [decide_eq_false (by have := hlow j hj; omega)]
    rfl
  rw [carry,hfind,Option.getD_some]

/-- Before the last vector some index can move on. -/
theorem exists_carry (hr : ∀ j, j<n → 0 < r j) (ht : t+1<weight r n) :
    ∃ k, k<n ∧ (∀ j, j<k → index r t j+1=r j) ∧ index r t k+1 < r k := by
  classical
  have hlast : ∀ j, j<n → ¬index r t j+1 < r j → index r t j+1=r j := by
    intro j hj hno
    have hlt : index r t j < r j := index_lt (hr j hj)
    omega
  have hex : ∃ k, k<n ∧ index r t k+1 < r k := by
    by_contra hno
    have hend := eq_last (by omega) fun j hj => hlast j hj fun hlt => hno ⟨j,hj,hlt⟩
    omega
  have hspec := Nat.find_spec hex
  refine ⟨Nat.find hex,hspec.1,fun j hj => ?_,hspec.2⟩
  exact hlast j (hj.trans hspec.1) fun hlt => Nat.find_min hex hj ⟨hj.trans hspec.1,hlt⟩

theorem carry_shift (hr : ∀ j, j<n → 0 < r j) (c : ℕ) (ht : t+1<weight r n) :
    carry r (n+1) (weight r n*c+t)=carry r n t := by
  rcases exists_carry hr ht with ⟨k,hk,hlow,hlt⟩
  rw [carry_eq hk hlow hlt]
  refine carry_eq (Nat.lt_succ_of_lt hk) (fun j hj => ?_) ?_
  · rw [index_shift hr c (hj.trans hk)]
    exact hlow j hj
  · rw [index_shift hr c hk]
    exact hlt

theorem carry_outer (hr : ∀ j, j<n → 0 < r j) {c : ℕ} (hc : c+1 < r n) (ht : t+1=weight r n) :
    carry r (n+1) (weight r n*c+t)=n := by
  refine carry_eq (Nat.lt_succ_self n) (fun j hj => ?_) ?_
  · rw [index_shift hr c hj]
    exact last_index hr ht hj
  · have hpos : 0<weight r n := weight_pos hr
    rw [index,Nat.mul_add_div hpos,Nat.div_eq_of_lt (by omega),Nat.add_zero,
      Nat.mod_eq_of_lt (by omega)]
    exact hc

/-- Some rounds of the outermost loop. -/
theorem rounds_eq (body : ℕ → List α) (hr : ∀ j, j<n → 0 < r j)
    (ih : nest r body n=(List.range (weight r n-1)).flatMap fun t => body (carry r n t)) {c : ℕ}
    (hc : c < r n) : (List.range (weight r n*c+(weight r n-1))).flatMap
      (fun t => body (carry r (n+1) t))=
        nest r body n++(List.replicate c (body n++nest r body n)).flatten := by
  have hpos : 0<weight r n := weight_pos hr
  have hround : ∀ d, (List.range (weight r n-1)).flatMap
      (fun t => body (carry r (n+1) (weight r n*d+t)))=nest r body n := by
    intro d
    rw [ih]
    refine List.flatMap_congr fun t ht => ?_
    rw [carry_shift hr d (by have := List.mem_range.mp ht; omega)]
  induction c with
  | zero =>
    rw [Nat.mul_zero,Nat.zero_add,List.replicate_zero,List.flatten_nil,List.append_nil,←hround 0]
    exact List.flatMap_congr fun t _ => by rw [Nat.mul_zero,Nat.zero_add]
  | succ c ihc =>
    have hsplit : weight r n*(c+1)+(weight r n-1)=
        weight r n*c+(weight r n-1)+(1+(weight r n-1)) := by
      rw [Nat.mul_add,Nat.mul_one]
      omega
    have houter : carry r (n+1) (weight r n*c+(weight r n-1))=n :=
      carry_outer hr (by omega) (by omega)
    have hnext : weight r n*c+(weight r n-1)+1=weight r n*(c+1) := by
      rw [Nat.mul_add,Nat.mul_one]
      omega
    rw [hsplit,List.range_add,List.flatMap_append,ihc (by omega),List.range_add,List.map_append,
      List.flatMap_append,List.replicate_succ',List.flatten_append,List.flatten_singleton,
      List.append_assoc,List.map_map,List.flatMap_map,List.flatMap_map]
    congr 2
    congr 1
    · rw [List.range_one,List.flatMap_singleton]
      exact congrArg body houter
    · rw [←hround (c+1),←hnext]
      refine List.flatMap_congr fun t _ => ?_
      simp only [Function.comp_apply,Nat.add_assoc]

/-- A loop nest is one sequence over the numbers of its index vectors. -/
theorem nest_eq (body : ℕ → List α) (hr : ∀ j, j<n → 0 < r j) :
    nest r body n=(List.range (weight r n-1)).flatMap fun t => body (carry r n t) := by
  induction n with
  | zero => rfl
  | succ n ih =>
    have hlow : ∀ j, j<n → 0 < r j := fun j hj => hr j (Nat.lt_succ_of_lt hj)
    have hn : 0 < r n := hr n (Nat.lt_succ_self n)
    have hpos : 0<weight r n := weight_pos hlow
    have hrounds := rounds_eq body hlow (ih hlow) (c:=r n-1) (by omega)
    have hlen : weight r n*(r n-1)+(weight r n-1)=weight r (n+1)-1 := by
      rw [weight,Nat.mul_sub,Nat.mul_one]
      have : weight r n≤weight r n*r n := Nat.le_mul_of_pos_right _ hn
      omega
    rw [hlen] at hrounds
    exact hrounds.symm

/-- What is done up to a vector and for the next one is done first. -/
theorem prefix_nest (body : ℕ → List α) (hr : ∀ j, j<n → 0 < r j) (ht : t+1<weight r n) :
    ((List.range t).flatMap fun t => body (carry r n t))++body (carry r n t) <+: nest r body n := by
  obtain ⟨m,hm⟩ : ∃ m, weight r n-1=t+(1+m) := ⟨weight r n-1-t-1,by omega⟩
  have hsplit : List.range (t+(1+m))=List.range t++t::(List.range m).map fun s => t+(1+s) := by
    rw [List.range_add,List.range_add,List.map_append,List.map_map]
    simp [Function.comp_def]
  rw [nest_eq body hr,hm,hsplit,List.flatMap_append,List.flatMap_cons,←List.append_assoc]
  exact List.prefix_append _ _

end Pulpissimo.LoopNest

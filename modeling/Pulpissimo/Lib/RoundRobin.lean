import Mathlib.Data.Nat.Find

/-!
# Round robin on a circle

Positions of a circle are counted forwards from a pointer. The first position with a
request is the one nearest to the pointer, and a pointer that moves on to the position
after it comes nearer to every other position with a request.
-/

namespace Pulpissimo.RoundRobin

variable {n : ℕ}

/-- The position `k` places after `q`. -/
def ahead (q : Fin n) (k : ℕ) : Fin n := ⟨(q.val+k)%n,Nat.mod_lt _ q.pos⟩

/-- Number of places from `q` forwards to `r`. -/
def dist (q r : Fin n) : ℕ := if q.val ≤ r.val then r.val-q.val else n+r.val-q.val

theorem dist_lt (q r : Fin n) : dist q r<n := by
  have hq := q.isLt
  have hr := r.isLt
  unfold dist
  split_ifs <;> omega

@[simp] theorem ahead_zero (q : Fin n) : ahead q 0=q := Fin.ext (Nat.mod_eq_of_lt q.isLt)

@[simp] theorem ahead_turn (q : Fin n) : ahead q n=q := by
  apply Fin.ext
  change (q.val+n)%n=q.val
  rw [Nat.add_mod_right,Nat.mod_eq_of_lt q.isLt]

theorem ahead_ahead (q : Fin n) (a b : ℕ) : ahead (ahead q a) b=ahead q (a+b) := by
  apply Fin.ext
  change ((q.val+a)%n+b)%n=(q.val+(a+b))%n
  rw [Nat.mod_add_mod,Nat.add_assoc]

@[simp] theorem ahead_dist (q r : Fin n) : ahead q (dist q r)=r := by
  have hq := q.isLt
  have hr := r.isLt
  apply Fin.ext
  change (q.val+dist q r)%n=r.val
  unfold dist
  split_ifs with h
  · rw [Nat.add_sub_cancel' h,Nat.mod_eq_of_lt hr]
  · have hsum : q.val+(n+r.val-q.val)=r.val+n := by omega
    rw [hsum,Nat.add_mod_right,Nat.mod_eq_of_lt hr]

theorem dist_ahead (q : Fin n) {k : ℕ} (hk : k<n) : dist q (ahead q k)=k := by
  have hq := q.isLt
  have hval : (ahead q k).val=if q.val+k<n then q.val+k else q.val+k-n := by
    change (q.val+k)%n=_
    split_ifs with h
    · exact Nat.mod_eq_of_lt h
    · rw [Nat.mod_eq_sub_mod (Nat.le_of_not_lt h),Nat.mod_eq_of_lt (by omega)]
  unfold dist
  rw [hval]
  split_ifs <;> omega

/-- Positions that are passed come no nearer. -/
theorem dist_ahead_of_le (q r : Fin n) {k : ℕ} (hk : k≤dist q r) :
    dist (ahead q k) r=dist q r-k := by
  have hpoint : ahead (ahead q k) (dist q r-k)=r := by
    rw [ahead_ahead,Nat.add_sub_cancel' hk,ahead_dist]
  have hlt : dist q r-k<n := Nat.lt_of_le_of_lt (Nat.sub_le _ _) (dist_lt q r)
  have hdist := dist_ahead (ahead q k) hlt
  rwa [hpoint] at hdist

section First

variable {req : Fin n → Bool} {q j r : Fin n}

/-- Position `j` is the first with a request at or after `q`. -/
structure First (req : Fin n → Bool) (q j : Fin n) : Prop where
  requests : req j=true
  before : ∀ m, m<dist q j → req (ahead q m)=false

/-- No position with a request is nearer than the first. -/
theorem First.dist_le (h : First req q j) (hr : req r=true) : dist q j≤dist q r := by
  by_contra hlt
  have hno := h.before (dist q r) (Nat.lt_of_not_le hlt)
  rw [ahead_dist,hr] at hno
  exact absurd hno nofun

theorem First.unique (h : First req q j) (h' : First req q r) : j=r := by
  have heq := Nat.le_antisymm (h.dist_le h'.requests) (h'.dist_le h.requests)
  rw [←ahead_dist q j,heq,ahead_dist]

/-- With any request there is a first. -/
theorem exists_first (q : Fin n) (h : ∃ r, req r=true) : ∃ j, First req q j := by
  classical
  have hex : ∃ k, req (ahead q k)=true := by
    rcases h with ⟨r,hr⟩
    exact ⟨dist q r,by rw [ahead_dist]; exact hr⟩
  rcases h with ⟨r,hr⟩
  have hle : Nat.find hex≤dist q r := Nat.find_min' hex (by rw [ahead_dist]; exact hr)
  have hlt : Nat.find hex<n := Nat.lt_of_le_of_lt hle (dist_lt q r)
  refine ⟨ahead q (Nat.find hex),Nat.find_spec hex,fun m hm => ?_⟩
  rw [dist_ahead q hlt] at hm
  exact Bool.eq_false_iff.mpr (Nat.find_min hex hm)

/-- Behind the first, the pointer is nearer to every other position with a request. -/
theorem First.nearer (h : First req q j) (hr : req r=true) (hne : r≠j) :
    dist (ahead j 1) r<dist q r := by
  have hle := h.dist_le hr
  have hlt : dist q j<dist q r := by
    refine Nat.lt_of_le_of_ne hle fun heq => hne ?_
    rw [←ahead_dist q r,←heq,ahead_dist]
  have hpoint : ahead j 1=ahead q (dist q j+1) := by
    rw [←ahead_ahead,ahead_dist]
  rw [hpoint,dist_ahead_of_le q r hlt]
  omega

end First

end Pulpissimo.RoundRobin

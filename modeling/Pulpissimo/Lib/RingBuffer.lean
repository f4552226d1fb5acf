import Mathlib.Data.BitVec
import Mathlib.Logic.Function.Iterate
import Mathlib.Tactic.SplitIfs

/-!
# Queues kept on a ring

A queue on a ring of cells has a pointer to its oldest value and a number of values.
Taking one off moves the pointer, and putting one on writes the first cell behind the
values. The ring is any type of pointers with a next pointer.
-/

namespace Pulpissimo.RingBuffer

variable {π α : Type*}

/-- The values of `n` cells from a pointer on. -/
def window (next : π → π) (cells : π → α) : π → ℕ → List α
  | _,0 => []
  | p,n+1 => cells p::window next cells (next p) n

@[simp] theorem window_zero (next : π → π) (cells : π → α) (p : π) :
    window next cells p 0=[] := rfl

theorem window_succ (next : π → π) (cells : π → α) (p : π) (n : ℕ) :
    window next cells p (n+1)=cells p::window next cells (next p) n := rfl

@[simp] theorem length_window (next : π → π) (cells : π → α) (p : π) (n : ℕ) :
    (window next cells p n).length=n := by
  induction n generalizing p with
  | zero => rfl
  | succ n ih => rw [window_succ,List.length_cons,ih]

/-- Cells outside the window do not matter. -/
theorem window_congr {next : π → π} {cells cells' : π → α} {p : π} {n : ℕ}
    (h : ∀ k, k<n → cells' (next^[k] p)=cells (next^[k] p)) :
    window next cells' p n=window next cells p n := by
  induction n generalizing p with
  | zero => rfl
  | succ n ih =>
    rw [window_succ,window_succ,ih fun k hk => h (k+1) (Nat.succ_lt_succ hk)]
    exact congrArg (·::_) (h 0 (Nat.zero_lt_succ n))

/-- The last cell of a window. -/
theorem window_concat (next : π → π) (cells : π → α) (p : π) (n : ℕ) :
    window next cells p (n+1)=window next cells p n++[cells (next^[n] p)] := by
  induction n generalizing p with
  | zero => rfl
  | succ n ih =>
    rw [window_succ,ih,window_succ,Function.iterate_succ_apply]
    rfl

/-- Writing the cell behind the window puts a value on. -/
theorem window_write [DecidableEq π] {next : π → π} {cells : π → α} {p : π} {n : ℕ} (x : α)
    (hfree : ∀ k, k<n → next^[k] p≠next^[n] p) :
    window next (fun q => if q=next^[n] p then x else cells q) p (n+1)=
      window next cells p n++[x] := by
  rw [window_concat,if_pos rfl,window_congr fun k hk => if_neg (hfree k hk)]

section Pointers

variable {w : ℕ}

/-- The next of the pointers of `w` bits. -/
def up (p : BitVec w) : BitVec w := p+1#w

theorem iterate_up (p : BitVec w) (n : ℕ) : up^[n] p=p+BitVec.ofNat w n := by
  induction n with
  | zero => exact (BitVec.add_zero p).symm
  | succ n ih => rw [Function.iterate_succ_apply',ih,up,BitVec.add_assoc,←BitVec.ofNat_add]

/-- One turn. -/
theorem iterate_turn (p : BitVec w) : up^[2^w] p=p := by
  have hzero : BitVec.ofNat w (2^w)=0#w := by
    apply BitVec.eq_of_toNat_eq
    rw [BitVec.toNat_ofNat,Nat.mod_self,BitVec.toNat_zero]
  rw [iterate_up,hzero,BitVec.add_zero]

/-- The pointer comes back to a cell after one turn, not before. -/
theorem iterate_up_ne (p : BitVec w) {k n : ℕ} (hk : k<n) (hn : n<2^w) : up^[k] p≠up^[n] p := by
  rw [iterate_up,iterate_up]
  intro heq
  have hval := congrArg BitVec.toNat ((BitVec.add_right_inj p).mp heq)
  rw [BitVec.toNat_ofNat,BitVec.toNat_ofNat,Nat.mod_eq_of_lt (hk.trans hn),
    Nat.mod_eq_of_lt hn] at hval
  omega

theorem toNat_up (p : BitVec w) : (up p).toNat=(p.toNat+1)%2^w := by
  rw [up,BitVec.toNat_add,BitVec.toNat_ofNat,Nat.add_mod_mod]

/-- Counting up by one, short of a whole turn. -/
theorem toNat_up_of_ne {p : BitVec w} (hp : up p≠0#w) : (up p).toNat=p.toNat+1 := by
  have hlt := p.isLt
  rw [toNat_up]
  refine Nat.mod_eq_of_lt (Nat.lt_of_le_of_ne hlt fun hturn => hp (BitVec.eq_of_toNat_eq ?_))
  rw [toNat_up,hturn,Nat.mod_self,BitVec.toNat_zero]

/-- The last pointer is before the first. -/
theorem toNat_last {p : BitVec w} (hp : up p=0#w) : p.toNat=2^w-1 := by
  have hlt := p.isLt
  have hval := congrArg BitVec.toNat hp
  rw [toNat_up,BitVec.toNat_zero] at hval
  have hdvd := Nat.le_of_dvd (Nat.succ_pos _) (Nat.dvd_of_mod_eq_zero hval)
  omega

/-- Number of cells from a pointer to another. -/
def gap (p q : BitVec w) : ℕ := (q-p).toNat

@[simp] theorem gap_self (p : BitVec w) : gap p p=0 := by
  rw [gap,BitVec.sub_self,BitVec.toNat_zero]

theorem gap_iterate (p : BitVec w) {n : ℕ} (hn : n<2^w) : gap p (up^[n] p)=n := by
  rw [iterate_up,gap,BitVec.add_comm,BitVec.add_sub_cancel,BitVec.toNat_ofNat,
    Nat.mod_eq_of_lt hn]

end Pointers

section Turn

variable {D : ℕ}

/-- The next of the places `0` to `D-1`. -/
def around (D p : ℕ) : ℕ := if p=D-1 then 0 else p+1

theorem around_lt {p : ℕ} (hp : p<D) : around D p<D := by
  unfold around
  split_ifs <;> omega

/-- Places from a first one on. -/
theorem iterate_around {p : ℕ} (hp : p<D) (n : ℕ) : (around D)^[n] p=(p+n)%D := by
  induction n with
  | zero => exact (Nat.mod_eq_of_lt hp).symm
  | succ n ih =>
    have hlt : (p+n)%D<D := Nat.mod_lt _ (by omega)
    have hnext : (p+(n+1))%D=((p+n)%D+1)%D := by
      rw [Nat.mod_add_mod,Nat.add_assoc]
    rw [Function.iterate_succ_apply',ih,hnext,around]
    split_ifs with hlast
    · rw [hlast,Nat.sub_add_cancel (by omega),Nat.mod_self]
    · exact (Nat.mod_eq_of_lt (by omega)).symm

/-- One turn. -/
theorem iterate_around_turn {p : ℕ} (hp : p<D) : (around D)^[D] p=p := by
  rw [iterate_around hp,Nat.add_mod_right,Nat.mod_eq_of_lt hp]

/-- A place comes again after one turn, not before. -/
theorem iterate_around_ne {p k n : ℕ} (hp : p<D) (hk : k<n) (hn : n<D+k) :
    (around D)^[k] p≠(around D)^[n] p := by
  rw [iterate_around hp,iterate_around hp]
  intro heq
  have hmod : n-k ≡ 0 [MOD D] := by
    have hsub := (Nat.modEq_iff_dvd' (by omega : p+k ≤ p+n)).mp heq
    rw [Nat.add_sub_add_left] at hsub
    exact (Nat.modEq_zero_iff_dvd).mpr hsub
  have hdvd := Nat.le_of_dvd (by omega) ((Nat.modEq_zero_iff_dvd).mp hmod)
  omega

end Turn

end Pulpissimo.RingBuffer

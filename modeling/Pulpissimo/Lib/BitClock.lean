import Mathlib.Data.BitVec

/-!
# Bit clocks

A divider counts up to a limit and starts again, and a register tells a cycle later that it did.
A line that moves on with this pulse is in slot after slot of one more cycle than the limit,
only the first slot being one cycle longer.
-/

namespace Pulpissimo.BitClock

variable {w P p : ℕ}

/-- Divider and pulse `p` cycles after the divider was started. -/
structure Ticks (P p : ℕ) (cnt : BitVec w) (done : Bool) : Prop where
  cnt : cnt.toNat=p%P
  done : done=decide (0 < p ∧ p%P=0)

/-- Slot of a cycle. -/
def slot (P p : ℕ) : ℕ := (p-1)/P

@[simp] theorem slot_zero : slot P 0=0 := Nat.zero_div P

@[simp] theorem slot_one : slot P 1=0 := Nat.zero_div P

theorem succ_mod (hP : 0 < P) : (p+1)%P=if p%P+1=P then 0 else p%P+1 := by
  have hlt : p%P < P := Nat.mod_lt p hP
  by_cases hlast : p%P+1=P
  · obtain ⟨n,rfl⟩ : ∃ n,P=n+1 := ⟨P-1,by omega⟩
    rw [if_pos hlast]
    exact Nat.succ_mod_succ_eq_zero_iff.mpr (Nat.succ.inj hlast)
  · rw [if_neg hlast,Nat.add_mod,Nat.mod_eq_of_lt (a:=1) (by omega),Nat.mod_eq_of_lt (by omega)]

/-- One more cycle of the divider. -/
theorem Ticks.next {limit cnt : BitVec w} {done : Bool} (hP : P=limit.toNat+1)
    (h : Ticks P p cnt done) :
    Ticks P (p+1) (if cnt=limit then 0 else cnt+1#w) (decide (cnt=limit)) := by
  have hlast : cnt=limit ↔ p%P+1=P := by
    rw [←h.cnt,hP,Nat.succ_inj]
    exact BitVec.toNat_inj.symm
  have hmod : (p+1)%P=if p%P+1=P then 0 else p%P+1 := succ_mod (by omega)
  by_cases heq : cnt=limit
  · rw [if_pos heq,decide_eq_true heq]
    rw [if_pos (hlast.mp heq)] at hmod
    exact ⟨hmod.symm,(decide_eq_true ⟨Nat.succ_pos p,hmod⟩).symm⟩
  · rw [if_neg heq,decide_eq_false heq]
    rw [if_neg (mt hlast.mpr heq)] at hmod
    refine ⟨?_,(decide_eq_false fun hd => by omega).symm⟩
    have hlt : p%P < P := Nat.mod_lt p (by omega)
    have hne : p%P+1≠P := mt hlast.mpr heq
    have hlimit : limit.toNat < 2^w := limit.isLt
    have hw : 1%2^w=1 := Nat.mod_eq_of_lt (by omega)
    rw [hmod,BitVec.toNat_add,BitVec.toNat_ofNat,hw,h.cnt,Nat.mod_eq_of_lt (by omega)]

theorem le_slot (hP : 0 < P) {n : ℕ} : n ≤ slot P p ↔ n*P ≤ p-1 := Nat.le_div_iff_mul_le hP

theorem slot_lt (hP : 0 < P) {n : ℕ} : slot P p < n ↔ p-1 < n*P := Nat.div_lt_iff_lt_mul hP

theorem slot_mono {a b : ℕ} (h : a ≤ b) : slot P a ≤ slot P b :=
  Nat.div_le_div_right (Nat.sub_le_sub_right h 1)

/-- The pulse ends a slot. -/
theorem slot_succ : slot P (p+1)=slot P p+if 0 < p ∧ p%P=0 then 1 else 0 := by
  cases p with
  | zero =>
    rw [slot,slot,if_neg (fun h => absurd h.1 (Nat.lt_irrefl 0))]
    rfl
  | succ p =>
    have hiff : P∣p+1 ↔ 0 < p+1 ∧ (p+1)%P=0 :=
      ⟨fun h => ⟨Nat.succ_pos p,Nat.mod_eq_zero_of_dvd h⟩,fun h => Nat.dvd_of_mod_eq_zero h.2⟩
    show (p+1)/P=p/P+_
    rw [Nat.succ_div]
    exact congrArg _ (if_congr hiff rfl rfl)

theorem Ticks.slot_of_done {cnt : BitVec w} {done : Bool} (h : Ticks P p cnt done)
    (hd : done=true) : slot P (p+1)=slot P p+1 := by
  rw [slot_succ,if_pos (of_decide_eq_true (h.done.symm.trans hd))]

theorem Ticks.slot_of_not_done {cnt : BitVec w} {done : Bool} (h : Ticks P p cnt done)
    (hd : done=false) : slot P (p+1)=slot P p := by
  rw [slot_succ,if_neg (of_decide_eq_false (h.done.symm.trans hd)),Nat.add_zero]

end Pulpissimo.BitClock

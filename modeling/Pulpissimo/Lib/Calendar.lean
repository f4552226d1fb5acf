import Mathlib.Data.List.GetD
import Mathlib.Tactic.IntervalCases

/-!
# The Gregorian calendar

Days are numbered from the first day of the year zero on. Four thousand years are ten rounds of
the leap rule, after which the calendar starts again.
-/

namespace Pulpissimo.Calendar

/-- Years with a twenty-ninth of February. -/
def leap (y : ℕ) : Bool := decide (y%4=0) && (decide (y%100≠0) || decide (y%400=0))

/-- Days before a year. -/
def yearStart (y : ℕ) : ℕ := 365*y+(y+3)/4-(y+99)/100+(y+399)/400

theorem yearStart_succ (y : ℕ) : yearStart (y+1)=yearStart y+(leap y).toNat+365 := by
  have hleap : (leap y).toNat=if y%4=0 ∧ (y%100≠0 ∨ y%400=0) then 1 else 0 := by
    unfold leap
    split_ifs with h
    · simp [h.1,h.2]
    · rw [Bool.toNat_eq_zero,Bool.and_eq_false_iff,Bool.or_eq_false_iff,decide_eq_false_iff_not,
        decide_eq_false_iff_not,decide_eq_false_iff_not]
      omega
  have hfour : (y+1+3)/4=(y+3)/4+if y%4=0 then 1 else 0 := by split_ifs <;> omega
  have hcentury : (y+1+99)/100=(y+99)/100+if y%100=0 then 1 else 0 := by split_ifs <;> omega
  have hround : (y+1+399)/400=(y+399)/400+if y%400=0 then 1 else 0 := by split_ifs <;> omega
  have hless : (y+99)/100 ≤ 365*y+(y+3)/4 := by omega
  rw [yearStart,yearStart,hleap,hfour,hcentury,hround]
  split_ifs <;> omega

/-- Days before a month. -/
def monthStart (leap : Bool) (m : ℕ) : ℕ :=
  [0,0,31,59,90,120,151,181,212,243,273,304,334].getD m 0+if 2 < m then leap.toNat else 0

/-- Days of a month. -/
def monthLength (leap : Bool) (m : ℕ) : ℕ :=
  [0,31,28+leap.toNat,31,30,31,30,31,31,30,31,30,31].getD m 0

/-- The number of a day in its year. -/
def dayOfYear (leap : Bool) (m d : ℕ) : ℕ := monthStart leap m+(d-1)

/-- The number of a day. -/
def dayNumber (y m d : ℕ) : ℕ := yearStart y+dayOfYear (leap y) m d

/-- Days of four thousand years. -/
def days : ℕ := 1460970

theorem yearStart_days : yearStart 4000=days := rfl

theorem yearStart_mono {y z : ℕ} (h : y ≤ z) : yearStart y ≤ yearStart z := by
  induction h with
  | refl => exact Nat.le_refl _
  | step _ ih =>
    rw [yearStart_succ]
    omega

/-- What the day after the last one of the four thousand years is. -/
theorem dayNumber_wrap {y : ℕ} (hy : y < 4000) :
    yearStart ((y+1)%4000)=yearStart (y+1)%days := by
  rcases Nat.lt_or_ge (y+1) 4000 with hlt | hge
  · have hless : yearStart (y+1) < days := by
      have hnext := yearStart_mono (Nat.succ_le_of_lt hlt)
      rw [yearStart_succ (y+1),yearStart_days] at hnext
      omega
    rw [Nat.mod_eq_of_lt hlt,Nat.mod_eq_of_lt hless]
  · have hlast : y+1=4000 := by omega
    rw [hlast,yearStart_days,Nat.mod_self,Nat.mod_self]
    rfl

end Pulpissimo.Calendar

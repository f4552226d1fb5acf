import Pulpissimo.Lib.Calendar
import Pulpissimo.Lib.Lanes
import Pulpissimo.Lib.Machine

/-!
# The real-time clock

Model of `rtc_clock` and `rtc_date` behind the register interface of the safe domain. A counter
of fifteen bits makes the seconds, which are kept with minutes and hours in decimal digits. The
last second of a day advances the date by the rules of the calendar. An alarm compares the time
with the data on the bus, and a timer counts cycles.
-/

namespace Pulpissimo.Soc.RealTime

open Pulpissimo.Calendar

section Model

/-- The register interface in one cycle. -/
structure Input where
  s_rise : Bool
  reg_if_wrn_i : Bool
  reg_if_add_i : BitVec 6
  reg_if_wdata_i : BitVec 32

def REG_RTC_CLOCK : BitVec 6 := 0b110100#6

def REG_RTC_ALARM : BitVec 6 := 0b110101#6

def REG_RTC_TIMER : BitVec 6 := 0b110110#6

def REG_RTC_DATE : BitVec 6 := 0b110111#6

/-- Registers of the time in `rtc_clock`. -/
structure Time where
  r_sec_counter : BitVec 15
  r_seconds : BitVec 8
  r_minutes : BitVec 8
  r_hours : BitVec 7

/-- Registers of the alarm in `rtc_clock`. -/
structure Alarm where
  r_alarm_seconds : BitVec 8
  r_alarm_minutes : BitVec 8
  r_alarm_hours : BitVec 7
  r_alarm_enable : Bool
  r_alarm_match : Bool

/-- Registers of the timer in `rtc_clock`. -/
structure Timer where
  r_timer_en : Bool
  r_timer_retrig : Bool
  r_timer_target : BitVec 17
  r_timer : BitVec 17

/-- Registers of `rtc_date`. -/
structure Date where
  r_day : BitVec 6
  r_month : BitVec 5
  r_year : BitVec 14

structure State where
  time : Time
  alarm : Alarm
  timer : Timer
  date : Date

def reset : State where
  time := ⟨0,0,0,0⟩
  alarm := ⟨0,0,0,true,false⟩
  timer := ⟨false,false,0,0⟩
  date := ⟨1,1,0x2000#14⟩

namespace Input

variable (i : Input)

def update (add : BitVec 6) : Bool := i.reg_if_add_i==add && (i.s_rise && !i.reg_if_wrn_i)

def s_rtc_clock_update : Bool := i.update REG_RTC_CLOCK

def s_rtc_alarm_update : Bool := i.update REG_RTC_ALARM

def s_rtc_timer_update : Bool := i.update REG_RTC_TIMER

def s_rtc_date_update : Bool := i.update REG_RTC_DATE

end Input

namespace Time

/-- Seconds and minutes advance in the same way. -/
def nextSixty (r : BitVec 8) : BitVec 8 :=
  (if 0x59#8 ≤ r then 0#4
  else if 9#4 ≤ r.extractLsb' 0 4 then r.extractLsb' 4 4+1#4
  else r.extractLsb' 4 4)++
    if 9#4 ≤ r.extractLsb' 0 4 then 0#4 else r.extractLsb' 0 4+1#4

def nextHours (r : BitVec 7) : BitVec 7 :=
  if 0x23#7 ≤ r then 0
  else if 9#4 ≤ r.extractLsb' 0 4 then r.extractLsb' 6 1++(r.extractLsb' 4 2+1#2)++0#4
  else r.extractLsb' 4 3++(r.extractLsb' 0 4+1#4)

variable (t : Time)

def s_update_seconds : Bool := t.r_sec_counter==0x7FFF

def s_update_minutes : Bool := t.s_update_seconds && t.r_seconds==0x59

def s_update_hours : Bool := t.s_update_minutes && t.r_minutes==0x59

def update_day_o : Bool := t.s_update_hours && t.r_hours==0x23

/-- What is written with the register of the clock. -/
def written (data : BitVec 32) : Time where
  r_sec_counter := data.extractLsb' 22 10++0#5
  r_seconds := data.extractLsb' 0 8
  r_minutes := data.extractLsb' 8 8
  r_hours := (data.extractLsb' 16 6).setWidth 7

def step (i : Input) : Time :=
  if i.s_rtc_clock_update then written i.reg_if_wdata_i
  else
    { r_sec_counter := t.r_sec_counter+1
      r_seconds := if t.s_update_seconds then nextSixty t.r_seconds else t.r_seconds
      r_minutes := if t.s_update_minutes then nextSixty t.r_minutes else t.r_minutes
      r_hours := if t.s_update_hours then nextHours t.r_hours else t.r_hours }

end Time

namespace Alarm

variable (a : Alarm) (t : Time) (i : Input)

/-- The time is compared with the data on the bus, not with the registers of the alarm. -/
def s_alarm_match : Bool :=
  t.r_seconds==i.reg_if_wdata_i.extractLsb' 0 8 && t.r_minutes==i.reg_if_wdata_i.extractLsb' 8 8 &&
    t.r_hours==(i.reg_if_wdata_i.extractLsb' 16 6).setWidth 7

def s_alarm_event : Bool := a.r_alarm_enable && s_alarm_match t i && !a.r_alarm_match

def step : Alarm where
  r_alarm_seconds :=
    if i.s_rtc_alarm_update then i.reg_if_wdata_i.extractLsb' 0 8 else a.r_alarm_seconds
  r_alarm_minutes :=
    if i.s_rtc_alarm_update then i.reg_if_wdata_i.extractLsb' 8 8 else a.r_alarm_minutes
  r_alarm_hours :=
    if i.s_rtc_alarm_update then (i.reg_if_wdata_i.extractLsb' 16 6).setWidth 7
    else a.r_alarm_hours
  r_alarm_enable :=
    if i.s_rtc_alarm_update then i.reg_if_wdata_i.getLsbD 31
    else if a.s_alarm_event t i then false
    else a.r_alarm_enable
  r_alarm_match := s_alarm_match t i

end Alarm

namespace Timer

variable (r : Timer) (i : Input)

def s_timer_match : Bool := r.r_timer==r.r_timer_target

def s_timer_event : Bool := r.r_timer_en && r.s_timer_match

def step : Timer :=
  if i.s_rtc_timer_update then
    { r_timer_en := i.reg_if_wdata_i.getLsbD 31
      r_timer_retrig := i.reg_if_wdata_i.getLsbD 30
      r_timer_target := i.reg_if_wdata_i.extractLsb' 0 17
      r_timer := 0 }
  else if r.r_timer_en then
    if r.s_timer_match then { r with r_timer_en := r.r_timer_retrig, r_timer := 0 }
    else { r with r_timer := r.r_timer+1 }
  else r

end Timer

namespace Date

def s_year_div_4 (r_year : BitVec 14) : Bool :=
  !r_year.getLsbD 0 && r_year.getLsbD 4==r_year.getLsbD 1

def s_year_century (r_year : BitVec 14) : Bool := r_year.extractLsb' 0 8==0x00#8

def s_year_400 (r_year : BitVec 14) : Bool :=
  !r_year.getLsbD 8 && r_year.getLsbD 12==r_year.getLsbD 9

def s_year_leap (r_year : BitVec 14) : Bool :=
  s_year_div_4 r_year && (!s_year_century r_year || s_year_century r_year && s_year_400 r_year)

def s_end_of_month (s_year_leap : Bool) (r_month : BitVec 5) (r_day : BitVec 6) : Bool :=
  match r_month.toNat with
  | 0x01 | 0x03 | 0x05 | 0x07 | 0x08 | 0x10 | 0x12 => r_day==0x31
  | 0x02 => r_day==0x29 || !s_year_leap && r_day==0x28
  | 0x04 | 0x06 | 0x09 | 0x11 => r_day==0x30
  | _ => false

def nextDay (s_end_of_month : Bool) (r_day : BitVec 6) : BitVec 6 :=
  if s_end_of_month then 0x01
  else if r_day.extractLsb' 0 4≠9#4 then r_day.extractLsb' 4 2++(r_day.extractLsb' 0 4+1#4)
  else (r_day.extractLsb' 4 2+1#2)++0#4

def nextMonth (s_end_of_month s_end_of_year : Bool) (r_month : BitVec 5) : BitVec 5 :=
  if s_end_of_year then 0x01
  else if s_end_of_month then
    if r_month.extractLsb' 0 4≠9#4 then r_month.extractLsb' 4 1++(r_month.extractLsb' 0 4+1#4)
    else 1#1++0#4
  else r_month

def nextYear (r_year : BitVec 14) : BitVec 14 :=
  if r_year.extractLsb' 0 4≠9#4 then r_year.extractLsb' 4 10++(r_year.extractLsb' 0 4+1#4)
  else if r_year.extractLsb' 4 4≠9#4 then
    r_year.extractLsb' 8 6++(r_year.extractLsb' 4 4+1#4)++0#4
  else if r_year.extractLsb' 8 4≠9#4 then
    r_year.extractLsb' 12 2++(r_year.extractLsb' 8 4+1#4)++0#8
  else (r_year.extractLsb' 12 2+1#2)++0#12

variable (d : Date)

/-- The date of the next day. -/
def tomorrow : Date :=
  let last := s_end_of_month (s_year_leap d.r_year) d.r_month d.r_day
  let s_end_of_year := last && d.r_month==0x12
  { r_day := nextDay last d.r_day
    r_month := nextMonth last s_end_of_year d.r_month
    r_year := if s_end_of_year then nextYear d.r_year else d.r_year }

/-- What is written with the register of the date. -/
def written (data : BitVec 32) : Date :=
  ⟨data.extractLsb' 0 6,data.extractLsb' 8 5,data.extractLsb' 16 14⟩

def step (new_day_i : Bool) (i : Input) : Date :=
  if i.s_rtc_date_update then written i.reg_if_wdata_i
  else if new_day_i then d.tomorrow
  else d

end Date

variable (s : State) (i : Input)

def rtc_event_o : Bool := s.alarm.s_alarm_event s.time i || s.timer.s_timer_event

def step : State where
  time := s.time.step i
  alarm := s.alarm.step s.time i
  timer := s.timer.step i
  date := s.date.step s.time.update_day_o i

end Model

section Digits

/-- The value of a vector of decimal digits. -/
def bcd {w : ℕ} (r : BitVec w) : ℕ := 10*(r.toNat/16)+r.toNat%16

/-- The lower digit is one. -/
def Decimal {w : ℕ} (r : BitVec w) : Prop := r.toNat%16 ≤ 9

instance {w : ℕ} (r : BitVec w) : Decidable (Decimal r) := inferInstanceAs (Decidable (_ ≤ _))

theorem nextSixty_spec : ∀ r : BitVec 8, Decimal r → bcd r < 60 →
    Decimal (Time.nextSixty r) ∧ bcd (Time.nextSixty r)=(bcd r+1)%60 ∧
      (r==0x59)=decide (bcd r=59) := by
  decide +kernel

theorem nextHours_spec : ∀ r : BitVec 7, Decimal r → bcd r < 24 →
    Decimal (Time.nextHours r) ∧ bcd (Time.nextHours r)=(bcd r+1)%24 ∧
      (r==0x23)=decide (bcd r=23) := by
  decide +kernel

/-- A month and a day of it. -/
structure DayOf (leap : Bool) (r_month : BitVec 5) (r_day : BitVec 6) : Prop where
  month : Decimal r_month
  day : Decimal r_day
  first_month : 1 ≤ bcd r_month
  last_month : bcd r_month ≤ 12
  first_day : 1 ≤ bcd r_day
  last_day : bcd r_day ≤ monthLength leap (bcd r_month)

instance (leap : Bool) (r_month : BitVec 5) (r_day : BitVec 6) :
    Decidable (DayOf leap r_month r_day) :=
  decidable_of_iff (Decimal r_month ∧ Decimal r_day ∧ 1 ≤ bcd r_month ∧ bcd r_month ≤ 12 ∧
      1 ≤ bcd r_day ∧ bcd r_day ≤ monthLength leap (bcd r_month))
    ⟨fun ⟨h1,h2,h3,h4,h5,h6⟩ => ⟨h1,h2,h3,h4,h5,h6⟩,fun ⟨h1,h2,h3,h4,h5,h6⟩ => ⟨h1,h2,h3,h4,h5,h6⟩⟩

/-- The next day of a year, or the end of the year. -/
theorem nextDay_spec : ∀ (leap : Bool) (m : BitVec 5) (d : BitVec 6), DayOf leap m d →
    dayOfYear leap (bcd m) (bcd d) ≤ 364+leap.toNat ∧
    if Date.s_end_of_month leap m d && m==0x12 then
      dayOfYear leap (bcd m) (bcd d)=364+leap.toNat
    else
      DayOf leap (Date.nextMonth (Date.s_end_of_month leap m d) false m)
          (Date.nextDay (Date.s_end_of_month leap m d) d) ∧
        dayOfYear leap (bcd (Date.nextMonth (Date.s_end_of_month leap m d) false m))
          (bcd (Date.nextDay (Date.s_end_of_month leap m d) d))=
            dayOfYear leap (bcd m) (bcd d)+1 := by
  decide +kernel

/-- The value of a year of four digits, the first of which is at most three. -/
def yearValue (r_year : BitVec 14) : ℕ :=
  100*bcd (r_year.extractLsb' 8 6)+bcd (r_year.extractLsb' 0 8)

/-- All digits of a year are decimal. -/
def DecimalYear (r_year : BitVec 14) : Prop :=
  Decimal (r_year.extractLsb' 8 6) ∧ Decimal (r_year.extractLsb' 0 8) ∧
    bcd (r_year.extractLsb' 0 8) < 100

instance (r_year : BitVec 14) : Decidable (DecimalYear r_year) :=
  inferInstanceAs (Decidable (_ ∧ _ ∧ _))

section Year

variable {y : BitVec 14} {a b c d : ℕ}

theorem upper_of_digits (h : y.toNat=4096*a+256*b+16*c+d) (hc : c < 16) (hd : d < 16) :
    (y.extractLsb' 8 6).toNat=16*a+b := by
  have hlt := y.isLt
  rw [BitVec.extractLsb'_toNat,Nat.shiftRight_eq_div_pow,h]
  omega

theorem lower_of_digits (h : y.toNat=4096*a+256*b+16*c+d) (hc : c < 16) (hd : d < 16) :
    (y.extractLsb' 0 8).toNat=16*c+d := by
  rw [BitVec.extractLsb'_toNat,Nat.shiftRight_zero,h]
  omega

theorem yearValue_of_digits (h : y.toNat=4096*a+256*b+16*c+d) (hb : b < 16) (hc : c < 16)
    (hd : d < 16) : yearValue y=1000*a+100*b+10*c+d := by
  rw [yearValue,bcd,bcd,upper_of_digits h hc hd,lower_of_digits h hc hd]
  omega

theorem yearValue_lt (h : y.toNat=4096*a+256*b+16*c+d) (ha : a < 4) (hb : b ≤ 9) (hc : c ≤ 9)
    (hd : d ≤ 9) : yearValue y < 4000 := by
  rw [yearValue_of_digits h (by omega) (by omega) (by omega)]
  omega

theorem decimal_of_digits (h : y.toNat=4096*a+256*b+16*c+d) (hb : b ≤ 9) (hc : c ≤ 9)
    (hd : d ≤ 9) : DecimalYear y := by
  rw [DecimalYear,Decimal,Decimal,bcd,upper_of_digits h (by omega) (by omega),
    lower_of_digits h (by omega) (by omega)]
  omega

/-- A year is known by its digits. -/
theorem year_of_digits {v : ℕ} (h : y.toNat=4096*a+256*b+16*c+d) (hb : b ≤ 9) (hc : c ≤ 9)
    (hd : d ≤ 9) (hv : 1000*a+100*b+10*c+d=v) : DecimalYear y ∧ yearValue y=v :=
  ⟨decimal_of_digits h hb hc hd,(yearValue_of_digits h (by omega) (by omega) (by omega)).trans hv⟩

/-- The digits of a year. -/
theorem digits_of_decimal (h : DecimalYear y) : ∃ a b c d : ℕ,
    y.toNat=4096*a+256*b+16*c+d ∧ a < 4 ∧ b ≤ 9 ∧ c ≤ 9 ∧ d ≤ 9 := by
  have hlt := y.isLt
  rcases h with ⟨hupper,hlower,hless⟩
  rw [Decimal,BitVec.extractLsb'_toNat,Nat.shiftRight_eq_div_pow] at hupper
  rw [Decimal,BitVec.extractLsb'_toNat,Nat.shiftRight_zero] at hlower
  rw [bcd,BitVec.extractLsb'_toNat,Nat.shiftRight_zero] at hless
  exact ⟨y.toNat/4096,y.toNat/256%16,y.toNat/16%16,y.toNat%16,by omega,by omega,by omega,by omega,
    by omega⟩

/-- A part of a year as a number. -/
theorem part_of_digits (h : y.toNat=4096*a+256*b+16*c+d) (p n : ℕ) :
    (y.extractLsb' p n).toNat=(4096*a+256*b+16*c+d)/2^p%2^n := by
  rw [BitVec.extractLsb'_toNat,Nat.shiftRight_eq_div_pow,h]

theorem digit_eq_nine (h : y.toNat=4096*a+256*b+16*c+d) {p x : ℕ}
    (hx : (4096*a+256*b+16*c+d)/2^p%2^4=x) : y.extractLsb' p 4=9#4 ↔ x=9 := by
  rw [←BitVec.toNat_inj,part_of_digits h,hx]
  rfl

/-- The year after a year. -/
theorem nextYear_spec (h : DecimalYear y) :
    DecimalYear (Date.nextYear y) ∧ yearValue (Date.nextYear y)=(yearValue y+1)%4000 := by
  rcases digits_of_decimal h with ⟨a,b,c,d,hy,ha,hb,hc,hd⟩
  have hone := digit_eq_nine hy (p:=0) (x:=d) (by omega)
  have hten := digit_eq_nine hy (p:=4) (x:=c) (by omega)
  have hhundred := digit_eq_nine hy (p:=8) (x:=b) (by omega)
  rw [yearValue_of_digits hy (by omega) (by omega) (by omega),Date.nextYear]
  -- the carry goes up digit by digit, and out of the first one after 3999
  by_cases hd9 : d=9
  · rw [if_neg (not_not.mpr (hone.mpr hd9))]
    by_cases hc9 : c=9
    · rw [if_neg (not_not.mpr (hten.mpr hc9))]
      by_cases hb9 : b=9
      · rw [if_neg (not_not.mpr (hhundred.mpr hb9))]
        have hnext : ((y.extractLsb' 12 2+1#2)++0#12).toNat=4096*((a+1)%4)+256*0+16*0+0 := by
          rw [Bits.toNat_join,BitVec.toNat_add,part_of_digits hy]
          show ((4096*a+256*b+16*c+d)/2^12%2^2+1)%2^2*2^12+0=_
          omega
        exact year_of_digits hnext (by omega) (by omega) (by omega) (by omega)
      · rw [if_pos (mt hhundred.mp hb9)]
        have hnext : (y.extractLsb' 12 2++(y.extractLsb' 8 4+1#4)++0#8).toNat=
            4096*a+256*(b+1)+16*0+0 := by
          rw [Bits.toNat_join,Bits.toNat_join,BitVec.toNat_add,part_of_digits hy,part_of_digits hy]
          show ((4096*a+256*b+16*c+d)/2^12%2^2*2^4+
            ((4096*a+256*b+16*c+d)/2^8%2^4+1)%2^4)*2^8+0=_
          omega
        exact year_of_digits hnext (by omega) (by omega) (by omega) (by omega)
    · rw [if_pos (mt hten.mp hc9)]
      have hnext : (y.extractLsb' 8 6++(y.extractLsb' 4 4+1#4)++0#4).toNat=
          4096*a+256*b+16*(c+1)+0 := by
        rw [Bits.toNat_join,Bits.toNat_join,BitVec.toNat_add,part_of_digits hy,part_of_digits hy]
        show ((4096*a+256*b+16*c+d)/2^8%2^6*2^4+
          ((4096*a+256*b+16*c+d)/2^4%2^4+1)%2^4)*2^4+0=_
        omega
      exact year_of_digits hnext (by omega) (by omega) (by omega) (by omega)
  · rw [if_pos (mt hone.mp hd9)]
    have hnext : (y.extractLsb' 4 10++(y.extractLsb' 0 4+1#4)).toNat=
        4096*a+256*b+16*c+(d+1) := by
      rw [Bits.toNat_join,BitVec.toNat_add,part_of_digits hy,part_of_digits hy]
      show (4096*a+256*b+16*c+d)/2^4%2^10*2^4+((4096*a+256*b+16*c+d)/2^0%2^4+1)%2^4=_
      omega
    exact year_of_digits hnext (by omega) (by omega) (by omega) (by omega)

theorem bit_of_digits (h : y.toNat=4096*a+256*b+16*c+d) (k : ℕ) :
    y.getLsbD k=decide ((4096*a+256*b+16*c+d)/2^k%2=1) := by
  rw [BitVec.getLsbD,Nat.testBit_eq_decide_div_mod_eq,h]

/-- The leap years are those of the calendar. -/
theorem s_year_leap_eq (h : DecimalYear y) : Date.s_year_leap y=leap (yearValue y) := by
  rcases digits_of_decimal h with ⟨a,b,c,d,hy,ha,hb,hc,hd⟩
  have hfour : Date.s_year_div_4 y=decide ((1000*a+100*b+10*c+d)%4=0) := by
    rw [Date.s_year_div_4,bit_of_digits hy,bit_of_digits hy,bit_of_digits hy,Bool.eq_iff_iff]
    simp only [Bool.and_eq_true,Bool.not_eq_true',decide_eq_false_iff_not,beq_iff_eq,
      decide_eq_decide,decide_eq_true_eq]
    omega
  have hcentury : Date.s_year_century y=decide ((1000*a+100*b+10*c+d)%100=0) := by
    rw [Date.s_year_century,Bool.eq_iff_iff,beq_iff_eq,decide_eq_true_eq,←BitVec.toNat_inj,
      lower_of_digits hy (by omega) (by omega)]
    show 16*c+d=0 ↔ _
    omega
  have hround : Date.s_year_400 y=decide ((10*a+b)%4=0) := by
    rw [Date.s_year_400,bit_of_digits hy,bit_of_digits hy,bit_of_digits hy,Bool.eq_iff_iff]
    simp only [Bool.and_eq_true,Bool.not_eq_true',decide_eq_false_iff_not,beq_iff_eq,
      decide_eq_decide,decide_eq_true_eq]
    omega
  rw [Date.s_year_leap,leap,hfour,hcentury,hround,
    yearValue_of_digits hy (by omega) (by omega) (by omega),Bool.eq_iff_iff]
  simp only [Bool.and_eq_true,Bool.or_eq_true,Bool.not_eq_true',decide_eq_false_iff_not,
    decide_eq_true_eq]
  omega

end Year

end Digits

section Steps

/-- The time is one of a day. -/
structure Time.Valid (t : Time) : Prop where
  seconds : Decimal t.r_seconds
  minutes : Decimal t.r_minutes
  hours : Decimal t.r_hours
  seconds_lt : bcd t.r_seconds < 60
  minutes_lt : bcd t.r_minutes < 60
  hours_lt : bcd t.r_hours < 24

instance (t : Time) : Decidable t.Valid :=
  decidable_of_iff (Decimal t.r_seconds ∧ Decimal t.r_minutes ∧ Decimal t.r_hours ∧
      bcd t.r_seconds < 60 ∧ bcd t.r_minutes < 60 ∧ bcd t.r_hours < 24)
    ⟨fun ⟨h1,h2,h3,h4,h5,h6⟩ => ⟨h1,h2,h3,h4,h5,h6⟩,fun ⟨h1,h2,h3,h4,h5,h6⟩ => ⟨h1,h2,h3,h4,h5,h6⟩⟩

/-- The date is one of the calendar. -/
structure Date.Valid (d : Date) : Prop where
  year : DecimalYear d.r_year
  day : DayOf (leap (yearValue d.r_year)) d.r_month d.r_day

instance (d : Date) : Decidable d.Valid :=
  decidable_of_iff (DecimalYear d.r_year ∧ DayOf (leap (yearValue d.r_year)) d.r_month d.r_day)
    ⟨fun ⟨h1,h2⟩ => ⟨h1,h2⟩,fun ⟨h1,h2⟩ => ⟨h1,h2⟩⟩

/-- The second of the day. -/
def Time.second (t : Time) : ℕ := 3600*bcd t.r_hours+60*bcd t.r_minutes+bcd t.r_seconds

/-- The number of the day. -/
def Date.number (d : Date) : ℕ := dayNumber (yearValue d.r_year) (bcd d.r_month) (bcd d.r_day)

theorem Time.second_lt {t : Time} (h : t.Valid) : t.second < 86400 := by
  have hseconds := h.seconds_lt
  have hminutes := h.minutes_lt
  have hhours := h.hours_lt
  rw [Time.second]
  omega

/-- A cycle of the clock. -/
theorem Time.step_spec {t : Time} {i : Input} (h : t.Valid) (hi : i.s_rtc_clock_update=false) :
    (t.step i).Valid ∧ 32768*(t.step i).second+(t.step i).r_sec_counter.toNat+
      (if t.update_day_o then 32768*86400 else 0)=32768*t.second+t.r_sec_counter.toNat+1 := by
  rcases nextSixty_spec _ h.seconds h.seconds_lt with ⟨hs,hs',hs59⟩
  rcases nextSixty_spec _ h.minutes h.minutes_lt with ⟨hm,hm',hm59⟩
  rcases nextHours_spec _ h.hours h.hours_lt with ⟨hh,hh',hh23⟩
  have hsl := h.seconds_lt
  have hml := h.minutes_lt
  have hhl := h.hours_lt
  have hsn : bcd (nextSixty t.r_seconds) < 60 := hs' ▸ Nat.mod_lt _ (by decide)
  have hmn : bcd (nextSixty t.r_minutes) < 60 := hm' ▸ Nat.mod_lt _ (by decide)
  have hhn : bcd (nextHours t.r_hours) < 24 := hh' ▸ Nat.mod_lt _ (by decide)
  have hcounter : (t.r_sec_counter+1).toNat=(t.r_sec_counter.toNat+1)%32768 := BitVec.toNat_add _ _
  have hlt := t.r_sec_counter.isLt
  rw [Time.step,hi,if_neg Bool.false_ne_true,Time.update_day_o,Time.s_update_hours,
    Time.s_update_minutes,hs59,hm59,hh23,Time.second,Time.second]
  -- what carries is what the comparisons with 59 and 23 see before the edge
  by_cases hfull : t.s_update_seconds=true
  · have hlast : t.r_sec_counter.toNat=32767 := congrArg BitVec.toNat (eq_of_beq hfull)
    rw [hfull]
    simp only [Bool.true_and,if_true]
    by_cases hs9 : bcd t.r_seconds=59
    · simp only [decide_eq_true hs9,Bool.true_and,if_true]
      by_cases hm9 : bcd t.r_minutes=59
      · simp only [decide_eq_true hm9,Bool.true_and,if_true]
        refine ⟨⟨hs,hm,hh,hsn,hmn,hhn⟩,?_⟩
        rw [hs',hm',hh',hcounter,hlast,hs9,hm9]
        by_cases hh3 : bcd t.r_hours=23
        · rw [decide_eq_true hh3,if_pos rfl,hh3]
        · rw [decide_eq_false hh3,if_neg Bool.false_ne_true]
          omega
      · simp only [decide_eq_false hm9,Bool.false_and,Bool.false_eq_true,if_false]
        refine ⟨⟨hs,hm,h.hours,hsn,hmn,hhl⟩,?_⟩
        rw [hs',hm',hcounter,hlast,hs9]
        omega
    · simp only [decide_eq_false hs9,Bool.false_and,Bool.false_eq_true,if_false]
      refine ⟨⟨hs,h.minutes,h.hours,hsn,hml,hhl⟩,?_⟩
      rw [hs',hcounter,hlast]
      omega
  · have hmore : t.r_sec_counter.toNat≠32767 := fun h => hfull (beq_iff_eq.mpr
      (BitVec.eq_of_toNat_eq h))
    rw [Bool.eq_false_iff.mpr hfull]
    simp only [Bool.false_and,Bool.false_eq_true,if_false]
    refine ⟨⟨h.seconds,h.minutes,h.hours,hsl,hml,hhl⟩,?_⟩
    rw [hcounter]
    omega

/-- The next day. -/
theorem Date.tomorrow_spec {d : Date} (h : d.Valid) :
    d.tomorrow.Valid ∧ d.tomorrow.number=(d.number+1)%days ∧ d.number < days := by
  have hleap := s_year_leap_eq h.year
  rcases nextYear_spec h.year with ⟨hyear,hvalue⟩
  rcases nextDay_spec _ _ _ h.day with ⟨hless,hnext⟩
  have hsucc := yearStart_succ (yearValue d.r_year)
  have hlt : yearValue d.r_year < 4000 := by
    rcases digits_of_decimal h.year with ⟨a,b,c,d,hy,ha,hb,hc,hd⟩
    exact yearValue_lt hy ha hb hc hd
  have hend := yearStart_mono (Nat.succ_le_of_lt hlt)
  rw [hsucc,yearStart_days] at hend
  have hnumber : d.number < days := by
    rw [Date.number,dayNumber]
    omega
  cases hlast : (Date.s_end_of_month (leap (yearValue d.r_year)) d.r_month d.r_day &&
    d.r_month==0x12) with
  | false =>
    rw [hlast,if_neg Bool.false_ne_true] at hnext
    have htomorrow : d.tomorrow=
        ⟨nextDay (Date.s_end_of_month (leap (yearValue d.r_year)) d.r_month d.r_day) d.r_day,
          nextMonth (Date.s_end_of_month (leap (yearValue d.r_year)) d.r_month d.r_day) false
            d.r_month,d.r_year⟩ := by
      rw [Date.tomorrow,hleap,hlast]
      rfl
    have hbound := (nextDay_spec _ _ _ hnext.1).1
    rw [hnext.2] at hbound
    rw [htomorrow]
    refine ⟨⟨h.year,hnext.1⟩,?_,hnumber⟩
    show dayNumber (yearValue d.r_year) _ _=_
    rw [dayNumber,hnext.2,Date.number,dayNumber,Nat.mod_eq_of_lt (by omega)]
    rfl
  | true =>
    rw [hlast,if_pos rfl] at hnext
    have hmonth : Date.s_end_of_month (leap (yearValue d.r_year)) d.r_month d.r_day=true :=
      (Bool.and_eq_true_iff.mp hlast).1
    have htomorrow : d.tomorrow=⟨1,1,nextYear d.r_year⟩ := by
      rw [Date.tomorrow,hleap,hlast,hmonth]
      rfl
    have hfirst : ∀ l, DayOf l 1 1 ∧ dayOfYear l (bcd 1#5) (bcd 1#6)=0 := by decide
    rw [htomorrow]
    refine ⟨⟨hyear,(hfirst _).1⟩,?_,hnumber⟩
    show dayNumber (yearValue (nextYear d.r_year)) (bcd 1#5) (bcd 1#6)=_
    rw [dayNumber,(hfirst _).2,hvalue,dayNumber_wrap hlt,hsucc,Date.number,dayNumber,hnext,
      Nat.add_zero]
    exact congrArg (·%days) (by omega)

variable {s : State} {i : Input}

/-- Time and date are set to times and dates only. -/
structure Sensible (i : Input) : Prop where
  time : i.s_rtc_clock_update=true → (Time.written i.reg_if_wdata_i).Valid
  date : i.s_rtc_date_update=true → (Date.written i.reg_if_wdata_i).Valid

instance (i : Input) : Decidable (Sensible i) :=
  decidable_of_iff ((i.s_rtc_clock_update=true → (Time.written i.reg_if_wdata_i).Valid) ∧
      (i.s_rtc_date_update=true → (Date.written i.reg_if_wdata_i).Valid))
    ⟨fun ⟨h1,h2⟩ => ⟨h1,h2⟩,fun ⟨h1,h2⟩ => ⟨h1,h2⟩⟩

/-- Neither time nor date is set. -/
def Undisturbed (i : Input) : Prop := i.s_rtc_clock_update=false ∧ i.s_rtc_date_update=false

instance (i : Input) : Decidable (Undisturbed i) := inferInstanceAs (Decidable (_ ∧ _))

theorem Undisturbed.sensible (h : Undisturbed i) : Sensible i :=
  ⟨fun hset => absurd hset (Bool.eq_false_iff.mp h.1),
    fun hset => absurd hset (Bool.eq_false_iff.mp h.2)⟩

/-- The registers show a time and a date. -/
def Valid (s : State) : Prop := s.time.Valid ∧ s.date.Valid

instance (s : State) : Decidable (Valid s) := inferInstanceAs (Decidable (_ ∧ _))

theorem valid_step (h : Valid s) (hi : Sensible i) : Valid (step s i) := by
  constructor
  · show (s.time.step i).Valid
    cases hset : i.s_rtc_clock_update with
    | true =>
      rw [Time.step,hset,if_pos rfl]
      exact hi.time hset
    | false => exact (Time.step_spec h.1 hset).1
  · show (s.date.step s.time.update_day_o i).Valid
    rw [Date.step]
    split_ifs with hset hday
    · exact hi.date hset
    · exact (Date.tomorrow_spec h.2).1
    · exact h.2

/-- The cycles of the clock since the first day of the year zero. -/
def cycles (s : State) : ℕ :=
  32768*86400*s.date.number+(32768*s.time.second+s.time.r_sec_counter.toNat)

/-- The cycles of four thousand years. -/
def period : ℕ := 32768*86400*days

theorem cycles_lt (h : Valid s) : cycles s < period := by
  have hsecond := Time.second_lt h.1
  have hnumber := (Date.tomorrow_spec h.2).2.2
  have hcounter := s.time.r_sec_counter.isLt
  rw [cycles,period]
  omega

/-- One cycle of the clock. -/
theorem cycles_step (h : Valid s) (hi : Undisturbed i) : cycles (step s i)=(cycles s+1)%period := by
  rcases Time.step_spec h.1 hi.1 with ⟨hvalid,htime⟩
  rcases Date.tomorrow_spec h.2 with ⟨htomorrow,hnumber,hlt⟩
  have hnext := cycles_lt (valid_step h hi.sensible)
  have hdate : (step s i).date=if s.time.update_day_o then s.date.tomorrow else s.date := by
    show s.date.step s.time.update_day_o i=_
    rw [Date.step,hi.2,if_neg Bool.false_ne_true]
  have hsecond := Time.second_lt hvalid
  have hcounter := (s.time.step i).r_sec_counter.isLt
  rw [cycles,hdate] at hnext
  rw [cycles,hdate]
  change 32768*86400*_+(32768*(s.time.step i).second+(s.time.step i).r_sec_counter.toNat) < _
    at hnext
  change 32768*86400*_+(32768*(s.time.step i).second+(s.time.step i).r_sec_counter.toNat)=_
  cases hday : s.time.update_day_o with
  | false =>
    rw [hday,if_neg Bool.false_ne_true] at hnext
    rw [hday,if_neg Bool.false_ne_true,Nat.add_zero] at htime
    rw [htime,←Nat.add_assoc] at hnext
    rw [if_neg Bool.false_ne_true,htime,←Nat.add_assoc,cycles,Nat.mod_eq_of_lt hnext]
  | true =>
    have hbefore := Time.second_lt h.1
    have hcount := s.time.r_sec_counter.isLt
    rw [hday,if_pos rfl] at htime
    have hmidnight : 32768*(s.time.step i).second+(s.time.step i).r_sec_counter.toNat=0 := by omega
    have htotal : 32768*86400*s.date.number+(32768*s.time.second+s.time.r_sec_counter.toNat)+1=
        32768*86400*(s.date.number+1) := by omega
    rw [if_pos rfl,hnumber,hmidnight,cycles,htotal,period,Nat.mul_mod_mul_left,Nat.add_zero]

end Steps

section Runs

theorem valid_run {is : List Input} (h : Valid reset) (his : ∀ i∈is, Sensible i) :
    Valid (Machine.after step reset is) := by
  induction is using List.reverseRecOn with
  | nil => exact h
  | append_singleton is i ih =>
    rw [Machine.after_concat]
    exact valid_step (ih fun j hj => his j (List.mem_append_left _ hj))
      (his i (List.mem_append_right _ (List.mem_singleton_self i)))

theorem cycles_run {s : State} {is : List Input} (h : Valid s) (his : ∀ i∈is, Undisturbed i) :
    cycles (Machine.after step s is)=(cycles s+is.length)%period := by
  induction is generalizing s with
  | nil => exact (Nat.mod_eq_of_lt (cycles_lt h)).symm
  | cons i is ih =>
    have hi := his i List.mem_cons_self
    rw [Machine.after_cons,ih (valid_step h hi.sensible) fun j hj =>
      his j (List.mem_cons_of_mem _ hj),cycles_step h hi,List.length_cons,Nat.mod_add_mod,
      Nat.add_assoc,Nat.add_comm 1]

/-- However time and date are set, as long as it is to times and dates, they are a time of a day
and a date of the calendar, and go on by one cycle in every cycle after they were set. -/
theorem keeps_time (before later : List Input) (hbefore : ∀ i∈before, Sensible i)
    (hlater : ∀ i∈later, Undisturbed i) :
    Valid (Machine.after step reset (before++later)) ∧
      cycles (Machine.after step reset (before++later))=
        (cycles (Machine.after step reset before)+later.length)%period := by
  have hvalid := valid_run (by decide +kernel) hbefore
  have hall : ∀ i∈before++later, Sensible i := fun i hi => by
    rcases List.mem_append.mp hi with hold | hnew
    · exact hbefore i hold
    · exact (hlater i hnew).sensible
  refine ⟨valid_run (by decide +kernel) hall,?_⟩
  rw [Machine.after_append]
  exact cycles_run hvalid hlater

/-- A leap year, up to its last cycle. -/
def newYear : List Input :=
  [⟨true,false,REG_RTC_DATE,0x20241231#32⟩,⟨true,false,REG_RTC_CLOCK,0xFFE35959#32⟩]++
    List.replicate 31 ⟨false,false,0,0⟩

theorem keeps_time_newYear :
    Valid (Machine.after step reset (newYear++[⟨false,false,0,0⟩])) ∧
      cycles (Machine.after step reset (newYear++[⟨false,false,0,0⟩]))=
        (cycles (Machine.after step reset newYear)+1)%period :=
  keeps_time newYear [⟨false,false,0,0⟩] (by decide +kernel) (by decide +kernel)

/-- A timer that starts again counts its target and zero. -/
theorem timer_again {n : BitVec 17} {is : List Input}
    (his : ∀ i∈is, i.s_rtc_timer_update=false) :
    Machine.after Timer.step ⟨true,true,n,0⟩ is=
      ⟨true,true,n,BitVec.ofNat 17 (is.length%(n.toNat+1))⟩ := by
  induction is using List.reverseRecOn with
  | nil => rfl
  | append_singleton is i ih =>
    have hi := his i (List.mem_append_right _ (List.mem_singleton_self i))
    have hlt : is.length%(n.toNat+1) < n.toNat+1 := Nat.mod_lt _ n.toNat.succ_pos
    have hn := n.isLt
    rw [Machine.after_concat,ih fun j hj => his j (List.mem_append_left _ hj),Timer.step,hi,
      if_neg Bool.false_ne_true,if_pos rfl,Timer.s_timer_match,List.length_append,
      List.length_singleton,←Nat.mod_add_mod]
    generalize is.length%(n.toNat+1)=k at hlt ⊢
    by_cases hlast : k=n.toNat
    · have hmatch : (BitVec.ofNat 17 k==n)=true := by
        rw [beq_iff_eq,hlast,BitVec.ofNat_toNat,BitVec.setWidth_eq]
      rw [hmatch,if_pos rfl,hlast,Nat.mod_self]
      rfl
    · have hmatch : (BitVec.ofNat 17 k==n)=false := by
        rw [beq_eq_false_iff_ne,Ne,←BitVec.toNat_inj,BitVec.toNat_ofNat,
          Nat.mod_eq_of_lt (by omega)]
        exact hlast
      rw [hmatch,if_neg Bool.false_ne_true,Nat.mod_eq_of_lt (by omega),BitVec.ofNat_add]
      rfl

/-- A timer that does not start again stops after its target. -/
theorem timer_once {n : BitVec 17} {is : List Input}
    (his : ∀ i∈is, i.s_rtc_timer_update=false) :
    Machine.after Timer.step ⟨true,false,n,0⟩ is=
      if is.length ≤ n.toNat then ⟨true,false,n,BitVec.ofNat 17 is.length⟩
      else ⟨false,false,n,0⟩ := by
  induction is using List.reverseRecOn with
  | nil => rfl
  | append_singleton is i ih =>
    have hi := his i (List.mem_append_right _ (List.mem_singleton_self i))
    have hn := n.isLt
    rw [Machine.after_concat,ih fun j hj => his j (List.mem_append_left _ hj),Timer.step,hi,
      if_neg Bool.false_ne_true,List.length_append,List.length_singleton]
    rcases Nat.lt_trichotomy is.length n.toNat with hlt | heq | hgt
    · have hmatch : (BitVec.ofNat 17 is.length==n)=false := by
        rw [beq_eq_false_iff_ne,Ne,←BitVec.toNat_inj,BitVec.toNat_ofNat,
          Nat.mod_eq_of_lt (by omega)]
        omega
      rw [if_pos (Nat.le_of_lt hlt),if_pos (Nat.succ_le_of_lt hlt),if_pos rfl,Timer.s_timer_match,
        hmatch,if_neg Bool.false_ne_true,BitVec.ofNat_add]
      rfl
    · have hmatch : (BitVec.ofNat 17 is.length==n)=true := by
        rw [beq_iff_eq,heq,BitVec.ofNat_toNat,BitVec.setWidth_eq]
      rw [if_pos (Nat.le_of_eq heq),if_neg (by omega : ¬is.length+1 ≤ n.toNat),if_pos rfl,
        Timer.s_timer_match,hmatch,if_pos rfl]
    · rw [if_neg (by omega : ¬is.length ≤ n.toNat),if_neg (by omega : ¬is.length+1 ≤ n.toNat)]
      rfl

/-- A run of the timer is a run of the timer alone. -/
theorem timer_after (s : State) (is : List Input) :
    (Machine.after step s is).timer=Machine.after Timer.step s.timer is := by
  induction is generalizing s with
  | nil => rfl
  | cons i is ih => exact ih (step s i)

/-- The event of a timer that was set: in every last one of as many cycles as its target and one,
or once. -/
theorem rings_in_time (before later : List Input) (arm : Input)
    (hset : arm.s_rtc_timer_update=true) (henable : arm.reg_if_wdata_i.getLsbD 31=true)
    (hlater : ∀ i∈later, i.s_rtc_timer_update=false) :
    (Machine.after step reset (before++[arm]++later)).timer.s_timer_event=
      if arm.reg_if_wdata_i.getLsbD 30 then
        decide (later.length%((arm.reg_if_wdata_i.extractLsb' 0 17).toNat+1)=
          (arm.reg_if_wdata_i.extractLsb' 0 17).toNat)
      else decide (later.length=(arm.reg_if_wdata_i.extractLsb' 0 17).toNat) := by
  have hstart : (Machine.after step reset (before++[arm])).timer=
      ⟨true,arm.reg_if_wdata_i.getLsbD 30,arm.reg_if_wdata_i.extractLsb' 0 17,0⟩ := by
    rw [Machine.after_concat]
    show Timer.step _ arm=_
    rw [Timer.step,hset,if_pos rfl,henable]
  generalize arm.reg_if_wdata_i.extractLsb' 0 17=n at hstart ⊢
  have hn := n.isLt
  have hvalue : ∀ k, k ≤ n.toNat → (BitVec.ofNat 17 k==n)=decide (k=n.toNat) := by
    intro k hk
    rw [Bool.eq_iff_iff,beq_iff_eq,decide_eq_true_eq,←BitVec.toNat_inj,BitVec.toNat_ofNat,
      Nat.mod_eq_of_lt (by omega)]
  rw [Machine.after_append,timer_after,hstart]
  cases arm.reg_if_wdata_i.getLsbD 30 with
  | true =>
    rw [timer_again hlater,if_pos rfl]
    exact hvalue _ (Nat.le_of_lt_succ (Nat.mod_lt _ n.toNat.succ_pos))
  | false =>
    rw [timer_once hlater,if_neg Bool.false_ne_true]
    split_ifs with hless
    · exact hvalue _ hless
    · exact (decide_eq_false (by omega)).symm

theorem rings_in_time_three :
    (Machine.after step reset ([]++[⟨true,false,REG_RTC_TIMER,0xC0000002#32⟩]++
      List.replicate 8 ⟨false,false,0,0⟩)).timer.s_timer_event=true :=
  rings_in_time [] (List.replicate 8 ⟨false,false,0,0⟩) ⟨true,false,REG_RTC_TIMER,0xC0000002#32⟩
    (by decide) (by decide) (by decide)

end Runs

end Pulpissimo.Soc.RealTime

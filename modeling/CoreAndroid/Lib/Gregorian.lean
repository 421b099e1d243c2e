import CoreAndroid.Lib.Spans

/-! Civil dates of the proleptic Gregorian calendar from 1970 on, and the number
of seconds from 1970-01-01 00:00:00 to one of them. Months count from 0. -/
namespace Gregorian
open Spans

def IsLeap (y : Nat) : Prop := y % 4 = 0 ∧ (y % 100 ≠ 0 ∨ y % 400 = 0)

instance (y : Nat) : Decidable (IsLeap y) :=
  inferInstanceAs (Decidable (_ ∧ _))

def yearLength (y : Nat) : Nat := if IsLeap y then 366 else 365

def monthLength (y : Nat) : Nat → Nat
  | 0 => 31
  | 1 => if IsLeap y then 29 else 28
  | 2 => 31
  | 3 => 30
  | 4 => 31
  | 5 => 30
  | 6 => 31
  | 7 => 31
  | 8 => 30
  | 9 => 31
  | 10 => 30
  | 11 => 31
  | _ => 0

/-- A date and time of day that the calendar and the clock can show. -/
structure CivilTime where
  year : Nat
  month : Nat
  day : Nat
  hour : Nat
  minute : Nat
  second : Nat
  year_ge : 1970 ≤ year
  month_lt : month < 12
  day_pos : 1 ≤ day
  day_le : day ≤ monthLength year month
  hour_lt : hour < 24
  minute_lt : minute < 60
  second_lt : second < 60

def epochYearLength (i : Nat) : Nat := yearLength (1970 + i)

/-- Days from 1970-01-01 to the first day of a year. -/
def yearStart (y : Nat) : Nat := start epochYearLength (y - 1970)

/-- Days from the first day of a year to the first day of one of its months. -/
def monthStart (y m : Nat) : Nat := start (monthLength y) m

def CivilTime.dayOfYear (c : CivilTime) : Nat := monthStart c.year c.month + (c.day - 1)

def CivilTime.days (c : CivilTime) : Nat := yearStart c.year + c.dayOfYear

def CivilTime.secondOfDay (c : CivilTime) : Nat := 3600 * c.hour + 60 * c.minute + c.second

def CivilTime.seconds (c : CivilTime) : Nat := 86400 * c.days + c.secondOfDay

theorem yearLength_pos (y : Nat) : 0 < yearLength y := by
  unfold yearLength
  split <;> omega

theorem monthLength_le (y m : Nat) : monthLength y m ≤ 31 := by
  unfold monthLength
  split
  case h_2 => split <;> omega
  all_goals omega

theorem yearStart_succ (y : Nat) (h : 1970 ≤ y) :
    yearStart (y + 1) = yearStart y + yearLength y := by
  have hk : y + 1 - 1970 = y - 1970 + 1 := by omega
  have hy : 1970 + (y - 1970) = y := by omega
  rw [yearStart, hk, start_succ, epochYearLength, hy]
  rfl

@[simp] theorem yearStart_epoch : yearStart 1970 = 0 := rfl

theorem yearStart_mono {y z : Nat} (h : y ≤ z) : yearStart y ≤ yearStart z :=
  start_mono (Nat.sub_le_sub_right h 1970)

theorem monthStart_succ (y m : Nat) :
    monthStart y (m + 1) = monthStart y m + monthLength y m :=
  start_succ m

theorem monthStart_congr (y z : Nat) (h : IsLeap y ↔ IsLeap z) : monthStart y = monthStart z := by
  have hlen : monthLength y = monthLength z := by
    funext m
    unfold monthLength
    simp only [h]
  funext m
  rw [monthStart, monthStart, hlen]

theorem monthStart_twelve (y : Nat) : monthStart y 12 = yearLength y := by
  simp only [monthStart, start, Finset.sum_range_succ, Finset.sum_range_zero,
    monthLength, yearLength]
  split <;> rfl

theorem yearStart_closed (y : Nat) (h : 1970 ≤ y) :
    yearStart y + (y - 1) / 100 + 477 = 365 * (y - 1970) + (y - 1) / 4 + (y - 1) / 400 := by
  induction y, h using Nat.le_induction with
  | base => rfl
  | succ y hy ih =>
    rw [yearStart_succ y hy, yearLength]
    by_cases hl : IsLeap y
    · rw [if_pos hl]
      unfold IsLeap at hl
      omega
    · rw [if_neg hl]
      unfold IsLeap at hl
      omega

theorem yearStart_century (y : Nat) (h : 1970 ≤ y) : (yearStart y : Int) =
    365 * ((y : Int) - 1970) +
      (((y : Int) - 1) / 4 - ((y : Int) - 1) / 100 + ((y : Int) - 1) / 400 - 477) := by
  have hclosed := yearStart_closed y h
  omega

namespace CivilTime
variable (c d : CivilTime)

theorem day_lt : c.day - 1 < monthLength c.year c.month := by
  have := c.day_pos
  have := c.day_le
  omega

theorem dayOfYear_lt : c.dayOfYear < yearLength c.year := by
  have hd := c.day_lt
  have hm : monthStart c.year (c.month + 1) ≤ monthStart c.year 12 :=
    start_mono c.month_lt
  rw [monthStart_succ, monthStart_twelve] at hm
  unfold dayOfYear
  omega

theorem secondOfDay_lt : c.secondOfDay < 86400 := by
  have := c.hour_lt
  have := c.minute_lt
  have := c.second_lt
  unfold secondOfDay
  omega

theorem seconds_lt_year_iff (y : Nat) : c.seconds < 86400 * yearStart y ↔ c.year < y := by
  have hc := c.dayOfYear_lt
  have hs := yearStart_succ c.year c.year_ge
  have ht := c.secondOfDay_lt
  have hmono {a b : Nat} (hab : a ≤ b) : yearStart a ≤ yearStart b := start_mono (by omega)
  unfold seconds days
  by_cases hy : c.year < y
  · have hle := hmono (show c.year + 1 ≤ y from hy)
    omega
  · have hle := hmono (show y ≤ c.year by omega)
    omega

theorem days_lt_iff :
    c.days < d.days ↔ c.year < d.year ∨ (c.year = d.year ∧ c.dayOfYear < d.dayOfYear) := by
  have hc := c.year_ge
  have hd := d.year_ge
  have hlt (e : CivilTime) : e.dayOfYear < epochYearLength (e.year - 1970) := by
    have he : 1970 + (e.year - 1970) = e.year := by
      have := e.year_ge
      omega
    rw [epochYearLength, he]
    exact e.dayOfYear_lt
  have h := position_lt_iff (hlt c) (hlt d)
  unfold days yearStart
  rw [h]
  omega

theorem dayOfYear_lt_iff (h : c.year = d.year) :
    c.dayOfYear < d.dayOfYear ↔ c.month < d.month ∨ (c.month = d.month ∧ c.day < d.day) := by
  have hc := c.day_lt
  have hcp := c.day_pos
  have hdp := d.day_pos
  rw [h] at hc
  have hp := position_lt_iff hc d.day_lt
  unfold dayOfYear monthStart
  rw [h, hp]
  omega

/-- The second count orders civil times as their fields do, most significant first. -/
theorem seconds_lt_iff : c.seconds < d.seconds ↔
    c.year < d.year ∨ (c.year = d.year ∧ (c.month < d.month ∨ (c.month = d.month ∧
      (c.day < d.day ∨ (c.day = d.day ∧ (c.hour < d.hour ∨ (c.hour = d.hour ∧
        (c.minute < d.minute ∨ (c.minute = d.minute ∧ c.second < d.second))))))))) := by
  have hc := c.secondOfDay_lt
  have hd := d.secondOfDay_lt
  have hdays := days_lt_iff c d
  have hdays' := days_lt_iff d c
  have hs : c.seconds < d.seconds ↔
      c.days < d.days ∨ (c.days = d.days ∧ c.secondOfDay < d.secondOfDay) := by
    unfold seconds
    omega
  have hclock : c.secondOfDay < d.secondOfDay ↔ c.hour < d.hour ∨ (c.hour = d.hour ∧
      (c.minute < d.minute ∨ (c.minute = d.minute ∧ c.second < d.second))) := by
    have := c.minute_lt
    have := d.minute_lt
    have := c.second_lt
    have := d.second_lt
    unfold secondOfDay
    omega
  by_cases hy : c.year = d.year
  · have hm := dayOfYear_lt_iff c d hy
    have hm' := dayOfYear_lt_iff d c hy.symm
    omega
  · omega

theorem eq_of_seconds_eq (h : c.seconds = d.seconds) : c = d := by
  have h1 := seconds_lt_iff c d
  have h2 := seconds_lt_iff d c
  cases c
  cases d
  simp only [CivilTime.mk.injEq]
  dsimp only at h1 h2
  omega

end CivilTime
end Gregorian

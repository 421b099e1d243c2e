import CoreAndroid.Lib.Gregorian

/-! The calendar conversions of time_android.c. `int` and `long` values are
integers; the 32-bit second count wraps. Reading the month table outside its
twelve entries is `none`. -/
namespace CoreAndroid.Time
open Gregorian

structure Tm where
  tmSec : Int
  tmMin : Int
  tmHour : Int
  tmMday : Int
  tmMon : Int
  tmYear : Int
  deriving DecidableEq, Repr

def secInMinute : Int := 60
def secInHour : Int := 3600
def secInDay : Int := 86400

def daysBeforeMonthTable : List Int :=
  [0, 31, 59, 90, 120, 151, 181, 212, 243, 273, 304, 334]

def daysBeforeMonth (mon : Int) : Option Int :=
  if 0 ≤ mon then daysBeforeMonthTable[mon.toNat]? else none

def isLeap (y : Int) : Bool :=
  y.tmod 4 == 0 && (y.tmod 100 != 0 || (y + 1900).tmod 400 == 0)

def daysInYear (year : Int) : Int := if isLeap year then 366 else 365

def toUInt32 (x : Int) : UInt32 := UInt32.ofNat (x % 2 ^ 32).toNat

/-- The year loop of `ofc_time_make_time`. -/
def addYears (year tmYear days : Int) : Int :=
  if year < tmYear then addYears (year + 1) tmYear (days + daysInYear year) else days
termination_by (tmYear - year).toNat

def ofcTimeMakeTime (tm : Tm) : Option UInt32 := do
  let tim := toUInt32 (tm.tmSec + tm.tmMin * secInMinute + tm.tmHour * secInHour)
  let before ← daysBeforeMonth tm.tmMon
  let days := (tm.tmMday - 1) + before
  let days := if tm.tmMon > 1 ∧ daysInYear tm.tmYear = 366 then days + 1 else days
  let days := if tm.tmYear > 70 then addYears 70 tm.tmYear days else days
  return toUInt32 (tim.toNat + days * secInDay)

def secondCount (tm : Tm) : Option Int := do
  let tim := tm.tmSec + tm.tmMin * secInMinute + tm.tmHour * secInHour
  let before ← daysBeforeMonth tm.tmMon
  let days := (tm.tmMday - 1) + before
  let days := if tm.tmMon > 1 ∧ daysInYear tm.tmYear = 366 then days + 1 else days
  let days := if tm.tmYear > 70 then addYears 70 tm.tmYear days else days
  return tim + days * secInDay

theorem daysInYear_pos (year : Int) : 0 < daysInYear year := by
  unfold daysInYear
  split <;> omega

/-- The year loop of `ofc_time_local_time`. -/
def skipYears (days year : Int) : Int × Int :=
  if daysInYear year ≤ days then skipYears (days - daysInYear year) (year + 1) else (days, year)
termination_by days.toNat
decreasing_by
  have := daysInYear_pos year
  omega

/-- The month loop of `ofc_time_local_time`. -/
def findMonth (days mon : Int) : Option Int :=
  if mon < 11 then do
    let next ← daysBeforeMonth (mon + 1)
    if next ≤ days then findMonth days (mon + 1) else some mon
  else some mon
termination_by (11 - mon).toNat

/-- The part of `ofc_time_local_time` that turns a day of the year into a month
and the day count that the month's table entry is taken from. -/
def monthOfDay (tmYear days : Int) : Option (Int × Int) := do
  let march ← daysBeforeMonth 2
  if daysInYear tmYear = 366 then
    if days = march then some (1, days)
    else do
      -- the leap day is not in the table, so later days move back by one
      let days := if days > march then days - 1 else days
      let mon ← findMonth days 0
      some (mon, days)
  else do
    let mon ← findMonth days 0
    some (mon, days)

def ofcTimeLocalTime (time : UInt32) : Option Tm := do
  let ticksInDay : Int := time.toNat % secInDay
  let (days, tmYear) := skipYears (time.toNat / secInDay) 70
  let (tmMon, days) ← monthOfDay tmYear days
  let before ← daysBeforeMonth tmMon
  let ticksInHour := ticksInDay % secInHour
  return {
    tmYear := tmYear
    tmMon := tmMon
    tmMday := days - before + 1
    tmHour := ticksInDay / secInHour
    tmMin := ticksInHour / secInMinute
    tmSec := ticksInHour % secInMinute }

def ofCivil (c : CivilTime) : Tm where
  tmSec := c.second
  tmMin := c.minute
  tmHour := c.hour
  tmMday := c.day
  tmMon := c.month
  tmYear := (c.year : Int) - 1900

theorem toUInt32_natCast (n : Nat) : toUInt32 n = UInt32.ofNat n := by
  have h : ((n : Int) % 2 ^ 32).toNat = n % 2 ^ 32 := by omega
  rw [toUInt32, h]
  apply UInt32.toNat.inj
  simp

theorem isLeap_eq (y : Nat) (h : 1900 ≤ y) : isLeap ((y : Int) - 1900) = decide (IsLeap y) := by
  have h0 : (0 : Int) ≤ (y : Int) - 1900 := by omega
  have h1 : (0 : Int) ≤ (y : Int) - 1900 + 1900 := by omega
  rw [isLeap, Int.tmod_eq_emod_of_nonneg h0, Int.tmod_eq_emod_of_nonneg h0,
    Int.tmod_eq_emod_of_nonneg h1, Bool.eq_iff_iff, decide_eq_true_iff]
  simp only [Bool.and_eq_true, Bool.or_eq_true, beq_iff_eq, bne_iff_ne, IsLeap]
  omega

theorem daysInYear_eq (y : Nat) (h : 1900 ≤ y) : daysInYear ((y : Int) - 1900) = yearLength y := by
  rw [daysInYear, isLeap_eq y h, yearLength]
  by_cases hl : IsLeap y <;> simp [hl]

theorem daysBeforeMonth_eq (y m : Nat) (h : m < 12) :
    daysBeforeMonth m = some ((monthStart y m : Int) - if 1 < m ∧ IsLeap y then 1 else 0) := by
  have hleap : ∀ m < 12, daysBeforeMonth (m : Nat) =
      some ((monthStart 2000 m : Int) - if 1 < m then 1 else 0) := by decide
  have hcommon : ∀ m < 12, daysBeforeMonth (m : Nat) = some (monthStart 1970 m : Int) := by decide
  by_cases hl : IsLeap y
  · rw [hleap m h, monthStart_congr y 2000 (iff_of_true hl (by decide))]
    simp [hl]
  · rw [hcommon m h, monthStart_congr y 1970 (iff_of_false hl (by decide))]
    simp [hl]

theorem addYears_eq (y : Nat) (days : Int) (h : 1970 ≤ y) (k : Nat) :
    addYears ((y : Int) - 1900) ((y + k : Nat) - 1900) days =
      days + yearStart (y + k) - yearStart y := by
  induction k generalizing y days with
  | zero =>
    rw [addYears, if_neg (by omega), Nat.add_zero]
    omega
  | succ k ih =>
    have hlt : (y : Int) - 1900 < ((y + (k + 1) : Nat) : Int) - 1900 := by omega
    have hnext : (y : Int) - 1900 + 1 = ((y + 1 : Nat) : Int) - 1900 := by omega
    have hend : y + (k + 1) = y + 1 + k := by omega
    have hs := yearStart_succ y h
    rw [addYears, if_pos hlt, hnext, daysInYear_eq y (by omega), hend,
      ih (y + 1) _ (by omega)]
    omega

theorem toUInt32_toNat (x : Int) : ((toUInt32 x).toNat : Int) = x % 2 ^ 32 := by
  rw [toUInt32, UInt32.toNat_ofNat']
  omega

theorem toUInt32_wrapped (x y : Int) : toUInt32 ((toUInt32 x).toNat + y) = toUInt32 (x + y) := by
  have hsum : (x % 2 ^ 32 + y) % 2 ^ 32 = (x + y) % 2 ^ 32 := Int.emod_add_emod x _ y
  rw [toUInt32_toNat]
  unfold toUInt32
  rw [hsum]

theorem makeTime_eq (tm : Tm) : ofcTimeMakeTime tm = (secondCount tm).map toUInt32 := by
  unfold ofcTimeMakeTime secondCount
  cases daysBeforeMonth tm.tmMon with
  | none => rfl
  | some before =>
    simp only [Option.bind_eq_bind, Option.bind_some, Option.pure_def, Option.map_some,
      toUInt32_wrapped]

theorem addYears_epoch (y : Nat) (days : Int) (h : 1970 ≤ y) :
    (if (y : Int) - 1900 > 70 then addYears 70 ((y : Int) - 1900) days else days) =
      days + yearStart y := by
  have ha := addYears_eq 1970 days (le_refl _) (y - 1970)
  have hk : 1970 + (y - 1970) = y := by omega
  have h1970 : ((1970 : Nat) : Int) - 1900 = 70 := rfl
  rw [hk, yearStart_epoch, h1970] at ha
  by_cases h70 : y = 1970
  · rw [h70, if_neg (by omega), yearStart_epoch]
    omega
  · rw [if_pos (by omega), ha]
    omega

theorem daysInYear_leap (y : Nat) (h : 1970 ≤ y) :
    daysInYear ((y : Int) - 1900) = 366 ↔ IsLeap y := by
  rw [daysInYear_eq y (by omega), yearLength]
  by_cases hl : IsLeap y <;> simp [hl]

theorem secondCount_eq (tm : Tm) (y m : Nat) (hyear : tm.tmYear = (y : Int) - 1900)
    (hy : 1970 ≤ y) (hmon : tm.tmMon = m) (hm : m < 12) :
    secondCount tm = some (86400 * (yearStart y + monthStart y m + (tm.tmMday - 1)) +
      3600 * tm.tmHour + 60 * tm.tmMin + tm.tmSec) := by
  have hmon1 : (m : Int) > 1 ↔ 1 < m := by omega
  rw [secondCount, hmon, hyear, daysBeforeMonth_eq y m hm]
  simp only [Option.bind_eq_bind, Option.bind_some, addYears_epoch y _ hy, daysInYear_leap y hy,
    hmon1, secInMinute, secInHour, secInDay, Option.pure_def, Option.some.injEq]
  split <;> omega

theorem makeTime_ofCivil (c : CivilTime) :
    ofcTimeMakeTime (ofCivil c) = some (UInt32.ofNat c.seconds) := by
  have hd := c.day_pos
  rw [makeTime_eq, secondCount_eq (ofCivil c) c.year c.month rfl c.year_ge rfl c.month_lt,
    Option.map_some, ← toUInt32_natCast]
  congr 2
  simp only [ofCivil, CivilTime.seconds, CivilTime.days, CivilTime.dayOfYear,
    CivilTime.secondOfDay]
  omega

theorem skipYears_spec (days y : Nat) (h : 1970 ≤ y) :
    ∃ y' r : Nat, skipYears days ((y : Int) - 1900) = ((r : Int), (y' : Int) - 1900) ∧
      1970 ≤ y' ∧ r < yearLength y' ∧ yearStart y + days = yearStart y' + r := by
  induction days using Nat.strong_induction_on generalizing y with
  | _ days ih =>
    have hpos := yearLength_pos y
    rw [skipYears, daysInYear_eq y (by omega)]
    by_cases hle : yearLength y ≤ days
    · have hd : (days : Int) - yearLength y = ((days - yearLength y : Nat) : Int) := by omega
      have hn : (y : Int) - 1900 + 1 = ((y + 1 : Nat) : Int) - 1900 := by omega
      have hs := yearStart_succ y h
      obtain ⟨y', r, he, hy', hr, hsum⟩ := ih (days - yearLength y) (by omega) (y + 1) (by omega)
      rw [if_pos (by omega), hd, hn]
      exact ⟨y', r, he, hy', hr, by omega⟩
    · rw [if_neg (by omega)]
      exact ⟨y, days, rfl, h, by omega, rfl⟩

theorem findMonth_spec (days : Int) (m : Nat) (a : Int) (hm : m < 12)
    (ha : daysBeforeMonth m = some a) (hle : a ≤ days) :
    ∃ (m' : Nat) (b : Int), findMonth days m = some (m' : Int) ∧ m' < 12 ∧
      daysBeforeMonth m' = some b ∧ b ≤ days ∧
      ∀ c, daysBeforeMonth (m' + 1) = some c → days < c := by
  obtain ⟨k, hk⟩ : ∃ k, k = 11 - m := ⟨_, rfl⟩
  induction k generalizing m a with
  | zero =>
    have h11 : m = 11 := by omega
    subst h11
    rw [findMonth]
    exact ⟨11, a, rfl, hm, ha, hle, by simp [daysBeforeMonth, daysBeforeMonthTable]⟩
  | succ k ih =>
    have hnext : (m : Int) + 1 = ((m + 1 : Nat) : Int) := by omega
    obtain ⟨b, hb⟩ : ∃ b, daysBeforeMonth ((m + 1 : Nat) : Int) = some b :=
      ⟨_, daysBeforeMonth_eq 1970 (m + 1) (by omega)⟩
    rw [findMonth, if_pos (by omega), hnext, hb]
    simp only [Option.bind_eq_bind, Option.bind_some]
    by_cases hc : b ≤ days
    · rw [if_pos hc]
      exact ih (m + 1) b (by omega) hb hc (by omega)
    · rw [if_neg hc]
      refine ⟨m, a, rfl, hm, ha, hle, ?_⟩
      intro c hcs
      rw [hnext, hb] at hcs
      injection hcs with hcs
      omega

theorem findMonth_january (y : Nat) (days : Int) (h : 0 ≤ days) (hlt : days < 365) :
    ∃ m : Nat, findMonth days 0 = some (m : Int) ∧ m < 12 ∧
      (monthStart y m : Int) - (if 1 < m ∧ IsLeap y then 1 else 0) ≤ days ∧
      days < (monthStart y (m + 1) : Int) - if 0 < m ∧ IsLeap y then 1 else 0 := by
  obtain ⟨m, b, he, hm, hb, hle, hnext⟩ := findMonth_spec days 0 0 (by omega) rfl h
  rw [daysBeforeMonth_eq y m hm] at hb
  injection hb with hb
  refine ⟨m, he, hm, by omega, ?_⟩
  by_cases h11 : m = 11
  · subst h11
    rw [monthStart_twelve, yearLength]
    by_cases hl : IsLeap y <;> simp [hl] <;> omega
  · have hs := daysBeforeMonth_eq y (m + 1) (by omega)
    have hlt' := hnext _ hs
    have hiff : 1 < m + 1 ↔ 0 < m := by omega
    simpa only [hiff] using hlt'

theorem monthOfDay_common (y r : Nat) (hy : 1970 ≤ y) (hl : ¬ IsLeap y) (hr : r < 365) :
    ∃ m d : Nat, monthOfDay ((y : Int) - 1900) r = some ((m : Int), (r : Int)) ∧ m < 12 ∧
      d < monthLength y m ∧ monthStart y m + d = r := by
  obtain ⟨m, he, hm, hle, hlt⟩ := findMonth_january y r (by omega) (by omega)
  simp only [hl, and_false, if_false, sub_zero] at hle hlt
  rw [monthStart_succ] at hlt
  refine ⟨m, r - monthStart y m, ?_, hm, by omega, by omega⟩
  rw [monthOfDay, daysInYear_eq y (by omega), yearLength, if_neg hl]
  simp [daysBeforeMonth, daysBeforeMonthTable, he]

theorem monthOfDay_leap (y r : Nat) (hy : 1970 ≤ y) (hl : IsLeap y) (hr : r < 366) :
    ∃ (m d : Nat) (days : Int), monthOfDay ((y : Int) - 1900) r = some ((m : Int), days) ∧ m < 12 ∧
      d < monthLength y m ∧ monthStart y m + d = r ∧
      days - ((monthStart y m : Int) - if 1 < m then 1 else 0) = d := by
  have hmarch : daysBeforeMonth 2 = some 59 := rfl
  have h1 : monthStart y 1 = 31 := rfl
  have h2 : monthStart y 2 = 60 := by
    rw [monthStart_succ, h1]
    simp [monthLength, hl]
  rw [monthOfDay, hmarch, daysInYear_eq y (by omega), yearLength, if_pos hl]
  simp only [Option.bind_eq_bind, Option.bind_some, Nat.cast_ofNat, if_true]
  rcases lt_trichotomy r 59 with hlt | heq | hgt
  · obtain ⟨m, he, hm, hle, hup⟩ := findMonth_january y r (by omega) (by omega)
    simp only [hl, and_true] at hle hup
    have hm1 : m ≤ 1 := by
      by_contra hm2
      have hmono : monthStart y 2 ≤ monthStart y m := Spans.start_mono (by omega)
      split at hle <;> omega
    have hs := monthStart_succ y m
    rw [if_neg (by omega), if_neg (by omega), he]
    rw [if_neg (by omega)] at hle
    refine ⟨m, r - monthStart y m, r, rfl, hm, ?_, by omega, ?_⟩
    · split at hup <;> omega
    · rw [if_neg (by omega)]
      omega
  · subst heq
    exact ⟨1, 28, 59, rfl, by omega, by simp [monthLength, hl], by omega, by simp [h1]⟩
  · obtain ⟨m, he, hm, hle, hup⟩ := findMonth_january y ((r : Int) - 1) (by omega) (by omega)
    simp only [hl, and_true] at hle hup
    have hm2 : 2 ≤ m := by
      by_contra hm1
      have hmono : monthStart y (m + 1) ≤ monthStart y 2 := Spans.start_mono (by omega)
      by_cases hm0 : m = 0
      · subst hm0
        rw [if_neg (by omega), zero_add, h1] at hup
        omega
      · rw [if_pos (by omega)] at hup
        omega
    have hs := monthStart_succ y m
    rw [if_pos (by omega)] at hle hup
    rw [if_neg (by omega), if_pos (by omega), he]
    refine ⟨m, r - monthStart y m, (r : Int) - 1, rfl, hm, by omega, by omega, ?_⟩
    rw [if_pos (by omega)]
    omega

theorem monthOfDay_spec (y r : Nat) (hy : 1970 ≤ y) (hr : r < yearLength y) :
    ∃ (m d : Nat) (days a : Int), monthOfDay ((y : Int) - 1900) r = some ((m : Int), days) ∧
      daysBeforeMonth m = some a ∧ days - a = d ∧ m < 12 ∧ d < monthLength y m ∧
      monthStart y m + d = r := by
  by_cases hl : IsLeap y
  · rw [yearLength, if_pos hl] at hr
    obtain ⟨m, d, days, he, hm, hd, hs, hday⟩ := monthOfDay_leap y r hy hl hr
    refine ⟨m, d, days, _, he, daysBeforeMonth_eq y m hm, ?_, hm, hd, hs⟩
    simpa only [hl, and_true] using hday
  · rw [yearLength, if_neg hl] at hr
    obtain ⟨m, d, he, hm, hd, hs⟩ := monthOfDay_common y r hy hl hr
    refine ⟨m, d, r, _, he, daysBeforeMonth_eq y m hm, ?_, hm, hd, hs⟩
    simp only [hl, and_false, if_false]
    omega

theorem localTime_spec (time : UInt32) :
    ∃ c : CivilTime, ofcTimeLocalTime time = some (ofCivil c) ∧ c.seconds = time.toNat := by
  obtain ⟨y, r, hyears, hy, hr, hsum⟩ :=
    skipYears_spec (time.toNat / 86400) 1970 (le_refl _)
  obtain ⟨m, d, days, a, hmonth, hbefore, hday, hm, hd, hstart⟩ := monthOfDay_spec y r hy hr
  have hyears' : skipYears ((time.toNat : Int) / secInDay) 70 = ((r : Int), (y : Int) - 1900) := by
    simpa [secInDay] using hyears
  refine ⟨⟨y, m, d + 1, time.toNat % 86400 / 3600, time.toNat % 86400 % 3600 / 60,
    time.toNat % 86400 % 3600 % 60, hy, hm, by omega, by omega, by omega, by omega, by omega⟩,
    ?_, ?_⟩
  · rw [ofcTimeLocalTime, hyears']
    simp only [hmonth, hbefore, Option.bind_eq_bind, Option.bind_some, ofCivil, secInDay,
      secInHour, secInMinute]
    simp [hday]
  · rw [yearStart_epoch] at hsum
    simp only [CivilTime.seconds, CivilTime.days, CivilTime.dayOfYear, CivilTime.secondOfDay]
    omega

/-- The two conversions are inverse to each other: every 32-bit second count is
taken to a civil time and back, and every civil time whose second count fits in
32 bits is taken to that count and back. -/
theorem calendar_round_trip :
    (∀ time : UInt32, ∃ c : CivilTime, ofcTimeLocalTime time = some (ofCivil c) ∧
      ofcTimeMakeTime (ofCivil c) = some time) ∧
    (∀ c : CivilTime, c.seconds < 2 ^ 32 → ∃ time, ofcTimeMakeTime (ofCivil c) = some time ∧
      time.toNat = c.seconds ∧ ofcTimeLocalTime time = some (ofCivil c)) := by
  constructor
  · intro time
    obtain ⟨c, he, hs⟩ := localTime_spec time
    refine ⟨c, he, ?_⟩
    rw [makeTime_ofCivil, hs, UInt32.ofNat_toNat]
  · intro c hc
    have ht : (UInt32.ofNat c.seconds).toNat = c.seconds := by
      rw [UInt32.toNat_ofNat']
      omega
    obtain ⟨d, he, hs⟩ := localTime_spec (UInt32.ofNat c.seconds)
    have hdc : d = c := CivilTime.eq_of_seconds_eq d c (hs.trans ht)
    rw [hdc] at he
    exact ⟨_, makeTime_ofCivil c, ht, he⟩

/-- `ofc_time_make_time` counts the seconds of the calendar from 1970 on: those of the years
before by the century rule, and then of the months, the days and the clock. -/
theorem make_time_counts (tm : Tm) (hyear : 70 ≤ tm.tmYear)
    (hmon : 0 ≤ tm.tmMon ∧ tm.tmMon ≤ 11) :
    let y := tm.tmYear + 1900
    let days := 365 * (y - 1970) + ((y - 1) / 4 - (y - 1) / 100 + (y - 1) / 400 - 477) +
      monthStart y.toNat tm.tmMon.toNat + (tm.tmMday - 1)
    (∃ time, ofcTimeMakeTime tm = some time ∧ (time.toNat : Int) =
      (86400 * days + 3600 * tm.tmHour + 60 * tm.tmMin + tm.tmSec) % 2 ^ 32) ∧
    ∀ c : CivilTime, y = c.year → tm.tmMon = c.month → tm.tmMday = c.day → days = c.days := by
  obtain ⟨y, hy⟩ : ∃ y : Nat, tm.tmYear = (y : Int) - 1900 :=
    ⟨(tm.tmYear + 1900).toNat, by omega⟩
  obtain ⟨m, hm⟩ : ∃ m : Nat, tm.tmMon = m := ⟨tm.tmMon.toNat, by omega⟩
  have hstart := yearStart_century y (by omega)
  have hsum : (y : Int) - 1900 + 1900 = y := by omega
  simp only [hy, hm, hsum, Int.toNat_natCast, ← hstart]
  constructor
  · refine ⟨_, ?_, toUInt32_toNat _⟩
    rw [makeTime_eq, secondCount_eq tm y m hy (by omega) hm (by omega), Option.map_some]
  · intro c hcy hcm hcd
    have hpos := c.day_pos
    have hyear' : y = c.year := by exact_mod_cast hcy
    have hmonth : m = c.month := by exact_mod_cast hcm
    rw [hyear', hmonth, hcd, CivilTime.days, CivilTime.dayOfYear]
    omega

def centuryMarch : Tm := ⟨0, 0, 0, 1, 2, 200⟩

theorem make_time_counts_centuryMarch : ∃ time, ofcTimeMakeTime centuryMarch = some time ∧
    (time.toNat : Int) = 4107542400 :=
  (make_time_counts centuryMarch (by decide) (by decide)).1

def Tm.fields (tm : Tm) : List Int :=
  [tm.tmYear, tm.tmMon, tm.tmMday, tm.tmHour, tm.tmMin, tm.tmSec]

/-- `ofc_time_local_time` gives later second counts lexicographically later times. -/
theorem local_time_ordered {s t : UInt32} (h : s < t) : ∃ a b : Tm,
    ofcTimeLocalTime s = some a ∧ ofcTimeLocalTime t = some b ∧ a.fields < b.fields := by
  obtain ⟨c, hs, hc⟩ := localTime_spec s
  obtain ⟨d, ht, hd⟩ := localTime_spec t
  have hlt : c.seconds < d.seconds := by
    rw [hc, hd]
    exact UInt32.lt_iff_toNat_lt.mp h
  have hfields := (CivilTime.seconds_lt_iff c d).mp hlt
  refine ⟨ofCivil c, ofCivil d, hs, ht, ?_⟩
  simp only [Tm.fields, ofCivil, List.cons_lt_cons_iff, List.not_lt_nil, and_false, or_false]
  omega

theorem local_time_ordered_march : ∃ a b : Tm, ofcTimeLocalTime 4107542399 = some a ∧
    ofcTimeLocalTime 4107542400 = some b ∧ a.fields < b.fields :=
  local_time_ordered (by decide)

def leapNoon : CivilTime :=
  ⟨2000, 1, 29, 12, 34, 56, by decide, by decide, by decide, by decide, by decide, by decide,
    by decide⟩

theorem calendar_round_trip_leapNoon : ∃ time,
    ofcTimeMakeTime (ofCivil leapNoon) = some time ∧ time.toNat = leapNoon.seconds ∧
      ofcTimeLocalTime time = some (ofCivil leapNoon) := by
  have hyear : leapNoon.seconds < 86400 * yearStart 2001 :=
    (leapNoon.seconds_lt_year_iff 2001).mpr (by decide)
  have hclosed := yearStart_closed 2001 (by omega)
  exact calendar_round_trip.2 leapNoon (by omega)

end CoreAndroid.Time

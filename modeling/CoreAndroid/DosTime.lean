import CoreAndroid.Time

/-! The DOS date conversions of time_android.c. The packing of the two words and
the FILETIME arithmetic belong to the core library and are parameters here. -/
namespace CoreAndroid.DosTime
open Gregorian Time

structure DosElements where
  mon : UInt16
  day : UInt16
  year : UInt16
  hour : UInt16
  min : UInt16
  sec : UInt16
  deriving DecidableEq, Repr

structure CoreTime (FileTime : Type) where
  dosDateTimeToElements : UInt16 → UInt16 → DosElements
  timeElementsToDosDateTime : DosElements → UInt16 × UInt16
  epochTimeToFileTime : Nat → Nat → FileTime
  fileTimeToEpochTime : FileTime → Nat × Nat

variable {FileTime : Type}

def toUInt16 (x : Int) : UInt16 := UInt16.ofNat (x % 2 ^ 16).toNat

def ofcFileTimeToDosDateTimeImpl (core : CoreTime FileTime) (fileTime : FileTime) :
    Option (Bool × UInt16 × UInt16) := do
  let (tvSec, _) := core.fileTimeToEpochTime fileTime
  let tm ← ofcTimeLocalTime (UInt32.ofNat tvSec)
  let words := core.timeElementsToDosDateTime {
    mon := toUInt16 (tm.tmMon + 1)
    day := toUInt16 tm.tmMday
    year := toUInt16 (tm.tmYear + 1900)
    hour := toUInt16 tm.tmHour
    min := toUInt16 tm.tmMin
    sec := toUInt16 tm.tmSec }
  return (true, words)

def ofcDosDateTimeToFileTimeImpl (core : CoreTime FileTime) (fatDate fatTime : UInt16) :
    Option (Bool × FileTime) := do
  let e := core.dosDateTimeToElements fatDate fatTime
  let tvSec ← ofcTimeMakeTime {
    tmMon := (e.mon.toNat : Int) - 1
    tmMday := e.day.toNat
    tmYear := (e.year.toNat : Int) - 1900
    tmHour := e.hour.toNat
    tmMin := e.min.toNat
    tmSec := e.sec.toNat }
  return (true, core.epochTimeToFileTime tvSec.toNat 0)

def dosRoundTrip (core : CoreTime FileTime) (fatDate fatTime : UInt16) :
    Option (Bool × UInt16 × UInt16) := do
  let (_, fileTime) ← ofcDosDateTimeToFileTimeImpl core fatDate fatTime
  ofcFileTimeToDosDateTimeImpl core fileTime

/-- The bit fields of the FAT format: year, month and day; hour, minute and two seconds. -/
def fatElements (fatDate fatTime : UInt16) : DosElements where
  mon := fatDate / 32 % 16
  day := fatDate % 32
  year := fatDate / 512 + 1980
  hour := fatTime / 2048
  min := fatTime / 32 % 64
  sec := fatTime % 32 * 2

def fatWords (e : DosElements) : UInt16 × UInt16 :=
  ((e.year - 1980) * 512 + e.mon * 32 + e.day, e.hour * 2048 + e.min * 32 + e.sec / 2)

/-- What the conversions rely on: FAT bit fields, and a FILETIME that keeps whole seconds. -/
structure CoreTime.Standard (core : CoreTime FileTime) : Prop where
  elements : ∀ fatDate fatTime,
    core.dosDateTimeToElements fatDate fatTime = fatElements fatDate fatTime
  words : ∀ e, core.timeElementsToDosDateTime e = fatWords e
  fileTime : ∀ tvSec, tvSec < 2 ^ 32 →
    core.fileTimeToEpochTime (core.epochTimeToFileTime tvSec 0) = (tvSec, 0)

/-- The two words hold the valid date and time `c`. -/
structure Encodes (fatDate fatTime : UInt16) (c : CivilTime) : Prop where
  mon : (fatElements fatDate fatTime).mon.toNat = c.month + 1
  day : (fatElements fatDate fatTime).day.toNat = c.day
  year : (fatElements fatDate fatTime).year.toNat = c.year
  hour : (fatElements fatDate fatTime).hour.toNat = c.hour
  min : (fatElements fatDate fatTime).min.toNat = c.minute
  sec : (fatElements fatDate fatTime).sec.toNat = c.second

theorem toUInt16_natCast (n : Nat) : toUInt16 n = UInt16.ofNat n := by
  have h : ((n : Int) % 2 ^ 16).toNat = n % 2 ^ 16 := by omega
  rw [toUInt16, h]
  apply UInt16.toNat.inj
  simp

theorem fatWords_fatElements (fatDate fatTime : UInt16) :
    fatWords (fatElements fatDate fatTime) = (fatDate, fatTime) := by
  have hd := fatDate.toNat_lt
  have ht := fatTime.toNat_lt
  simp only [fatWords, fatElements, Prod.mk.injEq, ← UInt16.toNat_inj]
  simp
  omega

def civilElements (c : CivilTime) : DosElements where
  mon := UInt16.ofNat (c.month + 1)
  day := UInt16.ofNat c.day
  year := UInt16.ofNat c.year
  hour := UInt16.ofNat c.hour
  min := UInt16.ofNat c.minute
  sec := UInt16.ofNat c.second

namespace Encodes
variable {fatDate fatTime : UInt16} {c : CivilTime} (h : Encodes fatDate fatTime c)
include h

theorem elements_eq : fatElements fatDate fatTime = civilElements c := by
  have hmon := congrArg UInt16.ofNat h.mon
  have hday := congrArg UInt16.ofNat h.day
  have hyear := congrArg UInt16.ofNat h.year
  have hhour := congrArg UInt16.ofNat h.hour
  have hmin := congrArg UInt16.ofNat h.min
  have hsec := congrArg UInt16.ofNat h.sec
  rw [UInt16.ofNat_toNat] at hmon hday hyear hhour hmin hsec
  simp only [civilElements, ← hmon, ← hday, ← hyear, ← hhour, ← hmin, ← hsec]

theorem year_le : 1980 ≤ c.year ∧ c.year ≤ 2107 := by
  have hd := fatDate.toNat_lt
  have hy := h.year
  simp [fatElements] at hy
  omega

theorem toFileTime {core : CoreTime FileTime} (hc : core.Standard) :
    ofcDosDateTimeToFileTimeImpl core fatDate fatTime =
      some (true, core.epochTimeToFileTime (c.seconds % 2 ^ 32) 0) := by
  have htm : Tm.mk c.second c.minute c.hour c.day (((c.month + 1 : Nat) : Int) - 1)
      ((c.year : Int) - 1900) = ofCivil c := by
    simp [ofCivil]
  rw [ofcDosDateTimeToFileTimeImpl, hc.elements]
  simp only [h.mon, h.day, h.year, h.hour, h.min, h.sec, htm, makeTime_ofCivil]
  simp

end Encodes

theorem fromFileTime {core : CoreTime FileTime} (hc : core.Standard) (tvSec : Nat)
    (h : tvSec < 2 ^ 32) : ∃ c : CivilTime, c.seconds = tvSec ∧
      ofcFileTimeToDosDateTimeImpl core (core.epochTimeToFileTime tvSec 0) =
        some (true, fatWords (civilElements c)) := by
  obtain ⟨c, he, hs⟩ := localTime_spec (UInt32.ofNat tvSec)
  rw [UInt32.toNat_ofNat', Nat.mod_eq_of_lt h] at hs
  have hmon : ((ofCivil c).tmMon + 1 : Int) = ((c.month + 1 : Nat) : Int) := rfl
  have hyear : ((ofCivil c).tmYear + 1900 : Int) = (c.year : Nat) := by
    simp [ofCivil]
  refine ⟨c, hs, ?_⟩
  rw [ofcFileTimeToDosDateTimeImpl, hc.fileTime tvSec h]
  simp only [he, Option.bind_eq_bind, Option.bind_some, hmon, hyear, hc.words]
  simp only [ofCivil, toUInt16_natCast, civilElements]
  rfl

theorem fatWords_year (c : CivilTime) :
    (fatWords (civilElements c)).1.toNat / 512 = (c.year + 68) % 128 := by
  have hm := c.month_lt
  have hd : c.day ≤ 31 := c.day_le.trans (monthLength_le c.year c.month)
  simp [fatWords, civilElements, UInt16.toNat_sub]
  omega

theorem wrapped_word_ne {c d : CivilTime} (hy : c.year ≤ 2107) (h : 2 ^ 32 ≤ c.seconds)
    (hd : d.seconds = c.seconds % 2 ^ 32) :
    (fatWords (civilElements d)).1 ≠ (fatWords (civilElements c)).1 := by
  have h1972 := yearStart_closed 1972 (by omega)
  have h2106 := yearStart_closed 2106 (by omega)
  have h2108 := yearStart_closed 2108 (by omega)
  have hc2106 := c.seconds_lt_year_iff 2106
  have hc2108 := c.seconds_lt_year_iff 2108
  have hd1972 := d.seconds_lt_year_iff 1972
  have hd70 := d.year_ge
  have hwc := fatWords_year c
  have hwd := fatWords_year d
  intro he
  rw [he] at hwd
  omega

namespace Encodes
variable {fatDate fatTime : UInt16} {c : CivilTime} (h : Encodes fatDate fatTime c)
include h

theorem words_eq : fatWords (civilElements c) = (fatDate, fatTime) := by
  rw [← h.elements_eq, fatWords_fatElements]

theorem roundTrip {core : CoreTime FileTime} (hc : core.Standard) :
    ∃ d : CivilTime, d.seconds = c.seconds % 2 ^ 32 ∧
      dosRoundTrip core fatDate fatTime = some (true, fatWords (civilElements d)) := by
  obtain ⟨d, hd, he⟩ := fromFileTime hc (c.seconds % 2 ^ 32) (by omega)
  refine ⟨d, hd, ?_⟩
  rw [dosRoundTrip, h.toFileTime hc]
  exact he

theorem roundTrip_eq {core : CoreTime FileTime} (hc : core.Standard) (hlt : c.seconds < 2 ^ 32) :
    dosRoundTrip core fatDate fatTime = some (true, fatDate, fatTime) := by
  obtain ⟨d, hd, he⟩ := h.roundTrip hc
  have hdc : d = c := by
    apply CivilTime.eq_of_seconds_eq
    omega
  rw [he, hdc, h.words_eq]

theorem roundTrip_ne {core : CoreTime FileTime} (hc : core.Standard) (hle : 2 ^ 32 ≤ c.seconds) :
    dosRoundTrip core fatDate fatTime ≠ some (true, fatDate, fatTime) := by
  obtain ⟨d, hd, he⟩ := h.roundTrip hc
  have hne := wrapped_word_ne h.year_le.2 hle hd
  rw [he, ← h.words_eq]
  intro hsame
  simp only [Option.some.injEq, Prod.mk.injEq, true_and] at hsame
  exact hne (congrArg Prod.fst hsame)

end Encodes

/-- The round trip of a valid pair of words gives the same words exactly when the
second count of the date fits in 32 bits. -/
theorem dos_round_trip_iff (core : CoreTime FileTime) (hcore : core.Standard)
    (fatDate fatTime : UInt16) (c : CivilTime) (h : Encodes fatDate fatTime c) :
    dosRoundTrip core fatDate fatTime = some (true, fatDate, fatTime) ↔ c.seconds < 2 ^ 32 := by
  constructor
  · intro hsame
    by_contra hlt
    exact h.roundTrip_ne hcore (by omega) hsame
  · exact h.roundTrip_eq hcore

def ticksCore : CoreTime Nat where
  dosDateTimeToElements := fatElements
  timeElementsToDosDateTime := fatWords
  epochTimeToFileTime tvSec tvNsec := (tvSec + 11644473600) * 10000000 + tvNsec / 100
  fileTimeToEpochTime ticks := (ticks / 10000000 - 11644473600, ticks % 10000000 * 100)

theorem ticksCore_standard : ticksCore.Standard where
  elements _ _ := rfl
  words _ := rfl
  fileTime tvSec _ := by
    simp only [ticksCore, Prod.mk.injEq]
    omega

def lastDosTime : CivilTime :=
  ⟨2107, 11, 31, 23, 59, 58, by decide, by decide, by decide, by decide, by decide, by decide,
    by decide⟩

theorem leapNoon_encoded : Encodes 10333 25692 leapNoon := by
  constructor <;> decide

theorem lastDosTime_encoded : Encodes 65439 49021 lastDosTime := by
  constructor <;> decide

theorem dos_round_trip_leapNoon :
    dosRoundTrip ticksCore 10333 25692 = some (true, 10333, 25692) ↔ leapNoon.seconds < 2 ^ 32 :=
  dos_round_trip_iff ticksCore ticksCore_standard 10333 25692 leapNoon leapNoon_encoded

/-- The last date of the format does not survive the round trip. -/
theorem dos_round_trip_fails : ¬ ∀ (fatDate fatTime : UInt16) (c : CivilTime),
    Encodes fatDate fatTime c →
      dosRoundTrip ticksCore fatDate fatTime = some (true, fatDate, fatTime) := by
  intro hall
  have hyear := yearStart_closed 2107 (by omega)
  have hlate : 2 ^ 32 ≤ lastDosTime.seconds := by
    have hlt := lastDosTime.seconds_lt_year_iff 2107
    have hy : ¬ lastDosTime.year < 2107 := by decide
    omega
  exact lastDosTime_encoded.roundTrip_ne ticksCore_standard hlate
    (hall 65439 49021 lastDosTime lastDosTime_encoded)

section Safety

def dosTm (e : DosElements) : Tm where
  tmMon := (e.mon.toNat : Int) - 1
  tmMday := e.day.toNat
  tmYear := (e.year.toNat : Int) - 1900
  tmHour := e.hour.toNat
  tmMin := e.min.toNat
  tmSec := e.sec.toNat

/-- The words are rejected, or converted by reads inside the month table and with a second
count that fits in 32 bits. -/
def ConvertsSafely (core : CoreTime FileTime) (fatDate fatTime : UInt16) : Prop :=
  ∃ ret fileTime, ofcDosDateTimeToFileTimeImpl core fatDate fatTime = some (ret, fileTime) ∧
    (ret = true → ∃ seconds, secondCount (dosTm (core.dosDateTimeToElements fatDate fatTime)) =
      some seconds ∧ 0 ≤ seconds ∧ seconds < 2 ^ 32)

/-- The fields name a month, and a time before 2106-02-07 06:28:16. -/
structure Countable (e : DosElements) : Prop where
  mon_pos : 1 ≤ e.mon.toNat
  mon_le : e.mon.toNat ≤ 12
  early : e.year.toNat < 2106 ∨ e.year.toNat = 2106 ∧ (e.mon.toNat < 2 ∨ e.mon.toNat = 2 ∧
    86400 * e.day.toNat + 3600 * e.hour.toNat + 60 * e.min.toNat + e.sec.toNat <
      86400 * 7 + 3600 * 6 + 60 * 28 + 16)

structure Fields (e : DosElements) : Prop where
  mon : e.mon.toNat ≤ 15
  day : e.day.toNat ≤ 31
  year : 1980 ≤ e.year.toNat
  hour : e.hour.toNat ≤ 31
  min : e.min.toNat ≤ 63
  sec : e.sec.toNat ≤ 62

theorem fatElements_fields (fatDate fatTime : UInt16) : Fields (fatElements fatDate fatTime) := by
  have hdate := fatDate.toNat_lt
  have htime := fatTime.toNat_lt
  constructor <;> simp only [fatElements] <;> simp <;> omega

theorem daysBeforeMonth_isSome {mon : Int} (h : (daysBeforeMonth mon).isSome) :
    0 ≤ mon ∧ mon < 12 := by
  unfold daysBeforeMonth at h
  split at h
  · have hlt : mon.toNat < daysBeforeMonthTable.length := by simpa using h
    have hlength : daysBeforeMonthTable.length = 12 := rfl
    omega
  · cases h

theorem secondCount_isSome {tm : Tm} (h : (secondCount tm).isSome) :
    0 ≤ tm.tmMon ∧ tm.tmMon < 12 := by
  apply daysBeforeMonth_isSome
  unfold secondCount at h
  cases hmon : daysBeforeMonth tm.tmMon with
  | none => simp [hmon] at h
  | some before => rfl

theorem secondCount_dosTm {e : DosElements} (hf : Fields e) (hpos : 1 ≤ e.mon.toNat)
    (hle : e.mon.toNat ≤ 12) : ∃ seconds : Nat, secondCount (dosTm e) = some (seconds : Int) ∧
      seconds + 86400 = 86400 * (yearStart e.year.toNat +
        monthStart e.year.toNat (e.mon.toNat - 1) + e.day.toNat) +
        3600 * e.hour.toNat + 60 * e.min.toNat + e.sec.toNat := by
  have hyear := hf.year
  have hclosed := yearStart_closed e.year.toNat (by omega)
  obtain ⟨seconds, hseconds⟩ : ∃ seconds, seconds + 86400 =
      86400 * (yearStart e.year.toNat + monthStart e.year.toNat (e.mon.toNat - 1) +
        e.day.toNat) + 3600 * e.hour.toNat + 60 * e.min.toNat + e.sec.toNat :=
    ⟨_, Nat.sub_add_cancel (by omega)⟩
  refine ⟨seconds, ?_, hseconds⟩
  rw [secondCount_eq (dosTm e) e.year.toNat (e.mon.toNat - 1) rfl (by omega)
    (by simp only [dosTm]; omega) (by omega)]
  have hcast := congrArg (Nat.cast : Nat → Int) hseconds
  push_cast at hcast
  simp only [dosTm, Option.some.injEq]
  linarith

theorem yearStart_2106 : yearStart 2106 = 49673 := by
  have hclosed := yearStart_closed 2106 (by omega)
  linarith

theorem seconds_before_2106 {y m seconds rest : Nat} (hy : y < 2106) (hm : m < 12)
    (hrest : rest ≤ 86400 * 31 + 115442)
    (hsum : seconds + 86400 = 86400 * (yearStart y + monthStart y m) + rest) :
    seconds < 2 ^ 32 := by
  have hclosed := yearStart_closed 2105 (by omega)
  have hyear : yearStart y ≤ yearStart 2105 := yearStart_mono (by omega)
  have hmonth : monthStart y m ≤ monthStart y 12 := Spans.start_mono (by omega)
  have hlength : yearLength y ≤ 366 := by
    unfold yearLength
    split <;> omega
  rw [monthStart_twelve] at hmonth
  linarith

theorem seconds_after_2106 {y seconds rest : Nat} (hy : 2106 < y)
    (hsum : seconds + 86400 = 86400 * yearStart y + rest) : 2 ^ 32 ≤ seconds := by
  have hclosed := yearStart_closed 2107 (by omega)
  have hyear : yearStart 2107 ≤ yearStart y := yearStart_mono hy
  linarith

theorem countable_iff {e : DosElements} (hf : Fields e) (hpos : 1 ≤ e.mon.toNat)
    (hle : e.mon.toNat ≤ 12) {seconds : Nat} (hsum : seconds + 86400 =
      86400 * (yearStart e.year.toNat + monthStart e.year.toNat (e.mon.toNat - 1) +
        e.day.toNat) + 3600 * e.hour.toNat + 60 * e.min.toNat + e.sec.toNat) :
    Countable e ↔ seconds < 2 ^ 32 := by
  obtain ⟨-, hday, -, hhour, hmin, hsec⟩ := hf
  obtain ⟨m, hm⟩ : ∃ m, e.mon.toNat = m + 1 := ⟨e.mon.toNat - 1, by omega⟩
  rw [hm, Nat.add_sub_cancel] at hsum
  have hiff : Countable e ↔ e.year.toNat < 2106 ∨ e.year.toNat = 2106 ∧ (m = 0 ∨ m = 1 ∧
      86400 * e.day.toNat + 3600 * e.hour.toNat + 60 * e.min.toNat + e.sec.toNat < 628096) := by
    constructor
    · intro hc
      have hearly := hc.early
      omega
    · intro hearly
      exact ⟨hpos, hle, by omega⟩
  rw [hiff]
  rcases lt_trichotomy e.year.toNat 2106 with hlt | heq | hgt
  · refine iff_of_true (.inl hlt) (seconds_before_2106 hlt (by omega : m < 12)
      (by omega : 86400 * e.day.toNat + 3600 * e.hour.toNat + 60 * e.min.toNat + e.sec.toNat ≤
        86400 * 31 + 115442) ?_)
    linarith
  · rw [heq, yearStart_2106] at hsum
    match m with
    | 0 =>
      rw [monthStart, Spans.start_zero] at hsum
      omega
    | 1 =>
      rw [show monthStart 2106 1 = 31 from rfl] at hsum
      omega
    | m + 2 =>
      have hmonth : monthStart 2106 2 ≤ monthStart 2106 (m + 2) := Spans.start_mono (by omega)
      rw [show monthStart 2106 2 = 59 from rfl] at hmonth
      omega
  · have hlate : 2 ^ 32 ≤ seconds := by
      refine seconds_after_2106 hgt (?_ : _ = _ + (86400 * (monthStart e.year.toNat m +
        e.day.toNat) + 3600 * e.hour.toNat + 60 * e.min.toNat + e.sec.toNat))
      linarith
    omega

theorem convertsSafely_iff (core : CoreTime FileTime) (fatDate fatTime : UInt16) :
    ConvertsSafely core fatDate fatTime ↔
      ∃ seconds, secondCount (dosTm (core.dosDateTimeToElements fatDate fatTime)) =
        some seconds ∧ 0 ≤ seconds ∧ seconds < 2 ^ 32 := by
  have himpl : ofcDosDateTimeToFileTimeImpl core fatDate fatTime =
      (ofcTimeMakeTime (dosTm (core.dosDateTimeToElements fatDate fatTime))).bind fun tvSec =>
        some (true, core.epochTimeToFileTime tvSec.toNat 0) := rfl
  unfold ConvertsSafely
  rw [himpl, makeTime_eq]
  constructor
  · rintro ⟨ret, fileTime, hsome, hsafe⟩
    obtain ⟨tvSec, -, hret⟩ := Option.bind_eq_some_iff.mp hsome
    cases hret
    exact hsafe rfl
  · rintro ⟨seconds, hcount, hrange⟩
    rw [hcount]
    exact ⟨true, _, rfl, fun _ => ⟨seconds, rfl, hrange⟩⟩

/-- A pair of words is converted safely exactly if its fields name a month and a time that the
32-bit second count reaches. -/
theorem dos_safe_iff (core : CoreTime FileTime)
    (hcore : ∀ fatDate fatTime, core.dosDateTimeToElements fatDate fatTime =
      fatElements fatDate fatTime) (fatDate fatTime : UInt16) :
    ConvertsSafely core fatDate fatTime ↔ Countable (fatElements fatDate fatTime) := by
  have hf := fatElements_fields fatDate fatTime
  rw [convertsSafely_iff, hcore]
  by_cases hmon : 1 ≤ (fatElements fatDate fatTime).mon.toNat ∧
      (fatElements fatDate fatTime).mon.toNat ≤ 12
  · obtain ⟨seconds, hcount, hsum⟩ := secondCount_dosTm hf hmon.1 hmon.2
    rw [countable_iff hf hmon.1 hmon.2 hsum, hcount]
    simp only [Option.some.injEq, exists_eq_left', Int.natCast_nonneg, true_and]
    omega
  · refine iff_of_false ?_ fun hc => hmon ⟨hc.mon_pos, hc.mon_le⟩
    rintro ⟨seconds, hcount, -⟩
    have hrange := secondCount_isSome (Option.isSome_of_eq_some hcount)
    simp only [dosTm] at hrange
    omega

theorem dos_safe_leapNoon : ConvertsSafely ticksCore 10333 25692 :=
  (dos_safe_iff ticksCore (fun _ _ => rfl) 10333 25692).mpr
    ⟨by decide, by decide, .inl (by decide)⟩

/-- The date 0 has no month, and its conversion reads before the table. -/
theorem dos_unsafe_zero : ofcDosDateTimeToFileTimeImpl ticksCore 0 0 = none ∧
    ¬ ConvertsSafely ticksCore 0 0 := by
  have hnone : ofcDosDateTimeToFileTimeImpl ticksCore 0 0 = none := rfl
  refine ⟨hnone, ?_⟩
  rintro ⟨ret, fileTime, hsome, -⟩
  rw [hnone] at hsome
  cases hsome

end Safety

end CoreAndroid.DosTime

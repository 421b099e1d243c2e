import CoreAndroid.DosTime

/-! File times as DOS stamps: what is left of a file time that is taken to DOS words and back,
and the order of the words. -/
namespace CoreAndroid.DosTime
open Gregorian Time

variable {FileTime : Type}

/-- The DOS words of a FILETIME, taken back to a FILETIME. -/
def fileRoundTrip (core : CoreTime FileTime) (fileTime : FileTime) : Option (Bool × FileTime) := do
  let (_, fatDate, fatTime) ← ofcFileTimeToDosDateTimeImpl core fileTime
  ofcDosDateTimeToFileTimeImpl core fatDate fatTime

/-- The two words as one number, the date before the time. -/
def dosStamp (words : UInt16 × UInt16) : Nat := words.1.toNat * 65536 + words.2.toNat

section Fields
variable (c : CivilTime)

/-- The bit fields of the words of a civil time: the year is kept modulo 128, and the second
loses its last bit. -/
structure Stamped (c : CivilTime) (e : DosElements) : Prop where
  mon : e.mon.toNat = c.month + 1
  day : e.day.toNat = c.day
  year : e.year.toNat = 1980 + (c.year + 68) % 128
  hour : e.hour.toNat = c.hour
  min : e.min.toNat = c.minute
  sec : e.sec.toNat = c.second - c.second % 2

theorem fatDate_civil : (fatWords (civilElements c)).1.toNat =
    (c.year + 68) % 128 * 512 + (c.month + 1) * 32 + c.day := by
  have hm := c.month_lt
  have hd : c.day ≤ 31 := c.day_le.trans (monthLength_le c.year c.month)
  simp [fatWords, civilElements, UInt16.toNat_sub]
  omega

theorem fatTime_civil : (fatWords (civilElements c)).2.toNat =
    c.hour * 2048 + c.minute * 32 + c.second / 2 := by
  have hh := c.hour_lt
  have hm := c.minute_lt
  have hs := c.second_lt
  simp [fatWords, civilElements]
  omega

theorem stamped :
    Stamped c (fatElements (fatWords (civilElements c)).1 (fatWords (civilElements c)).2) := by
  have hmon := c.month_lt
  have hday : c.day ≤ 31 := c.day_le.trans (monthLength_le c.year c.month)
  have hhour := c.hour_lt
  have hmin := c.minute_lt
  have hsec := c.second_lt
  have hdate := fatDate_civil c
  have htime := fatTime_civil c
  constructor <;> simp only [fatElements] <;> simp [hdate, htime] <;> omega

end Fields

section RoundTrip
variable {core : CoreTime FileTime} {c : CivilTime}

theorem toFileTime_of_count (hcore : core.Standard) {fatDate fatTime : UInt16} {seconds : Nat}
    (hcount : secondCount (dosTm (fatElements fatDate fatTime)) = some (seconds : Int)) :
    ofcDosDateTimeToFileTimeImpl core fatDate fatTime =
      some (true, core.epochTimeToFileTime (seconds % 2 ^ 32) 0) := by
  have himpl : ofcDosDateTimeToFileTimeImpl core fatDate fatTime =
      (ofcTimeMakeTime (dosTm (core.dosDateTimeToElements fatDate fatTime))).bind fun tvSec =>
        some (true, core.epochTimeToFileTime tvSec.toNat 0) := rfl
  rw [himpl, makeTime_eq, hcore.elements, hcount]
  simp [toUInt32_natCast]

theorem stamped_count (c : CivilTime) :
    let e := fatElements (fatWords (civilElements c)).1 (fatWords (civilElements c)).2
    let year := 1980 + (c.year + 68) % 128
    ∃ seconds : Nat, secondCount (dosTm e) = some (seconds : Int) ∧
      seconds + 86400 = 86400 * (yearStart year + monthStart year c.month + c.day) +
        3600 * c.hour + 60 * c.minute + (c.second - c.second % 2) := by
  intro e year
  have hs := stamped c
  have hmonth := c.month_lt
  obtain ⟨seconds, hcount, hsum⟩ := secondCount_dosTm (fatElements_fields _ _)
    (by rw [hs.mon]; omega) (by rw [hs.mon]; omega)
  rw [hs.mon, hs.day, hs.year, hs.hour, hs.min, hs.sec, Nat.add_sub_cancel] at hsum
  exact ⟨seconds, hcount, hsum⟩

theorem seconds_eq (c : CivilTime) : c.seconds + 86400 =
    86400 * (yearStart c.year + monthStart c.year c.month + c.day) + 3600 * c.hour +
      60 * c.minute + c.second := by
  have hday := c.day_pos
  simp only [CivilTime.seconds, CivilTime.days, CivilTime.dayOfYear, CivilTime.secondOfDay]
  omega

theorem stamped_late (hlow : 1980 ≤ c.year) (hhigh : c.year ≤ 2107) {seconds : Nat}
    (hsum : let year := 1980 + (c.year + 68) % 128
      seconds + 86400 = 86400 * (yearStart year + monthStart year c.month + c.day) +
        3600 * c.hour + 60 * c.minute + (c.second - c.second % 2)) :
    seconds = c.seconds - c.seconds % 2 := by
  have hyear : 1980 + (c.year + 68) % 128 = c.year := by omega
  have hc := seconds_eq c
  simp only [hyear] at hsum
  omega

theorem stamped_early (hyear : c.year < 1980) {seconds : Nat}
    (hsum : let year := 1980 + (c.year + 68) % 128
      seconds + 86400 = 86400 * (yearStart year + monthStart year c.month + c.day) +
        3600 * c.hour + 60 * c.minute + (c.second - c.second % 2)) :
    c.seconds < seconds ∧ seconds + 1 < c.seconds + 2 ^ 32 := by
  have hlow := c.year_ge
  have hlater : 1980 + (c.year + 68) % 128 = c.year + 128 := by omega
  have hc := seconds_eq c
  have hbefore := yearStart_closed c.year hlow
  have hafter := yearStart_closed (c.year + 128) (by omega)
  have hmonth (y : Nat) : monthStart y c.month ≤ 366 := by
    have hle : monthStart y c.month ≤ monthStart y 12 := Spans.start_mono c.month_lt.le
    rw [monthStart_twelve] at hle
    unfold yearLength at hle
    split at hle <;> omega
  have hmonthBefore := hmonth c.year
  have hmonthAfter := hmonth (c.year + 128)
  simp only [hlater] at hsum
  omega

theorem epoch_injective (hcore : core.Standard) {a b : Nat} (ha : a < 2 ^ 32) (hb : b < 2 ^ 32)
    (h : core.epochTimeToFileTime a 0 = core.epochTimeToFileTime b 0) : a = b := by
  have hsame := (hcore.fileTime a ha).symm.trans ((congrArg _ h).trans (hcore.fileTime b hb))
  exact congrArg Prod.fst hsame

/-- The round trip through the DOS words gives a FILETIME of whole seconds back, but for the odd
second, exactly from 1980 on. -/
theorem file_round_trip_iff (core : CoreTime FileTime) (hcore : core.Standard) (tvSec : Nat)
    (h : tvSec < 2 ^ 32) :
    fileRoundTrip core (core.epochTimeToFileTime tvSec 0) =
        some (true, core.epochTimeToFileTime (tvSec - tvSec % 2) 0) ↔ 315532800 ≤ tvSec := by
  obtain ⟨c, hc, hwords⟩ := fromFileTime hcore tvSec h
  obtain ⟨seconds, hcount, hsum⟩ := stamped_count c
  have htrip : fileRoundTrip core (core.epochTimeToFileTime tvSec 0) =
      some (true, core.epochTimeToFileTime (seconds % 2 ^ 32) 0) := by
    rw [fileRoundTrip, hwords]
    exact toFileTime_of_count hcore hcount
  have h1980 := yearStart_closed 1980 (by omega)
  have h2107 := yearStart_closed 2107 (by omega)
  have hfirst := c.seconds_lt_year_iff 1980
  have hlast := c.seconds_lt_year_iff 2107
  rw [htrip]
  by_cases hyear : c.year < 1980
  · obtain ⟨hlow, hhigh⟩ := stamped_early hyear hsum
    refine iff_of_false ?_ (by omega)
    intro hsame
    have heq := epoch_injective hcore (Nat.mod_lt _ (by omega)) (by omega)
      (congrArg (fun p => p.2) (Option.some.inj hsame))
    omega
  · have hkept := stamped_late (by omega : 1980 ≤ c.year) (by omega) hsum
    refine iff_of_true ?_ (by omega)
    have hmod : seconds % 2 ^ 32 = tvSec - tvSec % 2 := by omega
    rw [hmod]

theorem file_round_trip_leapNoon :
    fileRoundTrip ticksCore (ticksCore.epochTimeToFileTime 951827697 0) =
      some (true, ticksCore.epochTimeToFileTime 951827696 0) :=
  (file_round_trip_iff ticksCore ticksCore_standard 951827697 (by decide)).mpr (by decide)

end RoundTrip

section Order

def evenSecond (c : CivilTime) : CivilTime :=
  { c with
    second := c.second - c.second % 2
    second_lt := (Nat.sub_le _ _).trans_lt c.second_lt }

theorem evenSecond_seconds (c : CivilTime) : (evenSecond c).seconds = 2 * (c.seconds / 2) := by
  have hc := seconds_eq c
  have heven := seconds_eq (evenSecond c)
  simp only [evenSecond] at heven ⊢
  omega

theorem dosStamp_injective {a b : UInt16 × UInt16} (h : dosStamp a = dosStamp b) : a = b := by
  have ha := a.2.toNat_lt
  have hb := b.2.toNat_lt
  unfold dosStamp at h
  exact Prod.ext (UInt16.toNat_inj.mp (by omega)) (UInt16.toNat_inj.mp (by omega))

theorem dosStamp_civil {c : CivilTime} (hlow : 1980 ≤ c.year) (hhigh : c.year ≤ 2107) :
    dosStamp (fatWords (civilElements c)) =
      33554432 * (c.year - 1980) + 2097152 * (c.month + 1) + 65536 * c.day + 2048 * c.hour +
        32 * c.minute + c.second / 2 := by
  rw [dosStamp, fatDate_civil, fatTime_civil]
  omega

theorem dosStamp_lt_iff {c d : CivilTime} (hc : 1980 ≤ c.year) (hc' : c.year ≤ 2107)
    (hd : 1980 ≤ d.year) (hd' : d.year ≤ 2107) :
    dosStamp (fatWords (civilElements c)) < dosStamp (fatWords (civilElements d)) ↔
      c.seconds / 2 < d.seconds / 2 := by
  have hfields := (evenSecond c).seconds_lt_iff (evenSecond d)
  rw [evenSecond_seconds, evenSecond_seconds, Nat.mul_lt_mul_left (by decide)] at hfields
  rw [hfields, dosStamp_civil hc hc', dosStamp_civil hd hd']
  have hbounds (c : CivilTime) : c.month < 12 ∧ c.day ≤ 31 ∧ c.hour < 24 ∧ c.minute < 60 ∧
      c.second < 60 :=
    ⟨c.month_lt, c.day_le.trans (monthLength_le c.year c.month), c.hour_lt, c.minute_lt,
      c.second_lt⟩
  have hboundc := hbounds c
  have hboundd := hbounds d
  simp only [evenSecond]
  omega

/-- DOS stamps keep the order of the file times from 1980 on, and tell any two apart that are
not in the same two seconds. -/
theorem dos_stamps_ordered (core : CoreTime FileTime) (hcore : core.Standard) (s t : Nat)
    (hs : 315532800 ≤ s) (hs' : s < 2 ^ 32) (ht : 315532800 ≤ t) (ht' : t < 2 ^ 32) :
    ∃ a b, ofcFileTimeToDosDateTimeImpl core (core.epochTimeToFileTime s 0) = some (true, a) ∧
      ofcFileTimeToDosDateTimeImpl core (core.epochTimeToFileTime t 0) = some (true, b) ∧
      (dosStamp a < dosStamp b ↔ s / 2 < t / 2) ∧ (a = b ↔ s / 2 = t / 2) := by
  obtain ⟨c, hc, ha⟩ := fromFileTime hcore s hs'
  obtain ⟨d, hd, hb⟩ := fromFileTime hcore t ht'
  have h1980 := yearStart_closed 1980 (by omega)
  have h2107 := yearStart_closed 2107 (by omega)
  have hrange {c : CivilTime} (hlow : 315532800 ≤ c.seconds) (hhigh : c.seconds < 2 ^ 32) :
      1980 ≤ c.year ∧ c.year ≤ 2107 := by
    have hfirst := c.seconds_lt_year_iff 1980
    have hlast := c.seconds_lt_year_iff 2107
    omega
  obtain ⟨hcl, hch⟩ := hrange (hc ▸ hs) (hc ▸ hs')
  obtain ⟨hdl, hdh⟩ := hrange (hd ▸ ht) (hd ▸ ht')
  have hlt := dosStamp_lt_iff hcl hch hdl hdh
  have hgt := dosStamp_lt_iff hdl hdh hcl hch
  rw [hc, hd] at hlt hgt
  refine ⟨_, _, ha, hb, hlt, ?_⟩
  constructor
  · intro hsame
    rw [hsame] at hlt hgt
    omega
  · intro hsame
    exact dosStamp_injective (by omega)

theorem dos_stamps_ordered_millennium : ∃ a b,
    ofcFileTimeToDosDateTimeImpl ticksCore (ticksCore.epochTimeToFileTime 946684799 0) =
      some (true, a) ∧
    ofcFileTimeToDosDateTimeImpl ticksCore (ticksCore.epochTimeToFileTime 946684800 0) =
      some (true, b) ∧ dosStamp a < dosStamp b := by
  obtain ⟨a, b, ha, hb, hlt, -⟩ := dos_stamps_ordered ticksCore ticksCore_standard 946684799
    946684800 (by decide) (by decide) (by decide) (by decide)
  exact ⟨a, b, ha, hb, hlt.mpr (by decide)⟩

end Order

end CoreAndroid.DosTime

import Muduo.Date
import Muduo.HttpContext

/-!
# Calendar times in UTC

`TimeZone::toUtcTime` and `TimeZone::fromUtcTime` of `base/TimeZone.cc`. A `time_t` is
an integer; the conversions of it to `int` wrap, and the `int`s that are computed from
them stay far from their bounds where the day number is one that `Date` can convert.
-/
namespace Muduo

/-- `struct tm` -/
structure Tm where
  sec : ℤ
  min : ℤ
  hour : ℤ
  mday : ℤ
  mon : ℤ
  year : ℤ
  wday : ℤ
  yday : ℤ
  isdst : ℤ
  gmtoff : ℤ
  zone : List UInt8
  deriving DecidableEq, Repr

/-- After `bzero`. -/
def Tm.zero : Tm := ⟨0, 0, 0, 0, 0, 0, 0, 0, 0, 0, []⟩

namespace TimeZone

def kSecondsPerDay : ℤ := 24 * 60 * 60

def kJulianDayOf1970_01_01 : ℤ := Date.number ⟨1970, 1, 1⟩

/-- `static_cast<int>` -/
def toInt (x : ℤ) : ℤ := x.bmod (2 ^ 32)

/-- `fillHMS(seconds, utc)`; `seconds` is unsigned. -/
def fillHMS (seconds : ℕ) (utc : Tm) : Tm :=
  let minutes := seconds / 60
  { utc with
    sec := (seconds % 60 : ℕ)
    min := (minutes % 60 : ℕ)
    hour := (minutes / 60 : ℕ) }

def toUtcTime (secondsSinceEpoch : ℤ) (yday : Bool) : Tm :=
  let utc := { Tm.zero with zone := text "GMT" }
  let seconds := toInt (secondsSinceEpoch.tmod kSecondsPerDay)
  let days := toInt (secondsSinceEpoch.tdiv kSecondsPerDay)
  let (seconds, days) :=
    if seconds < 0 then (seconds + kSecondsPerDay, days - 1) else (seconds, days)
  let utc := fillHMS (seconds % 2 ^ 32).toNat utc
  let date := days + kJulianDayOf1970_01_01
  let ymd := Date.date date
  let utc := { utc with
    year := ymd.year - 1900
    mon := ymd.month - 1
    mday := ymd.day
    wday := Date.weekDayOf date }
  if yday then { utc with yday := date - Date.number ⟨ymd.year, 1, 1⟩ } else utc

/-- `fromUtcTime(year, month, day, hour, minute, seconds)` -/
def fromYearToSeconds (year month day hour minute seconds : ℤ) : ℤ :=
  let secondsInDay := hour * 3600 + minute * 60 + seconds
  let days := Date.number ⟨year, month, day⟩ - kJulianDayOf1970_01_01
  days * kSecondsPerDay + secondsInDay

def fromUtcTime (utc : Tm) : ℤ :=
  fromYearToSeconds (utc.year + 1900) (utc.mon + 1) utc.mday utc.hour utc.min utc.sec

end TimeZone

/-- The date of a calendar time. -/
def Tm.date (tm : Tm) : Gregorian.Date := ⟨tm.year + 1900, tm.mon + 1, tm.mday⟩

/-- What calendar times are ordered by. -/
def Tm.fields (tm : Tm) : List ℤ := [tm.year, tm.mon, tm.mday, tm.hour, tm.min, tm.sec]

/-- A time of day, a date with its day of the week and of the year, and UTC. The first
day of 1970 was a Thursday. -/
structure Tm.Normalized (tm : Tm) : Prop where
  sec : 0 ≤ tm.sec ∧ tm.sec < 60
  min : 0 ≤ tm.min ∧ tm.min < 60
  hour : 0 ≤ tm.hour ∧ tm.hour < 24
  date : tm.date.Valid
  wday : tm.wday = (Date.number tm.date - Date.number ⟨1970, 1, 1⟩ + 4) % 7
  yday : tm.yday = tm.date.dayOfYear
  isdst : tm.isdst = 0
  gmtoff : tm.gmtoff = 0
  zone : tm.zone = text "GMT"

namespace TimeZone

/-- The day numbers that `Date` converts without an overflow, from number 0 on. -/
def Convertible (n : ℤ) : Prop := 0 ≤ n ∧ n ≤ 536838866

instance (n : ℤ) : Decidable (Convertible n) := inferInstanceAs (Decidable (_ ∧ _))

theorem kJulianDayOf1970_01_01_eq : kJulianDayOf1970_01_01 = 2440588 := by decide

theorem toInt_eq {x : ℤ} (h : -2 ^ 31 ≤ x) (h' : x < 2 ^ 31) : toInt x = x :=
  Int.bmod_eq_of_le (by omega) (by omega)

/-- Truncating division of a negative number, by division that rounds down. -/
theorem truncated_neg {t : ℤ} (ht : t < 0) :
    t.tdiv 86400 = -(-t / 86400) ∧ t.tmod 86400 = -(-t % 86400) := by
  obtain ⟨s, rfl⟩ : ∃ s, t = -s := ⟨-t, by ring⟩
  rw [Int.neg_tdiv, Int.neg_tmod, Int.tdiv_eq_ediv_of_nonneg (by omega),
    Int.tmod_eq_emod_of_nonneg (by omega), neg_neg]
  exact ⟨rfl, rfl⟩

/-- The truncating division and the carry are a division that rounds down. -/
theorem carry {t : ℤ} (ht : Convertible (t / 86400 + 2440588)) :
    (if toInt (t.tmod kSecondsPerDay) < 0 then
      (toInt (t.tmod kSecondsPerDay) + kSecondsPerDay, toInt (t.tdiv kSecondsPerDay) - 1)
    else (toInt (t.tmod kSecondsPerDay), toInt (t.tdiv kSecondsPerDay))) =
      (t % 86400, t / 86400) := by
  obtain ⟨h₁, h₂⟩ := ht
  rw [show kSecondsPerDay = 86400 from rfl]
  rcases Int.lt_or_le t 0 with hneg | hpos
  · obtain ⟨hdiv, hmod⟩ := truncated_neg hneg
    rw [hdiv, hmod, toInt_eq (by omega) (by omega), toInt_eq (by omega) (by omega)]
    split_ifs
    · rw [Prod.mk.injEq]
      omega
    · rw [Prod.mk.injEq]
      omega
  · rw [Int.tdiv_eq_ediv_of_nonneg hpos, Int.tmod_eq_emod_of_nonneg hpos,
      toInt_eq (by omega) (by omega), toInt_eq (by omega) (by omega)]
    rw [if_neg (by omega)]

/-- The time of day and the date of a time. -/
theorem toUtcTime_eq {t : ℤ} (ht : Convertible (t / 86400 + 2440588)) (yday : Bool) :
    toUtcTime t yday =
      { sec := t % 86400 % 60
        min := t % 86400 / 60 % 60
        hour := t % 86400 / 3600
        mday := (Date.date (t / 86400 + 2440588)).day
        mon := (Date.date (t / 86400 + 2440588)).month - 1
        year := (Date.date (t / 86400 + 2440588)).year - 1900
        wday := Date.weekDayOf (t / 86400 + 2440588)
        yday := if yday then t / 86400 + 2440588 -
          Date.number ⟨(Date.date (t / 86400 + 2440588)).year, 1, 1⟩ else 0
        isdst := 0
        gmtoff := 0
        zone := text "GMT" } := by
  unfold toUtcTime
  dsimp only
  rw [carry ht, kJulianDayOf1970_01_01_eq]
  dsimp only
  have hsec : t % 86400 % 2 ^ 32 = t % 86400 := by omega
  have hpos : 0 ≤ t % 86400 := by omega
  rw [hsec]
  unfold fillHMS
  dsimp only
  have h₁ : ((t % 86400).toNat % 60 : ℕ) = t % 86400 % 60 := by omega
  have h₂ : ((t % 86400).toNat / 60 % 60 : ℕ) = t % 86400 / 60 % 60 := by omega
  have h₃ : ((t % 86400).toNat / 60 / 60 : ℕ) = t % 86400 / 3600 := by omega
  rw [h₁, h₂, h₃]
  cases yday <;> rfl

theorem date_toUtcTime {t : ℤ} (ht : Convertible (t / 86400 + 2440588)) (yday : Bool) :
    (toUtcTime t yday).date = Date.date (t / 86400 + 2440588) := by
  rw [toUtcTime_eq ht]
  unfold Tm.date
  simp

theorem normalized_toUtcTime {t : ℤ} (ht : Convertible (t / 86400 + 2440588)) :
    (toUtcTime t true).Normalized := by
  have hdate := date_toUtcTime ht true
  rw [toUtcTime_eq ht] at hdate ⊢
  obtain ⟨h₁, h₂⟩ := ht
  have hn : -32044 ≤ t / 86400 + 2440588 := by omega
  exact {
    sec := by dsimp only; omega
    min := by dsimp only; omega
    hour := by dsimp only; omega
    date := by
      rw [hdate]
      exact Date.valid_date hn
    wday := by
      rw [hdate, Date.number_date hn, show Date.number ⟨1970, 1, 1⟩ = 2440588 by decide]
      dsimp only
      rw [Date.weekDayOf_eq h₁]
      omega
    yday := by
      have hyear := Date.year_date h₁
      have hsub := Date.number_sub (Date.valid_date hn) (Date.counted_date hn)
        (.inl (by dsimp only; omega))
      rw [Date.number_date hn] at hsub
      rw [hdate]
      exact hsub
    isdst := rfl
    gmtoff := rfl
    zone := rfl }

theorem fromUtcTime_eq (tm : Tm) : fromUtcTime tm =
    (Date.number tm.date - 2440588) * 86400 + (tm.hour * 3600 + tm.min * 60 + tm.sec) := by
  unfold fromUtcTime fromYearToSeconds
  rw [kJulianDayOf1970_01_01_eq]
  rfl

theorem fromUtcTime_toUtcTime {t : ℤ} (ht : Convertible (t / 86400 + 2440588)) (yday : Bool) :
    fromUtcTime (toUtcTime t yday) = t := by
  have hn : -32044 ≤ t / 86400 + 2440588 := by
    have := ht.1
    omega
  rw [fromUtcTime_eq, date_toUtcTime ht, Date.number_date hn, toUtcTime_eq ht]
  dsimp only
  omega

theorem toUtcTime_fromUtcTime {tm : Tm} (h : tm.Normalized) (ht : Convertible (Date.number tm.date)) :
    toUtcTime (fromUtcTime tm) true = tm := by
  have hc := Date.counted_of_number h.date ht.1
  have hdate := Date.date_number h.date hc
  obtain ⟨h₁, h₂⟩ := h.sec
  obtain ⟨h₃, h₄⟩ := h.min
  obtain ⟨h₅, h₆⟩ := h.hour
  have hwday := h.wday
  rw [show Date.number ⟨1970, 1, 1⟩ = 2440588 by decide] at hwday
  have hyday := h.yday
  have hfields := fromUtcTime_eq tm
  generalize hn : Date.number tm.date = n at *
  generalize fromUtcTime tm = t at *
  have hday : t / 86400 + 2440588 = n := by omega
  have hyear := Date.year_date ht.1
  rw [hdate] at hyear
  have hsub := Date.number_sub h.date hc (.inl (by dsimp only; omega))
  rw [toUtcTime_eq (by rw [hday]; exact ht), hday, hdate]
  obtain ⟨sec, min, hour, mday, mon, year, wday, yday, isdst, gmtoff, zone⟩ := tm
  have hisdst := h.isdst
  have hgmtoff := h.gmtoff
  have hzone := h.zone
  rw [← hyday, hn] at hsub
  unfold Tm.date at *
  dsimp only at *
  rw [if_pos rfl, hsub, Tm.mk.injEq, Date.weekDayOf_eq ht.1]
  refine ⟨?_, ?_, ?_, rfl, ?_, ?_, ?_, rfl, hisdst.symm, hgmtoff.symm, hzone.symm⟩
  all_goals omega

/-- The order of dates is that of their fields in a `tm`. -/
theorem tm_fields_lt {y m d y' m' d' : ℤ} {l l' : List ℤ} (h : [y, m, d] < [y', m', d']) :
    (y - 1900) :: (m - 1) :: d :: l < (y' - 1900) :: (m' - 1) :: d' :: l' := by
  simp only [List.cons_lt_cons_iff, lt_irrefl, and_false, or_false] at h ⊢
  omega

/-- Calendar times are in the order of the times. -/
theorem fields_toUtcTime_lt {t t' : ℤ} (ht : Convertible (t / 86400 + 2440588))
    (ht' : Convertible (t' / 86400 + 2440588)) (h : t < t') (yday : Bool) :
    (toUtcTime t yday).fields < (toUtcTime t' yday).fields := by
  rw [toUtcTime_eq ht, toUtcTime_eq ht']
  unfold Tm.fields
  dsimp only
  have hle : t / 86400 ≤ t' / 86400 := by omega
  rcases hle.eq_or_lt with heq | hlt
  · rw [heq]
    simp only [List.cons_lt_cons_iff, lt_irrefl, false_or, true_and]
    omega
  · obtain ⟨h₁, -⟩ := ht
    have hdate := Date.fields_date_lt (by omega : -32044 ≤ t / 86400 + 2440588)
      (by omega : t / 86400 + 2440588 < t' / 86400 + 2440588)
    exact tm_fields_lt hdate

/-- The conversions between times and calendar times are inverse to each other and keep
the order. -/
theorem utcTime_bijective :
    (∀ t, Convertible (t / kSecondsPerDay + kJulianDayOf1970_01_01) →
      (toUtcTime t true).Normalized ∧ ∀ yday, fromUtcTime (toUtcTime t yday) = t) ∧
    (∀ tm : Tm, tm.Normalized → Convertible (Date.number tm.date) →
      toUtcTime (fromUtcTime tm) true = tm) ∧
    ∀ t t', Convertible (t / kSecondsPerDay + kJulianDayOf1970_01_01) →
      Convertible (t' / kSecondsPerDay + kJulianDayOf1970_01_01) → t < t' →
      ∀ yday, (toUtcTime t yday).fields < (toUtcTime t' yday).fields := by
  rw [kJulianDayOf1970_01_01_eq, show kSecondsPerDay = 86400 from rfl]
  exact ⟨fun t ht => ⟨normalized_toUtcTime ht, fromUtcTime_toUtcTime ht⟩,
    fun tm => toUtcTime_fromUtcTime, fun t t' => fields_toUtcTime_lt⟩

/-- The last second before 1970, a Wednesday. -/
theorem utcTime_bijective_sample :
    fromUtcTime ⟨59, 59, 23, 31, 11, 69, 3, 364, 0, 0, text "GMT"⟩ = -1 ∧
      toUtcTime (-1) true = ⟨59, 59, 23, 31, 11, 69, 3, 364, 0, 0, text "GMT"⟩ := by
  have heq : toUtcTime (-1) true = ⟨59, 59, 23, 31, 11, 69, 3, 364, 0, 0, text "GMT"⟩ := by decide
  have h := (utcTime_bijective.1 (-1) (by decide)).2 true
  rw [heq] at h
  exact ⟨h, heq⟩

end TimeZone
end Muduo

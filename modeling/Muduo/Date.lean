import Muduo.Library.CInt
import Muduo.Library.Gregorian

/-!
# Date

`base/Date.cc` and `base/Date.h`. The conversions between dates and Julian day numbers
are written over the operators of `int`, and read both without bounds and on 32 bits.
-/
namespace Muduo

structure YearMonthDay (α : Type) where
  year : α
  month : α
  day : α
  deriving DecidableEq, Repr

namespace Date
open CInt

section Conversions
variable {α : Type} [Add α] [Sub α] [Mul α] [Div α] [Mod α] [∀ n, OfNat α n]

def getJulianDayNumber (year month day : α) : α :=
  let a := (14 - month) / 12
  let y := year + 4800 - a
  let m := month + 12 * a - 3
  day + (153 * m + 2) / 5 + y * 365 + y / 4 - y / 100 + y / 400 - 32045

def getYearMonthDay (julianDayNumber : α) : YearMonthDay α :=
  let a := julianDayNumber + 32044
  let b := (4 * a + 3) / 146097
  let c := a - ((b * 146097) / 4)
  let d := (4 * c + 3) / 1461
  let e := c - ((1461 * d) / 4)
  let m := (5 * e + 2) / 153
  { day := e - ((153 * m + 2) / 5) + 1
    month := m + 3 - 12 * (m / 10)
    year := b * 100 + d - 4800 + (m / 10) }

def weekDay (julianDayNumber : α) : α := (julianDayNumber + 1) % 7

end Conversions

/-- The number of a date, without bounds. -/
def number (d : Gregorian.Date) : ℤ :=
  (getJulianDayNumber (⟨d.year⟩ : Exact) ⟨d.month⟩ ⟨d.day⟩).val

/-- The date of a number, without bounds. -/
def date (n : ℤ) : Gregorian.Date :=
  let ymd := getYearMonthDay (⟨n⟩ : Exact)
  ⟨ymd.year.val, ymd.month.val, ymd.day.val⟩

/-- From March 1st, -4800 on. -/
def Counted (d : Gregorian.Date) : Prop := -4800 < d.year ∨ d.year = -4800 ∧ 3 ≤ d.month

instance (d : Gregorian.Date) : Decidable (Counted d) := inferInstanceAs (Decidable (_ ∨ _))

/-! ### The count of the days

`y` is a year from March to February, `m` a month of it and `e` a day. -/

/-- The days before the year `y`. -/
def daysBeforeYear (y : ℤ) : ℤ := 365 * y + y / 4 - y / 100 + y / 400

/-- The days of the year before the month `m`. -/
def daysBeforeMonth (m : ℤ) : ℤ := (153 * m + 2) / 5

theorem number_eq {d : Gregorian.Date} (hv : d.Valid) (hc : Counted d) :
    number d = d.day + daysBeforeMonth ((d.month + 9) % 12) +
      daysBeforeYear (d.year + 4800 - (14 - d.month) / 12) - 32045 := by
  have h₁ := hv.month_pos
  have h₂ := hv.month_le
  have hy : 0 ≤ d.year + 4800 - (14 - d.month) / 12 := by
    unfold Counted at hc
    omega
  have hm : d.month + 12 * ((14 - d.month) / 12) - 3 = (d.month + 9) % 12 := by omega
  unfold number getJulianDayNumber daysBeforeYear daysBeforeMonth
  simp only [Exact.val_add, Exact.val_sub, Exact.val_mul, Exact.val_div, Exact.val_ofNat]
  push_cast
  rw [Int.tdiv_eq_ediv_of_nonneg (by omega : 0 ≤ 14 - d.month), hm,
    Int.tdiv_eq_ediv_of_nonneg (by omega : 0 ≤ 153 * ((d.month + 9) % 12) + 2),
    Int.tdiv_eq_ediv_of_nonneg hy, Int.tdiv_eq_ediv_of_nonneg hy, Int.tdiv_eq_ediv_of_nonneg hy]
  omega

/-- The length of the month `m` of a year that ends in February of the calendar year `y + 1`. -/
theorem daysBeforeMonth_succ {d : Gregorian.Date} (hv : d.Valid) :
    let m := (d.month + 9) % 12
    (m < 11 → daysBeforeMonth (m + 1) = daysBeforeMonth m + Gregorian.daysInMonth d.year d.month) ∧
    (m = 11 → daysBeforeMonth m + Gregorian.daysInMonth d.year d.month =
      if Gregorian.IsLeap d.year then 366 else 365) := by
  obtain ⟨h₁, h₂, -, -⟩ := hv
  have hcases : d.month = 1 ∨ d.month = 2 ∨ d.month = 3 ∨ d.month = 4 ∨ d.month = 5 ∨ d.month = 6 ∨
      d.month = 7 ∨ d.month = 8 ∨ d.month = 9 ∨ d.month = 10 ∨ d.month = 11 ∨ d.month = 12 := by
    omega
  unfold daysBeforeMonth Gregorian.daysInMonth
  rcases hcases with h | h | h | h | h | h | h | h | h | h | h | h
  all_goals
    rw [h]
    norm_num
  split_ifs <;> norm_num

/-- A century of years, a year of the century and a day of the year. -/
structure Parts where
  century : ℤ
  year : ℤ
  day : ℤ
  deriving DecidableEq, Repr

/-- Only the last year of four has a day 365, and that of a century only every fourth time. -/
structure Parts.Valid (p : Parts) : Prop where
  year_nonneg : 0 ≤ p.year
  year_le : p.year ≤ 99
  day_nonneg : 0 ≤ p.day
  day_le : p.day ≤ 365
  leap : p.day = 365 → p.year % 4 = 3 ∧ (p.year = 99 → p.century % 4 = 3)

def Parts.days (p : Parts) : ℤ :=
  36524 * p.century + p.century / 4 + 365 * p.year + p.year / 4 + p.day

/-- The divisions of `getYearMonthDay`. -/
def parts (a : ℤ) : Parts :=
  let b := (4 * a + 3) / 146097
  let c := a - b * 146097 / 4
  let d := (4 * c + 3) / 1461
  ⟨b, d, c - 1461 * d / 4⟩

theorem century_eq (b : ℤ) : b * 146097 / 4 = 36524 * b + b / 4 := by omega

theorem year_eq (d : ℤ) : 1461 * d / 4 = 365 * d + d / 4 := by omega

/-- The days that are left in the century. -/
theorem century_bounds {a b c : ℤ} (hb : b = (4 * a + 3) / 146097)
    (hc : c = a - (36524 * b + b / 4)) : 0 ≤ c ∧ c ≤ 36524 ∧ (c = 36524 → b % 4 = 3) := by
  omega

/-- The days that are left in the year. -/
theorem year_bounds {c d e : ℤ} (hc : 0 ≤ c) (hc' : c ≤ 36524) (hd : d = (4 * c + 3) / 1461)
    (he : e = c - (365 * d + d / 4)) :
    0 ≤ d ∧ d ≤ 99 ∧ 0 ≤ e ∧ e ≤ 365 ∧ (e = 365 → d % 4 = 3) ∧
      (e = 365 → d = 99 → c = 36524) := by
  omega

theorem valid_parts (a : ℤ) : (parts a).Valid := by
  unfold parts
  dsimp only
  rw [century_eq, year_eq]
  generalize hb : (4 * a + 3) / 146097 = b
  generalize hc : a - (36524 * b + b / 4) = c
  generalize hd : (4 * c + 3) / 1461 = d
  generalize he : c - (365 * d + d / 4) = e
  obtain ⟨h₁, h₂, h₃⟩ := century_bounds hb.symm hc.symm
  obtain ⟨h₄, h₅, h₆, h₇, h₈, h₉⟩ := year_bounds h₁ h₂ hd.symm he.symm
  exact ⟨h₄, h₅, h₆, h₇, fun hday => ⟨h₈ hday, fun hyear => h₃ (h₉ hday hyear)⟩⟩

theorem days_parts (a : ℤ) : (parts a).days = a := by
  unfold parts Parts.days
  dsimp only
  rw [century_eq, year_eq]
  ring

/-- The divisions find the parts that the days have been counted from. -/
theorem parts_days {p : Parts} (h : p.Valid) : parts p.days = p := by
  obtain ⟨b, d, e⟩ := p
  obtain ⟨h₁, h₂, h₃, h₄, hleap⟩ := h
  dsimp only at h₁ h₂ h₃ h₄ hleap
  have hb : (4 * (36524 * b + b / 4 + 365 * d + d / 4 + e) + 3) / 146097 = b := by omega
  have hc : 36524 * b + b / 4 + 365 * d + d / 4 + e - (36524 * b + b / 4) =
      365 * d + d / 4 + e := by ring
  have hd : (4 * (365 * d + d / 4 + e) + 3) / 1461 = d := by omega
  have he : 365 * d + d / 4 + e - (365 * d + d / 4) = e := by ring
  unfold parts Parts.days
  dsimp only
  rw [hb, century_eq, hc, hd, year_eq, he]

/-- The date of a day of a year from March to February. -/
def Parts.date (p : Parts) : Gregorian.Date :=
  let m := (5 * p.day + 2) / 153
  ⟨p.century * 100 + p.year - 4800 + m / 10, m + 3 - 12 * (m / 10),
    p.day - daysBeforeMonth m + 1⟩

theorem date_eq {n : ℤ} (hn : -32044 ≤ n) : date n = (parts (n + 32044)).date := by
  unfold date getYearMonthDay Parts.date parts daysBeforeMonth
  simp only [Exact.val_add, Exact.val_sub, Exact.val_mul, Exact.val_div, Exact.val_ofNat]
  push_cast
  -- every dividend is nonnegative, one division after the other
  rw [Int.tdiv_eq_ediv_of_nonneg (by omega : 0 ≤ 4 * (n + 32044) + 3)]
  generalize hb : (4 * (n + 32044) + 3) / 146097 = b
  have hb₀ : 0 ≤ b := by omega
  rw [Int.tdiv_eq_ediv_of_nonneg (by omega : 0 ≤ b * 146097), century_eq]
  generalize hc : n + 32044 - (36524 * b + b / 4) = c
  obtain ⟨hc₀, hc₁, -⟩ := century_bounds hb.symm hc.symm
  rw [Int.tdiv_eq_ediv_of_nonneg (by omega : 0 ≤ 4 * c + 3)]
  generalize hd : (4 * c + 3) / 1461 = d
  have hd₀ : 0 ≤ d := by omega
  rw [Int.tdiv_eq_ediv_of_nonneg (by omega : 0 ≤ 1461 * d), year_eq]
  generalize he : c - (365 * d + d / 4) = e
  obtain ⟨-, -, he₀, -⟩ := year_bounds hc₀ hc₁ hd.symm he.symm
  rw [Int.tdiv_eq_ediv_of_nonneg (by omega : 0 ≤ 5 * e + 2)]
  generalize hm : (5 * e + 2) / 153 = m
  have hm₀ : 0 ≤ m := by omega
  rw [Int.tdiv_eq_ediv_of_nonneg hm₀, Int.tdiv_eq_ediv_of_nonneg (by omega : 0 ≤ 153 * m + 2)]

/-- A day of the year has its date. -/
theorem Parts.Valid.date {p : Parts} (h : p.Valid) : p.date.Valid := by
  obtain ⟨b, d, e⟩ := p
  obtain ⟨h₁, h₂, h₃, h₄, hleap⟩ := h
  dsimp only at h₁ h₂ h₃ h₄ hleap
  unfold Parts.date daysBeforeMonth
  dsimp only
  generalize hm : (5 * e + 2) / 153 = m
  have hm₀ : 0 ≤ m := by omega
  have hm₁ : m ≤ 11 := by omega
  have hcarry : m ≤ 9 ∧ m / 10 = 0 ∨ 10 ≤ m ∧ m / 10 = 1 := by omega
  rcases hcarry with ⟨hm₂, hq⟩ | ⟨hm₂, hq⟩
  all_goals
    rw [hq]
    refine ⟨by dsimp only; omega, by dsimp only; omega, by dsimp only; omega, ?_⟩
    unfold Gregorian.daysInMonth Gregorian.IsLeap
    dsimp only
    split_ifs <;> omega

theorem Parts.Valid.counted_date {p : Parts} (h : p.Valid) (hc : 0 ≤ p.century) :
    Counted p.date := by
  obtain ⟨b, d, e⟩ := p
  obtain ⟨h₁, h₂, h₃, h₄, -⟩ := h
  dsimp only at h₁ h₂ h₃ h₄ hc
  unfold Counted Parts.date
  dsimp only
  omega

theorem number_date_parts {p : Parts} (h : p.Valid) (hc : 0 ≤ p.century) :
    number p.date = p.days - 32044 := by
  rw [number_eq h.date (h.counted_date hc)]
  obtain ⟨b, d, e⟩ := p
  obtain ⟨h₁, h₂, h₃, h₄, -⟩ := h
  dsimp only at h₁ h₂ h₃ h₄
  unfold Parts.date Parts.days daysBeforeMonth daysBeforeYear
  dsimp only
  generalize hm : (5 * e + 2) / 153 = m
  have hm₀ : 0 ≤ m := by omega
  have hm₁ : m ≤ 11 := by omega
  have hmonth : (m + 3 - 12 * (m / 10) + 9) % 12 = m := by omega
  have hyear : b * 100 + d - 4800 + m / 10 + 4800 - (14 - (m + 3 - 12 * (m / 10))) / 12 =
      b * 100 + d := by omega
  rw [hmonth, hyear]
  omega

/-- The parts of a date. -/
def partsOf (d : Gregorian.Date) : Parts :=
  let y := d.year + 4800 - (14 - d.month) / 12
  ⟨y / 100, y % 100, daysBeforeMonth ((d.month + 9) % 12) + d.day - 1⟩

theorem valid_partsOf {d : Gregorian.Date} (hv : d.Valid) : (partsOf d).Valid := by
  have hday := hv.day_le
  obtain ⟨h₁, h₂, h₃, -⟩ := hv
  unfold Gregorian.daysInMonth Gregorian.IsLeap at hday
  unfold partsOf daysBeforeMonth
  dsimp only
  refine ⟨by dsimp only; omega, by dsimp only; omega, by dsimp only; omega, ?_, ?_⟩
  · dsimp only
    split_ifs at hday <;> omega
  · dsimp only
    split_ifs at hday <;> omega

/-- A month ends before the next one begins. -/
theorem day_le_sub {d : Gregorian.Date} (hv : d.Valid) :
    d.day ≤ daysBeforeMonth ((d.month + 9) % 12 + 1) - daysBeforeMonth ((d.month + 9) % 12) := by
  have hday := hv.day_le
  obtain ⟨hsucc, -⟩ := daysBeforeMonth_succ hv
  by_cases hm : (d.month + 9) % 12 < 11
  · have := hsucc hm
    omega
  · have hlast : (d.month + 9) % 12 = 11 := by omega
    have hfeb : d.month = 2 := by
      have := hv.month_pos
      have := hv.month_le
      omega
    rw [hlast]
    unfold daysBeforeMonth
    unfold Gregorian.daysInMonth at hday
    rw [if_pos hfeb] at hday
    split_ifs at hday <;> omega

theorem date_partsOf {d : Gregorian.Date} (hv : d.Valid) : (partsOf d).date = d := by
  have hlen := day_le_sub hv
  obtain ⟨h₁, h₂, h₃, -⟩ := hv
  obtain ⟨year, month, day⟩ := d
  dsimp only at h₁ h₂ h₃ hlen
  unfold partsOf Parts.date daysBeforeMonth
  unfold daysBeforeMonth at hlen
  dsimp only
  generalize hm : (month + 9) % 12 = m at *
  have hm' : (5 * ((153 * m + 2) / 5 + day - 1) + 2) / 153 = m := by omega
  rw [hm', Gregorian.Date.mk.injEq]
  refine ⟨?_, ?_, ?_⟩ <;> omega

theorem century_partsOf {d : Gregorian.Date} (hv : d.Valid) (hc : Counted d) :
    0 ≤ (partsOf d).century := by
  have h₁ := hv.month_pos
  have h₂ := hv.month_le
  unfold Counted at hc
  unfold partsOf
  dsimp only
  omega

theorem number_eq_days {d : Gregorian.Date} (hv : d.Valid) (hc : Counted d) :
    number d = (partsOf d).days - 32044 := by
  conv_lhs => rw [← date_partsOf hv]
  exact number_date_parts (valid_partsOf hv) (century_partsOf hv hc)

theorem Counted.next {d : Gregorian.Date} (hc : Counted d) : Counted d.next := by
  unfold Counted Gregorian.Date.next at *
  split_ifs
  all_goals
    dsimp only
    omega

/-- The day after a date has the next number. -/
theorem number_next {d : Gregorian.Date} (hv : d.Valid) (hc : Counted d) :
    number d.next = number d + 1 := by
  obtain ⟨hsucc, hlast⟩ := daysBeforeMonth_succ hv
  rw [number_eq hv.next hc.next, number_eq hv hc]
  have h₁ := hv.month_pos
  have h₂ := hv.month_le
  have h₃ := hv.day_le
  unfold Gregorian.Date.next
  split_ifs with hday hmonth
  · dsimp only
    ring
  · by_cases hfeb : d.month = 2
    · have hm : (d.month + 9) % 12 = 11 := by omega
      have hend := hlast hm
      have hm' : (d.month + 1 + 9) % 12 = 0 := by omega
      rw [hm] at hend
      dsimp only
      rw [hm, hm', hfeb]
      unfold Gregorian.IsLeap at hend
      unfold daysBeforeYear daysBeforeMonth at *
      split_ifs at hend <;> omega
    · have hend := hsucc (by omega)
      have hm : (d.month + 1 + 9) % 12 = (d.month + 9) % 12 + 1 := by omega
      have hy : (14 - (d.month + 1)) / 12 = (14 - d.month) / 12 := by omega
      dsimp only
      rw [hm, hy, hend]
      omega
  · have hend := hsucc (by omega)
    have hm : (d.month + 9) % 12 = 9 := by omega
    have hy : d.year + 1 + 4800 - (14 - 1) / 12 = d.year + 4800 - (14 - d.month) / 12 := by omega
    rw [hm] at hend
    dsimp only
    rw [hy, hm]
    norm_num at hend ⊢
    rw [hend]
    omega

/-- The days since the first day of the year. -/
theorem number_sub {d : Gregorian.Date} (hv : d.Valid) (hc : Counted d)
    (hc' : Counted ⟨d.year, 1, 1⟩) : number d - number ⟨d.year, 1, 1⟩ = d.dayOfYear := by
  have hfirst : (⟨d.year, 1, 1⟩ : Gregorian.Date).Valid := by
    have := (Gregorian.daysInMonth_bounds d.year 1).1
    exact ⟨le_rfl, by norm_num, le_rfl, by dsimp only; omega⟩
  rw [number_eq hv hc, number_eq hfirst hc']
  obtain ⟨h₁, h₂, -, -⟩ := hv
  obtain ⟨year, month, day⟩ := d
  dsimp only at h₁ h₂
  have hcases : month = 1 ∨ month = 2 ∨ month = 3 ∨ month = 4 ∨ month = 5 ∨ month = 6 ∨
      month = 7 ∨ month = 8 ∨ month = 9 ∨ month = 10 ∨ month = 11 ∨ month = 12 := by omega
  unfold Gregorian.Date.dayOfYear daysBeforeMonth daysBeforeYear
  dsimp only
  rcases hcases with rfl | rfl | rfl | rfl | rfl | rfl | rfl | rfl | rfl | rfl | rfl | rfl
  all_goals
    simp [List.range_succ, Gregorian.daysInMonth, Gregorian.IsLeap]
  all_goals
    try split_ifs
    all_goals omega

/-- The day of the week of a number, without bounds. -/
def weekDayOf (n : ℤ) : ℤ := (weekDay (⟨n⟩ : Exact)).val

theorem weekDayOf_eq {n : ℤ} (hn : 0 ≤ n) : weekDayOf n = (n + 1) % 7 := by
  unfold weekDayOf weekDay
  simp only [Exact.val_mod, Exact.val_add, Exact.val_ofNat]
  push_cast
  rw [Int.tmod_eq_emod_of_nonneg (by omega)]

/-! ### On 32 bits -/

theorem getYearMonthDay_of {n : ℤ} (hn : -32044 ≤ n) (hn' : n ≤ 536838866) :
    getYearMonthDay (Word.of n) =
      ⟨.of (date n).year, .of (date n).month, .of (date n).day⟩ := by
  rw [date_eq hn]
  unfold getYearMonthDay Parts.date parts daysBeforeMonth
  simp (disch := norm_num) only [Word.ofNat_eq]
  push_cast
  rw [Word.of_add (x := n) (y := 32044) ⟨by omega, by omega⟩,
    Word.of_mul (x := 4) (y := n + 32044) ⟨by omega, by omega⟩,
    Word.of_add (x := 4 * (n + 32044)) ⟨by omega, by omega⟩,
    Word.of_ediv (x := 4 * (n + 32044) + 3) (by omega) (by norm_num) (by omega)]
  generalize hb : (4 * (n + 32044) + 3) / 146097 = b
  have hb₀ : 0 ≤ b ∧ b ≤ 14699 := by omega
  rw [Word.of_mul (x := b) (y := 146097) ⟨by omega, by omega⟩,
    Word.of_ediv (x := b * 146097) (by omega) (by norm_num) (by omega), century_eq,
    Word.of_sub (x := n + 32044) ⟨by omega, by omega⟩]
  generalize hc : n + 32044 - (36524 * b + b / 4) = c
  obtain ⟨hc₀, hc₁, -⟩ := century_bounds hb.symm hc.symm
  rw [Word.of_mul (x := 4) (y := c) ⟨by omega, by omega⟩,
    Word.of_add (x := 4 * c) ⟨by omega, by omega⟩,
    Word.of_ediv (x := 4 * c + 3) (by omega) (by norm_num) (by omega)]
  generalize hd : (4 * c + 3) / 1461 = d
  have hd₀ : 0 ≤ d ∧ d ≤ 99 := by omega
  rw [Word.of_mul (x := 1461) (y := d) ⟨by omega, by omega⟩,
    Word.of_ediv (x := 1461 * d) (by omega) (by norm_num) (by omega), year_eq,
    Word.of_sub (x := c) ⟨by omega, by omega⟩]
  generalize he : c - (365 * d + d / 4) = e
  obtain ⟨-, -, he₀, he₁, -⟩ := year_bounds hc₀ hc₁ hd.symm he.symm
  rw [Word.of_mul (x := 5) (y := e) ⟨by omega, by omega⟩,
    Word.of_add (x := 5 * e) ⟨by omega, by omega⟩,
    Word.of_ediv (x := 5 * e + 2) (by omega) (by norm_num) (by omega)]
  generalize hm : (5 * e + 2) / 153 = m
  have hm₀ : 0 ≤ m ∧ m ≤ 11 := by omega
  rw [Word.of_ediv (x := m) (by omega) (by norm_num) (by omega),
    Word.of_mul (x := b) (y := 100) ⟨by omega, by omega⟩,
    Word.of_add (x := b * 100) ⟨by omega, by omega⟩,
    Word.of_sub (x := b * 100 + d) ⟨by omega, by omega⟩,
    Word.of_add (x := b * 100 + d - 4800) ⟨by omega, by omega⟩,
    Word.of_add (x := m) ⟨by omega, by omega⟩,
    Word.of_mul (x := 12) ⟨by omega, by omega⟩,
    Word.of_sub (x := m + 3) ⟨by omega, by omega⟩,
    Word.of_mul (x := 153) (y := m) ⟨by omega, by omega⟩,
    Word.of_add (x := 153 * m) ⟨by omega, by omega⟩,
    Word.of_ediv (x := 153 * m + 2) (by omega) (by norm_num) (by omega),
    Word.of_sub (x := e) ⟨by omega, by omega⟩,
    Word.of_add (x := e - (153 * m + 2) / 5) ⟨by omega, by omega⟩]

theorem getJulianDayNumber_of {d : Gregorian.Date} (hv : d.Valid) (hc : Counted d)
    (hn : number d ≤ 536838866) :
    getJulianDayNumber (Word.of d.year) (.of d.month) (.of d.day) = .of (number d) := by
  have h₁ := hv.month_pos
  have h₂ := hv.month_le
  have h₃ := hv.day_pos
  have h₄ := hv.day_le
  have h₅ := (Gregorian.daysInMonth_bounds d.year d.month).2
  rw [number_eq hv hc] at hn ⊢
  unfold Counted at hc
  unfold daysBeforeYear daysBeforeMonth at *
  unfold getJulianDayNumber
  simp (disch := norm_num) only [Word.ofNat_eq]
  push_cast
  rw [Word.of_sub (x := 14) (y := d.month) ⟨by omega, by omega⟩,
    Word.of_ediv (x := 14 - d.month) (by omega) (by norm_num) (by omega)]
  have ha : d.month + 12 * ((14 - d.month) / 12) - 3 = (d.month + 9) % 12 := by omega
  have hm : 0 ≤ (d.month + 9) % 12 ∧ (d.month + 9) % 12 ≤ 11 := by omega
  have hy : 0 ≤ d.year + 4800 - (14 - d.month) / 12 := by omega
  generalize hm' : (d.month + 9) % 12 = m at *
  generalize ha' : (14 - d.month) / 12 = a at *
  generalize hy' : d.year + 4800 - a = y at *
  have hyle : y ≤ 1470882 := by omega
  rw [Word.of_add (x := d.year) ⟨by omega, by omega⟩,
    Word.of_sub (x := d.year + 4800) ⟨by omega, by omega⟩, hy',
    Word.of_mul (x := 12) ⟨by omega, by omega⟩,
    Word.of_add (x := d.month) ⟨by omega, by omega⟩,
    Word.of_sub (x := d.month + 12 * a) ⟨by omega, by omega⟩, ha,
    Word.of_mul (x := 153) ⟨by omega, by omega⟩,
    Word.of_add (x := 153 * m) ⟨by omega, by omega⟩,
    Word.of_ediv (x := 153 * m + 2) (by omega) (by norm_num) (by omega),
    Word.of_add (x := d.day) ⟨by omega, by omega⟩,
    Word.of_mul (x := y) ⟨by omega, by omega⟩,
    Word.of_ediv (x := y) (y := 4) (by omega) (by norm_num) (by omega),
    Word.of_ediv (x := y) (y := 100) (by omega) (by norm_num) (by omega),
    Word.of_ediv (x := y) (y := 400) (by omega) (by norm_num) (by omega),
    Word.of_add (x := d.day + (153 * m + 2) / 5) ⟨by omega, by omega⟩,
    Word.of_add (x := d.day + (153 * m + 2) / 5 + y * 365) ⟨by omega, by omega⟩,
    Word.of_sub (x := d.day + (153 * m + 2) / 5 + y * 365 + y / 4) ⟨by omega, by omega⟩,
    Word.of_add (x := d.day + (153 * m + 2) / 5 + y * 365 + y / 4 - y / 100) ⟨by omega, by omega⟩,
    Word.of_sub ⟨by omega, by omega⟩]
  congr 1
  omega

theorem weekDay_of {n : ℤ} (hn : -32044 ≤ n) (hn' : n ≤ 536838866) :
    weekDay (Word.of n) = .of (weekDayOf n) := by
  unfold weekDayOf weekDay
  simp (disch := norm_num) only [Word.ofNat_eq]
  simp only [Exact.val_mod, Exact.val_add, Exact.val_ofNat]
  push_cast
  rw [Word.of_add (x := n) ⟨by omega, by omega⟩, Word.of_mod (by norm_num)]
  have h := Int.tmod_lt_of_pos (n + 1) (by norm_num : (0 : ℤ) < 7)
  have h' := Int.lt_tmod_of_pos (n + 1) (by norm_num : (0 : ℤ) < 7)
  exact ⟨by omega, by omega⟩

theorem date_number {d : Gregorian.Date} (hv : d.Valid) (hc : Counted d) : date (number d) = d := by
  have hp := valid_partsOf hv
  have hdays := number_eq_days hv hc
  have hcentury : 0 ≤ (partsOf d).century := century_partsOf hv hc
  have hle : 0 ≤ (partsOf d).days := by
    obtain ⟨h₁, -, h₂, -⟩ := hp
    unfold Parts.days
    omega
  rw [date_eq (by omega), hdays, sub_add_cancel, parts_days hp, date_partsOf hv]

theorem century_parts {n : ℤ} (hn : -32044 ≤ n) : 0 ≤ (parts (n + 32044)).century := by
  unfold parts
  dsimp only
  omega

theorem number_date {n : ℤ} (hn : -32044 ≤ n) : number (date n) = n := by
  rw [date_eq hn, number_date_parts (valid_parts _) (century_parts hn), days_parts,
    add_sub_cancel_right]

theorem valid_date {n : ℤ} (hn : -32044 ≤ n) : (date n).Valid := by
  rw [date_eq hn]
  exact (valid_parts _).date

theorem counted_date {n : ℤ} (hn : -32044 ≤ n) : Counted (date n) := by
  rw [date_eq hn]
  exact (valid_parts _).counted_date (century_parts hn)

theorem date_succ {n : ℤ} (hn : -32044 ≤ n) : date (n + 1) = (date n).next := by
  have hv := valid_date hn
  have hc := counted_date hn
  rw [← date_number hv.next hc.next, number_next hv hc, number_date hn]

/-- Later numbers have later dates. -/
theorem fields_date_lt {m n : ℤ} (hm : -32044 ≤ m) (h : m < n) :
    (date m).fields < (date n).fields := by
  have hle : m + 1 ≤ n := h
  induction n, hle using Int.leInduction with
  | base =>
    rw [date_succ hm]
    exact (date m).fields_lt_next
  | succ n hn ih =>
    rw [date_succ (by omega)]
    exact (ih (by omega)).trans (date n).fields_lt_next

/-- Numbers that are not negative belong to years from -4713 on. -/
theorem year_date {n : ℤ} (hn : 0 ≤ n) : -4713 ≤ (date n).year := by
  rcases hn.eq_or_lt with rfl | hlt
  · decide
  · have h := fields_date_lt (by norm_num : (-32044 : ℤ) ≤ 0) hlt
    unfold Gregorian.Date.fields at h
    rw [show (date 0).year = -4713 by decide, List.cons_lt_cons_iff] at h
    omega

/-- Earlier dates have negative numbers. -/
theorem counted_of_number {d : Gregorian.Date} (hv : d.Valid) (hn : 0 ≤ number d) : Counted d := by
  by_contra hc
  have h₁ := hv.month_pos
  have h₂ := hv.month_le
  have h₃ := hv.day_le
  have h₄ := (Gregorian.daysInMonth_bounds d.year d.month).2
  have hy : d.year + 4800 - (14 - d.month) / 12 < 0 := by
    unfold Counted at hc
    omega
  have hm : d.month + 12 * ((14 - d.month) / 12) - 3 = (d.month + 9) % 12 := by omega
  unfold number getJulianDayNumber at hn
  simp only [Exact.val_add, Exact.val_sub, Exact.val_mul, Exact.val_div, Exact.val_ofNat] at hn
  push_cast at hn
  rw [Int.tdiv_eq_ediv_of_nonneg (by omega : 0 ≤ 14 - d.month), hm,
    Int.tdiv_eq_ediv_of_nonneg (by omega : 0 ≤ 153 * ((d.month + 9) % 12) + 2)] at hn
  obtain ⟨z, hz⟩ : ∃ z, d.year + 4800 - (14 - d.month) / 12 = -z :=
    ⟨_, (neg_neg _).symm⟩
  rw [hz] at hy hn
  simp only [Int.neg_tdiv] at hn
  rw [Int.tdiv_eq_ediv_of_nonneg (by omega : 0 ≤ z), Int.tdiv_eq_ediv_of_nonneg (by omega : 0 ≤ z),
    Int.tdiv_eq_ediv_of_nonneg (by omega : 0 ≤ z)] at hn
  omega

/-- The two conversions are inverse to each other on the whole calendar, they count the
days, the week goes on with them, and on 32 bits nothing overflows. -/
theorem conversions_correct :
    (∀ d : Gregorian.Date, d.Valid → Counted d → date (number d) = d) ∧
    (∀ n, -32044 ≤ n → (date n).Valid ∧ number (date n) = n) ∧
    (∀ d : Gregorian.Date, d.Valid → Counted d → number d.next = number d + 1) ∧
    (∀ n, 0 ≤ n → weekDayOf (n + 1) = (weekDayOf n + 1) % 7) ∧
    ∀ n, -32044 ≤ n → n ≤ 536838866 →
      getYearMonthDay (Word.of n) = ⟨.of (date n).year, .of (date n).month, .of (date n).day⟩ ∧
      getJulianDayNumber (Word.of (date n).year) (.of (date n).month) (.of (date n).day) = .of n ∧
      weekDay (Word.of n) = .of (weekDayOf n) := by
  refine ⟨fun _ => date_number, fun n hn => ⟨valid_date hn, number_date hn⟩,
    fun _ => number_next, fun n hn => ?_, fun n hn hn' => ⟨getYearMonthDay_of hn hn', ?_, ?_⟩⟩
  · rw [weekDayOf_eq hn, weekDayOf_eq (by omega)]
    omega
  · have hnumber := number_date hn
    rw [getJulianDayNumber_of (valid_date hn) (counted_date hn) (by omega), hnumber]
  · exact weekDay_of hn hn'

/-- The last number before an overflow, and a leap day. -/
theorem conversions_correct_sample :
    (date 536838866).Valid ∧ number (date 536838866) = 536838866 ∧
      getYearMonthDay (Word.of 536838866) = ⟨.of 1465102, .of 10, .of 17⟩ ∧
      date (number ⟨2000, 2, 29⟩) = ⟨2000, 2, 29⟩ := by
  obtain ⟨h₁, h₂, -, -, h₃⟩ := conversions_correct
  have hlast : date 536838866 = ⟨1465102, 10, 17⟩ := by decide
  have hword := (h₃ 536838866 (by norm_num) (by norm_num)).1
  rw [hlast] at hword
  have hleap : (⟨2000, 2, 29⟩ : Gregorian.Date).Valid :=
    ⟨by decide, by decide, by decide, by decide⟩
  exact ⟨(h₂ _ (by norm_num)).1, (h₂ _ (by norm_num)).2, hword, h₁ _ hleap (by decide)⟩

end Date
end Muduo

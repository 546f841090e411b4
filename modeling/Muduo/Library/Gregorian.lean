import Mathlib.Data.List.Lex
import Mathlib.Order.Lex
import Mathlib.Tactic

/-!
# The Gregorian calendar

The proleptic calendar, with a year 0 and years before it: leap years, the lengths of
the months, the day after a date, and dates in the order of their fields.
-/
namespace Gregorian

def IsLeap (y : ℤ) : Prop := y % 4 = 0 ∧ (y % 100 ≠ 0 ∨ y % 400 = 0)

instance (y : ℤ) : Decidable (IsLeap y) := inferInstanceAs (Decidable (_ ∧ _))

def daysInMonth (year month : ℤ) : ℤ :=
  if month = 2 then if IsLeap year then 29 else 28
  else if month = 4 ∨ month = 6 ∨ month = 9 ∨ month = 11 then 30
  else 31

structure Date where
  year : ℤ
  month : ℤ
  day : ℤ
  deriving DecidableEq, Repr

namespace Date

structure Valid (d : Date) : Prop where
  month_pos : 1 ≤ d.month
  month_le : d.month ≤ 12
  day_pos : 1 ≤ d.day
  day_le : d.day ≤ daysInMonth d.year d.month

/-- The day after. -/
def next (d : Date) : Date :=
  if d.day < daysInMonth d.year d.month then ⟨d.year, d.month, d.day + 1⟩
  else if d.month < 12 then ⟨d.year, d.month + 1, 1⟩
  else ⟨d.year + 1, 1, 1⟩

/-- The days of the year before the date. -/
def dayOfYear (d : Date) : ℤ :=
  ((List.range (d.month - 1).toNat).map fun k => daysInMonth d.year (k + 1)).sum + d.day - 1

/-- What dates are ordered by. -/
def fields (d : Date) : List ℤ := [d.year, d.month, d.day]

end Date

theorem daysInMonth_bounds (year month : ℤ) :
    28 ≤ daysInMonth year month ∧ daysInMonth year month ≤ 31 := by
  unfold daysInMonth
  split_ifs <;> omega

theorem Date.Valid.next {d : Date} (h : d.Valid) : d.next.Valid := by
  have h₁ := (daysInMonth_bounds d.year (d.month + 1)).1
  have h₂ := (daysInMonth_bounds (d.year + 1) 1).1
  obtain ⟨hm, hm', hd, hd'⟩ := h
  unfold Date.next
  split_ifs with hday hmonth
  · exact ⟨hm, hm', by dsimp only; omega, hday⟩
  · exact ⟨by dsimp only; omega, by dsimp only; omega, le_rfl, by dsimp only; omega⟩
  · exact ⟨le_rfl, by norm_num, le_rfl, by dsimp only; omega⟩

theorem Date.fields_lt_next (d : Date) : d.fields < d.next.fields := by
  unfold Date.next Date.fields
  split_ifs with hday hmonth
  · simp [List.cons_lt_cons_iff]
  · simp [List.cons_lt_cons_iff]
  · simp [List.cons_lt_cons_iff]

end Gregorian

import Mathlib
import Muduo.LogHeaders
import Muduo.Library.Numeral

/-!
# Texts of times

`Timestamp::toFormattedString` of `base/Timestamp.cc`, and the time in the names of log files as
`strftime(3)` formats it. All fields have fixed widths, so that texts are in the order of times.
-/
namespace Muduo
open Logger (padded zeroPadded dateTime gmtime_r Loggable)
open LogStream (decimal byteOf)
open Numeral

namespace Timestamp

def toFormattedString (microSecondsSinceEpoch : ℤ) : List UInt8 :=
  let seconds := microSecondsSinceEpoch.tdiv 1000000
  let microseconds := microSecondsSinceEpoch.tmod 1000000
  (dateTime (gmtime_r seconds) ++ text "." ++ zeroPadded 6 microseconds).take 31

end Timestamp

/-- `strftime` with `".%Y%m%d-%H%M%S."`, for the years 1970 to 9999 -/
def LogFile.strftime (tm : Tm) : List UInt8 :=
  text "." ++ zeroPadded 4 (tm.year + 1900) ++ zeroPadded 2 (tm.mon + 1) ++ zeroPadded 2 tm.mday ++
    text "-" ++ zeroPadded 2 tm.hour ++ zeroPadded 2 tm.min ++ zeroPadded 2 tm.sec ++ text "."

section Widths
variable {v v' : ℤ} {w : ℕ}

theorem zeroPadded_eq (w : ℕ) (h : 0 ≤ v) : zeroPadded w v =
    ((Nat.toDigits 10 v.natAbs).map byteOf).leftpad w (byteOf '0') := by
  rw [Logger.zeroPadded_of_nonneg w h, LogStream.decimal_eq, if_neg (by omega)]
  rfl

theorem byteOf_lt : ∀ d < 10, ∀ e < d, byteOf e.digitChar < byteOf d.digitChar := by decide

/-- Numerals with zeros in front are in the order of the numbers. -/
theorem zeroPadded_lt (hw : 0 < w) (h : 0 ≤ v) (hlt : v < v') (hv : v' < 10 ^ w) :
    zeroPadded w v < zeroPadded w v' := by
  rw [zeroPadded_eq w h, zeroPadded_eq w (by omega)]
  have hbound : ∀ u : ℤ, 0 ≤ u → u < 10 ^ w → u.natAbs < 10 ^ w := by
    intro u hu hlt
    zify
    rwa [abs_of_nonneg hu]
  exact leftpad_lt_leftpad byteOf_lt hw (hbound v h (by omega)) (hbound v' (by omega) hv) (by omega)

/-- A year of four digits has no blanks in front. -/
theorem padded_year (h : 1000 ≤ v) (hlt : v < 10000) : padded 4 v = zeroPadded 4 v := by
  have hlen : 3 < (decimal v).length := Logger.length_decimal_of_ge (by decide) (by omega)
  rw [Logger.zeroPadded_of_nonneg 4 (by omega), padded, List.leftpad, List.leftpad,
    Nat.sub_eq_zero_of_le hlen]
  rfl

end Widths

/-- The fields that are formatted, each with its width. -/
structure Tm.Printable (tm : Tm) : Prop where
  year : 1000 ≤ tm.year + 1900 ∧ tm.year + 1900 < 10000
  mon : 0 ≤ tm.mon + 1 ∧ tm.mon + 1 < 100
  mday : 0 ≤ tm.mday ∧ tm.mday < 100
  hour : 0 ≤ tm.hour ∧ tm.hour < 100
  min : 0 ≤ tm.min ∧ tm.min < 100
  sec : 0 ≤ tm.sec ∧ tm.sec < 100

theorem printable_gmtime_r {seconds : ℤ} (h : Loggable seconds) :
    (gmtime_r seconds).Printable := by
  obtain ⟨hyear, hyear'⟩ := Logger.year_gmtime_r h
  obtain ⟨hpos, hlt⟩ := h
  have hconv : TimeZone.Convertible (seconds / 86400 + 2440588) := ⟨by omega, by omega⟩
  have hnormal : (gmtime_r seconds).Normalized := TimeZone.normalized_toUtcTime hconv
  obtain ⟨hsec, hsec'⟩ := hnormal.sec
  obtain ⟨hmin, hmin'⟩ := hnormal.min
  obtain ⟨hhour, hhour'⟩ := hnormal.hour
  have hday := (Gregorian.daysInMonth_bounds (gmtime_r seconds).date.year
    (gmtime_r seconds).date.month).2
  obtain ⟨hmon, hmon', hmday, hmday'⟩ := hnormal.date
  unfold Tm.date at hmon hmon' hmday hmday' hday
  dsimp only at hmon hmon' hmday hmday' hday
  exact ⟨⟨by omega, by omega⟩, ⟨by omega, by omega⟩, ⟨by omega, by omega⟩, ⟨by omega, by omega⟩,
    ⟨by omega, by omega⟩, ⟨by omega, by omega⟩⟩

/-- A conversion of a number to a fixed width, with what stands before it. -/
structure Field where
  before : List UInt8
  width : ℕ

def Field.Fits (f : Field) (v : ℤ) : Prop := 0 < f.width ∧ 0 ≤ v ∧ v < 10 ^ f.width

def format (fs : List Field) (vs : List ℤ) : List UInt8 :=
  (List.zipWith (fun f v => f.before ++ zeroPadded f.width v) fs vs).flatten

section Format
variable {fs : List Field} {vs vs' : List ℤ}

theorem length_format (h : List.Forall₂ Field.Fits fs vs) :
    (format fs vs).length = (fs.map fun f => f.before.length + f.width).sum := by
  induction h with
  | nil => rfl
  | cons hf _ ih =>
    obtain ⟨hw, hv, hlt⟩ := hf
    rw [format, List.zipWith_cons_cons, List.flatten_cons, List.length_append, List.length_append,
      Logger.length_zeroPadded hw hv hlt, ← format, ih, List.map_cons, List.sum_cons]

/-- Numbers that fit into the fields are formatted in their order. -/
theorem format_lt_format (h : List.Forall₂ Field.Fits fs vs) (h' : List.Forall₂ Field.Fits fs vs')
    (hlt : vs < vs') : format fs vs < format fs vs' := by
  induction h generalizing vs' with
  | nil =>
    cases h'
    cases hlt
  | @cons f v _ _ hf _ ih =>
    cases h' with
    | @cons _ v' _ _ hf' htail' =>
      obtain ⟨hw, hv, hfit⟩ := hf
      obtain ⟨-, hv', hfit'⟩ := hf'
      rw [format, format, List.zipWith_cons_cons, List.zipWith_cons_cons, List.flatten_cons,
        List.flatten_cons, List.append_assoc, List.append_assoc]
      apply append_lt_append_left
      rcases List.cons_lt_cons_iff.mp hlt with hhead | ⟨heq, htail⟩
      · apply append_lt_append_of_lt _ (zeroPadded_lt hw hv hhead hfit')
        rw [Logger.length_zeroPadded hw hv hfit, Logger.length_zeroPadded hw hv' hfit']
      · rw [heq]
        exact append_lt_append_left _ (ih htail' htail)

end Format

/-- The fields of a calendar time as they are formatted. -/
def Tm.printed (tm : Tm) : List ℤ :=
  [tm.year + 1900, tm.mon + 1, tm.mday, tm.hour, tm.min, tm.sec]

theorem printed_lt {tm tm' : Tm} (h : tm.fields < tm'.fields) : tm.printed < tm'.printed := by
  unfold Tm.fields Tm.printed at *
  simp only [List.cons_lt_cons_iff, List.not_lt_nil, and_false, or_false] at h ⊢
  omega

theorem printed_gmtime_r_lt {t t' : ℤ} (h : Loggable t) (h' : Loggable t') (hlt : t < t') :
    (gmtime_r t).printed < (gmtime_r t').printed := by
  obtain ⟨hpos, hend⟩ := h
  obtain ⟨hpos', hend'⟩ := h'
  exact printed_lt (TimeZone.fields_toUtcTime_lt ⟨by omega, by omega⟩ ⟨by omega, by omega⟩ hlt true)

theorem printed_append_lt {vs vs' us us' : List ℤ} (hlen : vs.length = vs'.length)
    (h : vs < vs' ∨ vs = vs' ∧ us < us') : vs ++ us < vs' ++ us' := by
  rcases h with hlt | ⟨heq, hlt⟩
  · exact append_lt_append_of_lt hlen hlt
  · rw [heq]
    exact append_lt_append_left _ hlt

namespace Timestamp

/-- The fields of `"%4d%02d%02d %02d:%02d:%02d.%06d"`. -/
def fields : List Field :=
  [⟨[], 4⟩, ⟨[], 2⟩, ⟨[], 2⟩, ⟨text " ", 2⟩, ⟨text ":", 2⟩, ⟨text ":", 2⟩, ⟨text ".", 6⟩]

/-- The microseconds from the first second after the epoch to the end of the year 9999. -/
def Printable (t : ℤ) : Prop := Loggable (t / 1000000)

instance (t : ℤ) : Decidable (Printable t) := inferInstanceAs (Decidable (Loggable _))

variable {t t' : ℤ}

theorem fits (h : Printable t) : List.Forall₂ Field.Fits fields
    ((gmtime_r (t / 1000000)).printed ++ [t % 1000000]) := by
  obtain ⟨hyear, hmon, hmday, hhour, hmin, hsec⟩ := printable_gmtime_r h
  unfold fields Tm.printed Field.Fits
  simp only [List.cons_append, List.nil_append, List.forall₂_cons, List.Forall₂.nil, and_true]
  omega

theorem toFormattedString_eq (h : Printable t) : toFormattedString t =
    format fields ((gmtime_r (t / 1000000)).printed ++ [t % 1000000]) := by
  have hlen := length_format (fits h)
  have hyear := (printable_gmtime_r h).year
  have hnonneg : 0 ≤ t := by
    obtain ⟨hpos, -⟩ := h
    omega
  rw [toFormattedString, Int.tdiv_eq_ediv_of_nonneg hnonneg, Int.tmod_eq_emod_of_nonneg hnonneg,
    dateTime, padded_year hyear.1 hyear.2, List.take_of_length_le]
  · simp [format, fields, Tm.printed]
  · have hall : (fields.map fun f => f.before.length + f.width).sum = 24 := rfl
    rw [hall] at hlen
    simp [format, fields, Tm.printed] at hlen ⊢
    omega

/-- The texts of times are in the order of the times. -/
theorem toFormattedString_lt (h : Printable t) (h' : Printable t') (hlt : t < t') :
    toFormattedString t < toFormattedString t' := by
  rw [toFormattedString_eq h, toFormattedString_eq h']
  apply format_lt_format (fits h) (fits h')
  apply printed_append_lt (by rfl)
  rcases (Int.ediv_le_ediv (by decide) hlt.le : t / 1000000 ≤ t' / 1000000).eq_or_lt with heq | hsec
  · right
    rw [heq]
    refine ⟨rfl, List.cons_lt_cons_iff.mpr (Or.inl ?_)⟩
    omega
  · exact Or.inl (printed_gmtime_r_lt h h' hsec)

/-- A text determines its time, and in directories and logs texts stand as the times do. -/
theorem toFormattedString_lt_iff (h : Printable t) (h' : Printable t') :
    toFormattedString t < toFormattedString t' ↔ t < t' := by
  constructor
  · intro hlt
    by_contra hle
    rcases (not_lt.mp hle).eq_or_lt with heq | hgt
    · rw [heq] at hlt
      exact List.lt_irrefl _ hlt
    · exact List.lt_asymm hlt (toFormattedString_lt h' h hgt)
  · exact toFormattedString_lt h h'

/-- The last microsecond of the year 1999, and the one after it. -/
theorem toFormattedString_lt_iff_millennium :
    toFormattedString 946684799999999 = text "19991231 23:59:59.999999" ∧
      toFormattedString 946684800000000 = text "20000101 00:00:00.000000" ∧
      (toFormattedString 946684799999999 < toFormattedString 946684800000000 ↔
        (946684799999999 : ℤ) < 946684800000000) :=
  ⟨by decide, by decide, toFormattedString_lt_iff (by decide) (by decide)⟩

section Plain
variable {b c : UInt8} {l : List UInt8}

/-- From the blank to the colon. -/
def Plain (l : List UInt8) : Prop := ∀ b ∈ l, 32 ≤ b ∧ b ≤ 58

theorem plain_append {m : List UInt8} (hl : Plain l) (hm : Plain m) : Plain (l ++ m) := by
  intro b hb
  rcases List.mem_append.mp hb with hb | hb
  · exact hl b hb
  · exact hm b hb

theorem plain_leftpad (hc : 32 ≤ c ∧ c ≤ 58) (hl : Plain l) (w : ℕ) : Plain (l.leftpad w c) := by
  apply plain_append _ hl
  intro b hb
  rwa [List.eq_of_mem_replicate hb]

theorem plain_decimal (v : ℤ) : Plain (decimal v) := by
  intro b hb
  rw [UInt8.le_iff_toNat_le, UInt8.le_iff_toNat_le]
  rcases Logger.mem_decimal hb with hb | hb
  · rw [hb]
    decide
  · exact ⟨le_trans (by decide) hb.1, hb.2.trans (by decide)⟩

theorem plain_zeroPadded (w : ℕ) (v : ℤ) : Plain (zeroPadded w v) := by
  have hdecimal := plain_decimal v
  unfold decimal at hdecimal
  apply plain_append
  · exact fun b hb => hdecimal b (List.mem_append_left _ hb)
  · exact plain_leftpad (by decide) (fun b hb => hdecimal b (List.mem_append_right _ hb)) _

theorem plain_dateTime (tm_time : Tm) : Plain (dateTime tm_time) := by
  have hspace : Plain (text " ") := by
    intro b hb
    rw [List.mem_singleton.mp hb]
    decide
  have hcolon : Plain (text ":") := by
    intro b hb
    rw [List.mem_singleton.mp hb]
    decide
  have hyear := plain_leftpad (by decide : 32 ≤ (32 : UInt8) ∧ (32 : UInt8) ≤ 58)
    (plain_decimal (tm_time.year + 1900)) 4
  have hdate := plain_append (plain_append hyear (plain_zeroPadded 2 (tm_time.mon + 1)))
    (plain_zeroPadded 2 tm_time.mday)
  have htime := plain_append (plain_append hdate hspace) (plain_zeroPadded 2 tm_time.hour)
  have hminute := plain_append (plain_append htime hcolon) (plain_zeroPadded 2 tm_time.min)
  exact plain_append (plain_append hminute hcolon) (plain_zeroPadded 2 tm_time.sec)

/-- No byte of the text ends a line, whatever the time. -/
theorem plain_toFormattedString (t : ℤ) : Plain (toFormattedString t) := by
  have hpoint : Plain (text ".") := by
    intro b hb
    rw [List.mem_singleton.mp hb]
    decide
  intro b hb
  exact plain_append (plain_append (plain_dateTime _) hpoint) (plain_zeroPadded 6 _) b
    (List.mem_of_mem_take hb)

end Plain

end Timestamp
end Muduo

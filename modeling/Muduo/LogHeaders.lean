import Muduo.Logging

/-!
# The beginning of a log record

The records of one thread. A record begins with its time and the id of the thread; `t_time` is
the text of the last second, and `t_tidString` that of the id, whose fixed widths are asserted.
The id must not have more than five digits.
-/
namespace Muduo

namespace Logger
open LogStream (FixedBuffer kSmallBuffer decimal Extends)
open StepSystem

/-! ### Widths -/

theorem length_padded (w : ℕ) (v : ℤ) : (padded w v).length = max w (decimal v).length :=
  List.length_leftpad ..

theorem length_decimal_of_lt {v : ℤ} {d : ℕ} (hd : 0 < d) (h : 0 ≤ v) (hlt : v < 10 ^ d) :
    (decimal v).length ≤ d := by
  have hnat : v.natAbs < 10 ^ d := by
    zify
    rwa [abs_of_nonneg h]
  rw [LogStream.decimal_eq, if_neg (by omega), List.nil_append, List.length_map,
    Nat.length_toDigits_le_iff (by decide) hd]
  exact hnat

theorem length_decimal_of_ge {v : ℤ} {d : ℕ} (hd : 0 < d) (hge : 10 ^ d ≤ v) :
    d < (decimal v).length := by
  have hpos : (0 : ℤ) < 10 ^ d := by positivity
  have hnat : 10 ^ d ≤ v.natAbs := by
    zify
    rwa [abs_of_nonneg (by omega)]
  have hlen := Nat.length_toDigits_le_iff (n := v.natAbs) (by decide : 1 < 10) hd
  rw [LogStream.decimal_eq, if_neg (by omega), List.nil_append, List.length_map]
  omega

theorem zeroPadded_of_nonneg {v : ℤ} (w : ℕ) (h : 0 ≤ v) :
    zeroPadded w v = (decimal v).leftpad w 48 := by
  unfold zeroPadded decimal
  rw [if_neg (by omega)]
  rfl

theorem length_zeroPadded {v : ℤ} {w : ℕ} (hw : 0 < w) (h : 0 ≤ v) (hlt : v < 10 ^ w) :
    (zeroPadded w v).length = w := by
  rw [zeroPadded_of_nonneg w h, List.length_leftpad]
  exact max_eq_left (length_decimal_of_lt hw h hlt)

theorem nul_not_mem_decimal (v : ℤ) : (0 : UInt8) ∉ decimal v := by
  intro h
  have hmem := mem_decimal h
  revert hmem
  decide

theorem nul_not_mem_leftpad {l : List UInt8} {c : UInt8} (hc : c ≠ 0) (hl : (0 : UInt8) ∉ l)
    (w : ℕ) : (0 : UInt8) ∉ l.leftpad w c := by
  intro h
  rcases List.mem_append.mp h with h | h
  · exact hc (List.eq_of_mem_replicate h).symm
  · exact hl h

@[simp] theorem nul_not_mem_padded (w : ℕ) (v : ℤ) : (0 : UInt8) ∉ padded w v :=
  nul_not_mem_leftpad (by decide) (nul_not_mem_decimal v) w

@[simp] theorem nul_not_mem_zeroPadded (w : ℕ) (v : ℤ) : (0 : UInt8) ∉ zeroPadded w v := by
  have hdecimal := nul_not_mem_decimal v
  unfold decimal at hdecimal
  rw [List.mem_append, not_or] at hdecimal
  intro h
  rcases List.mem_append.mp h with h | h
  · exact hdecimal.1 h
  · exact nul_not_mem_leftpad (by decide) hdecimal.2 _ h

/-! ### Times -/

/-- From one second after the epoch to the end of the year 9999. -/
def Loggable (seconds : ℤ) : Prop := 0 < seconds ∧ seconds < 253402300800

instance (seconds : ℤ) : Decidable (Loggable seconds) := inferInstanceAs (Decidable (_ ∧ _))

variable {seconds : ℤ}

/-- A later day is not in an earlier year. -/
theorem year_date_mono {m n : ℤ} (hm : -32044 ≤ m) (h : m ≤ n) :
    (Date.date m).year ≤ (Date.date n).year := by
  rcases h.eq_or_lt with rfl | hlt
  · exact le_rfl
  · have hfields := Date.fields_date_lt hm hlt
    unfold Gregorian.Date.fields at hfields
    rcases List.cons_lt_cons_iff.mp hfields with hyear | ⟨hyear, -⟩
    · exact hyear.le
    · exact hyear.le

theorem year_gmtime_r (h : Loggable seconds) :
    1970 ≤ (gmtime_r seconds).year + 1900 ∧ (gmtime_r seconds).year + 1900 ≤ 9999 := by
  obtain ⟨hpos, hlt⟩ := h
  have hconv : TimeZone.Convertible (seconds / 86400 + 2440588) := ⟨by omega, by omega⟩
  have hdate := TimeZone.date_toUtcTime hconv true
  have hyear : (gmtime_r seconds).year + 1900 = (Date.date (seconds / 86400 + 2440588)).year :=
    congrArg Gregorian.Date.year hdate
  rw [hyear]
  have hfirst := year_date_mono (by decide : (-32044 : ℤ) ≤ 2440588)
    (by omega : 2440588 ≤ seconds / 86400 + 2440588)
  have hlast := year_date_mono (by omega : -32044 ≤ seconds / 86400 + 2440588)
    (by omega : seconds / 86400 + 2440588 ≤ 5373484)
  rw [show Date.date 2440588 = ⟨1970, 1, 1⟩ by decide] at hfirst
  rw [show Date.date 5373484 = ⟨9999, 12, 31⟩ by decide] at hlast
  exact ⟨hfirst, hlast⟩

theorem length_dateTime (h : Loggable seconds) : (dateTime (gmtime_r seconds)).length = 17 := by
  obtain ⟨hyear, hyear'⟩ := year_gmtime_r h
  obtain ⟨hpos, hlt⟩ := h
  have hconv : TimeZone.Convertible (seconds / 86400 + 2440588) := ⟨by omega, by omega⟩
  have hnormal : (gmtime_r seconds).Normalized := TimeZone.normalized_toUtcTime hconv
  obtain ⟨hsec, hsec'⟩ := hnormal.sec
  obtain ⟨hmin, hmin'⟩ := hnormal.min
  obtain ⟨hhour, hhour'⟩ := hnormal.hour
  have hday := (Gregorian.daysInMonth_bounds (gmtime_r seconds).date.year
    (gmtime_r seconds).date.month).2
  obtain ⟨hmon, hmon', hmday, hmday'⟩ := hnormal.date
  unfold Tm.date at hmon hmon' hmday hmday' hday
  dsimp only at hmon hmon' hmday hmday' hday
  have hfour : (decimal ((gmtime_r seconds).year + 1900)).length ≤ 4 :=
    length_decimal_of_lt (by decide) (by omega) (by omega)
  have htwo : ∀ v : ℤ, 0 ≤ v → v < 60 → (zeroPadded 2 v).length = 2 := by
    intro v h0 h60
    exact length_zeroPadded (by decide) h0 (by omega)
  have hspace : (text " ").length = 1 := rfl
  have hcolon : (text ":").length = 1 := rfl
  unfold dateTime
  simp only [List.length_append, hspace, hcolon, length_padded]
  rw [htwo _ (by omega) (by omega), htwo _ (by omega) (by omega), htwo _ (by omega) (by omega),
    htwo _ (by omega) (by omega), htwo _ (by omega) (by omega)]
  omega

@[simp] theorem nul_not_mem_dateTime (tm_time : Tm) : (0 : UInt8) ∉ dateTime tm_time := by
  simp [dateTime, text]

/-- The microseconds of a time. -/
def fraction (now : ℤ) : List UInt8 := text "." ++ zeroPadded 6 (now % 1000000) ++ text "Z "

theorem length_fraction (now : ℤ) : (fraction now).length = 9 := by
  have hsix : (zeroPadded 6 (now % 1000000)).length = 6 :=
    length_zeroPadded (by decide) (by omega) (by omega)
  have hpoint : (text ".").length = 1 := rfl
  have hzone : (text "Z ").length = 2 := rfl
  unfold fraction
  simp only [List.length_append]
  omega

@[simp] theorem nul_not_mem_fraction (now : ℤ) : (0 : UInt8) ∉ fraction now := by
  simp [fraction, text]

/-! ### Texts in memory -/

/-- The C string `w` is in `m`. -/
def Written {n : ℕ} (m : Memory UInt8 n) (w : List UInt8) : Prop := ∃ rest, m.cells = w ++ 0 :: rest

section
variable {n : ℕ} {w : List UInt8}

theorem snprintf_eq (str : Memory UInt8 (n + 1)) (h : w.length ≤ n) :
    ∃ m, snprintf str w = (m, w.length) ∧ Written m w := by
  refine ⟨_, rfl, str.cells.drop (0 + (w.take n ++ [0]).length), ?_⟩
  unfold Memory.put
  dsimp only
  rw [List.take_zero, List.nil_append, List.take_of_length_le h, List.append_assoc]
  rfl

/-- A text of the length that is asserted is appended as it is. -/
theorem T_eq {s rest : List UInt8} (hs : s = w ++ rest) (hw : (0 : UInt8) ∉ w)
    (hrest : rest = [] ∨ ∃ tail, rest = 0 :: tail) {len : ℕ} (hlen : w.length = len) :
    T s len = .ok w := by
  have hstring : cString s = w := by
    have hpos : ∀ c ∈ w, decide (c ≠ 0) = true := by
      intro c hc
      have hne : c ≠ 0 := fun hzero => hw (hzero ▸ hc)
      simpa using hne
    unfold cString
    rw [hs, List.takeWhile_append_of_pos hpos]
    rcases hrest with rfl | ⟨tail, rfl⟩
    · simp
    · simp
  have htake : s.take len = w := by
    rw [hs, ← hlen, List.take_left]
  unfold T
  rw [assert_pos (by rw [hstring, hlen]), ok_bind, htake]
  rfl

theorem T_written {m : Memory UInt8 n} (h : Written m w) (hw : (0 : UInt8) ∉ w) {len : ℕ}
    (hlen : w.length = len) : T m.cells len = .ok w := by
  obtain ⟨rest, hrest⟩ := h
  exact T_eq hrest hw (.inr ⟨rest, rfl⟩) hlen

theorem T_self (hw : (0 : UInt8) ∉ w) {len : ℕ} (hlen : w.length = len) : T w len = .ok w :=
  T_eq (List.append_nil w).symm hw (.inl rfl) hlen

end

/-! ### The caches of a thread -/

variable {env : Env} {locals : ThreadLocals}

/-- The text of the id of the thread. -/
def tidText (env : Env) : List UInt8 := padded 5 env.gettid.toInt ++ text " "

@[simp] theorem nul_not_mem_tidText (env : Env) : (0 : UInt8) ∉ tidText env := by
  simp [tidText, text]

/-- What is cached is the text of `t_lastSecond` and of the id. -/
structure Cached (env : Env) (locals : ThreadLocals) : Prop where
  time : locals.t_lastSecond ≠ 0 →
    Written locals.t_time (dateTime (gmtime_r locals.t_lastSecond))
  cachedTid : locals.t_cachedTid ≠ 0 →
    locals.t_cachedTid = env.gettid ∧ Written locals.t_tidString (tidText env)

theorem cached_initial (env : Env) : Cached env .initial where
  time h := absurd rfl h
  cachedTid h := absurd rfl h

theorem formatSeconds_cached (h : Cached env locals) (hs : Loggable seconds) :
    Yields (formatSeconds locals seconds) fun locals' =>
      Cached env locals' ∧ Written locals'.t_time (dateTime (gmtime_r seconds)) ∧
        locals'.t_cachedTid = locals.t_cachedTid := by
  have hlen := length_dateTime hs
  obtain ⟨m, hprint, hwritten⟩ := snprintf_eq (n := 31) (w := dateTime (gmtime_r seconds))
    locals.t_time (by omega)
  unfold formatSeconds
  split_ifs with hnew
  · rw [hprint]
    dsimp only
    rw [assert_pos hlen, ok_bind]
    exact yields_ok ⟨⟨fun _ => hwritten, h.cachedTid⟩, hwritten, rfl⟩
  · have heq : locals.t_lastSecond = seconds := (not_not.mp hnew).symm
    have hwritten' := h.time (by rw [heq]; exact hs.1.ne')
    rw [heq] at hwritten'
    exact yields_ok ⟨h, hwritten', rfl⟩

theorem length_tidText_of_le (hpos : 0 < env.gettid.toInt) (hle : env.gettid.toInt ≤ 99999) :
    (tidText env).length = 6 := by
  have hfive : (decimal env.gettid.toInt).length ≤ 5 :=
    length_decimal_of_lt (by decide) (by omega) (by omega)
  have hspace : (text " ").length = 1 := rfl
  unfold tidText
  rw [List.length_append, length_padded]
  omega

theorem length_tidText_of_gt (hgt : 99999 < env.gettid.toInt) : (tidText env).length ≠ 6 := by
  have hfive : 5 < (decimal env.gettid.toInt).length :=
    length_decimal_of_ge (by decide) (by omega)
  have hspace : (text " ").length = 1 := rfl
  unfold tidText
  rw [List.length_append, length_padded]
  omega

/-- An id of at most five digits is cached. -/
theorem tid_cached (h : Cached env locals) (hpos : 0 < env.gettid.toInt)
    (hle : env.gettid.toInt ≤ 99999) : Yields (tid env locals) fun p =>
      Cached env p.1 ∧ Written p.1.t_tidString (tidText env) := by
  have hlen := length_tidText_of_le hpos hle
  obtain ⟨m, hprint, hwritten⟩ := snprintf_eq (n := 31) (w := tidText env) locals.t_tidString
    (by omega)
  unfold tidText at hprint hlen
  unfold tid
  split_ifs with hzero
  · unfold cacheTid
    rw [if_pos hzero]
    dsimp only
    rw [hprint]
    dsimp only
    rw [assert_pos hlen, ok_bind]
    exact yields_ok ⟨⟨h.time, fun _ => ⟨rfl, hwritten⟩⟩, hwritten⟩
  · exact yields_ok ⟨h, (h.cachedTid hzero).2⟩

/-- An id of more digits fails the assertion. -/
theorem tid_fails (h : locals.t_cachedTid = 0) (hgt : 99999 < env.gettid.toInt) :
    tid env locals = .error .cacheTidLength := by
  have hlen := length_tidText_of_gt hgt
  unfold tid cacheTid
  rw [if_pos h, if_pos h]
  dsimp only
  cases hprint : snprintf locals.t_tidString (padded 5 env.gettid.toInt ++ text " ") with
  | mk m n =>
    have hn : (tidText env).length = n := congrArg Prod.snd hprint
    dsimp only
    rw [assert_neg (by omega)]
    rfl

/-! ### Headers -/

/-- The header of a record, rendered without the caches. -/
def header (env : Env) (now : ℤ) : List UInt8 :=
  dateTime (gmtime_r (now / 1000000)) ++ fraction now ++ tidText env

theorem formatTime_cached {impl : Impl} (h : Cached env locals)
    (hs : Loggable (impl.time_ / 1000000)) (hroom : impl.stream_.cur_ + 26 < kSmallBuffer) :
    Yields (formatTime locals impl) fun p => Cached env p.1 ∧
      p.1.t_cachedTid = locals.t_cachedTid ∧
      Extends impl.stream_ p.2.stream_
        (dateTime (gmtime_r (impl.time_ / 1000000)) ++ fraction impl.time_) := by
  have hpos : 0 ≤ impl.time_ := by
    have := hs.1
    omega
  have hdate := length_dateTime hs
  have hfraction := length_fraction impl.time_
  have hopen : impl.stream_.cur_ < kSmallBuffer := by omega
  unfold formatTime
  rw [Int.tdiv_eq_ediv_of_nonneg hpos, Int.tmod_eq_emod_of_nonneg hpos]
  apply (formatSeconds_cached h hs).bind
  rintro locals' ⟨hcached, hwritten, hsame⟩
  have hfmt : Fmt.new (text "." ++ zeroPadded 6 (impl.time_ % 1000000) ++ text "Z ") =
      .ok ⟨fraction impl.time_, by omega⟩ := dif_pos (by
    show (fraction impl.time_).length < 32
    omega)
  obtain ⟨stream₁, happend₁, hext₁⟩ := append_fits hopen
    (w := dateTime (gmtime_r (impl.time_ / 1000000))) (by omega)
  obtain ⟨stream₂, happend₂, hext₂⟩ := append_fits hext₁.lt (w := fraction impl.time_) (by
    rw [hext₁.cur_]
    omega)
  dsimp only
  rw [hfmt, ok_bind, assert_pos hfraction, ok_bind,
    T_written hwritten (nul_not_mem_dateTime _) hdate, ok_bind, happend₁, ok_bind,
    T_self (nul_not_mem_fraction _) hfraction, ok_bind, happend₂, ok_bind]
  exact yields_ok ⟨hcached, hsame, extends_trans hext₁ hext₂⟩

theorem T_levelName (level : LogLevel) : T (LogLevelName level) 6 = .ok (LogLevelName level) := by
  cases level
  all_goals decide

section
variable {args : Arguments}

theorem formatTime_new (h : Cached env locals) (hs : Loggable (args.now / 1000000)) :
    Yields (formatTime locals args.impl) fun p => Cached env p.1 ∧
      p.1.t_cachedTid = locals.t_cachedTid ∧ p.2.stream_.cur_ = 26 ∧
      p.2.stream_.asString = dateTime (gmtime_r (args.now / 1000000)) ++ fraction args.now := by
  have hempty : args.impl.stream_.asString = [] := List.take_zero ..
  have hroom : args.impl.stream_.cur_ + 26 < kSmallBuffer := by
    show 0 + 26 < kSmallBuffer
    decide
  have htime : Yields (formatTime locals args.impl) fun p => Cached env p.1 ∧
      p.1.t_cachedTid = locals.t_cachedTid ∧ Extends args.impl.stream_ p.2.stream_
        (dateTime (gmtime_r (args.now / 1000000)) ++ fraction args.now) :=
    formatTime_cached h hs hroom
  apply htime.mono
  rintro p ⟨hcached, hsame, hext⟩
  refine ⟨hcached, hsame, ?_, ?_⟩
  · rw [hext.cur_, List.length_append, length_dateTime hs, length_fraction]
    rfl
  · rw [hext.asString, hempty, List.nil_append]

theorem new_cached (h : Cached env locals) (hs : Loggable (args.now / 1000000))
    (hpos : 0 < env.gettid.toInt) (hle : env.gettid.toInt ≤ 99999) :
    Yields (Impl.new env locals args) fun p => Cached env p.1 ∧
      p.2.stream_.cur_ < kSmallBuffer ∧ header env args.now <+: p.2.stream_.asString := by
  have htid := length_tidText_of_le hpos hle
  unfold Impl.new
  apply (formatTime_new h hs).bind
  rintro ⟨locals₁, impl₁⟩ ⟨hcached₁, -, hcur, hcontent₁⟩
  apply (tid_cached hcached₁ hpos hle).bind
  rintro ⟨locals₂, _⟩ ⟨hcached₂, hwritten⟩
  dsimp only at hcur hcontent₁ hwritten ⊢
  have hroom : impl₁.stream_.cur_ + (tidText env).length < kSmallBuffer := by
    rw [hcur, htid]
    decide
  obtain ⟨stream₁, happend, hext⟩ := append_fits (by omega) hroom
  rw [T_written hwritten (nul_not_mem_tidText env) htid, ok_bind, happend, ok_bind, T_levelName,
    ok_bind]
  apply (append_grows hext.lt _).bind
  intro stream₂ hgrows₂
  apply (appendErrno_grows hgrows₂.lt args.savedErrno).bind
  intro stream₃ hgrows₃
  have hcontent := (hgrows₂.trans hgrows₃).content
  rw [hext.asString, hcontent₁] at hcontent
  exact yields_ok ⟨hcached₂, hgrows₃.lt, hcontent⟩

theorem new_fails (h : Cached env locals) (hzero : locals.t_cachedTid = 0)
    (hs : Loggable (args.now / 1000000)) (hgt : 99999 < env.gettid.toInt) :
    Impl.new env locals args = .error .cacheTidLength := by
  obtain ⟨⟨locals₁, impl₁⟩, htime, -, hsame, -⟩ := formatTime_new h hs
  unfold Impl.new
  rw [htime, ok_bind]
  dsimp only at hsame ⊢
  rw [tid_fails (hsame.trans hzero) hgt]
  rfl

end

section
variable {c : Construction}

theorem construct_cached (h : Cached env locals) (hs : Loggable (c.now / 1000000))
    (hpos : 0 < env.gettid.toInt) (hle : env.gettid.toInt ≤ 99999) :
    Yields (construct env locals c) fun p => Cached env p.1 ∧
      p.2.stream_.cur_ < kSmallBuffer ∧ header env c.now <+: p.2.stream_.asString := by
  have hnew : ∀ level errno, Yields (Impl.new env locals
      ⟨level, errno, c.file, c.line, c.now, c.data_⟩) fun p => Cached env p.1 ∧
        p.2.stream_.cur_ < kSmallBuffer ∧ header env c.now <+: p.2.stream_.asString := by
    intro level errno
    exact new_cached h hs hpos hle
  unfold construct
  cases c.constructor with
  | plain | level level | toAbort toAbort errno => exact hnew _ _
  | func level func =>
    apply (hnew level 0).bind
    rintro ⟨locals', impl⟩ ⟨hcached, hlt, hheader⟩
    apply (item_grows hlt _).bind
    intro stream₁ h₁
    apply (item_grows h₁.lt _).bind
    intro stream₂ h₂
    exact yields_ok ⟨hcached, h₂.lt, hheader.trans (h₁.trans h₂).content⟩

theorem construct_fails (h : Cached env locals) (hzero : locals.t_cachedTid = 0)
    (hs : Loggable (c.now / 1000000)) (hgt : 99999 < env.gettid.toInt) :
    construct env locals c = .error .cacheTidLength := by
  have hnew : ∀ level errno, Impl.new env locals
      ⟨level, errno, c.file, c.line, c.now, c.data_⟩ = .error .cacheTidLength := by
    intro level errno
    exact new_fails h hzero hs hgt
  unfold construct
  cases c.constructor with
  | plain | level level | toAbort toAbort errno => exact hnew _ _
  | func level func =>
    dsimp only
    rw [hnew]
    rfl

end

/-! ### The records of a thread -/

/-- A `Logger` from its constructor to its destructor. -/
structure Record where
  construction : Construction
  items : List Streamed

def Record.now (record : Record) : ℤ := record.construction.now

/-- What is passed to `g_output` for a record, and whether the process is aborted then. -/
def logRecord (env : Env) (locals : ThreadLocals) (record : Record) :
    Checked (ThreadLocals × List UInt8 × Bool) := do
  let (locals, impl) ← construct env locals record.construction
  let stream_ ← streamAll impl.stream_ record.items
  let out ← destroy { impl with stream_ }
  return (locals, out)

structure State where
  locals : ThreadLocals
  aborted : Bool
  /-- the time of each record, and what was passed to `g_output` for it -/
  output : List (ℤ × List UInt8)

inductive Event
  /-- a call of `CurrentThread::tid()` -/
  | tid
  | log (record : Record)

def step (env : Env) (s : State) : Event → Checked State
  | .tid => do
    let (locals, _) ← tid env s.locals
    return { s with locals }
  | .log record => do
    let (locals, message, aborted) ← logRecord env s.locals record
    return { locals, aborted, output := s.output ++ [(record.now, message)] }

/-- The records of a thread have times from one second after the epoch to the year 9999. -/
def enabled (s : State) : Event → Prop
  | .tid => s.aborted = false
  | .log record => s.aborted = false ∧ Loggable (record.now / 1000000)

def initial : State where
  locals := .initial
  aborted := false
  output := []

def system (env : Env) : System State Event Assertion where
  init s := s = initial
  enabled := enabled
  step := step env

/-- Each record begins with the header of its own time. -/
def Exact (env : Env) (s : State) : Prop := ∀ p ∈ s.output, header env p.1 <+: p.2

structure Inv (env : Env) (s : State) : Prop where
  cached : Cached env s.locals
  exact : Exact env s

theorem logRecord_cached {record : Record} (h : Cached env locals)
    (hs : Loggable (record.now / 1000000)) (hpos : 0 < env.gettid.toInt)
    (hle : env.gettid.toInt ≤ 99999) : Yields (logRecord env locals record) fun p =>
      Cached env p.1 ∧ header env record.now <+: p.2.1 := by
  unfold logRecord
  apply (construct_cached h hs hpos hle).bind
  rintro ⟨locals', impl⟩ ⟨hcached, hlt, hheader⟩
  apply (streamAll_grows hlt record.items).bind
  intro stream_ hgrows
  have hlt' : ({ impl with stream_ := stream_ } : Impl).stream_.cur_ < kSmallBuffer := hgrows.lt
  apply (destroy_grows hlt').bind
  intro out hout
  exact yields_ok ⟨hcached, (hheader.trans hgrows.content).trans hout⟩

theorem totalInvariant (hpos : 0 < env.gettid.toInt) (hle : env.gettid.toInt ≤ 99999) :
    TotalInvariant (system env) (Inv env) where
  init s hs := by
    rw [show s = initial from hs]
    exact ⟨cached_initial env, by simp [Exact, initial]⟩
  step s e h he := by
    cases e with
    | tid =>
      refine (tid_cached h.cached hpos hle).bind ?_
      rintro ⟨locals', _⟩ ⟨hcached, -⟩
      exact yields_ok ⟨hcached, h.exact⟩
    | log record =>
      refine (logRecord_cached h.cached he.2 hpos hle).bind ?_
      rintro ⟨locals', message, aborted⟩ ⟨hcached, hheader⟩
      refine yields_ok ⟨hcached, ?_⟩
      intro p hp
      rcases List.mem_append.mp hp with hp | hp
      · exact h.exact p hp
      · rw [List.mem_singleton.mp hp]
        exact hheader

/-- No assertion fails, and every record begins with its header. -/
def HeadersExact (env : Env) : Prop :=
  Safe (system env) ∧ ∀ s, Reachable (system env) s → Exact env s

/-- The first record of a thread with more digits in its id fails. -/
theorem logRecord_fails {record : Record} (hs : Loggable (record.now / 1000000))
    (hgt : 99999 < env.gettid.toInt) :
    logRecord env .initial record = .error .cacheTidLength := by
  unfold logRecord
  rw [construct_fails (cached_initial env) rfl hs hgt]
  rfl

theorem not_safe {record : Record} (hs : Loggable (record.now / 1000000))
    (hgt : 99999 < env.gettid.toInt) : ¬Safe (system env) := by
  intro hsafe
  have henabled : (system env).enabled initial (.log record) := ⟨rfl, hs⟩
  obtain ⟨s, hstep⟩ := hsafe initial (reachable_init _ rfl) (.log record) henabled
  have hfails := logRecord_fails hs hgt
  have herror : (system env).step initial (.log record) = .error .cacheTidLength := by
    show (logRecord env ThreadLocals.initial record >>= _) = _
    rw [hfails]
    rfl
  rw [herror] at hstep
  cases hstep

/-- A record of one second after the epoch. -/
def firstSecond : Record where
  construction := ⟨.plain, .ofFilename (text "a.cc"), 1, 1000000,
    ⟨List.replicate kSmallBuffer 0, List.length_replicate ..⟩⟩
  items := []

theorem loggable_firstSecond : Loggable (firstSecond.now / 1000000) := by decide

/-- Whatever a thread logs, no assertion fails and every record begins with the header of its
own time, exactly where the id of the thread has at most five digits. -/
theorem headersExact_iff (hpos : 0 < env.gettid.toInt) :
    HeadersExact env ↔ env.gettid.toInt ≤ 99999 := by
  constructor
  · rintro ⟨hsafe, -⟩
    by_contra hgt
    exact not_safe loggable_firstSecond (not_le.mp hgt) hsafe
  · intro hle
    have hinv := totalInvariant hpos hle
    exact ⟨hinv.safe, fun s hs => ((hinv.invariant _).reachable _ hs).exact⟩

theorem headersExact_iff_largest : HeadersExact ⟨99999, fun _ => []⟩ :=
  (headersExact_iff (by decide)).mpr (by decide)

/-- The thread 100000 fails at its first record. -/
theorem not_headersExact :
    logRecord ⟨100000, fun _ => []⟩ .initial firstSecond = .error .cacheTidLength ∧
      ¬HeadersExact ⟨100000, fun _ => []⟩ := by
  constructor
  · exact logRecord_fails loggable_firstSecond (by decide)
  · rintro ⟨hsafe, -⟩
    exact not_safe loggable_firstSecond (by decide) hsafe

end Logger
end Muduo

import Muduo.LogStream
import Muduo.UtcTime
import Mathlib.Data.List.DropRight

/-!
# Loggers

`Logger` of `base/Logging.h` and `base/Logging.cc`, and what it takes from the thread:
`CurrentThread` of `base/CurrentThread.h` and `base/Thread.cc`. What the system answers is
given: the id of the thread, the texts of the errors and the time. `g_logLevel`, which only the
macros test, is left out.
-/
namespace Muduo

namespace Logger
open LogStream (FixedBuffer kSmallBuffer kMaxNumericSize decimal Extends byteOf)

inductive LogLevel
  | TRACE
  | DEBUG
  | INFO
  | WARN
  | ERROR
  | FATAL
  deriving DecidableEq, Repr

def LogLevelName : LogLevel → List UInt8
  | .TRACE => text "TRACE "
  | .DEBUG => text "DEBUG "
  | .INFO => text "INFO  "
  | .WARN => text "WARN  "
  | .ERROR => text "ERROR "
  | .FATAL => text "FATAL "

/-- The characters of a C string; `strlen` is their number. -/
def cString (s : List UInt8) : List UInt8 := s.takeWhile (· ≠ 0)

/-- The `size_` bytes from `data_` on. -/
structure SourceFile where
  data_ : List UInt8
  deriving DecidableEq, Repr

namespace SourceFile

/-- What is left of a string after its last slash. -/
def afterSlash (s : List UInt8) : List UInt8 := s.rtakeWhile (· ≠ 47)

/-- `SourceFile(arr)`, without the last of the `N` characters. -/
def ofArray (arr : List UInt8) : SourceFile :=
  ⟨arr.drop ((cString arr).length - (afterSlash (cString arr)).length)⟩

/-- `SourceFile(filename)` -/
def ofFilename (filename : List UInt8) : SourceFile := ⟨afterSlash (cString filename)⟩

theorem slash_not_mem_ofFilename (filename : List UInt8) :
    (47 : UInt8) ∉ (ofFilename filename).data_ := by
  intro hmem
  simpa using List.mem_rtakeWhile_imp hmem

/-- On a literal without a NUL both constructors take the base name. -/
theorem ofArray_eq {arr : List UInt8} (h : (0 : UInt8) ∉ arr) : ofArray arr = ofFilename arr := by
  have hstring : cString arr = arr := by
    apply List.takeWhile_eq_self_iff.mpr
    intro c hc
    have hne : c ≠ 0 := fun hzero => h (hzero ▸ hc)
    simpa using hne
  unfold ofArray ofFilename
  rw [hstring]
  congr 1
  exact (List.suffix_iff_eq_drop.mp (List.rtakeWhile_suffix _ arr)).symm

end SourceFile

/-! ### Texts -/

/-- `snprintf(str, sizeof str, ..)`: what fits of the text and a NUL. The answer is the length of
the whole text. -/
def snprintf {n : ℕ} (str : Memory UInt8 (n + 1)) (formatted : List UInt8) :
    Memory UInt8 (n + 1) × ℕ :=
  (str.put 0 (formatted.take n ++ [0]) (by
    rw [List.length_append, List.length_take, List.length_singleton]
    omega), formatted.length)

/-- `%wd` -/
def padded (w : ℕ) (v : ℤ) : List UInt8 := (decimal v).leftpad w 32

/-- `%0wd` -/
def zeroPadded (w : ℕ) (v : ℤ) : List UInt8 :=
  let sign := if v < 0 then text "-" else []
  sign ++ (text (toString v.natAbs)).leftpad (w - sign.length) 48

/-- `T(str, len)`, as what is appended for it. -/
def T (str : List UInt8) (len : ℕ) : Checked (List UInt8) := do
  assert ((cString str).length = len) .logTextLength
  return str.take len

/-- The bytes before the `length_`-th of `buf_`. -/
structure Fmt where
  data : List UInt8
  length_lt : data.length < 32

/-- `Fmt(fmt, val)` -/
def Fmt.new (formatted : List UInt8) : Checked Fmt :=
  if h : formatted.length < 32 then .ok ⟨formatted, h⟩ else .error .fmtSize

/-! ### The thread -/

/-- The `__thread` variables. -/
structure ThreadLocals where
  t_time : Memory UInt8 32
  t_lastSecond : ℤ
  t_cachedTid : Int32
  t_tidString : Memory UInt8 32
  deriving DecidableEq

def ThreadLocals.initial : ThreadLocals where
  t_time := ⟨List.replicate 32 0, rfl⟩
  t_lastSecond := 0
  t_cachedTid := 0
  t_tidString := ⟨List.replicate 32 0, rfl⟩

/-- What the system answers to a thread. -/
structure Env where
  gettid : Int32
  strerror_r : Int32 → List UInt8

/-- `CurrentThread::cacheTid` -/
def cacheTid (env : Env) (locals : ThreadLocals) : Checked ThreadLocals :=
  if locals.t_cachedTid = 0 then do
    let t_cachedTid := env.gettid
    let (t_tidString, n) := snprintf locals.t_tidString (padded 5 t_cachedTid.toInt ++ text " ")
    assert (n = 6) .cacheTidLength
    return { locals with t_cachedTid, t_tidString }
  else return locals

/-- `CurrentThread::tid` -/
def tid (env : Env) (locals : ThreadLocals) : Checked (ThreadLocals × Int32) :=
  if locals.t_cachedTid = 0 then do
    let locals ← cacheTid env locals
    return (locals, locals.t_cachedTid)
  else return (locals, locals.t_cachedTid)

/-! ### A record -/

structure Impl where
  time_ : ℤ
  stream_ : LogStream.Buffer
  level_ : LogLevel
  line_ : Int32
  basename_ : SourceFile

/-- `gmtime_r` -/
def gmtime_r (seconds : ℤ) : Tm := TimeZone.toUtcTime seconds true

/-- `"%4d%02d%02d %02d:%02d:%02d"` -/
def dateTime (tm_time : Tm) : List UInt8 :=
  padded 4 (tm_time.year + 1900) ++ zeroPadded 2 (tm_time.mon + 1) ++ zeroPadded 2 tm_time.mday ++
    text " " ++ zeroPadded 2 tm_time.hour ++ text ":" ++ zeroPadded 2 tm_time.min ++ text ":" ++
    zeroPadded 2 tm_time.sec

/-- The part of `formatTime` under `if (seconds != t_lastSecond)`. -/
def formatSeconds (locals : ThreadLocals) (seconds : ℤ) : Checked ThreadLocals :=
  if seconds ≠ locals.t_lastSecond then do
    let (t_time, len) := snprintf locals.t_time (dateTime (gmtime_r seconds))
    assert (len = 17) .logTimeLength
    return { locals with t_lastSecond := seconds, t_time }
  else return locals

def formatTime (locals : ThreadLocals) (impl : Impl) : Checked (ThreadLocals × Impl) := do
  let locals ← formatSeconds locals (impl.time_.tdiv 1000000)
  let microseconds := impl.time_.tmod 1000000
  let us ← Fmt.new (text "." ++ zeroPadded 6 microseconds ++ text "Z ")
  assert (us.data.length = 9) .logMicrosecondsLength
  let date ← T locals.t_time.cells 17
  let stream_ ← impl.stream_.append date
  let fraction ← T us.data 9
  let stream_ ← stream_.append fraction
  return (locals, { impl with stream_ })

/-- The arguments of `Impl::Impl`, the time that `Timestamp::now()` answers, and what is in the
memory of `stream_`. -/
structure Arguments where
  level : LogLevel
  savedErrno : Int32
  file : SourceFile
  line : Int32
  now : ℤ
  data_ : Memory UInt8 kSmallBuffer

/-- The initializers of `Impl::Impl`. -/
def Arguments.impl (args : Arguments) : Impl where
  time_ := args.now
  stream_ := .new args.data_
  level_ := args.level
  line_ := args.line
  basename_ := args.file

/-- The part of `Impl::Impl` under `if (savedErrno != 0)`. -/
def appendErrno (env : Env) (stream_ : LogStream.Buffer) (savedErrno : Int32) :
    Checked LogStream.Buffer :=
  if savedErrno ≠ 0 then do
    let stream_ ← LogStream.stream stream_ (.cstr (env.strerror_r savedErrno))
    let stream_ ← LogStream.stream stream_ (.cstr (text " (errno="))
    let stream_ ← LogStream.stream stream_ (.int savedErrno)
    LogStream.stream stream_ (.cstr (text ") "))
  else return stream_

/-- `Impl::Impl` -/
def Impl.new (env : Env) (locals : ThreadLocals) (args : Arguments) :
    Checked (ThreadLocals × Impl) := do
  let (locals, impl) ← formatTime locals args.impl
  let (locals, _) ← tid env locals
  let tidString ← T locals.t_tidString.cells 6
  let stream_ ← impl.stream_.append tidString
  let levelName ← T (LogLevelName args.level) 6
  let stream_ ← stream_.append levelName
  let stream_ ← appendErrno env stream_ args.savedErrno
  return (locals, { impl with stream_ })

/-- The constructors of `Logger`, after the file and the line. -/
inductive Constructor
  | plain
  | level (level : LogLevel)
  | func (level : LogLevel) (func : List UInt8)
  /-- with the value of `errno` -/
  | toAbort (toAbort : Bool) (errno : Int32)

/-- What a `Logger` is constructed from. -/
structure Construction where
  constructor : Constructor
  file : SourceFile
  line : Int32
  now : ℤ
  data_ : Memory UInt8 kSmallBuffer

/-- `Logger::Logger` -/
def construct (env : Env) (locals : ThreadLocals) (c : Construction) :
    Checked (ThreadLocals × Impl) :=
  match c.constructor with
  | .plain => Impl.new env locals ⟨.INFO, 0, c.file, c.line, c.now, c.data_⟩
  | .level level => Impl.new env locals ⟨level, 0, c.file, c.line, c.now, c.data_⟩
  | .func level func => do
    let (locals, impl) ← Impl.new env locals ⟨level, 0, c.file, c.line, c.now, c.data_⟩
    let stream_ ← LogStream.stream impl.stream_ (.cstr func)
    let stream_ ← LogStream.stream stream_ (.char 32)
    return (locals, { impl with stream_ })
  | .toAbort toAbort errno =>
    let level := if toAbort then .FATAL else .ERROR
    Impl.new env locals ⟨level, errno, c.file, c.line, c.now, c.data_⟩

/-- The text of a `double` under `"%.12g"`: at most a sign, twelve digits with a point, and an
exponent of three digits with its sign. -/
structure DoubleText where
  data : List UInt8
  length_le : data.length ≤ 19

/-- What is streamed into a `Logger`. A `float` is streamed as a `double`. -/
inductive Streamed
  | item (item : LogStream.Item)
  | double (v : DoubleText)
  | fmt (fmt : Fmt)

/-- `operator<<(double)` -/
def formatDouble (buffer_ : LogStream.Buffer) (v : DoubleText) : Checked LogStream.Buffer :=
  if buffer_.avail ≥ kMaxNumericSize then do
    let data ← buffer_.data_.copy .fixedBufferOverrun buffer_.cur_ (v.data ++ [0])
    return { buffer_ with data_ := data }.add v.data.length
  else .ok buffer_

/-- `operator<<` -/
def stream (buffer_ : LogStream.Buffer) : Streamed → Checked LogStream.Buffer
  | .item item => LogStream.stream buffer_ item
  | .double v => formatDouble buffer_ v
  | .fmt fmt => buffer_.append fmt.data

def streamAll (buffer_ : LogStream.Buffer) (items : List Streamed) : Checked LogStream.Buffer :=
  items.foldlM stream buffer_

/-- `Impl::finish` -/
def finish (impl : Impl) : Checked Impl := do
  let stream_ ← LogStream.stream impl.stream_ (.cstr (text " - "))
  let stream_ ← stream_.append impl.basename_.data_
  let stream_ ← LogStream.stream stream_ (.char 58)
  let stream_ ← LogStream.stream stream_ (.int impl.line_)
  let stream_ ← LogStream.stream stream_ (.char 10)
  return { impl with stream_ }

/-- `Logger::~Logger`: what is passed to `g_output`, and whether the process is aborted then. -/
def destroy (impl : Impl) : Checked (List UInt8 × Bool) := do
  let impl ← finish impl
  return (impl.stream_.asString, decide (impl.level_ = .FATAL))

/-! ### Numerals -/

/-- A sign or a digit. -/
theorem mem_decimal {v : ℤ} {c : UInt8} (h : c ∈ decimal v) :
    c = 45 ∨ 48 ≤ c.toNat ∧ c.toNat ≤ 57 := by
  rw [LogStream.decimal_eq] at h
  rcases List.mem_append.mp h with h | h
  · left
    split_ifs at h
    · exact List.mem_singleton.mp h
    · cases h
  · right
    obtain ⟨d, hd, rfl⟩ := List.mem_map.mp h
    have hdigit := Nat.isDigit_of_mem_toDigits (by decide) (by decide) hd
    rw [Char.isDigit_iff_toNat] at hdigit
    have h₁ : '0'.toNat = 48 := rfl
    have h₂ : '9'.toNat = 57 := rfl
    have hbyte : (byteOf d).toNat = d.toNat := by
      unfold byteOf
      rw [UInt8.toNat_ofNat']
      omega
    omega

/-! ### The buffer grows -/

/-- What is streamed is appended or dropped, and the cursor stays before the end. -/
structure Grows (b b' : LogStream.Buffer) : Prop where
  lt : b'.cur_ < kSmallBuffer
  content : b.asString <+: b'.asString

variable {b b' b'' : LogStream.Buffer}

theorem Grows.refl (h : b.cur_ < kSmallBuffer) : Grows b b := ⟨h, List.prefix_rfl⟩

theorem Grows.trans (h : Grows b b') (h' : Grows b' b'') : Grows b b'' :=
  ⟨h'.lt, h.content.trans h'.content⟩

theorem grows_of_extends {w : List UInt8} (h : Extends b b' w) : Grows b b' where
  lt := h.lt
  content := by
    rw [h.asString]
    exact List.prefix_append ..

theorem extends_trans {w w' : List UInt8} (h : Extends b b' w) (h' : Extends b' b'' w') :
    Extends b b'' (w ++ w') where
  cur_ := by
    rw [h'.cur_, h.cur_, List.length_append, Nat.add_assoc]
  lt := h'.lt
  asString := by
    rw [h'.asString, h.asString, List.append_assoc]

theorem append_grows (h : b.cur_ < kSmallBuffer) (w : List UInt8) :
    Yields (b.append w) (Grows b) := by
  obtain ⟨hfits, hnot⟩ := LogStream.append_eq h w
  by_cases hw : w.length < kSmallBuffer - b.cur_
  · exact (hfits hw).mono fun _ => grows_of_extends
  · exact ⟨b, hnot hw, .refl h⟩

theorem item_grows (h : b.cur_ < kSmallBuffer) (item : LogStream.Item) :
    Yields (LogStream.stream b item) (Grows b) := by
  obtain ⟨hfits, hnot⟩ := LogStream.stream_eq h item
  by_cases hitem : item.Fits b.cur_
  · exact (hfits hitem).mono fun _ => grows_of_extends
  · exact ⟨b, hnot hitem, .refl h⟩

theorem formatDouble_grows (h : b.cur_ < kSmallBuffer) (v : DoubleText) :
    Yields (formatDouble b v) (Grows b) := by
  have hlen := v.length_le
  unfold formatDouble
  split_ifs with havail
  · obtain ⟨hle, hext⟩ := LogStream.put_eq ((LogStream.avail_ge_iff h).mp havail)
      (show v.data.length < kMaxNumericSize by unfold kMaxNumericSize; omega)
    rw [Memory.copy_eq hle, ok_bind]
    exact yields_ok (grows_of_extends hext)
  · exact yields_ok (.refl h)

theorem stream_grows (h : b.cur_ < kSmallBuffer) (x : Streamed) :
    Yields (stream b x) (Grows b) := by
  cases x with
  | item item => exact item_grows h item
  | double v => exact formatDouble_grows h v
  | fmt fmt => exact append_grows h fmt.data

theorem append_fits (h : b.cur_ < kSmallBuffer) {w : List UInt8}
    (hw : b.cur_ + w.length < kSmallBuffer) : ∃ b', b.append w = .ok b' ∧ Extends b b' w :=
  (LogStream.append_eq h w).1 (by omega)

theorem streamAll_grows (h : b.cur_ < kSmallBuffer) (items : List Streamed) :
    Yields (streamAll b items) (Grows b) := by
  induction items generalizing b with
  | nil => exact yields_ok (.refl h)
  | cons x items ih =>
    unfold streamAll
    rw [List.foldlM_cons]
    apply (stream_grows h x).bind
    intro b' hb'
    exact (ih hb'.lt).mono fun _ => hb'.trans

theorem destroy_grows {impl : Impl} (h : impl.stream_.cur_ < kSmallBuffer) :
    Yields (destroy impl) fun out => impl.stream_.asString <+: out.1 := by
  unfold destroy finish
  simp only [bind_assoc]
  apply (item_grows h _).bind
  intro b₁ h₁
  apply (append_grows h₁.lt _).bind
  intro b₂ h₂
  apply (item_grows h₂.lt _).bind
  intro b₃ h₃
  apply (item_grows h₃.lt _).bind
  intro b₄ h₄
  apply (item_grows h₄.lt _).bind
  intro b₅ h₅
  exact yields_ok ((((h₁.trans h₂).trans h₃).trans h₄).trans h₅).content

/-- Nothing but the stream of `impl` is changed, and it grows. -/
structure Impl.Streams (impl impl' : Impl) : Prop where
  grows : Grows impl.stream_ impl'.stream_
  rest : impl' = { impl with stream_ := impl'.stream_ }

variable {env : Env} {locals locals' : ThreadLocals} {impl impl' : Impl}

theorem streams_of_formatTime (h : impl.stream_.cur_ < kSmallBuffer)
    (hf : formatTime locals impl = .ok (locals', impl')) : impl.Streams impl' := by
  obtain ⟨_, _, hf⟩ := bind_eq_ok.mp hf
  obtain ⟨_, _, hf⟩ := bind_eq_ok.mp hf
  obtain ⟨_, _, hf⟩ := bind_eq_ok.mp hf
  obtain ⟨date, _, hf⟩ := bind_eq_ok.mp hf
  obtain ⟨stream₁, hdate, hf⟩ := bind_eq_ok.mp hf
  obtain ⟨fraction, _, hf⟩ := bind_eq_ok.mp hf
  obtain ⟨stream₂, hfraction, hf⟩ := bind_eq_ok.mp hf
  have h₁ := (append_grows h date).of_eq hdate
  have h₂ := (append_grows h₁.lt fraction).of_eq hfraction
  obtain ⟨-, rfl⟩ := Prod.mk.inj (Except.ok.inj hf)
  exact ⟨h₁.trans h₂, rfl⟩

theorem appendErrno_grows (h : b.cur_ < kSmallBuffer) (savedErrno : Int32) :
    Yields (appendErrno env b savedErrno) (Grows b) := by
  unfold appendErrno
  split_ifs
  · apply (item_grows h _).bind
    intro b₁ h₁
    apply (item_grows h₁.lt _).bind
    intro b₂ h₂
    apply (item_grows h₂.lt _).bind
    intro b₃ h₃
    exact (item_grows h₃.lt _).mono fun _ h₄ => ((h₁.trans h₂).trans h₃).trans h₄
  · exact yields_ok (.refl h)

theorem open_of_new {args : Arguments} (hf : Impl.new env locals args = .ok (locals', impl)) :
    impl.stream_.cur_ < kSmallBuffer ∧ impl.basename_ = args.file ∧ impl.line_ = args.line := by
  have hempty : args.impl.stream_.cur_ < kSmallBuffer := by
    show 0 < kSmallBuffer
    decide
  obtain ⟨⟨locals₁, impl₁⟩, htime, hf⟩ := bind_eq_ok.mp hf
  obtain ⟨⟨locals₂, _⟩, _, hf⟩ := bind_eq_ok.mp hf
  obtain ⟨tidString, _, hf⟩ := bind_eq_ok.mp hf
  obtain ⟨stream₁, htid, hf⟩ := bind_eq_ok.mp hf
  obtain ⟨levelName, _, hf⟩ := bind_eq_ok.mp hf
  obtain ⟨stream₂, hlevel, hf⟩ := bind_eq_ok.mp hf
  obtain ⟨stream₃, herrno, hf⟩ := bind_eq_ok.mp hf
  have hstreams := streams_of_formatTime hempty htime
  have h₁ := (append_grows hstreams.grows.lt tidString).of_eq htid
  have h₂ := (append_grows h₁.lt levelName).of_eq hlevel
  have h₃ := (appendErrno_grows h₂.lt args.savedErrno).of_eq herrno
  obtain ⟨-, rfl⟩ := Prod.mk.inj (Except.ok.inj hf)
  have hrest := hstreams.rest
  dsimp only at hrest ⊢
  rw [hrest]
  exact ⟨h₃.lt, rfl, rfl⟩

/-- A `Logger` that is there has a cursor before the end of its buffer. -/
theorem open_of_construct {c : Construction} (hf : construct env locals c = .ok (locals', impl)) :
    impl.stream_.cur_ < kSmallBuffer ∧ impl.basename_ = c.file ∧ impl.line_ = c.line := by
  unfold construct at hf
  cases hc : c.constructor with
  | plain | level level | toAbort toAbort errno =>
    rw [hc] at hf
    exact open_of_new hf
  | func level func =>
    rw [hc] at hf
    obtain ⟨⟨locals₁, impl₁⟩, hnew, hf⟩ := bind_eq_ok.mp hf
    obtain ⟨stream₁, hfunc, hf⟩ := bind_eq_ok.mp hf
    obtain ⟨stream₂, hspace, hf⟩ := bind_eq_ok.mp hf
    obtain ⟨hlt, hfile, hline⟩ := open_of_new hnew
    have h₁ := (item_grows hlt (.cstr func)).of_eq hfunc
    have h₂ := (item_grows h₁.lt (.char 32)).of_eq hspace
    obtain ⟨-, rfl⟩ := Prod.mk.inj (Except.ok.inj hf)
    exact ⟨h₂.lt, hfile, hline⟩

end Logger
end Muduo

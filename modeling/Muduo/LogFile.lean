import Muduo.Assertion
import Muduo.HttpContext
import Muduo.Library.Rotation
import Muduo.Library.StepSystem

/-!
# Log files

`LogFile` of `base/LogFile.cc`. `fopen(3)` succeeds, and the content of a file is what
`fwrite_unlocked(3)` has taken, in the buffer of the stream or on disk. Appends are
serialized, by the mutex or by the caller.
-/
namespace Muduo.LogFile

def kCheckTimeRoll_ : ℕ := 1024

def kRollPerSeconds_ : ℤ := 60 * 60 * 24

/-- A file on disk. -/
structure DiskFile where
  name : List UInt8
  content : List UInt8
  deriving DecidableEq, Repr

/-- `LogFile::File`; `fp_` is the position of the file on disk. -/
structure File where
  fp_ : ℕ
  writtenBytes_ : ℕ
  deriving DecidableEq, Repr

/-- What a `LogFile` is constructed with, and what its process has. `timebuf` is the
result of `strftime(3)` with `".%Y%m%d-%H%M%S."`. -/
structure Config where
  basename_ : List UInt8
  rollSize_ : ℕ
  flushInterval_ : ℤ
  timebuf : ℤ → List UInt8
  hostname : List UInt8
  pid : List UInt8

/-- A `LogFile`, with the files on disk in the order of their creation and the names
that have been opened, oldest first. -/
structure State where
  disk : List DiskFile
  opened : List (List UInt8)
  count_ : ℕ
  startOfPeriod_ : ℤ
  lastRoll_ : ℤ
  lastFlush_ : ℤ
  file_ : Option File
  deriving DecidableEq, Repr

/-- `fopen(filename, "ae")`: the file of that name, or a new one. -/
def fopen (disk : List DiskFile) (filename : List UInt8) : List DiskFile × ℕ :=
  match disk.findIdx? (·.name = filename) with
  | some i => (disk, i)
  | none => (disk ++ [⟨filename, []⟩], disk.length)

/-- `fwrite_unlocked(data, 1, len, fp)` with the result `result`, at most `len`. -/
def fwrite (content data : List UInt8) (result : ℕ) : List UInt8 × ℕ :=
  (content ++ data.take result, min result data.length)

/-- The loop of `File::append`, with the results of its calls of `write`. A call after
these writes all that remains. -/
def writeRemain (logline : List UInt8) : List ℕ → ℕ → List UInt8 → List UInt8
  | [], n, content => content ++ logline.drop n
  | result :: results, n, content =>
    if 0 < logline.length - n then
      let (content, x) := fwrite content (logline.drop n) result
      if x = 0 then content else writeRemain logline results (n + x) content
    else content

/-- The writes of `File::append`. -/
def write (logline : List UInt8) (results : List ℕ) (content : List UInt8) : List UInt8 :=
  match results with
  | [] => content ++ logline
  | result :: results =>
    let (content, n) := fwrite content logline result
    writeRemain logline results n content

section
variable (cfg : Config)

/-- `getLogFileName(basename, now)` -/
def getLogFileName (now : ℤ) : List UInt8 :=
  cfg.basename_ ++ cfg.timebuf now ++ cfg.hostname ++ (text "." ++ cfg.pid) ++ text ".log"

/-- `rollFile()`, where `time(NULL)` is `now`. -/
def rollFile (now : ℤ) (s : State) : State :=
  let filename := getLogFileName cfg now
  let start := now.tdiv kRollPerSeconds_ * kRollPerSeconds_
  if now > s.lastRoll_ then
    let (disk, fp) := fopen s.disk filename
    { s with
      disk := disk
      opened := s.opened ++ [filename]
      lastRoll_ := now
      lastFlush_ := now
      startOfPeriod_ := start
      file_ := some ⟨fp, 0⟩ }
  else s

/-- `LogFile(basename, rollSize, threadSafe, flushInterval)` -/
def construct (now : ℤ) : Checked State := do
  assert (47 ∉ cfg.basename_) .logFileBasename
  return rollFile cfg now ⟨[], [], 0, 0, 0, 0, none⟩

/-- `file_->append(logline, len)`; `writtenBytes_` is a `size_t`. -/
def fileAppend (s : State) (logline : List UInt8) (results : List ℕ) : Checked (State × ℕ) :=
  match s.file_ with
  | none => .error .logFileNull
  | some file =>
    let writtenBytes := (file.writtenBytes_ + logline.length) % 2 ^ 64
    .ok ({ s with
      disk := s.disk.modify file.fp_ fun f =>
        { f with content := write logline results f.content }
      file_ := some { file with writtenBytes_ := writtenBytes } }, writtenBytes)

/-- `file_->flush()` -/
def fileFlush (s : State) : Checked State :=
  match s.file_ with
  | none => .error .logFileNull
  | some _ => .ok s

/-- `append_unlocked(logline, len)`, with the results of the writes and the readings of
the clock by the function itself and by `rollFile`. -/
def append_unlocked (s : State) (logline : List UInt8) (results : List ℕ)
    (checkTime rollTime : ℤ) : Checked State := do
  let (s, writtenBytes) ← fileAppend s logline results
  if writtenBytes > cfg.rollSize_ then return rollFile cfg rollTime s
  else if s.count_ > kCheckTimeRoll_ then
    let s := { s with count_ := 0 }
    let thisPeriod_ := checkTime.tdiv kRollPerSeconds_ * kRollPerSeconds_
    if thisPeriod_ ≠ s.startOfPeriod_ then return rollFile cfg rollTime s
    else if checkTime - s.lastFlush_ > cfg.flushInterval_ then
      fileFlush { s with lastFlush_ := checkTime }
    else return s
  else return { s with count_ := s.count_ + 1 }

inductive Event
  | append (logline : List UInt8) (results : List ℕ) (checkTime rollTime : ℤ)
  | flush
  deriving DecidableEq, Repr

/-- Writes take something, and the clock is positive. -/
def Enabled : Event → Prop
  | .append _ results checkTime rollTime => (∀ x ∈ results, 0 < x) ∧ 0 < checkTime ∧ 0 < rollTime
  | .flush => True

instance (e : Event) : Decidable (Enabled e) := by
  cases e with
  | append logline results checkTime rollTime => exact inferInstanceAs (Decidable (_ ∧ _))
  | flush => exact inferInstanceAs (Decidable True)

def step (s : State) : Event → Checked State
  | .append logline results checkTime rollTime =>
    append_unlocked cfg s logline results checkTime rollTime
  | .flush => fileFlush s

def system : StepSystem.System State Event Assertion where
  init s := ∃ now, 0 < now ∧ construct cfg now = .ok s
  enabled _ e := Enabled e
  step := step cfg

instance (s : State) (e : Event) : Decidable ((system cfg).enabled s e) :=
  inferInstanceAs (Decidable (Enabled e))

end

/-- The record that an event appends. -/
def Event.records : Event → List (List UInt8)
  | .append logline _ _ _ => [logline]
  | .flush => []

/-! ### Writes -/

/-- What a write with any result has taken, and what it has left. -/
theorem take_append_drop_min (data : List UInt8) (result : ℕ) :
    data.take result ++ data.drop (min result data.length) = data := by
  rcases Nat.le_total result data.length with hle | hle
  · rw [Nat.min_eq_left hle, List.take_append_drop]
  · rw [Nat.min_eq_right hle, List.take_of_length_le hle, List.drop_length, List.append_nil]

/-- Where every write takes something, the whole record is written. -/
theorem writeRemain_eq (logline : List UInt8) {results : List ℕ} (h : ∀ x ∈ results, 0 < x) (n : ℕ)
    (content : List UInt8) : writeRemain logline results n content = content ++ logline.drop n := by
  induction results generalizing n content with
  | nil => rfl
  | cons result results ih =>
    unfold writeRemain fwrite
    dsimp only
    split_ifs with hremain hzero
    · have hpos := h result List.mem_cons_self
      rw [List.length_drop] at hzero
      omega
    · rw [ih fun x hx => h x (List.mem_cons_of_mem result hx), List.append_assoc,
        ← List.drop_drop, take_append_drop_min]
    · rw [List.drop_eq_nil_of_le (by omega), List.append_nil]

theorem write_eq {logline : List UInt8} {results : List ℕ} (h : ∀ x ∈ results, 0 < x)
    (content : List UInt8) : write logline results content = content ++ logline := by
  cases results with
  | nil => rfl
  | cons result results =>
    have hrest := writeRemain_eq logline
      (fun x hx => h x (List.mem_cons_of_mem result hx)) (min result logline.length)
      (content ++ logline.take result)
    unfold write fwrite
    dsimp only
    rw [hrest, List.append_assoc, take_append_drop_min]

/-! ### Names -/

variable {cfg : Config} {s t : State} {now : ℤ}

/-- The names that have been opened are those of increasing times, none after the last
roll, and of the files on disk. -/
structure Named (cfg : Config) (s : State) : Prop where
  times : ∃ ts : List ℤ, s.opened = ts.map (getLogFileName cfg) ∧ ts.Pairwise (· < ·) ∧
    ∀ t ∈ ts, 0 < t ∧ t ≤ s.lastRoll_
  disk : s.disk.map (·.name) = s.opened

/-- The formatted second is injective. -/
def Injective (cfg : Config) : Prop :=
  ∀ t t', 0 < t → 0 < t' → cfg.timebuf t = cfg.timebuf t' → t = t'

theorem getLogFileName_injective (hinj : Injective cfg) {t t' : ℤ} (ht : 0 < t) (ht' : 0 < t')
    (h : getLogFileName cfg t = getLogFileName cfg t') : t = t' := by
  unfold getLogFileName at h
  simp only [List.append_assoc] at h
  rw [List.append_right_inj, List.append_left_inj] at h
  exact hinj t t' ht ht' h

theorem Named.nodup (h : Named cfg s) (hinj : Injective cfg) : s.opened.Nodup := by
  obtain ⟨ts, hopened, hsorted, hle⟩ := h.times
  rw [hopened, List.Nodup, List.pairwise_map]
  apply hsorted.imp_of_mem
  intro t t' ht ht' hlt hname
  exact hlt.ne (getLogFileName_injective hinj (hle t ht).1 (hle t' ht').1 hname)

/-- A name of a later time has not been opened. -/
theorem Named.notMem (h : Named cfg s) (hinj : Injective cfg) (hpos : 0 < now)
    (hlt : s.lastRoll_ < now) : getLogFileName cfg now ∉ s.disk.map (·.name) := by
  obtain ⟨ts, hopened, -, hle⟩ := h.times
  rw [h.disk, hopened]
  intro hmem
  obtain ⟨t, ht, hname⟩ := List.mem_map.mp hmem
  have heq := getLogFileName_injective hinj (hle t ht).1 hpos hname
  have := (hle t ht).2
  omega

theorem fopen_of_notMem {disk : List DiskFile} {filename : List UInt8}
    (h : filename ∉ disk.map (·.name)) :
    fopen disk filename = (disk ++ [⟨filename, []⟩], disk.length) := by
  have hnone : disk.findIdx? (·.name = filename) = none := by
    rw [List.findIdx?_eq_none_iff]
    intro f hf
    rw [decide_eq_false_iff_not]
    intro hname
    exact h (List.mem_map.mpr ⟨f, hf, hname⟩)
  unfold fopen
  rw [hnone]

/-- `rollFile` does nothing, or opens a new file. -/
theorem rollFile_cases (h : Named cfg s) (hinj : Injective cfg) (hpos : 0 < now) :
    rollFile cfg now s = s ∨ s.lastRoll_ < now ∧ rollFile cfg now s =
      { s with
        disk := s.disk ++ [⟨getLogFileName cfg now, []⟩]
        opened := s.opened ++ [getLogFileName cfg now]
        lastRoll_ := now
        lastFlush_ := now
        startOfPeriod_ := now.tdiv kRollPerSeconds_ * kRollPerSeconds_
        file_ := some ⟨s.disk.length, 0⟩ } := by
  unfold rollFile
  dsimp only
  split_ifs with hlt
  · rw [fopen_of_notMem (h.notMem hinj hpos hlt)]
    exact .inr ⟨hlt, rfl⟩
  · exact .inl rfl

theorem Named.rollFile (h : Named cfg s) (hinj : Injective cfg) (hpos : 0 < now) :
    Named cfg (rollFile cfg now s) := by
  rcases rollFile_cases h hinj hpos with heq | ⟨hlt, heq⟩
  · rwa [heq]
  · rw [heq]
    obtain ⟨ts, hopened, hsorted, hle⟩ := h.times
    refine ⟨⟨ts ++ [now], ?_, ?_, ?_⟩, ?_⟩
    · dsimp only
      rw [hopened, List.map_append, List.map_singleton]
    · rw [List.pairwise_append]
      refine ⟨hsorted, List.pairwise_singleton _ _, ?_⟩
      intro t ht t' ht'
      rw [List.mem_singleton.mp ht']
      exact (hle t ht).2.trans_lt hlt
    · intro t ht
      dsimp only
      rcases List.mem_append.mp ht with ht | ht
      · have := hle t ht
        omega
      · rw [List.mem_singleton.mp ht]
        exact ⟨hpos, le_rfl⟩
    · dsimp only
      rw [List.map_append, h.disk, List.map_singleton]

/-! ### Records -/

/-- The open file is the last one on disk. -/
def Open (s : State) : Prop := ∃ file, s.file_ = some file ∧ file.fp_ + 1 = s.disk.length

/-- What the appends keep; `records` are those that have been appended. -/
structure Inv (cfg : Config) (records : List (List UInt8)) (s : State) : Prop where
  named : Named cfg s
  isOpen : Open s
  whole : Rotation.Whole records (s.disk.map (·.content))

theorem Inv.rollFile {records : List (List UInt8)} (h : Inv cfg records s) (hinj : Injective cfg)
    (hpos : 0 < now) : Inv cfg records (rollFile cfg now s) := by
  have hnamed := h.named.rollFile hinj hpos
  rcases rollFile_cases h.named hinj hpos with heq | ⟨-, heq⟩
  · rwa [heq]
  · rw [heq] at hnamed ⊢
    refine ⟨hnamed, ⟨_, rfl, by simp⟩, ?_⟩
    dsimp only
    rw [List.map_append]
    exact h.whole.rotate

theorem inv_construct (hinj : Injective cfg) (hpos : 0 < now) (h : construct cfg now = .ok s) :
    Inv cfg [] s := by
  obtain ⟨-, -, hs⟩ := bind_eq_ok.mp h
  have hnamed : Named cfg ⟨[], [], 0, 0, 0, 0, none⟩ := ⟨⟨[], rfl, .nil, by simp⟩, rfl⟩
  obtain rfl := Except.ok.inj hs
  have hroll := hnamed.rollFile hinj hpos
  rcases rollFile_cases hnamed hinj hpos with heq | ⟨-, heq⟩
  · -- the clock has gone past the initial `lastRoll_`
    have hlast := congrArg State.lastRoll_ heq
    unfold LogFile.rollFile at hlast
    dsimp only at hlast
    rw [if_pos hpos] at hlast
    exact absurd hlast hpos.ne'
  · rw [heq] at hroll ⊢
    exact ⟨hroll, ⟨_, rfl, rfl⟩, Rotation.whole_nil.rotate⟩

/-- Only the content of the open file changes. -/
theorem Inv.fileAppend {records : List (List UInt8)} (h : Inv cfg records s) (logline : List UInt8)
    {results : List ℕ} (hresults : ∀ x ∈ results, 0 < x) : ∃ u n,
      fileAppend s logline results = .ok (u, n) ∧ Inv cfg (records ++ [logline]) u := by
  obtain ⟨file, hfile, hlen⟩ := h.isOpen
  refine ⟨{ s with
    disk := s.disk.modify file.fp_ fun f =>
      { f with content := write logline results f.content }
    file_ := some { file with
      writtenBytes_ := (file.writtenBytes_ + logline.length) % 2 ^ 64 } },
    (file.writtenBytes_ + logline.length) % 2 ^ 64, ?_, ?_⟩
  · unfold LogFile.fileAppend
    rw [hfile]
  · obtain ⟨front, last, hdisk⟩ : ∃ front last, s.disk = front ++ [last] := by
      have hne : s.disk ≠ [] := by
        intro hnil
        simp [hnil] at hlen
      exact ⟨_, _, (List.dropLast_append_getLast hne).symm⟩
    have hfp : file.fp_ = front.length := by
      rw [hdisk] at hlen
      simpa using hlen
    have hmod : s.disk.modify file.fp_
        (fun f => { f with content := write logline results f.content }) =
          front ++ [{ last with content := last.content ++ logline }] := by
      rw [hdisk, hfp, List.modify_eq_take_drop, List.take_left, List.drop_left]
      simp [write_eq hresults]
    rw [hmod]
    have hnames := h.named.disk
    have hwhole := h.whole
    rw [hdisk, List.map_append, List.map_singleton] at hnames hwhole
    refine ⟨⟨h.named.times, ?_⟩, ⟨_, rfl, ?_⟩, ?_⟩
    · dsimp only
      rw [List.map_append, List.map_singleton, hnames]
    · simp [hfp]
    · dsimp only
      rw [List.map_append, List.map_singleton]
      exact hwhole.append logline

/-- The counter and the time of the last flush are in no invariant. -/
theorem Inv.congr {records : List (List UInt8)} (h : Inv cfg records s)
    (hdisk : t.disk = s.disk) (hopened : t.opened = s.opened) (hroll : t.lastRoll_ = s.lastRoll_)
    (hfile : t.file_ = s.file_) : Inv cfg records t := by
  obtain ⟨⟨htimes, hnames⟩, hopen, hwhole⟩ := h
  unfold Open at hopen
  rw [← hopened, ← hroll] at htimes
  rw [← hdisk, ← hopened] at hnames
  rw [← hdisk, ← hfile] at hopen
  rw [← hdisk] at hwhole
  exact ⟨⟨htimes, hnames⟩, hopen, hwhole⟩

theorem Inv.fileFlush {records : List (List UInt8)} (h : Inv cfg records s) :
    fileFlush s = .ok s := by
  obtain ⟨file, hfile, -⟩ := h.isOpen
  unfold LogFile.fileFlush
  rw [hfile]

theorem Inv.append_unlocked {records : List (List UInt8)} (h : Inv cfg records s)
    (hinj : Injective cfg) (logline : List UInt8) {results : List ℕ} {checkTime rollTime : ℤ}
    (hresults : ∀ x ∈ results, 0 < x) (hpos : 0 < rollTime) :
    Yields (append_unlocked cfg s logline results checkTime rollTime)
      (Inv cfg (records ++ [logline])) := by
  obtain ⟨u, n, hu, hInv⟩ := h.fileAppend logline hresults
  have hreset : Inv cfg (records ++ [logline]) { u with count_ := 0 } :=
    hInv.congr rfl rfl rfl rfl
  have hflush : Inv cfg (records ++ [logline]) { u with count_ := 0, lastFlush_ := checkTime } :=
    hInv.congr rfl rfl rfl rfl
  unfold LogFile.append_unlocked
  rw [hu, ok_bind]
  dsimp only
  split_ifs
  · exact yields_ok (hInv.rollFile hinj hpos)
  · exact yields_ok (hreset.rollFile hinj hpos)
  · rw [hflush.fileFlush]
    exact yields_ok hflush
  · exact yields_ok hreset
  · exact yields_ok (hInv.congr rfl rfl rfl rfl)

theorem Inv.step {records : List (List UInt8)} (h : Inv cfg records s) (hinj : Injective cfg)
    {e : Event} (he : Enabled e) : Yields (step cfg s e) (Inv cfg (records ++ e.records)) := by
  cases e with
  | append logline results checkTime rollTime =>
    exact h.append_unlocked hinj logline he.1 he.2.2
  | flush =>
    refine ⟨s, h.fileFlush, ?_⟩
    rw [show Event.records .flush = [] from rfl, List.append_nil]
    exact h

theorem inv_run (hinj : Injective cfg) {es : List Event} (hs : (system cfg).init s)
    (hr : StepSystem.Run (system cfg) s es t) : Inv cfg (es.flatMap Event.records) t := by
  induction hr with
  | nil =>
    obtain ⟨now, hpos, hs⟩ := hs
    exact inv_construct hinj hpos hs
  | snoc _ he hstep ih =>
    rw [List.flatMap_append, List.flatMap_singleton]
    exact (ih.step hinj he).of_eq hstep

/-- The files hold the records in order, each one whole; no name is opened twice, and
there is an open file, so that no append fails. -/
theorem keeps_records (hinj : Injective cfg) {es : List Event} (hs : (system cfg).init s)
    (hr : StepSystem.Run (system cfg) s es t) :
    (t.disk.map (·.content)).flatten = (es.flatMap Event.records).flatten ∧
      Rotation.Whole (es.flatMap Event.records) (t.disk.map (·.content)) ∧
      t.disk.map (·.name) = t.opened ∧ t.opened.Nodup ∧ t.file_.isSome = true ∧
      ∀ e, Enabled e → ∃ u, step cfg t e = .ok u := by
  have h := inv_run hinj hs hr
  obtain ⟨file, hfile, -⟩ := h.isOpen
  refine ⟨h.whole.flatten, h.whole, h.named.disk, h.named.nodup hinj, ?_, ?_⟩
  · rw [hfile]
    rfl
  · intro e he
    obtain ⟨u, hu, -⟩ := h.step hinj he
    exact ⟨u, hu⟩

/-- The first second of 1970 and the one a day later as `strftime` formats them, and
numerals for all others. -/
def sampleTimebuf (t : ℤ) : List UInt8 :=
  if t = 1 then text ".19700101-000001."
  else if t = 86401 then text ".19700102-000001."
  else List.replicate t.toNat 48

def sampleConfig : Config where
  basename_ := text "log"
  rollSize_ := 4
  flushInterval_ := 3
  timebuf := sampleTimebuf
  hostname := text "host"
  pid := text "42"

theorem injective_sample : Injective sampleConfig := by
  intro t t' ht ht' h
  unfold sampleConfig sampleTimebuf at h
  dsimp only at h
  have hdot : ∀ (s : String) (n : ℕ), (text s).head? = some 46 → text s ≠ List.replicate n 48 := by
    intro s n hs heq
    rw [heq] at hs
    cases n with
    | zero => exact absurd hs (by simp)
    | succ n => exact absurd hs (by simp [List.replicate_succ])
  split_ifs at h with h₁ h₂ h₃ h₄ h₅ h₆ h₇ h₈
  · omega
  · exact absurd h (by decide)
  · exact absurd h (hdot _ _ (by decide))
  · exact absurd h (by decide)
  · omega
  · exact absurd h (hdot _ _ (by decide))
  · exact absurd h.symm (hdot _ _ (by decide))
  · exact absurd h.symm (hdot _ _ (by decide))
  · have hlen := congrArg List.length h
    rw [List.length_replicate, List.length_replicate] at hlen
    omega

/-- Three records, in two files: the first is written in parts, and with the second the
first file has become too large. -/
def sampleRun : List Event :=
  [.append (text "abc") [1, 1] 2 2, .append (text "de") [] 86401 86401, .flush,
    .append (text "f") [5] 86402 86402]

theorem keeps_records_sample : ∃ s t, (system sampleConfig).init s ∧
    StepSystem.Run (system sampleConfig) s sampleRun t ∧
    t.disk = [⟨text "log.19700101-000001.host.42.log", text "abcde"⟩,
      ⟨text "log.19700102-000001.host.42.log", text "f"⟩] ∧ t.opened.Nodup := by
  have hinit : (system sampleConfig).init (rollFile sampleConfig 1 ⟨[], [], 0, 0, 0, 0, none⟩) :=
    ⟨1, by decide, rfl⟩
  have hreplay : (StepSystem.replay (system sampleConfig)
      (rollFile sampleConfig 1 ⟨[], [], 0, 0, 0, 0, none⟩) sampleRun).any (fun t =>
        t.disk = [⟨text "log.19700101-000001.host.42.log", text "abcde"⟩,
          ⟨text "log.19700102-000001.host.42.log", text "f"⟩]) = true := by decide +kernel
  obtain ⟨t, hr, ht⟩ := StepSystem.exists_run_of_replay (system sampleConfig) hreplay
  obtain ⟨-, -, -, hnodup, -⟩ := keeps_records injective_sample hinit hr
  exact ⟨_, t, hinit, hr, of_decide_eq_true ht, hnodup⟩

end Muduo.LogFile

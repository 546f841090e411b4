import Muduo.Buffer
import Muduo.TimeZone

/-!
# Zone files

`readTimeZoneFile` of `base/TimeZone.cc` fills the tables of a `TimeZone`. The
exceptions it throws are of type `logic_error`; they are caught, and what has been
pushed by then stays. What C++ leaves undefined, an access out of range or an array of
negative size, ends the model. Memory for any other number of bytes and elements is
there.
-/
namespace Muduo.TimeZone

/-- What stops `readTimeZoneFile`. -/
inductive Failure
  | logicError
  | undefined (a : Assertion)
  deriving DecidableEq, Repr

/-- The open file, the position of the next byte of it to be read, and the tables. -/
structure Loader where
  bytes : List UInt8
  pos : ℕ
  data : Data

abbrev Load := EStateM Failure Loader

namespace Load

/-- `fread(buf, 1, n, fp_)` -/
def fread (n : ℕ) : Load (List UInt8) :=
  modifyGet fun s =>
    ((s.bytes.drop s.pos).take n, { s with pos := min (s.pos + n) s.bytes.length })

def readBytes (n : ℤ) : Load (List UInt8) :=
  if n < 0 then throw (.undefined .readBytesSize)
  else do
    let buf ← fread n.toNat
    if buf.length ≠ n.toNat then throw .logicError else return buf

def readInt32 : Load ℤ := do
  let x ← fread 4
  if x.length ≠ 4 then throw .logicError else return (networkToHost32 x).toInt

def readUInt8 : Load ℕ := do
  let x ← fread 1
  if x.length ≠ 1 then throw .logicError else return (x.headD 0).toNat

/-- `reserve(n)`, which converts a negative `n` to a size that no vector has. -/
def reserve (n : ℤ) : Load Unit := if n < 0 then throw .logicError else return ()

/-- `for (int i = 0; i < n; ++i) v.push_back(read())` for a local vector. -/
def readVector {α : Type} (read : Load α) : ℕ → Load (List α)
  | 0 => return []
  | n + 1 => do
    let x ← read
    let v ← readVector read n
    return x :: v

/-- The loop that reads `data->localtimes`. -/
def readLocaltimes : ℕ → Load Unit
  | 0 => return ()
  | n + 1 => do
    let gmtoff ← readInt32
    let isdst ← readUInt8
    let abbrind ← readUInt8
    let localtime : Localtime := ⟨gmtoff, isdst ≠ 0, abbrind⟩
    modify fun s => { s with
      data := { s.data with localtimes := s.data.localtimes ++ [localtime] } }
    readLocaltimes n

/-- `data->localtimes[localIdx]` -/
def localtimeAt (localIdx : ℕ) : Load Localtime := do
  let s ← get
  match s.data.localtimes[localIdx]? with
  | some localtime => return localtime
  | none => throw (.undefined .localtimesIndex)

/-- The loop that fills `data->transitions` from `trans` and `localtimes`. -/
def pushTransitions : List ℤ → List ℕ → Load Unit
  | t :: times, localIdx :: localtimes => do
    let localtime ← localtimeAt localIdx
    let transition : Transition := ⟨t, t + localtime.gmtOffset, localIdx⟩
    modify fun s => { s with
      data := { s.data with transitions := s.data.transitions ++ [transition] } }
    pushTransitions times localtimes
  | _, _ => return ()

/-- The `try` block. -/
def zoneFile : Load Unit := do
  let head ← readBytes 4
  if head ≠ text "TZif" then throw .logicError
  else do
    let _version ← readBytes 1
    let _ ← readBytes 15
    let _isgmtcnt ← readInt32
    let _isstdcnt ← readInt32
    let _leapcnt ← readInt32
    let timecnt ← readInt32
    let typecnt ← readInt32
    let charcnt ← readInt32
    reserve timecnt
    let trans ← readVector readInt32 timecnt.toNat
    let localtimes ← readVector readUInt8 timecnt.toNat
    readLocaltimes typecnt.toNat
    pushTransitions trans localtimes
    let abbreviation ← readBytes charcnt
    modify fun s => { s with data := { s.data with abbreviation := abbreviation } }

end Load

def Data.empty : Data := ⟨[], [], []⟩

/-- The handler of the `try` block leaves the tables as they are. -/
def caught : EStateM.Result Failure Loader Unit → Checked Data
  | .ok () s => .ok s.data
  | .error .logicError s => .ok s.data
  | .error (.undefined a) _ => .error a

/-- `readTimeZoneFile(zonefile, data)`, with no bytes for a file that cannot be opened;
it returns `true`. -/
def readTimeZoneFile (content : Option (List UInt8)) (data : Data) : Checked (Bool × Data) :=
  match content with
  | none => .ok (true, data)
  | some bytes => do
    let data ← caught (Load.zoneFile.run ⟨bytes, 0, data⟩)
    return (true, data)

/-- `TimeZone::TimeZone(zonefile)` gives `data_`. -/
def construct (content : Option (List UInt8)) : Checked (Option Data) := do
  let (ok, data) ← readTimeZoneFile content .empty
  return if ok then some data else none

/-- No access of `toLocalTime` and `fromLocalTime` is out of range. -/
def Usable (gmtime : ℤ → Tm) (timegm : Tm → ℤ) (data : Data) : Prop :=
  (∀ seconds, Yields (toLocalTime gmtime data seconds) fun _ => True) ∧
    ∀ localTm, Yields (fromLocalTime gmtime timegm data localTm) fun _ => True

/-! ### Tables -/

/-- The first entry of `localtimes` is there, and its index into `abbreviation` and
those of all entries that a time selects are in range. -/
structure Data.InRange (data : Data) : Prop where
  front : ∃ localtime, data.localtimes[0]? = some localtime ∧
    localtime.arrbIdx ≤ data.abbreviation.length
  selected : ∀ t i a localtime, selected (data.transitions.map (·.gmttime)) t = some i →
    data.transitions[i]? = some a → data.localtimes[a.localtimeIdx]? = some localtime →
      localtime.arrbIdx ≤ data.abbreviation.length

variable {gmtime : ℤ → Tm} {timegm : Tm → ℤ} {data : Data}

/-- The indices of the transitions are in range. -/
def Data.Indexed (data : Data) : Prop :=
  ∀ a ∈ data.transitions, a.localtimeIdx < data.localtimes.length

section
variable {α β : Type} {b : List UInt8} {p n k : ℕ} {d d' : Data} {x : Load α} {f : α → Load β}

def int32At (b : List UInt8) (p : ℕ) : ℤ := (networkToHost32 (b.drop p)).toInt

def byteAt (b : List UInt8) (p : ℕ) : ℕ := (b[p]?.getD 0).toNat

/-- `x` is left by a `logic_error`, with the tables `d'`. -/
def Stops (x : Load α) (s : Loader) (d' : Data) : Prop :=
  ∃ p, x.run s = .error .logicError ⟨s.bytes, p, d'⟩

theorem Stops.bind {s : Loader} (h : Stops x s d') : Stops (x >>= f) s d' := by
  obtain ⟨p, hx⟩ := h
  refine ⟨p, ?_⟩
  rw [EStateM.run_bind, hx]

/-- `x` reads `k` bytes, from which its result is `g`. -/
structure Reads (x : Load α) (k : ℕ) (g : List UInt8 → ℕ → α) : Prop where
  run_eq : ∀ {b : List UInt8} {p : ℕ} {d : Data}, p + k ≤ b.length →
    x.run ⟨b, p, d⟩ = .ok (g b p) ⟨b, p + k, d⟩
  stops : ∀ {b : List UInt8} {p : ℕ} {d : Data}, p ≤ b.length → b.length < p + k →
    Stops x ⟨b, p, d⟩ d

namespace Reads
variable {g : List UInt8 → ℕ → α}

theorem run_bind (h : Reads x k g) (hle : p + k ≤ b.length) :
    (x >>= f).run ⟨b, p, d⟩ = (f (g b p)).run ⟨b, p + k, d⟩ := by
  rw [EStateM.run_bind, h.run_eq hle]

end Reads

def timecnt (b : List UInt8) : ℤ := int32At b 32
def typecnt (b : List UInt8) : ℤ := int32At b 36
def charcnt (b : List UInt8) : ℤ := int32At b 40

/-- The times of the transitions, and their types. -/
def times (b : List UInt8) : List ℤ :=
  (List.range (timecnt b).toNat).map fun i => int32At b (44 + 4 * i)

def indices (b : List UInt8) : List ℕ :=
  (List.range (timecnt b).toNat).map fun i => byteAt b (44 + 4 * (timecnt b).toNat + 1 * i)

def typesBegin (b : List UInt8) : ℕ := 44 + 4 * (timecnt b).toNat + 1 * (timecnt b).toNat

def typesEnd (b : List UInt8) : ℕ := typesBegin b + 6 * (typecnt b).toNat

/-- The index of a type into the abbreviations. -/
def abbrind (b : List UInt8) (k : ℕ) : ℕ := byteAt b (typesBegin b + 6 * k + 5)

/-- The abbreviations, if all of them are there. -/
def abbreviation (b : List UInt8) : List UInt8 :=
  if typesEnd b + (charcnt b).toNat ≤ b.length then
    (b.drop (typesEnd b)).take (charcnt b).toNat
  else []

/-- The head and the transitions are there. -/
structure HasTransitions (b : List UInt8) : Prop where
  head : b.take 4 = text "TZif"
  timecnt : 0 ≤ timecnt b
  length : typesBegin b ≤ b.length

/-- At least one type is there. If not all are, the first one's abbreviation is the
empty one at index 0. If all are, then the transitions have one of them, the number of
bytes of abbreviations is not negative, and the indices of the first type and of those
that a time selects are among the bytes that are there. -/
structure Sound (b : List UInt8) : Prop where
  hasTransitions : HasTransitions b
  typecnt : 1 ≤ typecnt b
  first : typesBegin b + 6 ≤ b.length
  truncated : b.length < typesEnd b → abbrind b 0 = 0
  indices : typesEnd b ≤ b.length → ∀ i ∈ indices b, i < TimeZone.typecnt b
  charcnt : typesEnd b ≤ b.length → 0 ≤ charcnt b
  abbrind_first : typesEnd b ≤ b.length → abbrind b 0 ≤ (abbreviation b).length
  abbrind : typesEnd b ≤ b.length → ∀ t i k, selected (times b) t = some i →
    (TimeZone.indices b)[i]? = some k → abbrind b k ≤ (abbreviation b).length

/-- Constructing is safe, and so is what is asked of the time zone afterwards. -/
def Safe (gmtime : ℤ → Tm) (timegm : Tm → ℤ) (content : Option (List UInt8)) : Prop :=
  Yields (construct content) fun data_ => ∀ data, data_ = some data → Usable gmtime timegm data

/-- A file of UTC: no transitions, and one type. -/
def utcFile : List UInt8 :=
  text "TZif" ++ List.replicate 16 0 ++ List.replicate 12 0 ++ [0, 0, 0, 0] ++ [0, 0, 0, 1] ++
    [0, 0, 0, 4] ++ [0, 0, 0, 0, 0, 0] ++ text "UTC" ++ [0]

example : Sound utcFile where
  hasTransitions := ⟨by decide, by decide, by decide⟩
  typecnt := by decide
  first := by decide
  truncated := by decide
  indices := by decide
  charcnt := by decide
  abbrind_first := by decide
  abbrind := fun _ t i k h => by
    rw [show times utcFile = [] by decide] at h
    exact absurd h (by simp [selected])

end

end Muduo.TimeZone

import Muduo.Assertion
import Muduo.Library.OrderedSet
import Muduo.Library.PartialMap
import Mathlib.Data.Prod.Lex

/-!
# TimerQueue

`net/TimerQueue.cc`, `net/Timer.h`, `net/TimerId.h` and what they use of
`base/Timestamp.h`. Besides its members a timer queue carries the `Timer` objects by
their addresses and the kernel's timerfd. `handleRead` is cut at its calls of the
callbacks, which may themselves add and cancel timers.
-/
namespace Muduo

/-- Microseconds since the epoch. -/
abbrev Timestamp := ℤ

namespace Timestamp

def invalid : Timestamp := 0

def valid (t : Timestamp) : Prop := 0 < t

instance (t : Timestamp) : Decidable t.valid := inferInstanceAs (Decidable (_ < _))

def kMicroSecondsPerSecond : ℤ := 1000000

/-- `static_cast<int64_t>(x)` -/
def truncate (x : ℚ) : ℤ := x.num.tdiv x.den

/-- `seconds` is a `double` in the source, and exact here. -/
def addTime (t : Timestamp) (seconds : ℚ) : Timestamp :=
  t + truncate (seconds * kMicroSecondsPerSecond)

theorem truncate_nonneg {x : ℚ} (h : 0 ≤ x) : 0 ≤ truncate x :=
  Int.tdiv_nonneg (Rat.num_nonneg.mpr h) (Int.natCast_nonneg _)

theorem le_addTime (t : Timestamp) {seconds : ℚ} (h : 0 ≤ seconds) : t ≤ addTime t seconds := by
  have hnonneg : 0 ≤ seconds * kMicroSecondsPerSecond := by
    simp only [kMicroSecondsPerSecond]
    positivity
  exact le_add_of_nonneg_right (truncate_nonneg hnonneg)

end Timestamp

/-- A `Timer*`. -/
abbrev Address := ℕ

/-- `UINTPTR_MAX` -/
def uintptrMax : Address := 2 ^ 64 - 1

structure Timer where
  expiration : Timestamp
  interval : ℚ
  sequence : ℕ

namespace Timer

/-- `repeat_` -/
def Repeats (timer : Timer) : Prop := 0 < timer.interval

instance (timer : Timer) : Decidable timer.Repeats := inferInstanceAs (Decidable (_ < _))

def restart (timer : Timer) (now : Timestamp) : Timer :=
  { timer with
    expiration := if timer.Repeats then Timestamp.addTime now timer.interval else Timestamp.invalid }

end Timer

abbrev Entry := Timestamp ×ₗ Address

abbrev Entry.when (e : Entry) : Timestamp := (ofLex e).1

abbrev Entry.timer (e : Entry) : Address := (ofLex e).2

theorem Entry.when_le {e e' : Entry} (h : e ≤ e') : e.when ≤ e'.when := by
  obtain hlt | ⟨heq, _⟩ := Prod.Lex.le_iff.mp h
  · exact le_of_lt hlt
  · exact le_of_eq heq

abbrev ActiveTimer := Address ×ₗ ℕ

abbrev ActiveTimer.timer (id : ActiveTimer) : Address := (ofLex id).1

abbrev ActiveTimer.sequence (id : ActiveTimer) : ℕ := (ofLex id).2

/-- `timer_` and `sequence_` -/
abbrev TimerId := ActiveTimer

/-- `TimerId()` -/
def TimerId.null : TimerId := toLex (0, 0)

/-- `struct timespec` -/
structure Timespec where
  sec : ℤ
  nsec : ℤ
  deriving DecidableEq

namespace Timespec

/-- `timerfd_settime` takes no other value. -/
def Valid (ts : Timespec) : Prop := 0 ≤ ts.sec ∧ 0 ≤ ts.nsec ∧ ts.nsec < 1000000000

instance (ts : Timespec) : Decidable ts.Valid := inferInstanceAs (Decidable (_ ∧ _ ∧ _))

def nanoseconds (ts : Timespec) : ℤ := ts.sec * 1000000000 + ts.nsec

end Timespec

/-- A `timerfd_settime`: the wall clock at that moment and the relative timeout. -/
structure Arming where
  clock : Timestamp
  timeout : Timespec

/-- The kernel's timerfd. -/
structure Timerfd where
  readable : Bool
  armed : Option Arming

def howMuchTimeFromNow (expiration now : Timestamp) : Timespec :=
  let microseconds := if expiration - now < 100 then 100 else expiration - now
  { sec := microseconds.tdiv Timestamp.kMicroSecondsPerSecond
    nsec := microseconds.tmod Timestamp.kMicroSecondsPerSecond * 1000 }

theorem max_eq_ite (d : ℤ) : (if d < 100 then 100 else d) = max d 100 := by
  split_ifs
  · omega
  · omega

section
variable (expiration now : Timestamp)

theorem howMuchTimeFromNow_eq : howMuchTimeFromNow expiration now =
    ⟨(max (expiration - now) 100).tdiv 1000000, (max (expiration - now) 100).tmod 1000000 * 1000⟩ := by
  rw [← max_eq_ite (expiration - now)]
  rfl

theorem howMuchTimeFromNow_valid : (howMuchTimeFromNow expiration now).Valid := by
  rw [howMuchTimeFromNow_eq]
  have hle : (100 : ℤ) ≤ max (expiration - now) 100 := le_max_right _ _
  generalize max (expiration - now) 100 = d at hle
  have hpos : (0 : ℤ) ≤ d := le_trans (by decide) hle
  have hdiv := Int.tdiv_nonneg hpos (show (0 : ℤ) ≤ 1000000 by decide)
  have hmod := Int.tmod_nonneg 1000000 hpos
  have hlt := Int.tmod_lt_of_pos d (show (0 : ℤ) < 1000000 by decide)
  refine ⟨hdiv, ?_, ?_⟩
  · change 0 ≤ d.tmod 1000000 * 1000
    omega
  · change d.tmod 1000000 * 1000 < 1000000000
    omega

/-- The timeout is what is left, but never less than 100 microseconds. -/
theorem nanoseconds_howMuchTimeFromNow :
    (howMuchTimeFromNow expiration now).nanoseconds = max (expiration - now) 100 * 1000 := by
  rw [howMuchTimeFromNow_eq]
  generalize max (expiration - now) 100 = d
  have hsplit := Int.tmod_add_mul_tdiv d 1000000
  simp only [Timespec.nanoseconds]
  omega

end

namespace Timerfd

/-- `readTimerfd` -/
def read (f : Timerfd) : Timerfd := { f with readable := false }

/-- `timerfd_settime` takes back an expiration that has not been read; a zero timeout disarms. -/
def settime (f : Timerfd) (clock : Timestamp) (newValue : Timespec) : Timerfd :=
  if newValue.Valid then
    { readable := false
      armed := if newValue.nanoseconds = 0 then none else some ⟨clock, newValue⟩ }
  else f

def resetTimerfd (f : Timerfd) (expiration clock : Timestamp) : Timerfd :=
  f.settime clock (howMuchTimeFromNow expiration clock)

theorem resetTimerfd_eq (f : Timerfd) (expiration clock : Timestamp) :
    f.resetTimerfd expiration clock =
      ⟨false, some ⟨clock, howMuchTimeFromNow expiration clock⟩⟩ := by
  have hnonzero : (howMuchTimeFromNow expiration clock).nanoseconds ≠ 0 := by
    have hle : (100 : ℤ) ≤ max (expiration - clock) 100 := le_max_right _ _
    rw [nanoseconds_howMuchTimeFromNow]
    omega
  simp [resetTimerfd, settime, howMuchTimeFromNow_valid, hnonzero]

/-- The armed timer has expired. -/
def expired : Timerfd := ⟨true, none⟩

end Timerfd

structure TimerQueue where
  timerfd : Timerfd
  timers : OrderedSet Entry
  activeTimers : OrderedSet ActiveTimer
  callingExpiredTimers : Bool
  cancelingTimers : OrderedSet ActiveTimer
  /-- the `Timer` objects -/
  heap : Address → Option Timer
  /-- `Timer::s_numCreated_` -/
  numCreated : ℕ

namespace TimerQueue

/-- `TimerQueue(loop)` -/
def new : TimerQueue where
  timerfd := ⟨false, none⟩
  timers := .empty
  activeTimers := .empty
  callingExpiredTimers := false
  cancelingTimers := .empty
  heap _ := none
  numCreated := 0

variable (q : TimerQueue)

/-- `*timer` -/
def deref (timer : Address) : Checked Timer := match q.heap timer with
  | some t => .ok t
  | none => .error .timerDeleted

/-- `new Timer(cb, when, interval)` at the address that the allocator returns. -/
def newTimer (timer : Address) (expiration : Timestamp) (interval : ℚ) : TimerQueue :=
  { q with
    heap := Function.update q.heap timer (some ⟨expiration, interval, q.numCreated + 1⟩)
    numCreated := q.numCreated + 1 }

/-- `delete timer` -/
def delete (timer : Address) : TimerQueue := { q with heap := Function.update q.heap timer none }

/-- `assert(timers_.size() == activeTimers_.size())` -/
def assertSizes : Checked Unit := assert (q.timers.size = q.activeTimers.size) .timerSizes

/-- Whether a timer that expires at `expiration` will be the first of `timers_`. -/
def earliestChanged (expiration : Timestamp) : Bool := match q.timers.first with
  | some e => decide (expiration < e.when)
  | none => true

def insert (timer : Address) : Checked (Bool × TimerQueue) := do
  q.assertSizes
  let t ← q.deref timer
  let earliestChanged := q.earliestChanged t.expiration
  let entry : Entry := toLex (t.expiration, timer)
  let active : ActiveTimer := toLex (timer, t.sequence)
  assert (entry ∉ q.timers) .timerInsert
  assert (active ∉ q.activeTimers) .timerInsert
  let q := { q with timers := q.timers.insert entry, activeTimers := q.activeTimers.insert active }
  q.assertSizes
  return (earliestChanged, q)

def addTimerInLoop (timer : Address) (clock : Timestamp) : Checked TimerQueue := do
  let t ← q.deref timer
  let (earliestChanged, q) ← q.insert timer
  return if earliestChanged then
    { q with timerfd := q.timerfd.resetTimerfd t.expiration clock } else q

def cancelInLoop (timerId : TimerId) : Checked TimerQueue := do
  q.assertSizes
  if timerId ∈ q.activeTimers then
    let t ← q.deref timerId.timer
    let entry : Entry := toLex (t.expiration, timerId.timer)
    assert (entry ∈ q.timers) .timerErase
    let q := { q with
      timers := q.timers.erase entry
      activeTimers := q.activeTimers.erase timerId }.delete timerId.timer
    q.assertSizes
    return q
  else
    return if q.callingExpiredTimers then
      { q with cancelingTimers := q.cancelingTimers.insert timerId } else q

/-- The loop of `getExpired`. -/
def eraseActive : TimerQueue → List Entry → Checked TimerQueue
  | q, [] => .ok q
  | q, e :: rest => do
    let t ← q.deref e.timer
    let active : ActiveTimer := toLex (e.timer, t.sequence)
    assert (active ∈ q.activeTimers) .timerErase
    eraseActive { q with activeTimers := q.activeTimers.erase active } rest

def getExpired (now : Timestamp) : Checked (List Entry × TimerQueue) := do
  q.assertSizes
  let sentry : Entry := toLex (now, uintptrMax)
  let expired := q.timers.below sentry
  let timers := q.timers.eraseBelow sentry
  assert (∀ e ∈ timers.first, now < Entry.when e) .timerLowerBound
  let q ← { q with timers }.eraseActive expired
  q.assertSizes
  return (expired, q)

/-- `handleRead` up to the first callback. -/
def beginRead (now : Timestamp) : Checked (List Entry × TimerQueue) := do
  let (expired, q) ← { q with timerfd := q.timerfd.read }.getExpired now
  return (expired, { q with callingExpiredTimers := true, cancelingTimers := .empty })

/-- The test of `reset`. -/
def Kept (timer : Address) (t : Timer) : Prop :=
  t.Repeats ∧ toLex (timer, t.sequence) ∉ q.cancelingTimers

instance (timer : Address) (t : Timer) : Decidable (q.Kept timer t) :=
  inferInstanceAs (Decidable (_ ∧ _))

/-- The loop of `reset`. -/
def resetEntries (now : Timestamp) : TimerQueue → List Entry → Checked TimerQueue
  | q, [] => .ok q
  | q, e :: rest => do
    let t ← q.deref e.timer
    if q.Kept e.timer t then
      let (_, q) ← { q with
        heap := Function.update q.heap e.timer (some (t.restart now)) }.insert e.timer
      resetEntries now q rest
    else
      resetEntries now (q.delete e.timer) rest

/-- The end of `reset`. -/
def rearm (clock : Timestamp) : Checked TimerQueue := match q.timers.first with
  | none => .ok q
  | some e => do
    let t ← q.deref e.timer
    return if t.expiration.valid then
      { q with timerfd := q.timerfd.resetTimerfd t.expiration clock } else q

def reset (expired : List Entry) (now clock : Timestamp) : Checked TimerQueue := do
  let q ← q.resetEntries now expired
  q.rearm clock

/-- `handleRead` after the last callback. -/
def endRead (expired : List Entry) (now clock : Timestamp) : Checked TimerQueue :=
  { q with callingExpiredTimers := false }.reset expired now clock

/-- The `Timer` of an identifier has not been deleted. -/
def Alive (id : TimerId) (t : Timer) : Prop :=
  q.heap id.timer = some t ∧ toLex (id.timer, t.sequence) = id

/-- The two sets hold the same timers, all alive, and `batch` is a list of others. -/
structure Good (batch : List Entry) : Prop where
  sizes : q.timers.size = q.activeTimers.size
  entry : ∀ e ∈ q.timers, ∃ t, q.heap e.timer = some t ∧ t.expiration = e.when ∧
    toLex (e.timer, t.sequence) ∈ q.activeTimers
  active : ∀ id ∈ q.activeTimers, ∃ t, q.Alive id t ∧ toLex (t.expiration, id.timer) ∈ q.timers
  held : ∀ e ∈ batch, ∃ t, q.heap e.timer = some t ∧ t.expiration = e.when
  apart : ∀ e ∈ batch, ∀ e' ∈ q.timers, e'.timer ≠ e.timer
  nodup : batch.Pairwise fun e e' => e.timer ≠ e'.timer
  address : ∀ a t, q.heap a = some t → a < uintptrMax
  sequence : ∀ a t, q.heap a = some t → t.sequence ≤ q.numCreated

theorem good_new : new.Good [] where
  sizes := rfl
  entry e he := absurd he (OrderedSet.not_mem_empty e)
  active id hid := absurd hid (OrderedSet.not_mem_empty id)
  held e he := absurd he List.not_mem_nil
  apart e he := absurd he List.not_mem_nil
  nodup := .nil
  address a t ht := by cases ht
  sequence a t ht := by cases ht

section Operations
variable {q} {batch : List Entry} {a : Address} {t : Timer}

theorem deref_eq (h : q.heap a = some t) : q.deref a = .ok t := by simp [deref, h]

theorem Good.mem_active (h : q.Good batch) {e : Entry} (he : e ∈ q.timers)
    (ht : q.heap e.timer = some t) : toLex (e.timer, t.sequence) ∈ q.activeTimers := by
  obtain ⟨u, hu, _, hactive⟩ := h.entry e he
  rwa [Option.some.inj (ht.symm.trans hu)]

theorem Good.eq_of_timer (h : q.Good batch) {e e' : Entry} (he : e ∈ q.timers) (he' : e' ∈ q.timers)
    (heq : e.timer = e'.timer) : e = e' := by
  obtain ⟨t, ht, hwhen, _⟩ := h.entry e he
  obtain ⟨u, hu, hwhen', _⟩ := h.entry e' he'
  rw [heq, hu] at ht
  obtain rfl := Option.some.inj ht
  exact Prod.ext (hwhen.symm.trans hwhen') heq

/-- What `newTimer` does to the queue does not reach the timers that are there. -/
theorem Good.newTimer (h : q.Good batch) (ha : q.heap a = none) (hmax : a < uintptrMax)
    (expiration : Timestamp) (interval : ℚ) : (q.newTimer a expiration interval).Good batch := by
  have hother : ∀ b u, q.heap b = some u → (q.newTimer a expiration interval).heap b = some u := by
    intro b u hu
    have hne : b ≠ a := by
      rintro rfl
      rw [ha] at hu
      cases hu
    simpa [TimerQueue.newTimer, hne] using hu
  have hback : ∀ b u, (q.newTimer a expiration interval).heap b = some u →
      b = a ∧ u.sequence = q.numCreated + 1 ∨ q.heap b = some u := by
    intro b u hu
    obtain ⟨rfl, rfl⟩ | ⟨-, hold⟩ := PartialMap.of_insert hu
    · exact .inl ⟨rfl, rfl⟩
    · exact .inr hold
  refine ⟨h.sizes, fun e he => ?_, fun id hid => ?_, fun e he => ?_, h.apart, h.nodup,
    fun b u hu => ?_, fun b u hu => ?_⟩
  · obtain ⟨u, hu, hrest⟩ := h.entry e he
    exact ⟨u, hother _ _ hu, hrest⟩
  · obtain ⟨u, ⟨hu, hid'⟩, hrest⟩ := h.active id hid
    exact ⟨u, ⟨hother _ _ hu, hid'⟩, hrest⟩
  · obtain ⟨u, hu, hrest⟩ := h.held e he
    exact ⟨u, hother _ _ hu, hrest⟩
  · obtain ⟨rfl, _⟩ | hold := hback b u hu
    · exact hmax
    · exact h.address b u hold
  · change u.sequence ≤ q.numCreated + 1
    obtain ⟨_, hseq⟩ | hold := hback b u hu
    · omega
    · have hle := h.sequence b u hold
      omega

/-- The queue with the timer at `a` in both sets. -/
def inserted (q : TimerQueue) (a : Address) (t : Timer) : TimerQueue :=
  { q with
    timers := q.timers.insert (toLex (t.expiration, a))
    activeTimers := q.activeTimers.insert (toLex (a, t.sequence)) }

theorem Good.notMem_active (h : q.Good batch) (ha : ∀ e ∈ q.timers, e.timer ≠ a) (n : ℕ) :
    toLex (a, n) ∉ q.activeTimers := by
  intro hmem
  obtain ⟨_, _, hentry⟩ := h.active _ hmem
  exact ha _ hentry rfl

theorem Good.sizes_insert (h : q.Good batch) (ha : ∀ e ∈ q.timers, e.timer ≠ a) :
    (q.timers.insert (toLex (t.expiration, a))).size =
      (q.activeTimers.insert (toLex (a, t.sequence))).size := by
  have hentry : toLex (t.expiration, a) ∉ q.timers := fun hmem => ha _ hmem rfl
  have hactive := h.notMem_active ha t.sequence
  rw [OrderedSet.size_insert hentry, OrderedSet.size_insert hactive, h.sizes]

theorem insert_eq (h : q.Good batch) (ht : q.heap a = some t) (ha : ∀ e ∈ q.timers, e.timer ≠ a) :
    q.insert a = .ok (q.earliestChanged t.expiration, q.inserted a t) := by
  have hentry : toLex (t.expiration, a) ∉ q.timers := fun hmem => ha _ hmem rfl
  have hactive := h.notMem_active ha t.sequence
  have hsizes : (q.timers.insert (toLex (t.expiration, a))).size =
      (q.activeTimers.insert (toLex (a, t.sequence))).size := h.sizes_insert ha
  simp only [insert, assertSizes, assert_pos h.sizes, deref_eq ht, assert_pos hentry,
    assert_pos hactive, assert_pos hsizes, ok_bind, pure_eq_ok]
  rfl

theorem Good.inserted (h : q.Good batch) (ht : q.heap a = some t)
    (ha : ∀ e ∈ q.timers, e.timer ≠ a) (hbatch : ∀ e ∈ batch, e.timer ≠ a) :
    (q.inserted a t).Good batch where
  sizes := h.sizes_insert ha
  entry e he := by
    obtain rfl | hold := OrderedSet.mem_insert.mp he
    · exact ⟨t, ht, rfl, OrderedSet.mem_insert.mpr (.inl rfl)⟩
    · obtain ⟨u, hu, hwhen, hactive⟩ := h.entry e hold
      exact ⟨u, hu, hwhen, OrderedSet.mem_insert.mpr (.inr hactive)⟩
  active id hid := by
    obtain rfl | hold := OrderedSet.mem_insert.mp hid
    · exact ⟨t, ⟨ht, rfl⟩, OrderedSet.mem_insert.mpr (.inl rfl)⟩
    · obtain ⟨u, halive, hentry⟩ := h.active id hold
      exact ⟨u, halive, OrderedSet.mem_insert.mpr (.inr hentry)⟩
  held := h.held
  apart e he e' he' := by
    obtain rfl | hold := OrderedSet.mem_insert.mp he'
    · exact fun heq => hbatch e he heq.symm
    · exact h.apart e he e' hold
  nodup := h.nodup
  address := h.address
  sequence := h.sequence

/-- The first timer of the batch leaves it, changed or deleted. -/
theorem Good.update_head {e : Entry} {rest : List Entry} (h : q.Good (e :: rest)) (o : Option Timer)
    (ho : ∀ t, o = some t → t.sequence ≤ q.numCreated) :
    { q with heap := Function.update q.heap e.timer o }.Good rest := by
  have hother : ∀ {a t}, a ≠ e.timer → q.heap a = some t →
      Function.update q.heap e.timer o a = some t := by
    intro a t hne ht
    rw [Function.update_of_ne hne, ht]
  refine ⟨h.sizes, fun e' he' => ?_, fun id hid => ?_, fun e' he' => ?_,
    fun e' he' => h.apart e' (List.mem_cons_of_mem _ he'), (List.pairwise_cons.mp h.nodup).2,
    fun a t ht => ?_, fun a t ht => ?_⟩
  · obtain ⟨t, ht, hwhen, hactive⟩ := h.entry e' he'
    exact ⟨t, hother (h.apart e List.mem_cons_self e' he') ht, hwhen, hactive⟩
  · obtain ⟨t, ⟨ht, hid'⟩, hentry⟩ := h.active id hid
    exact ⟨t, ⟨hother (h.apart e List.mem_cons_self _ hentry) ht, hid'⟩, hentry⟩
  · obtain ⟨t, ht, hwhen⟩ := h.held e' (List.mem_cons_of_mem _ he')
    exact ⟨t, hother ((List.pairwise_cons.mp h.nodup).1 e' he').symm ht, hwhen⟩
  · obtain ⟨rfl, _⟩ | ⟨_, hold⟩ := PartialMap.of_update ht
    · obtain ⟨u, hu, _⟩ := h.held e List.mem_cons_self
      exact h.address _ u hu
    · exact h.address a t hold
  · obtain ⟨_, hnew⟩ | ⟨_, hold⟩ := PartialMap.of_update ht
    · exact ho t hnew
    · exact h.sequence a t hold

theorem heap_delete {b : Address} {u : Timer} :
    (q.delete a).heap b = some u ↔ b ≠ a ∧ q.heap b = some u := by
  by_cases hba : b = a
  · simp [delete, hba]
  · simp [delete, hba]

/-- The queue without the timer of `id`. -/
def removed (q : TimerQueue) (id : TimerId) (t : Timer) : TimerQueue :=
  { q with
    timers := q.timers.erase (toLex (t.expiration, id.timer))
    activeTimers := q.activeTimers.erase id }.delete id.timer

theorem Good.sizes_erase (h : q.Good batch) {id : TimerId} (hid : id ∈ q.activeTimers)
    (hentry : toLex (t.expiration, id.timer) ∈ q.timers) :
    (q.timers.erase (toLex (t.expiration, id.timer))).size = (q.activeTimers.erase id).size := by
  have htimers := OrderedSet.size_erase hentry
  have hactive := OrderedSet.size_erase hid
  have hsizes := h.sizes
  omega

theorem cancelInLoop_eq (h : q.Good batch) {id : TimerId} (hid : id ∈ q.activeTimers)
    (ht : q.Alive id t) : q.cancelInLoop id = .ok (q.removed id t) := by
  obtain ⟨u, ⟨hu, _⟩, hentry⟩ := h.active id hid
  obtain rfl : t = u := Option.some.inj (ht.1.symm.trans hu)
  have hsizes : (q.removed id t).timers.size = (q.removed id t).activeTimers.size :=
    h.sizes_erase hid hentry
  have hend : ((q.removed id t).assertSizes >>= fun _ => pure (q.removed id t)) =
      .ok (q.removed id t) := by
    rw [assertSizes, assert_pos hsizes]
    rfl
  simp only [cancelInLoop, assertSizes, assert_pos h.sizes, ok_bind, if_pos hid, deref_eq ht.1,
    assert_pos hentry]
  exact hend

theorem cancelInLoop_eq_of_notMem (h : q.Good batch) {id : TimerId} (hid : id ∉ q.activeTimers) :
    q.cancelInLoop id = .ok (if q.callingExpiredTimers then
      { q with cancelingTimers := q.cancelingTimers.insert id } else q) := by
  simp [cancelInLoop, assertSizes, assert_pos h.sizes, hid]

theorem Good.removed (h : q.Good batch) {id : TimerId} (hid : id ∈ q.activeTimers)
    (ht : q.Alive id t) : (q.removed id t).Good batch := by
  obtain ⟨u, ⟨hu, _⟩, hentry⟩ := h.active id hid
  obtain rfl : t = u := Option.some.inj (ht.1.symm.trans hu)
  refine ⟨h.sizes_erase hid hentry, fun e he => ?_, fun id' hid' => ?_, fun e he => ?_,
    fun e he e' he' => ?_, h.nodup, fun b u hu => ?_, fun b u hu => ?_⟩
  · obtain ⟨hne, he⟩ := OrderedSet.mem_erase.mp he
    obtain ⟨u, hu, hwhen, hactive⟩ := h.entry e he
    have htimer : e.timer ≠ id.timer := fun heq => hne (h.eq_of_timer he hentry heq)
    refine ⟨u, heap_delete.mpr ⟨htimer, hu⟩, hwhen, OrderedSet.mem_erase.mpr ⟨?_, hactive⟩⟩
    rintro rfl
    exact htimer rfl
  · obtain ⟨hne, hid'⟩ := OrderedSet.mem_erase.mp hid'
    obtain ⟨u, ⟨hu, hseq⟩, hentry'⟩ := h.active id' hid'
    have htimer : id'.timer ≠ id.timer := by
      intro heq
      rw [heq, ht.1] at hu
      obtain rfl := Option.some.inj hu
      rw [heq, ht.2] at hseq
      exact hne hseq.symm
    refine ⟨u, ⟨heap_delete.mpr ⟨htimer, hu⟩, hseq⟩, OrderedSet.mem_erase.mpr ⟨?_, hentry'⟩⟩
    intro heq
    exact htimer (congrArg Entry.timer heq)
  · obtain ⟨u, hu, hwhen⟩ := h.held e he
    have hne := h.apart e he _ hentry
    exact ⟨u, heap_delete.mpr ⟨hne.symm, hu⟩, hwhen⟩
  · exact h.apart e he e' (OrderedSet.mem_erase.mp he').2
  · exact h.address b u (heap_delete.mp hu).2
  · exact h.sequence b u (heap_delete.mp hu).2

/-- The timer of an entry of the batch leaves `activeTimers_`. -/
theorem eraseActive_spec {l : List Entry} (hl : l.Pairwise fun e e' => e.timer ≠ e'.timer)
    (hactive : ∀ e ∈ l, ∃ t, q.heap e.timer = some t ∧ toLex (e.timer, t.sequence) ∈ q.activeTimers) :
    ∃ active, q.eraseActive l = .ok { q with activeTimers := active } ∧
      active.size + l.length = q.activeTimers.size ∧
      ∀ id, id ∈ active ↔ id ∈ q.activeTimers ∧
        ¬∃ e ∈ l, ∃ t, q.heap e.timer = some t ∧ id = toLex (e.timer, t.sequence) := by
  induction l generalizing q with
  | nil => exact ⟨q.activeTimers, rfl, rfl, fun id => by simp⟩
  | cons e rest ih =>
    obtain ⟨hhead, htail⟩ := List.pairwise_cons.mp hl
    obtain ⟨t, ht, hmem⟩ := hactive e List.mem_cons_self
    have hrest : ∀ e' ∈ rest, ∃ u, q.heap e'.timer = some u ∧
        toLex (e'.timer, u.sequence) ∈ q.activeTimers.erase (toLex (e.timer, t.sequence)) := by
      intro e' he'
      obtain ⟨u, hu, hmem'⟩ := hactive e' (List.mem_cons_of_mem _ he')
      refine ⟨u, hu, OrderedSet.mem_erase.mpr ⟨fun heq => ?_, hmem'⟩⟩
      exact hhead e' he' (congrArg ActiveTimer.timer heq).symm
    obtain ⟨active, heq, hsize, hiff⟩ :=
      ih (q := { q with activeTimers := q.activeTimers.erase (toLex (e.timer, t.sequence)) }) htail hrest
    refine ⟨active, ?_, ?_, fun id => ?_⟩
    · simp only [eraseActive, deref_eq ht, assert_pos hmem, ok_bind]
      exact heq
    · have herase := OrderedSet.size_erase hmem
      simp only [List.length_cons]
      change active.size + rest.length = (q.activeTimers.erase _).size at hsize
      omega
    · rw [hiff, OrderedSet.mem_erase]
      constructor
      · rintro ⟨⟨hne, hid⟩, hnot⟩
        refine ⟨hid, ?_⟩
        rintro ⟨e', he', u, hu, rfl⟩
        obtain rfl | he' := List.mem_cons.mp he'
        · rw [ht] at hu
          obtain rfl := Option.some.inj hu
          exact hne rfl
        · exact hnot ⟨e', he', u, hu, rfl⟩
      · rintro ⟨hid, hnot⟩
        refine ⟨⟨?_, hid⟩, ?_⟩
        · rintro rfl
          exact hnot ⟨e, List.mem_cons_self, t, ht, rfl⟩
        · rintro ⟨e', he', u, hu, rfl⟩
          exact hnot ⟨e', List.mem_cons_of_mem _ he', u, hu, rfl⟩

theorem lt_sentry {e : Entry} {now : Timestamp} (h : e.timer < uintptrMax) :
    e < toLex (now, uintptrMax) ↔ e.when ≤ now := by
  rw [Prod.Lex.lt_iff]
  constructor
  · rintro (hlt | ⟨heq, _⟩)
    · exact le_of_lt hlt
    · exact le_of_eq heq
  · intro hle
    obtain hlt | heq := lt_or_eq_of_le hle
    · exact .inl hlt
    · exact .inr ⟨heq, h⟩

/-- The queue `q'` is `q` with the expired timers taken out as the batch. -/
structure Expired (q : TimerQueue) (now : Timestamp) (batch : List Entry) (q' : TimerQueue) : Prop where
  good : q'.Good batch
  heap : q'.heap = q.heap
  numCreated : q'.numCreated = q.numCreated
  timerfd : q'.timerfd = q.timerfd.read
  cancelingTimers : q'.cancelingTimers = .empty
  callingExpiredTimers : q'.callingExpiredTimers = true
  timers : ∀ e, e ∈ q'.timers ↔ e ∈ q.timers ∧ now < e.when
  mem : ∀ e, e ∈ batch ↔ e ∈ q.timers ∧ e.when ≤ now
  sorted : batch.Pairwise (· < ·)

theorem beginRead_spec (h : q.Good []) (now : Timestamp) :
    ∃ batch q', q.beginRead now = .ok (batch, q') ∧ Expired q now batch q' := by
  have haddress : ∀ e ∈ q.timers, e.timer < uintptrMax := by
    intro e he
    obtain ⟨t, ht, _⟩ := h.entry e he
    exact h.address _ t ht
  have htimers : ∀ e, e ∈ q.timers.eraseBelow (toLex (now, uintptrMax)) ↔
      e ∈ q.timers ∧ now < e.when := by
    intro e
    rw [OrderedSet.mem_eraseBelow]
    apply and_congr_right
    intro he
    rw [← not_lt, lt_sentry (haddress e he), not_le]
  have hbatch : ∀ e, e ∈ q.timers.below (toLex (now, uintptrMax)) ↔ e ∈ q.timers ∧ e.when ≤ now := by
    intro e
    rw [OrderedSet.mem_below]
    apply and_congr_right
    intro he
    exact lt_sentry (haddress e he)
  generalize hb : q.timers.below (toLex (now, uintptrMax)) = batch at hbatch
  have hsorted : batch.Pairwise (· < ·) := hb ▸ OrderedSet.sorted_below _ _
  have hnodup : batch.Pairwise fun e e' => e.timer ≠ e'.timer := by
    refine hsorted.imp_of_mem fun he he' hlt heq => ?_
    exact hlt.ne (h.eq_of_timer ((hbatch _).mp he).1 ((hbatch _).mp he').1 heq)
  have hactive : ∀ e ∈ batch, ∃ t, q.heap e.timer = some t ∧
      toLex (e.timer, t.sequence) ∈ q.activeTimers := by
    intro e he
    obtain ⟨t, ht, _, hmem⟩ := h.entry e ((hbatch e).mp he).1
    exact ⟨t, ht, hmem⟩
  obtain ⟨active, heq, hsize, hiff⟩ := eraseActive_spec
    (q := { q with timerfd := q.timerfd.read, timers := q.timers.eraseBelow (toLex (now, uintptrMax)) })
    hnodup hactive
  change active.size + batch.length = q.activeTimers.size at hsize
  have hsizes : (q.timers.eraseBelow (toLex (now, uintptrMax))).size = active.size := by
    have hbelow := OrderedSet.size_below q.timers (toLex (now, uintptrMax))
    rw [hb] at hbelow
    have hq := h.sizes
    omega
  have hbound : ∀ e ∈ (q.timers.eraseBelow (toLex (now, uintptrMax))).first, now < Entry.when e := by
    intro e he
    exact ((htimers e).mp (OrderedSet.mem_of_first he)).2
  refine ⟨batch, { q with
    timerfd := q.timerfd.read
    timers := q.timers.eraseBelow (toLex (now, uintptrMax))
    activeTimers := active
    callingExpiredTimers := true
    cancelingTimers := .empty }, ?_, ?_⟩
  · simp only [beginRead, getExpired, assertSizes, assert_pos h.sizes, ok_bind, assert_pos hbound, hb,
      heq, assert_pos hsizes, pure_eq_ok]
  · refine ⟨⟨hsizes, fun e he => ?_, fun id hid => ?_, fun e he => ?_, fun e he e' he' htimer => ?_, hnodup,
      h.address, h.sequence⟩, rfl, rfl, rfl, rfl, rfl, htimers, hbatch, hsorted⟩
    · obtain ⟨hold, hlt⟩ := (htimers e).mp he
      obtain ⟨t, ht, hwhen, hmem⟩ := h.entry e hold
      refine ⟨t, ht, hwhen, (hiff _).mpr ⟨hmem, ?_⟩⟩
      rintro ⟨e', he', _, _, hid⟩
      obtain ⟨hold', hle⟩ := (hbatch e').mp he'
      have heq' : e = e' := h.eq_of_timer hold hold' (congrArg ActiveTimer.timer hid)
      rw [heq'] at hlt
      exact absurd hle (not_le.mpr hlt)
    · obtain ⟨hold, hnot⟩ := (hiff id).mp hid
      obtain ⟨t, halive, hentry⟩ := h.active id hold
      refine ⟨t, halive, (htimers _).mpr ⟨hentry, ?_⟩⟩
      by_contra hlt
      exact hnot ⟨_, (hbatch _).mpr ⟨hentry, not_lt.mp hlt⟩, t, halive.1, halive.2.symm⟩
    · obtain ⟨t, ht, hwhen, _⟩ := h.entry e ((hbatch e).mp he).1
      exact ⟨t, ht, hwhen⟩
    · obtain ⟨hold, hlt⟩ := (htimers e').mp he'
      obtain ⟨hold', hle⟩ := (hbatch e).mp he
      rw [h.eq_of_timer hold hold' htimer] at hlt
      exact absurd hle (not_le.mpr hlt)

theorem addTimerInLoop_eq (h : q.Good batch) (ht : q.heap a = some t)
    (ha : ∀ e ∈ q.timers, e.timer ≠ a) (clock : Timestamp) :
    q.addTimerInLoop a clock = .ok { q.inserted a t with
      timerfd := if q.earliestChanged t.expiration then q.timerfd.resetTimerfd t.expiration clock
        else q.timerfd } := by
  simp only [addTimerInLoop, deref_eq ht, insert_eq h ht ha, ok_bind, pure_eq_ok]
  split_ifs
  · rfl
  · rfl

/-- `addTimer` in the loop thread. -/
theorem addTimer_eq (h : q.Good batch) (ha : q.heap a = none) (hmax : a < uintptrMax)
    (expiration : Timestamp) (interval : ℚ) (clock : Timestamp) :
    (q.newTimer a expiration interval).addTimerInLoop a clock =
      .ok { (q.newTimer a expiration interval).inserted a ⟨expiration, interval, q.numCreated + 1⟩ with
        timerfd := if q.earliestChanged expiration then q.timerfd.resetTimerfd expiration clock
          else q.timerfd } := by
  have hnew := h.newTimer ha hmax expiration interval
  have ht : (q.newTimer a expiration interval).heap a =
      some ⟨expiration, interval, q.numCreated + 1⟩ := by simp [newTimer]
  have hfresh : ∀ e ∈ q.timers, e.timer ≠ a := by
    rintro e he rfl
    obtain ⟨t, ht, _⟩ := h.entry e he
    rw [ha] at ht
    cases ht
  exact addTimerInLoop_eq hnew ht hfresh clock

theorem Good.added (h : q.Good batch) (ha : q.heap a = none) (hmax : a < uintptrMax)
    (expiration : Timestamp) (interval : ℚ) :
    ((q.newTimer a expiration interval).inserted a ⟨expiration, interval, q.numCreated + 1⟩).Good batch := by
  have hfresh : ∀ (e : Entry) t, q.heap e.timer = some t → e.timer ≠ a := by
    rintro e t ht rfl
    rw [ha] at ht
    cases ht
  refine (h.newTimer ha hmax expiration interval).inserted (by simp [TimerQueue.newTimer])
    (fun e he => ?_) (fun e he => ?_)
  · obtain ⟨t, ht, _⟩ := h.entry e he
    exact hfresh e t ht
  · obtain ⟨t, ht, _⟩ := h.held e he
    exact hfresh e t ht

/-- The queue `q'` is `q` with the batch put back or deleted. -/
structure Reinserted (q : TimerQueue) (now : Timestamp) (batch : List Entry) (q' : TimerQueue) :
    Prop where
  good : q'.Good []
  timerfd : q'.timerfd = q.timerfd
  callingExpiredTimers : q'.callingExpiredTimers = q.callingExpiredTimers
  cancelingTimers : q'.cancelingTimers = q.cancelingTimers
  numCreated : q'.numCreated = q.numCreated
  timers : ∀ e, e ∈ q'.timers ↔ e ∈ q.timers ∨ ∃ e' ∈ batch, ∃ t, q.heap e'.timer = some t ∧
    q.Kept e'.timer t ∧ e = toLex ((t.restart now).expiration, e'.timer)
  other : ∀ a, (∀ e ∈ batch, e.timer ≠ a) → q'.heap a = q.heap a
  kept : ∀ e ∈ batch, ∀ t, q.heap e.timer = some t → q.Kept e.timer t →
    q'.heap e.timer = some (t.restart now)
  dropped : ∀ e ∈ batch, ∀ t, q.heap e.timer = some t → ¬q.Kept e.timer t → q'.heap e.timer = none

theorem Reinserted.nil (h : q.Good []) (now : Timestamp) : Reinserted q now [] q where
  good := h
  timerfd := rfl
  callingExpiredTimers := rfl
  cancelingTimers := rfl
  numCreated := rfl
  timers e := by simp
  other a _ := rfl
  kept e he := absurd he List.not_mem_nil
  dropped e he := absurd he List.not_mem_nil

/-- One timer is put back or deleted, then the others. -/
theorem Reinserted.cons {q₁ q' : TimerQueue} {now : Timestamp} {e : Entry} {rest : List Entry}
    (h : q.Good (e :: rest)) (ht : q.heap e.timer = some t) (hr : Reinserted q₁ now rest q')
    (hfd : q₁.timerfd = q.timerfd) (hcalling : q₁.callingExpiredTimers = q.callingExpiredTimers)
    (hnum : q₁.numCreated = q.numCreated) (hcanceling : q₁.cancelingTimers = q.cancelingTimers)
    (hother : ∀ a, a ≠ e.timer → q₁.heap a = q.heap a)
    (hself : q.Kept e.timer t → q₁.heap e.timer = some (t.restart now))
    (hdropped : ¬q.Kept e.timer t → q₁.heap e.timer = none)
    (htimers : ∀ e', e' ∈ q₁.timers ↔ e' ∈ q.timers ∨
      q.Kept e.timer t ∧ e' = toLex ((t.restart now).expiration, e.timer)) :
    Reinserted q now (e :: rest) q' := by
  obtain ⟨hhead, _⟩ := List.pairwise_cons.mp h.nodup
  have hrest : ∀ e' ∈ rest, q₁.heap e'.timer = q.heap e'.timer := by
    intro e' he'
    exact hother _ (hhead e' he').symm
  have hkept : ∀ a u, q₁.Kept a u ↔ q.Kept a u := by
    intro a u
    rw [Kept, hcanceling, Kept]
  have hlast : q'.heap e.timer = q₁.heap e.timer :=
    hr.other _ fun e' he' => (hhead e' he').symm
  refine ⟨hr.good, hr.timerfd.trans hfd, hr.callingExpiredTimers.trans hcalling,
    hr.cancelingTimers.trans hcanceling, hr.numCreated.trans hnum,
    fun e' => ?_, fun a ha => ?_, fun e' he' u hu hk => ?_, fun e' he' u hu hk => ?_⟩
  · rw [hr.timers, htimers]
    constructor
    · rintro ((hold | ⟨hk, rfl⟩) | ⟨e'', he'', u, hu, hk, rfl⟩)
      · exact .inl hold
      · exact .inr ⟨e, List.mem_cons_self, t, ht, hk, rfl⟩
      · rw [hrest e'' he''] at hu
        exact .inr ⟨e'', List.mem_cons_of_mem _ he'', u, hu, (hkept _ _).mp hk, rfl⟩
    · rintro (hold | ⟨e'', he'', u, hu, hk, rfl⟩)
      · exact .inl (.inl hold)
      · obtain rfl | he'' := List.mem_cons.mp he''
        · obtain rfl := Option.some.inj (ht.symm.trans hu)
          exact .inl (.inr ⟨hk, rfl⟩)
        · exact .inr ⟨e'', he'', u, (hrest e'' he'').trans hu, (hkept _ _).mpr hk, rfl⟩
  · have hne := ha e List.mem_cons_self
    rw [hr.other a fun e' he' => ha e' (List.mem_cons_of_mem _ he'), hother a hne.symm]
  · obtain rfl | he' := List.mem_cons.mp he'
    · obtain rfl := Option.some.inj (ht.symm.trans hu)
      rw [hlast, hself hk]
    · exact hr.kept e' he' u ((hrest e' he').trans hu) ((hkept _ _).mpr hk)
  · obtain rfl | he' := List.mem_cons.mp he'
    · obtain rfl := Option.some.inj (ht.symm.trans hu)
      rw [hlast, hdropped hk]
    · exact hr.dropped e' he' u ((hrest e' he').trans hu) fun hk' => hk ((hkept _ _).mp hk')

theorem resetEntries_spec (h : q.Good batch) (now : Timestamp) :
    ∃ q', q.resetEntries now batch = .ok q' ∧ Reinserted q now batch q' := by
  induction batch generalizing q with
  | nil => exact ⟨q, rfl, .nil h now⟩
  | cons e rest ih =>
    obtain ⟨t, ht, _⟩ := h.held e List.mem_cons_self
    have hseq := h.sequence _ t ht
    have hmem : ∀ a, a ≠ e.timer → ∀ o, Function.update q.heap e.timer o a = q.heap a :=
      fun a ha o => Function.update_of_ne ha o q.heap
    by_cases hk : q.Kept e.timer t
    · have hgood : { q with heap := Function.update q.heap e.timer (some (t.restart now)) }.Good rest :=
        h.update_head _ (by rintro u hu; rw [← Option.some.inj hu]; exact hseq)
      have ht' : Function.update q.heap e.timer (some (t.restart now)) e.timer = some (t.restart now) :=
        Function.update_self ..
      have hapart := h.apart e List.mem_cons_self
      have hgood' := hgood.inserted ht' hapart fun e' he' =>
        ((List.pairwise_cons.mp h.nodup).1 e' he').symm
      obtain ⟨q', heq, hr⟩ := ih hgood'
      refine ⟨q', ?_, .cons h ht hr rfl rfl rfl rfl (fun a ha => hmem a ha _) (fun _ => ht')
        (fun hnot => absurd hk hnot) fun e' => ?_⟩
      · unfold resetEntries
        simp only [deref_eq ht, ok_bind]
        rw [if_pos hk, insert_eq hgood ht' hapart]
        exact heq
      · rw [TimerQueue.inserted, OrderedSet.mem_insert]
        constructor
        · rintro (rfl | hold)
          · exact .inr ⟨hk, rfl⟩
          · exact .inl hold
        · rintro (hold | ⟨_, rfl⟩)
          · exact .inr hold
          · exact .inl rfl
    · have hgood : (q.delete e.timer).Good rest := h.update_head none (by rintro u ⟨⟩)
      obtain ⟨q', heq, hr⟩ := ih hgood
      refine ⟨q', ?_, .cons h ht hr rfl rfl rfl rfl (fun a ha => hmem a ha _)
        (fun hk' => absurd hk' hk) (fun _ => Function.update_self ..) fun e' => ?_⟩
      · unfold resetEntries
        simp only [deref_eq ht, ok_bind]
        rw [if_neg hk]
        exact heq
      · simp [delete, hk]

/-- The timerfd after `reset`. -/
def rearmed (q : TimerQueue) (clock : Timestamp) : Timerfd := match q.timers.first with
  | none => q.timerfd
  | some e => if e.when.valid then q.timerfd.resetTimerfd e.when clock else q.timerfd

theorem rearm_eq (h : q.Good batch) (clock : Timestamp) :
    q.rearm clock = .ok { q with timerfd := q.rearmed clock } := by
  unfold rearm rearmed
  cases hfirst : q.timers.first with
  | none => rfl
  | some e =>
    obtain ⟨t, ht, hwhen, _⟩ := h.entry e (OrderedSet.mem_of_first hfirst)
    simp only [deref_eq ht, hwhen, ok_bind, pure_eq_ok]
    split_ifs
    · rfl
    · rfl

theorem endRead_spec (h : q.Good batch) (now clock : Timestamp) :
    ∃ q₁, Reinserted { q with callingExpiredTimers := false } now batch q₁ ∧
      q.endRead batch now clock = .ok { q₁ with timerfd := q₁.rearmed clock } := by
  have hgood : { q with callingExpiredTimers := false }.Good batch :=
    ⟨h.sizes, h.entry, h.active, h.held, h.apart, h.nodup, h.address, h.sequence⟩
  obtain ⟨q₁, heq, hr⟩ := resetEntries_spec hgood now
  refine ⟨q₁, hr, ?_⟩
  rw [endRead, reset, heq, ok_bind, rearm_eq hr.good]

/-- The timerfd does not matter to it. -/
theorem Good.with_timerfd (h : q.Good batch) (f : Timerfd) : { q with timerfd := f }.Good batch :=
  ⟨h.sizes, h.entry, h.active, h.held, h.apart, h.nodup, h.address, h.sequence⟩

end Operations

end TimerQueue
end Muduo

import Muduo.TimerQueue
import Muduo.Library.StepSystem

/-!
# A timer queue in its loop thread

User code adds and cancels timers between two calls of `handleRead` and inside the
callbacks that `handleRead` runs; the start of each callback is a step of its own.
The kernel's timerfd may expire whenever it is armed, and `handleRead` may be called
whether the timerfd is readable or not. The clock shows any time whenever it is read.
-/
namespace Muduo.TimerLoop
open StepSystem

/-- The locals of `handleRead`. -/
structure HandleRead where
  now : Timestamp
  /-- the expired timers whose callbacks have been started -/
  visited : List Entry
  unvisited : List Entry

def HandleRead.expired (r : HandleRead) : List Entry := r.visited ++ r.unvisited

/-- A call of `addTimer`. -/
structure Insertion where
  id : TimerId
  expiration : Timestamp
  interval : ℚ
  /-- the calls of `handleRead` before it -/
  reads : ℕ

/-- The start of a callback. -/
structure Start where
  id : TimerId
  /-- the number of the call of `handleRead` -/
  read : ℕ
  /-- the timer's `expiration()` -/
  expiration : Timestamp

/-- A call of `cancel`. -/
structure Cancellation where
  id : TimerId
  /-- the callbacks started before it -/
  starts : ℕ

structure State where
  queue : TimerQueue
  reading : Option HandleRead
  /-- what the clock showed at each call of `handleRead` -/
  reads : List Timestamp
  inserted : List Insertion
  started : List Start
  cancelled : List Cancellation

inductive Event
  /-- user code calls `addTimer`; the allocator returns `timer` -/
  | addTimer (timer : Address) (expiration : Timestamp) (interval : ℚ) (clock : Timestamp)
  | cancel (timerId : TimerId)
  /-- the timerfd expires -/
  | expire
  /-- `handleRead` is called, and runs up to its first callback -/
  | handleRead (now : Timestamp)
  /-- the next callback is started -/
  | run
  /-- the last callback has returned -/
  | endRead (clock : Timestamp)

def State.batch (s : State) : List Entry := match s.reading with
  | some r => r.expired
  | none => []

/-- No call of `handleRead` is in progress, or a callback is running. -/
def State.UserCode (s : State) : Prop := match s.reading with
  | some r => r.visited ≠ []
  | none => True

instance (s : State) : Decidable s.UserCode := by
  unfold State.UserCode
  cases s.reading with
  | none => exact inferInstanceAs (Decidable True)
  | some r => exact inferInstanceAs (Decidable (_ ≠ _))

/-- A `TimerId` has been returned by `addTimer`, or is `TimerId()`. -/
def State.Issued (s : State) (id : TimerId) : Prop := id = .null ∨ ∃ x ∈ s.inserted, x.id = id

instance (s : State) (id : TimerId) : Decidable (s.Issued id) := inferInstanceAs (Decidable (_ ∨ _))

def enabled (s : State) : Event → Prop
  | .addTimer timer _ _ _ => s.UserCode ∧ s.queue.heap timer = none ∧ timer < uintptrMax
  | .cancel id => s.UserCode ∧ s.Issued id
  | .expire => s.queue.timerfd.armed.isSome
  | .handleRead _ => s.reading.isNone
  | .run => ∃ r ∈ s.reading, r.unvisited ≠ []
  | .endRead _ => ∃ r ∈ s.reading, r.unvisited = []

instance (s : State) : (e : Event) → Decidable (enabled s e)
  | .addTimer timer _ _ _ =>
    have : Decidable (s.queue.heap timer = none) := decidable_of_iff _ Option.isNone_iff_eq_none
    inferInstanceAs (Decidable (_ ∧ _ ∧ _))
  | .cancel _ => inferInstanceAs (Decidable (_ ∧ _))
  | .expire | .handleRead _ => inferInstanceAs (Decidable (_ = true))
  | .run | .endRead _ => inferInstanceAs (Decidable (∃ r ∈ s.reading, _))

def step (s : State) : Event → Checked State
  | .addTimer timer expiration interval clock => do
    let queue ← (s.queue.newTimer timer expiration interval).addTimerInLoop timer clock
    return { s with
      queue
      inserted := s.inserted ++
        [⟨toLex (timer, queue.numCreated), expiration, interval, s.reads.length⟩] }
  | .cancel id => do
    let queue ← s.queue.cancelInLoop id
    return { s with queue, cancelled := s.cancelled ++ [⟨id, s.started.length⟩] }
  | .expire => .ok { s with queue := { s.queue with timerfd := .expired } }
  | .handleRead now => do
    let (expired, queue) ← s.queue.beginRead now
    return { s with queue, reading := some ⟨now, [], expired⟩, reads := s.reads ++ [now] }
  | .run => match s.reading with
    | some ⟨now, visited, e :: rest⟩ => do
      let t ← s.queue.deref e.timer
      return { s with
        reading := some ⟨now, visited ++ [e], rest⟩
        started := s.started ++ [⟨toLex (e.timer, t.sequence), s.reads.length - 1, t.expiration⟩] }
    | _ => .ok s
  | .endRead clock => match s.reading with
    | some r => do
      let queue ← s.queue.endRead r.expired r.now clock
      return { s with queue, reading := none }
    | none => .ok s

def initial : State where
  queue := .new
  reading := none
  reads := []
  inserted := []
  started := []
  cancelled := []

def system : System State Event Assertion where
  init s := s = initial
  enabled := enabled
  step := step

instance (s : State) (e : Event) : Decidable (system.enabled s e) :=
  inferInstanceAs (Decidable (enabled s e))

/-- What a step does. -/
inductive Effect (s : State) : Event → State → Prop
  | addTimer {timer : Address} {expiration : Timestamp} {interval : ℚ} (clock : Timestamp)
      (hfresh : s.queue.heap timer = none) (hmax : timer < uintptrMax) :
      Effect s (.addTimer timer expiration interval clock) { s with
        queue := { (s.queue.newTimer timer expiration interval).inserted timer
            ⟨expiration, interval, s.queue.numCreated + 1⟩ with
          timerfd := if s.queue.earliestChanged expiration then
            s.queue.timerfd.resetTimerfd expiration clock else s.queue.timerfd }
        inserted := s.inserted ++
          [⟨toLex (timer, s.queue.numCreated + 1), expiration, interval, s.reads.length⟩] }
  | erase {id : TimerId} {t : Timer} (hmem : id ∈ s.queue.activeTimers) (ht : s.queue.Alive id t) :
      Effect s (.cancel id) { s with
        queue := s.queue.removed id t
        cancelled := s.cancelled ++ [⟨id, s.started.length⟩] }
  | cancel {id : TimerId} {r : HandleRead} (hmem : id ∉ s.queue.activeTimers)
      (hr : s.reading = some r) (hv : r.visited ≠ []) :
      Effect s (.cancel id) { s with
        queue := { s.queue with cancelingTimers := s.queue.cancelingTimers.insert id }
        cancelled := s.cancelled ++ [⟨id, s.started.length⟩] }
  | miss {id : TimerId} (hmem : id ∉ s.queue.activeTimers) (hr : s.reading = none) :
      Effect s (.cancel id) { s with cancelled := s.cancelled ++ [⟨id, s.started.length⟩] }
  | expire (harmed : s.queue.timerfd.armed.isSome) :
      Effect s .expire { s with queue := { s.queue with timerfd := .expired } }
  | handleRead {now : Timestamp} {batch : List Entry} {queue : TimerQueue} (hr : s.reading = none)
      (hq : s.queue.Expired now batch queue) :
      Effect s (.handleRead now)
        { s with queue, reading := some ⟨now, [], batch⟩, reads := s.reads ++ [now] }
  | run {now : Timestamp} {visited rest : List Entry} {e : Entry} {t : Timer}
      (hr : s.reading = some ⟨now, visited, e :: rest⟩) (ht : s.queue.heap e.timer = some t)
      (hwhen : t.expiration = e.when) :
      Effect s .run { s with
        reading := some ⟨now, visited ++ [e], rest⟩
        started := s.started ++ [⟨toLex (e.timer, t.sequence), s.reads.length - 1, t.expiration⟩] }
  | endRead {now : Timestamp} {visited : List Entry} {queue : TimerQueue} (clock : Timestamp)
      (hr : s.reading = some ⟨now, visited, []⟩)
      (hq : { s.queue with callingExpiredTimers := false }.Reinserted now visited queue) :
      Effect s (.endRead clock) { s with
        queue := { queue with timerfd := queue.rearmed clock }
        reading := none }

structure Inv (s : State) : Prop where
  good : s.queue.Good s.batch
  calling : s.queue.callingExpiredTimers = s.reading.isSome
  inserted : ∀ x ∈ s.inserted, x.id.sequence ≤ s.queue.numCreated

theorem inv_initial : Inv initial where
  good := TimerQueue.good_new
  calling := rfl
  inserted _ hx := absurd hx List.not_mem_nil

theorem Inv.issued {s : State} (h : Inv s) {id : TimerId} (hid : s.Issued id) :
    id.sequence ≤ s.queue.numCreated := by
  obtain rfl | ⟨x, hx, rfl⟩ := hid
  · exact Nat.zero_le _
  · exact h.inserted x hx

theorem cancel_effect {s : State} (h : Inv s) (huser : s.UserCode) (id : TimerId) :
    ∃ t, step s (.cancel id) = .ok t ∧ Effect s (.cancel id) t := by
  by_cases hmem : id ∈ s.queue.activeTimers
  · obtain ⟨t, ht, _⟩ := h.good.active id hmem
    refine ⟨_, ?_, .erase hmem ht⟩
    simp only [step, TimerQueue.cancelInLoop_eq h.good hmem ht, ok_bind, pure_eq_ok]
  · have heq := TimerQueue.cancelInLoop_eq_of_notMem h.good hmem
    have hcalling := h.calling
    cases hr : s.reading with
    | none =>
      refine ⟨_, ?_, .miss hmem hr⟩
      rw [hr] at hcalling
      simp [step, heq, hcalling]
    | some r =>
      have hv : r.visited ≠ [] := by simpa [State.UserCode, hr] using huser
      refine ⟨_, ?_, .cancel hmem hr hv⟩
      rw [hr] at hcalling
      simp [step, heq, hcalling]

/-- Every step that is offered completes. -/
theorem step_effect {s : State} {e : Event} (h : Inv s) (he : enabled s e) :
    ∃ t, step s e = .ok t ∧ Effect s e t := by
  cases e with
  | addTimer timer expiration interval clock =>
    obtain ⟨_, hfresh, hmax⟩ := he
    refine ⟨_, ?_, .addTimer clock hfresh hmax⟩
    simp only [step, TimerQueue.addTimer_eq h.good hfresh hmax, ok_bind, pure_eq_ok]
    rfl
  | cancel id => exact cancel_effect h he.1 id
  | expire => exact ⟨_, rfl, .expire he⟩
  | handleRead now =>
    have hr : s.reading = none := Option.isNone_iff_eq_none.mp he
    have hgood : s.queue.Good [] := by simpa [State.batch, hr] using h.good
    obtain ⟨batch, queue, heq, hq⟩ := TimerQueue.beginRead_spec hgood now
    refine ⟨_, ?_, .handleRead hr hq⟩
    simp [step, heq]
  | run =>
    obtain ⟨⟨now, visited, unvisited⟩, hr, hne⟩ := he
    obtain ⟨e, rest, rfl⟩ := List.exists_cons_of_ne_nil hne
    have hr : s.reading = some ⟨now, visited, e :: rest⟩ := hr
    have hbatch : e ∈ s.batch := by simp [State.batch, hr, HandleRead.expired]
    obtain ⟨t, ht, hwhen⟩ := h.good.held e hbatch
    refine ⟨_, ?_, .run hr ht hwhen⟩
    simp [step, hr, TimerQueue.deref_eq ht]
  | endRead clock =>
    obtain ⟨⟨now, visited, unvisited⟩, hr, rfl⟩ := he
    have hr : s.reading = some ⟨now, visited, []⟩ := hr
    have hgood : s.queue.Good visited := by simpa [State.batch, hr, HandleRead.expired] using h.good
    obtain ⟨queue, hq, heq⟩ := TimerQueue.endRead_spec hgood now clock
    refine ⟨_, ?_, .endRead clock hr hq⟩
    simp [step, hr, HandleRead.expired, heq]

theorem inv_effect {s t : State} {e : Event} (h : Inv s) (he : Effect s e t) : Inv t := by
  obtain ⟨hgood, hcalling, hinserted⟩ := h
  cases he with
  | @addTimer timer expiration interval clock hfresh hmax =>
    refine ⟨(hgood.added hfresh hmax _ _).with_timerfd _, hcalling, fun x hx => ?_⟩
    change x.id.sequence ≤ s.queue.numCreated + 1
    obtain hold | hnew := List.mem_append.mp hx
    · have hle := hinserted x hold
      omega
    · rw [List.mem_singleton.mp hnew]
      exact le_refl _
  | erase hmem ht => exact ⟨hgood.removed hmem ht, hcalling, hinserted⟩
  | cancel => exact ⟨⟨hgood.sizes, hgood.entry, hgood.active, hgood.held, hgood.apart, hgood.nodup,
      hgood.address, hgood.sequence⟩, hcalling, hinserted⟩
  | miss => exact ⟨hgood, hcalling, hinserted⟩
  | expire => exact ⟨hgood.with_timerfd _, hcalling, hinserted⟩
  | handleRead hr hq =>
    refine ⟨hq.good, hq.callingExpiredTimers, fun x hx => ?_⟩
    rw [hq.numCreated]
    exact hinserted x hx
  | @run now visited rest e t hr =>
    refine ⟨?_, by rw [hcalling, hr]; rfl, hinserted⟩
    have hbatch : s.batch = visited ++ e :: rest := by simp [State.batch, hr, HandleRead.expired]
    rw [hbatch] at hgood
    simpa [State.batch, HandleRead.expired] using hgood
  | endRead clock hr hq =>
    refine ⟨hq.good.with_timerfd _, hq.callingExpiredTimers, fun x hx => ?_⟩
    rw [hq.numCreated]
    exact hinserted x hx

theorem totalInvariant : TotalInvariant system Inv where
  init s hs := hs ▸ inv_initial
  step s e h he := by
    obtain ⟨t, ht, heffect⟩ := step_effect h he
    exact ⟨t, ht, inv_effect h heffect⟩

/-- In no run does an assertion of the queue fail, or is a deleted timer used. -/
theorem safe : Safe system := totalInvariant.safe

theorem effect_of_step {s t : State} {e : Event} (h : Inv s) (he : enabled s e)
    (hs : step s e = .ok t) : Effect s e t := by
  obtain ⟨u, hu, heffect⟩ := step_effect h he
  rw [hu] at hs
  exact Except.ok.inj hs ▸ heffect

section Effects
variable {s t : State} {e : Event}

theorem mem_batch {r : HandleRead} {x : Entry} (hr : s.reading = some r) :
    x ∈ s.batch ↔ x ∈ r.visited ∨ x ∈ r.unvisited := by
  simp [State.batch, hr, HandleRead.expired]

/-- The timers of the batch are left alone until the end of `handleRead`. -/
theorem heap_batch (h : Inv s) (he : Effect s e t) (hreading : t.reading.isSome) {x : Entry}
    (hx : x ∈ s.batch) : t.queue.heap x.timer = s.queue.heap x.timer := by
  obtain ⟨u, hu, _⟩ := h.good.held x hx
  cases he with
  | @addTimer timer _ _ clock hfresh =>
    have hne : x.timer ≠ timer := by
      intro heq
      rw [heq, hfresh] at hu
      cases hu
    exact Function.update_of_ne hne _ _
  | erase hmem =>
    obtain ⟨_, _, hentry⟩ := h.good.active _ hmem
    have hne := h.good.apart x hx _ hentry
    exact Function.update_of_ne hne.symm _ _
  | cancel | miss | expire | run => rfl
  | handleRead hr hq => rw [hq.heap]
  | endRead => cases hreading

end Effects

end Muduo.TimerLoop

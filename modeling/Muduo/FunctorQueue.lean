import Muduo.EventLoop
import Muduo.Library.StepSystem

/-!
# The functor queue of an event loop

One loop thread runs `loop()` while any number of other threads, named by `T`,
call `queueInLoop` and `quit`. Each of these calls is two steps, the push under
the mutex (or the store to `quit_`) and the later `wakeup()`. The loop thread may
call `queueInLoop` from inside a handler or a running functor; there the push and
the wakeup, when it is made, are separate steps as well.
-/
namespace Muduo.FunctorQueue
open StepSystem

structure State (F T : Type) where
  loop : EventLoop F
  /-- the loop thread is between its push and its `wakeup()` -/
  loopWaking : Bool
  /-- the other thread is between its push and its `wakeup()` -/
  waking : T → Bool
  /-- a functor of the current batch has been started -/
  running : Bool
  /-- all functors pushed since `loop()` was entered -/
  pushed : List F
  /-- all functors started -/
  executed : List F

inductive Event (F T : Type)
  /-- `poll` returns the active channels -/
  | poll (active : List ChannelId)
  /-- the next active channel is handled; the wakeup channel reads the eventfd -/
  | handle
  | endHandling
  | swap
  /-- the next functor of the batch is started -/
  | execute
  | endFunctors
  /-- a handler or functor of the loop thread calls `queueInLoop` -/
  | loopPush (cb : F)
  | loopWakeup
  /-- a handler or functor of the loop thread calls `quit` -/
  | loopQuit
  /-- another thread calls `queueInLoop` -/
  | push (t : T) (cb : F)
  /-- another thread calls `quit` -/
  | quit (t : T)
  | wakeup (t : T)

variable {F T : Type}

/-- User code is running in the loop thread: a handler other than that of the
wakeup channel, or a functor. -/
def State.userCode (s : State F T) : Prop :=
  (s.loop.position = .handling ∧ s.loop.currentActiveChannel ≠ none ∧
    s.loop.currentActiveChannel ≠ some s.loop.wakeupChannel) ∨
  (s.loop.position = .functors ∧ s.running = true)

/-- The kernel reports the wakeup channel only while its counter is positive. -/
def enabled (s : State F T) : Event F T → Prop
  | .poll active => s.loop.position = .poll ∧ active.Nodup ∧
      (s.loop.wakeupChannel ∈ active → 0 < s.loop.wakeupCounter)
  | .handle => s.loop.position = .handling ∧ s.loopWaking = false ∧ s.loop.unvisited ≠ []
  | .endHandling => s.loop.position = .handling ∧ s.loopWaking = false ∧ s.loop.unvisited = []
  | .swap => s.loop.position = .swapping
  | .execute => s.loop.position = .functors ∧ s.loopWaking = false ∧ s.loop.batch ≠ []
  | .endFunctors => s.loop.position = .functors ∧ s.loopWaking = false ∧ s.loop.batch = []
  | .loopPush _ | .loopQuit => s.userCode ∧ s.loopWaking = false
  | .loopWakeup => s.loopWaking = true
  | .push t _ | .quit t => s.waking t = false
  | .wakeup t => s.waking t = true

instance decidableUserCode (s : State F T) : Decidable s.userCode :=
  inferInstanceAs (Decidable (_ ∧ _ ∧ _ ∨ _ ∧ _))

instance decidableEnabled (s : State F T) : (e : Event F T) → Decidable (enabled s e)
  | .poll _ | .handle | .endHandling | .execute | .endFunctors =>
    inferInstanceAs (Decidable (_ ∧ _ ∧ _))
  | .loopPush _ | .loopQuit => inferInstanceAs (Decidable (_ ∧ _))
  | .swap | .loopWakeup | .push _ _ | .quit _ | .wakeup _ => inferInstanceAs (Decidable (_ = _))

section Exec
variable [DecidableEq T]

def exec (s : State F T) : Event F T → State F T
  | .poll active => { s with loop := s.loop.pollReturn active }
  | .handle => match s.loop.unvisited with
    | [] => s
    | c :: rest =>
      let loop := s.loop.visit c rest
      { s with loop := if c = s.loop.wakeupChannel then loop.handleRead else loop }
  | .endHandling => { s with loop := s.loop.endHandling }
  | .swap => { s with loop := s.loop.swap, running := false }
  | .execute => match s.loop.batch with
    | [] => s
    | cb :: rest =>
      { s with loop := s.loop.take rest, running := true, executed := s.executed ++ [cb] }
  | .endFunctors => { s with loop := s.loop.endFunctors, running := false }
  | .loopPush cb =>
    { s with
      loop := s.loop.push cb
      loopWaking := s.loop.needsWakeup true
      pushed := s.pushed ++ [cb] }
  | .loopWakeup => { s with loop := s.loop.wakeup, loopWaking := false }
  | .loopQuit => { s with loop := { s.loop with quit := true } }
  | .push t cb =>
    { s with
      loop := s.loop.push cb
      waking := Function.update s.waking t (s.loop.needsWakeup false)
      pushed := s.pushed ++ [cb] }
  | .quit t =>
    { s with loop := { s.loop with quit := true }, waking := Function.update s.waking t true }
  | .wakeup t => { s with loop := s.loop.wakeup, waking := Function.update s.waking t false }

end Exec

/-- `loop()` has just been entered, with nothing pending. -/
structure Entered (s : State F T) : Prop where
  position : s.loop.position = .poll
  pendingFunctors : s.loop.pendingFunctors = []
  batch : s.loop.batch = []
  callingPendingFunctors : s.loop.callingPendingFunctors = false
  loopWaking : s.loopWaking = false
  pushed : s.pushed = []
  executed : s.executed = []

def system (F T : Type) [DecidableEq T] : System (State F T) (Event F T) Assertion where
  init := Entered
  enabled := enabled
  step s e := .ok (exec s e)

instance (F T : Type) [DecidableEq T] (s : State F T) (e : Event F T) :
    Decidable ((system F T).enabled s e) := decidableEnabled s e

/-- Someone will make, or has made, the eventfd readable. -/
def WakeupDue (s : State F T) : Prop :=
  0 < s.loop.wakeupCounter ∨ s.loopWaking = true ∨ ∃ t, s.waking t = true

/-- Pushed functors are executed, in the batch, or pending, in this order. The flag
is set during `doPendingFunctors`, and what is pending after the swap, or at the
next poll, has a wakeup due. -/
structure Inv (s : State F T) : Prop where
  order : s.executed ++ s.loop.batch ++ s.loop.pendingFunctors = s.pushed
  batch : s.loop.position ≠ .functors → s.loop.batch = []
  calling : s.loop.callingPendingFunctors = true ↔
    s.loop.position = .swapping ∨ s.loop.position = .functors
  loopWaking : s.loopWaking = true → s.loop.position = .functors
  due : s.loop.position = .functors ∨ s.loop.position = .poll →
    s.loop.pendingFunctors ≠ [] → WakeupDue s

theorem inv_init {s : State F T} (h : Entered s) : Inv s where
  order := by simp [h.batch, h.pendingFunctors, h.pushed, h.executed]
  batch _ := h.batch
  calling := by simp [h.callingPendingFunctors, h.position]
  loopWaking hw := by rw [h.loopWaking] at hw; cases hw
  due _ hne := absurd h.pendingFunctors hne

/-- Between `poll` and the swap nothing need be due. -/
theorem inv_of_handling {s : State F T}
    (h : s.loop.position = .handling ∧ s.loop.callingPendingFunctors = false ∨
      s.loop.position = .swapping ∧ s.loop.callingPendingFunctors = true)
    (hw : s.loopWaking = false) (hb : s.loop.batch = [])
    (ho : s.executed ++ s.loop.pendingFunctors = s.pushed) : Inv s where
  order := by rw [hb, List.append_nil, ho]
  batch _ := hb
  calling := by rcases h with ⟨h, hc⟩ | ⟨h, hc⟩ <;> simp [h, hc]
  loopWaking hw' := by rw [hw] at hw'; cases hw'
  due hp := by rcases h with ⟨h, _⟩ | ⟨h, _⟩ <;> simp [h] at hp

theorem Inv.calling_eq_false {s : State F T} (h : Inv s)
    (hp : s.loop.position ≠ .swapping ∧ s.loop.position ≠ .functors) :
    s.loop.callingPendingFunctors = false := by
  by_contra hc
  rcases h.calling.mp (by simpa using hc) with h | h
  · exact hp.1 h
  · exact hp.2 h

theorem Inv.loopWaking_eq_false {s : State F T} (h : Inv s) (hp : s.loop.position ≠ .functors) :
    s.loopWaking = false := by
  by_contra hw
  exact hp (h.loopWaking (by simpa using hw))

theorem Inv.order_of_batch {s : State F T} (h : Inv s) (hb : s.loop.batch = []) :
    s.executed ++ s.loop.pendingFunctors = s.pushed := by
  simpa [hb] using h.order

section Steps
variable [DecidableEq T] {s : State F T}

theorem inv_poll (h : Inv s) {active : List ChannelId} (hp : s.loop.position = .poll) :
    Inv (exec s (.poll active)) := by
  have hb := h.batch (by rw [hp]; decide)
  have hc := h.calling_eq_false (by rw [hp]; decide)
  exact inv_of_handling (.inl ⟨rfl, hc⟩) (h.loopWaking_eq_false (by rw [hp]; decide)) hb
    (h.order_of_batch hb)

theorem inv_handle (h : Inv s) (hp : s.loop.position = .handling) : Inv (exec s .handle) := by
  have hb := h.batch (by rw [hp]; decide)
  have hc := h.calling_eq_false (by rw [hp]; decide)
  have hw := h.loopWaking_eq_false (by rw [hp]; decide)
  have ho := h.order_of_batch hb
  simp only [exec]
  split
  · exact h
  · split_ifs
    · exact inv_of_handling (.inl ⟨hp, hc⟩) hw hb ho
    · exact inv_of_handling (.inl ⟨hp, hc⟩) hw hb ho

theorem inv_endHandling (h : Inv s) (hp : s.loop.position = .handling) :
    Inv (exec s .endHandling) := by
  have hb := h.batch (by rw [hp]; decide)
  exact inv_of_handling (.inr ⟨rfl, rfl⟩) (h.loopWaking_eq_false (by rw [hp]; decide)) hb
    (h.order_of_batch hb)

theorem inv_swap (h : Inv s) (hp : s.loop.position = .swapping) : Inv (exec s .swap) where
  order := by
    have hb := h.batch (by rw [hp]; decide)
    simpa [exec, EventLoop.swap] using h.order_of_batch hb
  batch hne := absurd rfl hne
  calling := iff_of_true (h.calling.mpr (.inl hp)) (.inr rfl)
  loopWaking _ := rfl
  due _ hne := absurd rfl hne

theorem inv_execute (h : Inv s) (hp : s.loop.position = .functors) : Inv (exec s .execute) := by
  simp only [exec]
  split
  · exact h
  · rename_i cb rest hb
    exact {
      order := by simpa [hb, EventLoop.take] using h.order
      batch := fun hne => absurd hp hne
      calling := h.calling
      loopWaking := h.loopWaking
      due := h.due }

theorem inv_endFunctors (h : Inv s) (hp : s.loop.position = .functors)
    (hw : s.loopWaking = false) (hb : s.loop.batch = []) : Inv (exec s .endFunctors) where
  order := h.order
  batch _ := hb
  calling := by simp only [exec, EventLoop.endFunctors]; split_ifs <;> simp
  loopWaking hw' := by simp [exec, hw] at hw'
  due _ hne := h.due (.inl hp) hne

/-- A push by user code of the loop thread is followed by a wakeup unless the swap
is still to come. -/
theorem inv_loopPush (h : Inv s) {cb : F} (he : s.userCode) : Inv (exec s (.loopPush cb)) := by
  have ho : s.executed ++ s.loop.batch ++ (s.loop.pendingFunctors ++ [cb]) = s.pushed ++ [cb] := by
    rw [← List.append_assoc, h.order]
  rcases he with ⟨hp, _⟩ | ⟨hp, _⟩
  · have hb := h.batch (by rw [hp]; decide)
    have hc := h.calling_eq_false (by rw [hp]; decide)
    refine inv_of_handling (.inl ⟨hp, hc⟩) ?_ hb ?_
    · simp [exec, EventLoop.needsWakeup, hc]
    · simpa [hb, exec, EventLoop.push] using ho
  · have hc := h.calling.mpr (.inr hp)
    exact {
      order := ho
      batch := fun hne => absurd hp hne
      calling := h.calling
      loopWaking := fun _ => hp
      due := fun _ _ => .inr (.inl (by simp [exec, EventLoop.needsWakeup, hc])) }

theorem inv_loopWakeup (h : Inv s) : Inv (exec s .loopWakeup) where
  order := h.order
  batch := h.batch
  calling := h.calling
  loopWaking hw := by simp [exec] at hw
  due _ _ := .inl (EventLoop.wakeupCounter_wakeup_pos _)

theorem inv_loopQuit (h : Inv s) : Inv (exec s .loopQuit) where
  order := h.order
  batch := h.batch
  calling := h.calling
  loopWaking := h.loopWaking
  due := h.due

theorem inv_push (h : Inv s) {t : T} {cb : F} : Inv (exec s (.push t cb)) where
  order := by
    have ho : s.executed ++ s.loop.batch ++ (s.loop.pendingFunctors ++ [cb]) =
        s.pushed ++ [cb] := by
      rw [← List.append_assoc, h.order]
    exact ho
  batch := h.batch
  calling := h.calling
  loopWaking := h.loopWaking
  due _ _ := .inr (.inr ⟨t, by simp [exec, EventLoop.needsWakeup]⟩)

/-- A thread that begins a call which ends in a wakeup only adds to what is due. -/
theorem WakeupDue.update {t : T} (h : WakeupDue s) :
    WakeupDue { s with waking := Function.update s.waking t true } := by
  rcases h with h | h | ⟨u, hu⟩
  · exact .inl h
  · exact .inr (.inl h)
  · by_cases htu : u = t
    · exact .inr (.inr ⟨t, by simp⟩)
    · exact .inr (.inr ⟨u, by simp [htu, hu]⟩)

theorem inv_quit (h : Inv s) {t : T} : Inv (exec s (.quit t)) where
  order := h.order
  batch := h.batch
  calling := h.calling
  loopWaking := h.loopWaking
  due hp hne := (h.due hp hne).update

theorem inv_wakeup (h : Inv s) {t : T} : Inv (exec s (.wakeup t)) where
  order := h.order
  batch := h.batch
  calling := h.calling
  loopWaking := h.loopWaking
  due _ _ := .inl (EventLoop.wakeupCounter_wakeup_pos _)

theorem inv_exec (h : Inv s) {e : Event F T} (he : enabled s e) : Inv (exec s e) := by
  cases e with
  | poll active => exact inv_poll h he.1
  | handle => exact inv_handle h he.1
  | endHandling => exact inv_endHandling h he.1
  | swap => exact inv_swap h he
  | execute => exact inv_execute h he.1
  | endFunctors => exact inv_endFunctors h he.1 he.2.1 he.2.2
  | loopPush cb => exact inv_loopPush h he.1
  | loopWakeup => exact inv_loopWakeup h
  | loopQuit => exact inv_loopQuit h
  | push t cb => exact inv_push h
  | quit t => exact inv_quit h
  | wakeup t => exact inv_wakeup h

end Steps

theorem inv_invariant (F T : Type) [DecidableEq T] : Invariant (system F T) Inv where
  init _ h := inv_init h
  step s e t hI he hs := by
    cases hs
    exact inv_exec hI he

/-- Functors are executed at most once and in push order; and a loop that is about
to block with functors pending finds its eventfd readable, or another thread is
about to make it so. -/
theorem executed_in_order_and_woken {F T : Type} [DecidableEq T] {s : State F T}
    (h : Reachable (system F T) s) :
    s.executed <+: s.pushed ∧
      (s.loop.position = .poll → s.loop.pendingFunctors ≠ [] →
        0 < s.loop.wakeupCounter ∨ ∃ t, s.waking t = true) := by
  have hI := (inv_invariant F T).reachable _ h
  refine ⟨?_, fun hp hne => ?_⟩
  · rw [← hI.order, List.append_assoc]
    exact List.prefix_append ..
  · rcases hI.due (.inr hp) hne with hc | hw | ht
    · exact .inl hc
    · rw [hI.loopWaking_eq_false (by rw [hp]; decide)] at hw
      cases hw
    · exact .inr ht

/-- A loop just entered, with no other thread inside a call. -/
def entered : State ℕ ℕ where
  loop := EventLoop.entered 0 EPollPoller.new 0
  loopWaking := false
  waking _ := false
  running := false
  pushed := []
  executed := []

/-- Thread 1 pushes functor 7 after the swap, and the loop goes on to poll. -/
def latePush : List (Event ℕ ℕ) := [.poll [], .endHandling, .swap, .push 1 7, .endFunctors]

theorem reachable_latePush : Reachable (system ℕ ℕ) (latePush.foldl exec entered) :=
  ⟨entered, latePush, ⟨rfl, rfl, rfl, rfl, rfl, rfl, rfl⟩, run_of_replay _ rfl⟩

theorem latePush_woken :
    (latePush.foldl exec entered).executed <+: (latePush.foldl exec entered).pushed ∧
      (0 < (latePush.foldl exec entered).loop.wakeupCounter ∨
        ∃ t, (latePush.foldl exec entered).waking t = true) := by
  have h := executed_in_order_and_woken reachable_latePush
  exact ⟨h.1, h.2 rfl (List.cons_ne_nil 7 [])⟩

end Muduo.FunctorQueue

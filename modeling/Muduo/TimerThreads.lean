import Muduo.FunctorQueue
import Muduo.TimerCancel

/-!
# Timers of other threads

A thread other than the loop thread adds and cancels timers through the functor queue,
the loop thread does so at once. A `TimerId` that `addTimer` has returned may be handed
to any thread.
-/
namespace Muduo
open StepSystem

inductive TimerFunctor
  /-- `addTimerInLoop` for the timer of `timerId`, whose number tells the timers of one address
  apart -/
  | addTimerInLoop (timerId : TimerId)
  /-- `cancelInLoop`; `unfired` records that the timer had not been run when `cancel` was called -/
  | cancelInLoop (timerId : TimerId) (unfired : Bool)
  /-- any other functor -/
  | user
  deriving DecidableEq

namespace TimerThreads

structure State (T : Type) where
  queue : FunctorQueue.State TimerFunctor T
  timer : TimerLoop.State
  timerfdChannel : ChannelId
  /-- the timer of the thread's call of `addTimer`, which has yet to return -/
  adding : T → Option Address
  /-- what `addTimer` has returned -/
  returned : List TimerId
  /-- the executed `cancel`s of timers that had not been run when `cancel` was called -/
  cancels : List TimerLoop.Cancellation

inductive Event (T : Type)
  /-- a step of the loop or of its queue; `clock` is what `now()` returns in it -/
  | loop (e : FunctorQueue.Event TimerFunctor T) (clock : Timestamp)
  /-- `handleRead` starts its next callback -/
  | run
  | endRead (clock : Timestamp)
  | expire
  /-- user code in the loop thread -/
  | loopAddTimer (timer : Address) (expiration : Timestamp) (interval : ℚ) (clock : Timestamp)
  | loopCancel (timerId : TimerId)
  /-- another thread: `new Timer` and the push of `addTimerInLoop` -/
  | addTimer (t : T) (timer : Address) (expiration : Timestamp) (interval : ℚ)
  /-- its call returns a `TimerId` -/
  | returnId (t : T)
  | cancel (t : T) (timerId : TimerId)

variable {T : Type}

/-- User code is running in the loop thread: a timer callback, a handler of another channel or
a functor. -/
def State.UserCode (s : State T) : Prop := s.queue.loopWaking = false ∧ match s.timer.reading with
  | some r => r.visited ≠ []
  | none =>
    s.queue.loop.position = .handling ∧ s.queue.loop.currentActiveChannel ≠ none ∧
        s.queue.loop.currentActiveChannel ≠ some s.queue.loop.wakeupChannel ∧
        s.queue.loop.currentActiveChannel ≠ some s.timerfdChannel ∨
      s.queue.loop.position = .functors ∧ s.queue.running = true ∧
        s.queue.executed.getLast? = some .user

instance (s : State T) : Decidable s.UserCode := by
  unfold State.UserCode
  cases s.timer.reading with
  | some r => exact inferInstanceAs (Decidable (_ ∧ _))
  | none => exact inferInstanceAs (Decidable (_ ∧ _))

def State.Unfired (s : State T) (id : TimerId) : Prop := ∀ st ∈ s.timer.started, st.id ≠ id

instance (s : State T) (id : TimerId) : Decidable (s.Unfired id) :=
  inferInstanceAs (Decidable (∀ st ∈ s.timer.started, _))

/-- The functors of the loop are driven by the timers as well: no handler follows before
`handleRead` has returned, and the functors of `addTimer` and `cancel` have events of their own. -/
def LoopEnabled (s : State T) : FunctorQueue.Event TimerFunctor T → Prop
  | .handle | .endHandling => s.timer.reading.isNone
  | .loopPush f => f = .user ∧ s.UserCode
  | .loopQuit => s.UserCode
  | .push t f => f = .user ∧ s.adding t = none
  | .quit t => s.adding t = none
  | .poll _ | .swap | .execute | .endFunctors | .loopWakeup | .wakeup _ => True

instance (s : State T) : (e : FunctorQueue.Event TimerFunctor T) → Decidable (LoopEnabled s e)
  | .handle | .endHandling => inferInstanceAs (Decidable (_ = true))
  | .loopPush _ | .push _ _ => inferInstanceAs (Decidable (_ ∧ _))
  | .loopQuit => inferInstanceAs (Decidable s.UserCode)
  | .quit _ => inferInstanceAs (Decidable (_ = _))
  | .poll _ | .swap | .execute | .endFunctors | .loopWakeup | .wakeup _ => inferInstanceAs (Decidable True)

/-- The allocator may return `timer`. -/
def State.Free (s : State T) (timer : Address) : Prop :=
  (s.timer.queue.heap timer).isNone ∧ timer < uintptrMax

instance (s : State T) (timer : Address) : Decidable (s.Free timer) := inferInstanceAs (Decidable (_ ∧ _))

def enabled (s : State T) : Event T → Prop
  | .loop e _ => FunctorQueue.enabled s.queue e ∧ LoopEnabled s e
  | .run => s.queue.loopWaking = false ∧ TimerLoop.enabled s.timer .run
  | .endRead clock => s.queue.loopWaking = false ∧ TimerLoop.enabled s.timer (.endRead clock)
  | .expire => TimerLoop.enabled s.timer .expire
  | .loopAddTimer timer _ _ _ => s.UserCode ∧ s.Free timer
  | .loopCancel id => s.UserCode ∧ id ∈ s.returned
  | .addTimer t timer _ _ => s.queue.waking t = false ∧ s.adding t = none ∧ s.Free timer
  | .returnId t => s.queue.waking t = false ∧ (s.adding t).isSome
  | .cancel t id => s.queue.waking t = false ∧ s.adding t = none ∧ id ∈ s.returned

instance (s : State T) : (e : Event T) → Decidable (enabled s e)
  | .loop _ _ | .run | .endRead _ | .loopAddTimer .. | .loopCancel _ | .addTimer .. | .returnId _
  | .cancel .. => inferInstanceAs (Decidable (_ ∧ _))
  | .expire => inferInstanceAs (Decidable (TimerLoop.enabled s.timer .expire))

/-- `addTimerInLoop` from a functor. -/
def addTimerInLoop (s : TimerLoop.State) (timer : Address) (clock : Timestamp) : Checked TimerLoop.State := do
  let t ← s.queue.deref timer
  let queue ← s.queue.addTimerInLoop timer clock
  return { s with
    queue
    inserted := s.inserted ++
      [⟨toLex (timer, t.sequence), t.expiration, t.interval, s.reads.length⟩] }

/-- What a step of the loop does to the timers: a functor of theirs is executed, or the
timerfd channel is handled. -/
def loopStep (s : State T) (e : FunctorQueue.Event TimerFunctor T) (clock : Timestamp) :
    Checked TimerLoop.State := match e with
  | .handle => match s.queue.loop.unvisited with
    | c :: _ => if c = s.timerfdChannel then TimerLoop.step s.timer (.handleRead clock) else .ok s.timer
    | [] => .ok s.timer
  | .execute => match s.queue.loop.batch with
    | .addTimerInLoop id :: _ => addTimerInLoop s.timer id.timer clock
    | .cancelInLoop id _ :: _ => TimerLoop.step s.timer (.cancel id)
    | .user :: _ | [] => .ok s.timer
  | .poll _ | .endHandling | .swap | .endFunctors | .loopPush _ | .loopWakeup | .loopQuit | .push ..
  | .quit _ | .wakeup _ => .ok s.timer

/-- The `cancel` of an unfired timer that a step of the loop executes. -/
def loopCancelled (s : State T) (e : FunctorQueue.Event TimerFunctor T) : List TimerLoop.Cancellation :=
  match e with
  | .execute => match s.queue.loop.batch with
    | .cancelInLoop id true :: _ => [⟨id, s.timer.started.length⟩]
    | _ => []
  | .poll _ | .handle | .endHandling | .swap | .endFunctors | .loopPush _ | .loopWakeup | .loopQuit
  | .push .. | .quit _ | .wakeup _ => []

variable [DecidableEq T]

def step (s : State T) : Event T → Checked (State T)
  | .loop e clock => do
    let timer ← loopStep s e clock
    return { s with
      queue := FunctorQueue.exec s.queue e
      timer
      cancels := s.cancels ++ loopCancelled s e }
  | .run => do
    let timer ← TimerLoop.step s.timer .run
    return { s with timer }
  | .endRead clock => do
    let timer ← TimerLoop.step s.timer (.endRead clock)
    return { s with timer }
  | .expire => do
    let timer ← TimerLoop.step s.timer .expire
    return { s with timer }
  | .loopAddTimer timer expiration interval clock => do
    let t ← TimerLoop.step s.timer (.addTimer timer expiration interval clock)
    return { s with timer := t, returned := s.returned ++ [toLex (timer, t.queue.numCreated)] }
  | .loopCancel id => do
    let timer ← TimerLoop.step s.timer (.cancel id)
    return { s with
      timer
      cancels := if s.Unfired id then s.cancels ++ [⟨id, s.timer.started.length⟩] else s.cancels }
  | .addTimer t timer expiration interval =>
    let queue := s.timer.queue.newTimer timer expiration interval
    .ok { s with
      queue := FunctorQueue.exec s.queue (.push t (.addTimerInLoop (toLex (timer, queue.numCreated))))
      timer := { s.timer with queue }
      adding := Function.update s.adding t (some timer) }
  | .returnId t => match s.adding t with
    | some timer => do
      let u ← s.timer.queue.deref timer
      return { s with
        adding := Function.update s.adding t none
        returned := s.returned ++ [toLex (timer, u.sequence)] }
    | none => .ok s
  | .cancel t id =>
    .ok { s with
      queue := FunctorQueue.exec s.queue (.push t (.cancelInLoop id (decide (s.Unfired id)))) }

/-- A loop just entered, without timers. -/
structure Initial (s : State T) : Prop where
  queue : FunctorQueue.Entered s.queue
  timer : s.timer = TimerLoop.initial
  returned : s.returned = []
  cancels : s.cancels = []

def system (T : Type) [DecidableEq T] : System (State T) (Event T) Assertion where
  init := Initial
  enabled := enabled
  step := step

instance (s : State T) (e : Event T) : Decidable ((system T).enabled s e) :=
  inferInstanceAs (Decidable (enabled s e))

/-- What is left of the functors. -/
def work (q : FunctorQueue.State TimerFunctor T) : List TimerFunctor :=
  q.loop.batch ++ q.loop.pendingFunctors

/-- The functor that an event queues. -/
def queued : FunctorQueue.Event TimerFunctor T → List TimerFunctor
  | .loopPush f | .push _ f => [f]
  | .poll _ | .handle | .endHandling | .swap | .execute | .endFunctors | .loopWakeup | .loopQuit
  | .quit _ | .wakeup _ => []

theorem work_exec {q : FunctorQueue.State TimerFunctor T} {e : FunctorQueue.Event TimerFunctor T}
    (h : FunctorQueue.Inv q) (he : FunctorQueue.enabled q e) (hne : e ≠ .execute) :
    work (FunctorQueue.exec q e) = work q ++ queued e := by
  cases e with
  | poll | endHandling | endFunctors | loopWakeup | loopQuit | quit | wakeup =>
    exact (List.append_nil _).symm
  | loopPush | push => exact (List.append_assoc ..).symm
  | handle =>
    simp only [FunctorQueue.exec, queued, List.append_nil]
    split
    · rfl
    · split_ifs
      · rfl
      · rfl
  | swap =>
    have hswap : q.loop.position = .swapping := he
    have hb : q.loop.batch = [] := h.batch (by simp [hswap])
    simp [work, FunctorQueue.exec, EventLoop.swap, queued, hb]
  | execute => exact absurd rfl hne

theorem work_execute {q : FunctorQueue.State TimerFunctor T} {f : TimerFunctor} {rest : List TimerFunctor}
    (h : q.loop.batch = f :: rest) : work q = f :: work (FunctorQueue.exec q .execute) := by
  simp [work, FunctorQueue.exec, h, EventLoop.take]

end TimerThreads

namespace TimerLoop
section
variable {s t : State} {e : Event} {id : TimerId} {timer : Address} {expiration : Timestamp} {interval : ℚ}

/-- The timer is alive, in neither set and not in the batch. -/
structure Outside (s : State) (id : TimerId) : Prop where
  alive : ∃ u, s.queue.Alive id u
  timers : ∀ x ∈ s.queue.timers, x.timer ≠ id.timer
  batch : ∀ x ∈ s.batch, x.timer ≠ id.timer

theorem outside_effect (h : Inv s) (ho : Outside s id) (he : Effect s e t) : Outside t id := by
  obtain ⟨⟨u, hu⟩, htimers, hbatch⟩ := ho
  cases he with
  | @addTimer timer _ _ clock hfresh =>
    have hne : id.timer ≠ timer := by
      intro heq
      have hheap := hu.1
      rw [heq, hfresh] at hheap
      cases hheap
    refine ⟨⟨u, (Function.update_of_ne hne _ _).trans hu.1, hu.2⟩, fun x hx => ?_, hbatch⟩
    obtain rfl | hold := OrderedSet.mem_insert.mp hx
    · exact hne.symm
    · exact htimers x hold
  | erase hmem =>
    obtain ⟨_, _, hentry⟩ := h.good.active _ hmem
    have hne := htimers _ hentry
    exact ⟨⟨u, TimerQueue.heap_delete.mpr ⟨hne.symm, hu.1⟩, hu.2⟩,
      fun x hx => htimers x (OrderedSet.mem_erase.mp hx).2, hbatch⟩
  | cancel | miss | expire => exact ⟨⟨u, hu⟩, htimers, hbatch⟩
  | handleRead hr hq =>
    refine ⟨⟨u, by rw [hq.heap]; exact hu.1, hu.2⟩, fun x hx => htimers x ((hq.timers x).mp hx).1,
      fun x hx => ?_⟩
    have hx := (List.mem_append.mp hx).resolve_left List.not_mem_nil
    exact htimers x ((hq.mem x).mp hx).1
  | run hr =>
    refine ⟨⟨u, hu⟩, htimers, fun x hx => hbatch x ((mem_batch hr).mpr ?_)⟩
    simpa [State.batch, HandleRead.expired] using hx
  | endRead clock hr hq =>
    have hvisited : ∀ x ∈ _, Entry.timer x ≠ id.timer := fun x hx =>
      hbatch x ((mem_batch hr).mpr (.inl hx))
    refine ⟨⟨u, (hq.other _ hvisited).trans hu.1, hu.2⟩, fun x hx => ?_, fun x hx => absurd hx List.not_mem_nil⟩
    obtain hold | ⟨y, hy, _, _, _, rfl⟩ := (hq.timers x).mp hx
    · exact htimers x hold
    · exact hvisited y hy

/-- A timer is created, and queued. -/
structure Created (s : State) (id : TimerId) (t : State) : Prop where
  fresh : s.queue.heap id.timer = none
  max : id.timer < uintptrMax
  sequence : id.sequence = s.queue.numCreated + 1
  rest : ∃ expiration interval, t = { s with queue := s.queue.newTimer id.timer expiration interval }

theorem Created.heap_of_alive (h : Created s id t) {a : Address} {u : Timer}
    (ha : s.queue.heap a = some u) : t.queue.heap a = some u := by
  obtain ⟨expiration, interval, rfl⟩ := h.rest
  have hne : a ≠ id.timer := by
    rintro rfl
    rw [h.fresh] at ha
    cases ha
  exact (Function.update_of_ne hne _ _).trans ha

theorem inv_created (h : Inv s) (hc : Created s id t) : Inv t := by
  obtain ⟨expiration, interval, rfl⟩ := hc.rest
  refine ⟨h.good.newTimer hc.fresh hc.max _ _, h.calling, fun x hx => ?_⟩
  exact (h.inserted x hx).trans (Nat.le_succ _)

theorem outside_created (hc : Created s id t) {id' : TimerId} (ho : Outside s id') : Outside t id' := by
  obtain ⟨⟨u, hu⟩, htimers, hbatch⟩ := ho
  have hheap := hc.heap_of_alive hu.1
  obtain ⟨expiration, interval, rfl⟩ := hc.rest
  exact ⟨⟨u, hheap, hu.2⟩, htimers, hbatch⟩

theorem outside_new (h : Inv s) (hc : Created s id t) : Outside t id := by
  obtain ⟨expiration, interval, rfl⟩ := hc.rest
  have hfresh : ∀ (x : Entry) u, s.queue.heap x.timer = some u → x.timer ≠ id.timer := by
    intro x u hu heq
    rw [heq, hc.fresh] at hu
    cases hu
  refine ⟨⟨_, Function.update_self .., ?_⟩, fun x hx => ?_, fun x hx => ?_⟩
  · rw [← hc.sequence]
    rfl
  · obtain ⟨u, hu, _⟩ := h.good.entry x hx
    exact hfresh x u hu
  · obtain ⟨u, hu, _⟩ := h.good.held x hx
    exact hfresh x u hu

theorem dead_created (h : Inv s) (hc : Created s id t) {id' : TimerId} (hd : Dead s id') : Dead t id' := by
  have hback : ∀ x ∈ s.batch, ∀ u, t.queue.heap x.timer = some u → s.queue.heap x.timer = some u := by
    intro x hx u hu
    obtain ⟨v, hv, _⟩ := h.good.held x hx
    rw [hc.heap_of_alive hv] at hu
    rw [hv, hu]
  obtain ⟨expiration, interval, rfl⟩ := hc.rest
  refine ⟨hd.sequence.trans (Nat.le_succ _), hd.active, ?_, fun r hr x hx u hu hid => ?_⟩
  · rintro ⟨r, hr, x, hx, u, hu, hid⟩
    have hr : s.reading = some r := hr
    exact hd.awaiting ⟨r, hr, x, hx, u, hback x ((mem_batch hr).mpr (.inr hx)) u hu, hid⟩
  · have hr : s.reading = some r := hr
    exact hd.visited r hr x hx u (hback x ((mem_batch hr).mpr (.inl hx)) u hu) hid

/-- A queued timer is put into both sets. -/
structure Added (s : State) (id : TimerId) (t : State) : Prop where
  rest : ∃ u timerfd inserted, s.queue.Alive id u ∧
    (∀ x ∈ inserted, x ∈ s.inserted ∨ x.id = id) ∧
    t = { s with queue := { s.queue.inserted id.timer u with timerfd }, inserted }

theorem inv_added (h : Inv s) (ho : Outside s id) (ha : Added s id t) : Inv t := by
  obtain ⟨u, timerfd, inserted, hu, hinserted, rfl⟩ := ha.rest
  refine ⟨(h.good.inserted hu.1 ho.timers ho.batch).with_timerfd _, h.calling, fun x hx => ?_⟩
  obtain hold | hnew := hinserted x hx
  · exact h.inserted x hold
  · rw [hnew, ← hu.2]
    exact h.good.sequence _ u hu.1

theorem outside_added (ha : Added s id t) {id' : TimerId} (ho : Outside s id') (hne : id'.timer ≠ id.timer) :
    Outside t id' := by
  obtain ⟨u, timerfd, inserted, hu, _, rfl⟩ := ha.rest
  refine ⟨ho.alive, fun x hx => ?_, ho.batch⟩
  obtain rfl | hold := OrderedSet.mem_insert.mp hx
  · exact hne.symm
  · exact ho.timers x hold

theorem dead_added (ha : Added s id t) {id' : TimerId} (hd : Dead s id') (hne : id' ≠ id) : Dead t id' := by
  obtain ⟨u, timerfd, inserted, hu, _, rfl⟩ := ha.rest
  refine ⟨hd.sequence, fun hmem => ?_, hd.awaiting, hd.visited⟩
  obtain rfl | hold := OrderedSet.mem_insert.mp hmem
  · exact hne hu.2
  · exact hd.active hold

end
end TimerLoop

namespace TimerThreads
open TimerLoop (Effect Outside Created Added Dead)

/-- What a step does to the timers, to the functors and to the cancellations. -/
inductive Change (s t : State T) (e : Event T) : Prop
  | keep (htimer : t.timer = s.timer)
      (hwork : work t.queue = work s.queue ∨ work t.queue = work s.queue ++ [.user] ∨
        work s.queue = .user :: work t.queue)
      (hcancels : t.cancels = s.cancels)
  | timer {e' : TimerLoop.Event} (he : Effect s.timer e' t.timer) (hwork : work t.queue = work s.queue)
      (hcancels : t.cancels = s.cancels)
  | cancel {id : TimerId} (heq : e = .loopCancel id) (he : Effect s.timer (.cancel id) t.timer)
      (hid : id ∈ s.returned)
      (hwork : work t.queue = work s.queue)
      (hcancels : t.cancels =
        if s.Unfired id then s.cancels ++ [⟨id, s.timer.started.length⟩] else s.cancels)
  | executeAdd {id : TimerId} (ha : Added s.timer id t.timer)
      (hwork : work s.queue = .addTimerInLoop id :: work t.queue) (hcancels : t.cancels = s.cancels)
  | executeCancel {id : TimerId} {unfired : Bool} (he : Effect s.timer (.cancel id) t.timer)
      (hreading : s.timer.reading = none)
      (hwork : work s.queue = .cancelInLoop id unfired :: work t.queue)
      (hcancels : t.cancels = s.cancels ++ if unfired then [⟨id, s.timer.started.length⟩] else [])
  | pushAdd {id : TimerId} (hc : Created s.timer id t.timer)
      (hwork : work t.queue = work s.queue ++ [.addTimerInLoop id]) (hcancels : t.cancels = s.cancels)
  | pushCancel {id : TimerId} {unfired : Bool} (htimer : t.timer = s.timer) (hid : id ∈ s.returned)
      (hwork : work t.queue = work s.queue ++ [.cancelInLoop id unfired])
      (hcancels : t.cancels = s.cancels)

/-- No timer is queued twice, and none behind its own `cancel`. -/
def Apart : TimerFunctor → TimerFunctor → Prop
  | .addTimerInLoop id, .addTimerInLoop id' => id.timer ≠ id'.timer
  | .cancelInLoop id _, .addTimerInLoop id' => id ≠ id'
  | .addTimerInLoop _, .cancelInLoop .. | .cancelInLoop .., .cancelInLoop .. | .user, _ | _, .user => True

/-- The queued timers are outside of both sets, and the numbers that have been given out are in use. -/
structure Queue (s : State T) : Prop where
  outside : ∀ id, .addTimerInLoop id ∈ work s.queue → Outside s.timer id
  apart : (work s.queue).Pairwise Apart
  cancelled : ∀ id unfired, .cancelInLoop id unfired ∈ work s.queue →
    id.sequence ≤ s.timer.queue.numCreated

structure Inv (s : State T) : Prop where
  queue : FunctorQueue.Inv s.queue
  timer : TimerLoop.Inv s.timer
  reading : s.timer.reading.isSome → s.queue.loop.position = .handling
  returned : ∀ id ∈ s.returned, id.sequence ≤ s.timer.queue.numCreated
  functors : Queue s

theorem addTimerInLoop_added {s : TimerLoop.State} {id : TimerId} (h : TimerLoop.Inv s)
    (ho : Outside s id) (clock : Timestamp) :
    ∃ t, addTimerInLoop s id.timer clock = .ok t ∧ Added s id t := by
  obtain ⟨u, hu⟩ := ho.alive
  refine ⟨{ s with
    queue := { s.queue.inserted id.timer u with
      timerfd := if s.queue.earliestChanged u.expiration then
        s.queue.timerfd.resetTimerfd u.expiration clock else s.queue.timerfd }
    inserted := s.inserted ++
      [⟨toLex (id.timer, u.sequence), u.expiration, u.interval, s.reads.length⟩] }, ?_,
    ⟨u, _, _, hu, fun x hx => ?_, rfl⟩⟩
  · simp only [addTimerInLoop, TimerQueue.deref_eq hu.1,
      TimerQueue.addTimerInLoop_eq h.good hu.1 ho.timers clock, ok_bind, pure_eq_ok]
  · refine (List.mem_append.mp hx).imp_right fun hnew => ?_
    rw [List.mem_singleton.mp hnew]
    exact hu.2

theorem userCode_timer {s : State T} (h : s.UserCode) : s.timer.UserCode := by
  unfold State.UserCode at h
  unfold TimerLoop.State.UserCode
  cases hr : s.timer.reading with
  | none => trivial
  | some r =>
    rw [hr] at h
    exact h.2

/-- A functor of the loop that is none of the timers'. -/
theorem queued_of_enabled {s : State T} {e : FunctorQueue.Event TimerFunctor T} (he : LoopEnabled s e) :
    queued e = [] ∨ queued e = [.user] := by
  cases e with
  | loopPush f | push _ f =>
    obtain ⟨rfl, _⟩ := he
    exact .inr rfl
  | poll | handle | endHandling | swap | execute | endFunctors | loopWakeup | loopQuit | quit | wakeup =>
    exact .inl rfl

section Steps
variable [DecidableEq T] {s t : State T} {e : Event T}

theorem change_loop {e : FunctorQueue.Event TimerFunctor T} {clock : Timestamp} (h : Inv s)
    (hen : enabled s (.loop e clock)) (hs : step s (.loop e clock) = .ok t) :
    Change s t (.loop e clock) := by
  obtain ⟨timer, htimer, hs⟩ := bind_eq_ok.mp hs
  obtain rfl : _ = t := Except.ok.inj hs
  obtain ⟨hqueue, hloop⟩ := hen
  by_cases hexec : e = .execute
  · subst hexec
    obtain ⟨hposition, _, hne⟩ := hqueue
    have hreading : s.timer.reading = none := by
      rw [← Option.not_isSome_iff_eq_none]
      intro hsome
      have hhandling := h.reading hsome
      rw [hposition] at hhandling
      cases hhandling
    obtain ⟨f, rest, hb⟩ := List.exists_cons_of_ne_nil hne
    have hwork := work_execute hb
    simp only [loopStep, hb] at htimer
    cases f with
    | addTimerInLoop id =>
      have hmem : .addTimerInLoop id ∈ work s.queue := by rw [hwork]; exact List.mem_cons_self
      obtain ⟨u, hu, hadded⟩ := addTimerInLoop_added h.timer (h.functors.outside id hmem) clock
      obtain rfl := Except.ok.inj (hu.symm.trans htimer)
      exact .executeAdd hadded hwork (by simp [loopCancelled, hb])
    | cancelInLoop id unfired =>
      have huser : s.timer.UserCode := by simp [TimerLoop.State.UserCode, hreading]
      obtain ⟨u, hu, heffect⟩ := TimerLoop.cancel_effect h.timer huser id
      obtain rfl := Except.ok.inj (hu.symm.trans htimer)
      refine .executeCancel heffect hreading hwork ?_
      cases unfired with
      | true => simp [loopCancelled, hb]
      | false => simp [loopCancelled, hb]
    | user =>
      obtain rfl := Except.ok.inj htimer
      exact .keep rfl (.inr (.inr hwork)) (by simp [loopCancelled, hb])
  · have hwork := work_exec h.queue hqueue hexec
    have hcancels : loopCancelled s e = [] := by
      cases e with
      | execute => exact absurd rfl hexec
      | poll | handle | endHandling | swap | endFunctors | loopPush | loopWakeup | loopQuit | push | quit
      | wakeup => rfl
    have hsame : timer = s.timer ∨ queued e = [] ∧ ∃ e', Effect s.timer e' timer := by
      cases e with
      | execute => exact absurd rfl hexec
      | handle =>
        obtain ⟨_, _, hne⟩ := hqueue
        obtain ⟨c, rest, hu⟩ := List.exists_cons_of_ne_nil hne
        simp only [loopStep, hu] at htimer
        split_ifs at htimer
        · exact .inr ⟨rfl, _, TimerLoop.effect_of_step h.timer (show TimerLoop.enabled s.timer (.handleRead clock) from hloop)
            htimer⟩
        · exact .inl (Except.ok.inj htimer).symm
      | poll | endHandling | swap | endFunctors | loopPush | loopWakeup | loopQuit | push | quit | wakeup =>
        exact .inl (Except.ok.inj htimer).symm
    obtain rfl | ⟨hnone, e', heffect⟩ := hsame
    · refine .keep rfl ?_ (by simp [hcancels])
      obtain hq | hq := queued_of_enabled hloop
      · left
        rw [hwork, hq, List.append_nil]
      · right; left
        rw [hwork, hq]
    · refine .timer heffect ?_ (by simp [hcancels])
      rw [hwork, hnone, List.append_nil]

theorem change_of_step (h : Inv s) (hen : enabled s e) (hs : step s e = .ok t) : Change s t e := by
  cases e with
  | loop e clock => exact change_loop h hen hs
  | run =>
    obtain ⟨timer, htimer, hs⟩ := bind_eq_ok.mp hs
    obtain rfl : _ = t := Except.ok.inj hs
    exact .timer (TimerLoop.effect_of_step h.timer hen.2 htimer) rfl rfl
  | endRead clock =>
    obtain ⟨timer, htimer, hs⟩ := bind_eq_ok.mp hs
    obtain rfl : _ = t := Except.ok.inj hs
    exact .timer (TimerLoop.effect_of_step h.timer hen.2 htimer) rfl rfl
  | expire =>
    obtain ⟨timer, htimer, hs⟩ := bind_eq_ok.mp hs
    obtain rfl : _ = t := Except.ok.inj hs
    have hen' : TimerLoop.enabled s.timer .expire := hen
    exact .timer (TimerLoop.effect_of_step h.timer hen' htimer) rfl rfl
  | loopAddTimer timer expiration interval clock =>
    obtain ⟨u, hu, hs⟩ := bind_eq_ok.mp hs
    obtain rfl : _ = t := Except.ok.inj hs
    obtain ⟨huser, hfree, hmax⟩ := hen
    have hen' : TimerLoop.enabled s.timer (.addTimer timer expiration interval clock) :=
      ⟨userCode_timer huser, Option.isNone_iff_eq_none.mp hfree, hmax⟩
    exact .timer (TimerLoop.effect_of_step h.timer hen' hu) rfl rfl
  | loopCancel id =>
    obtain ⟨u, hu, hs⟩ := bind_eq_ok.mp hs
    obtain rfl : _ = t := Except.ok.inj hs
    obtain ⟨v, hv, heffect⟩ := TimerLoop.cancel_effect h.timer (userCode_timer hen.1) id
    obtain rfl := Except.ok.inj (hv.symm.trans hu)
    exact .cancel rfl heffect hen.2 rfl rfl
  | addTimer thread timer expiration interval =>
    obtain rfl : _ = t := Except.ok.inj hs
    obtain ⟨_, _, hfree, hmax⟩ := hen
    have hcreated : Created s.timer (toLex (timer, s.timer.queue.numCreated + 1))
        { s.timer with queue := s.timer.queue.newTimer timer expiration interval } :=
      ⟨Option.isNone_iff_eq_none.mp hfree, hmax, rfl, expiration, interval, rfl⟩
    exact .pushAdd hcreated (List.append_assoc ..).symm rfl
  | returnId thread =>
    obtain ⟨_, hadding⟩ := hen
    obtain ⟨timer, htimer⟩ := Option.isSome_iff_exists.mp hadding
    simp only [step, htimer] at hs
    obtain ⟨u, hu, hs⟩ := bind_eq_ok.mp hs
    obtain rfl : _ = t := Except.ok.inj hs
    exact .keep rfl (.inl rfl) rfl
  | cancel thread id =>
    obtain rfl : _ = t := Except.ok.inj hs
    exact .pushCancel rfl hen.2.2 (List.append_assoc ..).symm rfl

end Steps

section Changes
variable {s t : State T} {e : Event T}

theorem numCreated_effect {s t : TimerLoop.State} {e : TimerLoop.Event} (he : Effect s e t) :
    s.queue.numCreated ≤ t.queue.numCreated := by
  cases he with
  | addTimer => exact Nat.le_succ _
  | erase | cancel | miss | expire | run => exact le_refl _
  | handleRead _ hq => exact hq.numCreated.ge
  | endRead _ _ hq => exact hq.numCreated.ge

theorem inv_change_timer (h : Inv s) (hc : Change s t e) : TimerLoop.Inv t.timer := by
  cases hc with
  | keep htimer | pushCancel htimer => exact htimer ▸ h.timer
  | timer he | cancel _ he | executeCancel he => exact TimerLoop.inv_effect h.timer he
  | executeAdd ha hwork =>
    have hmem := h.functors.outside _ (hwork ▸ List.mem_cons_self)
    exact TimerLoop.inv_added h.timer hmem ha
  | pushAdd hcreated => exact TimerLoop.inv_created h.timer hcreated

theorem numCreated_change (hc : Change s t e) : s.timer.queue.numCreated ≤ t.timer.queue.numCreated := by
  cases hc with
  | keep htimer | pushCancel htimer => rw [htimer]
  | timer he | cancel _ he | executeCancel he => exact numCreated_effect he
  | executeAdd ha =>
    obtain ⟨_, _, _, _, _, heq⟩ := ha.rest
    rw [heq]
    exact le_refl _
  | pushAdd hcreated =>
    obtain ⟨_, _, heq⟩ := hcreated.rest
    rw [heq]
    exact Nat.le_succ _

/-- The same functors, or fewer. -/
theorem Queue.of_sublist (h : Queue s) (hsub : (work t.queue).Sublist (work s.queue))
    (hnum : s.timer.queue.numCreated ≤ t.timer.queue.numCreated)
    (hout : ∀ id, .addTimerInLoop id ∈ work t.queue → Outside s.timer id → Outside t.timer id) :
    Queue t where
  outside id hid := hout id hid (h.outside id (hsub.mem hid))
  apart := h.apart.sublist hsub
  cancelled id unfired hid := (h.cancelled id unfired (hsub.mem hid)).trans hnum

/-- One functor more, at the end. -/
theorem Queue.push {f : TimerFunctor} (h : Queue s) (hwork : work t.queue = work s.queue ++ [f])
    (hnum : s.timer.queue.numCreated ≤ t.timer.queue.numCreated)
    (hout : ∀ id, Outside s.timer id → Outside t.timer id)
    (hadded : ∀ id, .addTimerInLoop id = f → Outside t.timer id)
    (hapart : ∀ g ∈ work s.queue, Apart g f)
    (hcancelled : ∀ id unfired, .cancelInLoop id unfired = f →
      id.sequence ≤ t.timer.queue.numCreated) : Queue t where
  outside id hid := by
    rw [hwork] at hid
    obtain hold | hlast := List.mem_append.mp hid
    · exact hout id (h.outside id hold)
    · exact hadded id (List.mem_singleton.mp hlast)
  apart := by
    rw [hwork]
    refine List.pairwise_append.mpr ⟨h.apart, List.pairwise_singleton _ _, fun g hg f' hf => ?_⟩
    rw [List.mem_singleton.mp hf]
    exact hapart g hg
  cancelled id unfired hid := by
    rw [hwork] at hid
    obtain hold | hlast := List.mem_append.mp hid
    · exact (h.cancelled id unfired hold).trans hnum
    · exact hcancelled id unfired (List.mem_singleton.mp hlast)

/-- The timer of a call of `addTimer` is at an address that no queued functor knows, and has a
number that none of them has. -/
theorem Queue.apart_created {id : TimerId} (h : Queue s) (hc : Created s.timer id t.timer) :
    ∀ g ∈ work s.queue, Apart g (.addTimerInLoop id) := by
  intro g hg
  cases g with
  | user => trivial
  | addTimerInLoop id' =>
    obtain ⟨u, hu⟩ := (h.outside id' hg).alive
    intro heq
    have hheap := hu.1
    rw [heq, hc.fresh] at hheap
    cases hheap
  | cancelInLoop id' unfired =>
    have hle := h.cancelled id' unfired hg
    rintro rfl
    have hseq := hc.sequence
    omega

theorem queue_change (h : Inv s) (hc : Change s t e) : Queue t := by
  have hnum := numCreated_change hc
  have hQ := h.functors
  cases hc with
  | keep htimer hwork =>
    have hout : ∀ id, Outside s.timer id → Outside t.timer id := fun id ho => htimer ▸ ho
    obtain hw | hw | hw := hwork
    · exact hQ.of_sublist (hw ▸ List.Sublist.refl _) hnum fun id _ => hout id
    · refine hQ.push hw hnum hout (fun id heq => by cases heq) (fun g _ => ?_)
        (fun id unfired heq => by cases heq)
      cases g with
      | addTimerInLoop | cancelInLoop | user => trivial
    · exact hQ.of_sublist (hw ▸ List.sublist_cons_self _ _) hnum fun id _ => hout id
  | timer he hw | cancel _ he _ hw =>
    exact hQ.of_sublist (hw ▸ List.Sublist.refl _) hnum
      fun id _ ho => TimerLoop.outside_effect h.timer ho he
  | executeAdd ha hw =>
    refine hQ.of_sublist (hw ▸ List.sublist_cons_self _ _) hnum fun id hid ho => ?_
    have hapart := hQ.apart
    rw [hw] at hapart
    have hne := (List.pairwise_cons.mp hapart).1 _ hid
    exact TimerLoop.outside_added ha ho hne.symm
  | executeCancel he _ hw =>
    exact hQ.of_sublist (hw ▸ List.sublist_cons_self _ _) hnum
      fun id _ ho => TimerLoop.outside_effect h.timer ho he
  | @pushAdd id hcreated hw =>
    refine hQ.push hw hnum (fun id' ho => TimerLoop.outside_created hcreated ho)
      (fun id' heq => ?_) (hQ.apart_created hcreated) (fun id' unfired heq => by cases heq)
    obtain rfl := TimerFunctor.addTimerInLoop.inj heq
    exact TimerLoop.outside_new h.timer hcreated
  | @pushCancel id unfired htimer hreturned hw =>
    refine hQ.push hw hnum (fun id' ho => htimer ▸ ho) (fun id' heq => by cases heq) (fun g _ => ?_)
      (fun id' unfired' heq => ?_)
    · cases g with
      | addTimerInLoop | cancelInLoop | user => trivial
    · obtain ⟨rfl, _⟩ := TimerFunctor.cancelInLoop.inj heq
      exact (h.returned id' hreturned).trans hnum

/-- The loop thread cancels no timer that has not been run while it is queued, or between its
expiration and its turn. -/
def CancelsKnown (s : State T) : Event T → Prop
  | .loopCancel id => s.Unfired id →
    .addTimerInLoop id ∉ s.queue.loop.batch ++ s.queue.loop.pendingFunctors ∧ ¬s.timer.Awaiting id
  | .loop .. | .run | .endRead _ | .expire | .loopAddTimer .. | .addTimer .. | .returnId _ | .cancel .. => True

instance (s : State T) : (e : Event T) → Decidable (CancelsKnown s e)
  | .loopCancel _ => inferInstanceAs (Decidable (_ → _ ∧ _))
  | .loop .. | .run | .endRead _ | .expire | .loopAddTimer .. | .addTimer .. | .returnId _ | .cancel .. =>
    inferInstanceAs (Decidable True)

/-- Once `cancel` has been executed, the callback of the timer is not started, and the timer is
not in `timers_`. -/
def Effective (s : State T) : Prop := ∀ c ∈ s.cancels,
  (∀ st ∈ s.timer.started.drop c.starts, st.id ≠ c.id) ∧
  ∀ x ∈ s.timer.queue.timers.elements, ∀ u ∈ s.timer.queue.heap x.timer, toLex (x.timer, u.sequence) ≠ c.id

instance (s : State T) : Decidable (Effective s) := inferInstanceAs (Decidable (∀ c ∈ s.cancels, _))

def Silent (s : State T) (c : TimerLoop.Cancellation) : Prop :=
  c.starts ≤ s.timer.started.length ∧ Dead s.timer c.id ∧ .addTimerInLoop c.id ∉ work s.queue ∧
    ∀ st ∈ s.timer.started.drop c.starts, st.id ≠ c.id

theorem Silent.of_started {c : TimerLoop.Cancellation} (h : Silent s c)
    (hstarted : ∃ new, t.timer.started = s.timer.started ++ new ∧ ∀ st ∈ new, s.timer.Awaiting st.id)
    (hd : Dead t.timer c.id) (hw : .addTimerInLoop c.id ∉ work t.queue) : Silent t c := by
  obtain ⟨hlen, hdead, _, hne⟩ := h
  obtain ⟨new, heq, hnew⟩ := hstarted
  refine ⟨by rw [heq, List.length_append]; omega, hd, hw, fun st hst hid => ?_⟩
  rw [heq, List.drop_append_of_le_length hlen] at hst
  obtain hst | hst := List.mem_append.mp hst
  · exact hne st hst hid
  · exact hdead.awaiting (hid ▸ hnew st hst)

theorem started_same (h : t.timer.started = s.timer.started) :
    ∃ new, t.timer.started = s.timer.started ++ new ∧ ∀ st ∈ new, s.timer.Awaiting st.id :=
  ⟨[], by rw [h, List.append_nil], fun _ hst => absurd hst List.not_mem_nil⟩

theorem silent_change {c : TimerLoop.Cancellation} (h : Inv s) (hs : Silent s c) (hc : Change s t e) :
    Silent t c := by
  have hd : Dead s.timer c.id := hs.2.1
  have hw : .addTimerInLoop c.id ∉ work s.queue := hs.2.2.1
  cases hc with
  | keep htimer hwork =>
    refine hs.of_started (started_same (by rw [htimer])) (htimer ▸ hd) fun hmem => hw ?_
    obtain heq | heq | heq := hwork
    · exact heq ▸ hmem
    · rw [heq] at hmem
      refine (List.mem_append.mp hmem).resolve_right ?_
      simp
    · rw [heq]
      exact List.mem_cons_of_mem _ hmem
  | timer he hwork | cancel _ he _ hwork =>
    exact hs.of_started (TimerLoop.started_effect he) (TimerLoop.dead_of_effect h.timer hd he) (hwork ▸ hw)
  | @executeAdd id ha hwork =>
    have hne : c.id ≠ id := by
      rintro rfl
      exact hw (hwork ▸ List.mem_cons_self)
    refine hs.of_started (started_same ?_) (TimerLoop.dead_added ha hd hne) fun hmem => hw ?_
    · obtain ⟨_, _, _, _, _, heq⟩ := ha.rest
      rw [heq]
    · rw [hwork]
      exact List.mem_cons_of_mem _ hmem
  | executeCancel he _ hwork =>
    refine hs.of_started (TimerLoop.started_effect he) (TimerLoop.dead_of_effect h.timer hd he)
      fun hmem => hw ?_
    rw [hwork]
    exact List.mem_cons_of_mem _ hmem
  | @pushAdd id hcreated hwork =>
    refine hs.of_started (started_same ?_) (TimerLoop.dead_created h.timer hcreated hd) fun hmem => ?_
    · obtain ⟨_, _, heq⟩ := hcreated.rest
      rw [heq]
    · rw [hwork] at hmem
      obtain hold | hnew := List.mem_append.mp hmem
      · exact hw hold
      · -- the number of a new timer has not been given out before
        have hseq := hcreated.sequence
        have hle := hd.sequence
        rw [TimerFunctor.addTimerInLoop.inj (List.mem_singleton.mp hnew)] at hle
        omega
  | pushCancel htimer _ hwork =>
    refine hs.of_started (started_same (by rw [htimer])) (htimer ▸ hd) fun hmem => hw ?_
    rw [hwork] at hmem
    refine (List.mem_append.mp hmem).resolve_right ?_
    simp

/-- A `cancel` takes effect if its timer is not queued, and is not awaiting its turn. -/
theorem silent_cancel {id : TimerId} (h : Inv s) (hseq : id.sequence ≤ s.timer.queue.numCreated)
    (ha : ¬s.timer.Awaiting id) (he : Effect s.timer (.cancel id) t.timer)
    (hw : .addTimerInLoop id ∉ work t.queue) : Silent t ⟨id, s.timer.started.length⟩ := by
  have hsame : t.timer.started = s.timer.started := by
    generalize t.timer = timer at he
    cases he with
    | erase | cancel | miss => rfl
  refine ⟨(congrArg List.length hsame).ge, TimerLoop.dead_of_cancel h.timer hseq ha he, hw, ?_⟩
  rw [hsame]
  simp

/-- Only the handler of the timerfd channel starts `handleRead`. -/
theorem reading_loopStep {e : FunctorQueue.Event TimerFunctor T} {clock : Timestamp} {timer : TimerLoop.State}
    (h : loopStep s e clock = .ok timer) (hne : e ≠ .handle) : timer.reading = s.timer.reading := by
  cases e with
  | handle => exact absurd rfl hne
  | execute =>
    simp only [loopStep] at h
    split at h
    · obtain ⟨_, _, h⟩ := bind_eq_ok.mp h
      obtain ⟨_, _, h⟩ := bind_eq_ok.mp h
      rw [← Except.ok.inj h]
    · obtain ⟨_, _, h⟩ := bind_eq_ok.mp h
      rw [← Except.ok.inj h]
    · rw [Except.ok.inj h]
    · rw [Except.ok.inj h]
  | poll | endHandling | swap | endFunctors | loopPush | loopWakeup | loopQuit | push | quit | wakeup =>
    rw [Except.ok.inj h]

theorem inv_initial (h : Initial s) : Inv s := by
  have hwork : work s.queue = [] := by
    rw [work, h.queue.batch, h.queue.pendingFunctors]
    rfl
  refine ⟨FunctorQueue.inv_init h.queue, ?_, fun hr => ?_, fun id hid => ?_, fun id hid => ?_, ?_,
    fun id unfired hid => ?_⟩
  · rw [h.timer]
    exact TimerLoop.inv_initial
  · rw [h.timer] at hr
    cases hr
  · rw [h.returned] at hid
    exact absurd hid List.not_mem_nil
  · rw [hwork] at hid
    exact absurd hid List.not_mem_nil
  · rw [hwork]
    exact .nil
  · rw [hwork] at hid
    exact absurd hid List.not_mem_nil

theorem effective_of_silent (h : Inv s) (hs : ∀ c ∈ s.cancels, Silent s c) : Effective s := by
  intro c hc
  obtain ⟨_, hd, _, hne⟩ := hs c hc
  refine ⟨hne, fun x hx u hu hid => hd.active ?_⟩
  rw [← hid]
  exact h.timer.good.mem_active hx hu

end Changes

section Runs
variable [DecidableEq T] {s t : State T} {e : Event T}

theorem position_exec {q : FunctorQueue.State TimerFunctor T} {e : FunctorQueue.Event TimerFunctor T}
    (hp : q.loop.position = .handling) (he : FunctorQueue.enabled q e) (hne : e ≠ .endHandling) :
    (FunctorQueue.exec q e).loop.position = .handling := by
  cases e with
  | endHandling => exact absurd rfl hne
  | poll | execute | endFunctors =>
    have hother := he.1
    rw [hp] at hother
    cases hother
  | swap =>
    have hother : q.loop.position = .swapping := he
    rw [hp] at hother
    cases hother
  | handle =>
    simp only [FunctorQueue.exec]
    split
    · exact hp
    · split_ifs
      · exact hp
      · exact hp
  | loopPush | loopWakeup | loopQuit | push | quit | wakeup => exact hp

theorem queueInv_step (h : Inv s) (hen : enabled s e) (hs : step s e = .ok t) :
    FunctorQueue.Inv t.queue := by
  cases e with
  | loop e clock =>
    obtain ⟨_, _, hs⟩ := bind_eq_ok.mp hs
    obtain rfl : _ = t := Except.ok.inj hs
    exact FunctorQueue.inv_exec h.queue hen.1
  | run | endRead | expire | loopAddTimer | loopCancel =>
    obtain ⟨_, _, hs⟩ := bind_eq_ok.mp hs
    obtain rfl : _ = t := Except.ok.inj hs
    exact h.queue
  | addTimer thread =>
    obtain rfl : _ = t := Except.ok.inj hs
    exact FunctorQueue.inv_push h.queue
  | cancel thread =>
    obtain rfl : _ = t := Except.ok.inj hs
    exact FunctorQueue.inv_push h.queue
  | returnId thread =>
    obtain ⟨timer, htimer⟩ := Option.isSome_iff_exists.mp hen.2
    simp only [step, htimer] at hs
    obtain ⟨_, _, hs⟩ := bind_eq_ok.mp hs
    obtain rfl : _ = t := Except.ok.inj hs
    exact h.queue

theorem reading_step (h : Inv s) (hen : enabled s e) (hs : step s e = .ok t)
    (hreading : t.timer.reading.isSome) : t.queue.loop.position = .handling := by
  cases e with
  | loop e clock =>
    obtain ⟨timer, htimer, hs⟩ := bind_eq_ok.mp hs
    obtain rfl : _ = t := Except.ok.inj hs
    obtain ⟨hqueue, hloop⟩ := hen
    have hp : s.queue.loop.position = .handling := by
      by_cases hhandle : e = .handle
      · subst hhandle
        exact hqueue.1
      · refine h.reading ?_
        rw [← reading_loopStep htimer hhandle]
        exact hreading
    refine position_exec hp hqueue ?_
    rintro rfl
    have hnone : s.timer.reading.isNone := hloop
    rw [← reading_loopStep htimer (by simp)] at hnone
    simp [Option.isNone_iff_eq_none.mp hnone] at hreading
  | run =>
    obtain ⟨r, hr, _⟩ := hen.2
    obtain ⟨_, _, hs⟩ := bind_eq_ok.mp hs
    obtain rfl : _ = t := Except.ok.inj hs
    exact h.reading (Option.isSome_iff_exists.mpr ⟨r, hr⟩)
  | endRead =>
    obtain ⟨r, hr, _⟩ := hen.2
    obtain ⟨_, _, hs⟩ := bind_eq_ok.mp hs
    obtain rfl : _ = t := Except.ok.inj hs
    exact h.reading (Option.isSome_iff_exists.mpr ⟨r, hr⟩)
  | expire =>
    obtain ⟨timer, htimer, hs⟩ := bind_eq_ok.mp hs
    obtain rfl : _ = t := Except.ok.inj hs
    rw [← Except.ok.inj htimer] at hreading
    exact h.reading hreading
  | loopAddTimer | loopCancel =>
    obtain ⟨timer, htimer, hs⟩ := bind_eq_ok.mp hs
    obtain rfl : _ = t := Except.ok.inj hs
    obtain ⟨_, _, htimer⟩ := bind_eq_ok.mp htimer
    rw [← Except.ok.inj htimer] at hreading
    exact h.reading hreading
  | addTimer | cancel =>
    obtain rfl : _ = t := Except.ok.inj hs
    exact h.reading hreading
  | returnId thread =>
    obtain ⟨timer, htimer⟩ := Option.isSome_iff_exists.mp hen.2
    simp only [step, htimer] at hs
    obtain ⟨_, _, hs⟩ := bind_eq_ok.mp hs
    obtain rfl : _ = t := Except.ok.inj hs
    exact h.reading hreading

theorem returned_step (h : Inv s) (hen : enabled s e) (hs : step s e = .ok t) {id : TimerId}
    (hid : id ∈ t.returned) : id ∈ s.returned ∨ id.sequence ≤ t.timer.queue.numCreated := by
  cases e with
  | loop | run | endRead | expire | loopCancel =>
    obtain ⟨_, _, hs⟩ := bind_eq_ok.mp hs
    obtain rfl : _ = t := Except.ok.inj hs
    exact .inl hid
  | loopAddTimer =>
    obtain ⟨_, _, hs⟩ := bind_eq_ok.mp hs
    obtain rfl : _ = t := Except.ok.inj hs
    refine (List.mem_append.mp hid).imp_right fun hnew => ?_
    rw [List.mem_singleton.mp hnew]
    exact le_refl _
  | addTimer | cancel =>
    obtain rfl : _ = t := Except.ok.inj hs
    exact .inl hid
  | returnId thread =>
    obtain ⟨timer, htimer⟩ := Option.isSome_iff_exists.mp hen.2
    simp only [step, htimer] at hs
    obtain ⟨u, hu, hs⟩ := bind_eq_ok.mp hs
    obtain rfl : _ = t := Except.ok.inj hs
    refine (List.mem_append.mp hid).imp_right fun hnew => ?_
    rw [List.mem_singleton.mp hnew]
    refine h.timer.good.sequence timer u ?_
    unfold TimerQueue.deref at hu
    split at hu
    · rwa [← Except.ok.inj hu]
    · cases hu

theorem inv_step (h : Inv s) (hen : enabled s e) (hs : step s e = .ok t) : Inv t := by
  have hc := change_of_step h hen hs
  refine ⟨queueInv_step h hen hs, inv_change_timer h hc, reading_step h hen hs, fun id hid => ?_,
    queue_change h hc⟩
  obtain hold | hle := returned_step h hen hs hid
  · exact (h.returned id hold).trans (numCreated_change hc)
  · exact hle

/-- The guard decides about the `cancel`s of the loop thread; the functors of the others come
behind those of their timers. -/
theorem silent_step (h : Inv s) (hs : ∀ c ∈ s.cancels, Silent s c) (hC : CancelsKnown s e)
    (hen : enabled s e) (hstep : step s e = .ok t) : ∀ c ∈ t.cancels, Silent t c := by
  have hc := change_of_step h hen hstep
  have hold : ∀ c ∈ s.cancels, Silent t c := fun c hmem => silent_change h (hs c hmem) hc
  intro c hmem
  cases hc with
  | keep _ _ hcancels | timer _ _ hcancels | executeAdd _ _ hcancels | pushAdd _ _ hcancels
  | pushCancel _ _ _ hcancels =>
    rw [hcancels] at hmem
    exact hold c hmem
  | @cancel id heq he hid hwork hcancels =>
    subst heq
    rw [hcancels] at hmem
    split_ifs at hmem with hunfired
    · obtain hmem | hmem := List.mem_append.mp hmem
      · exact hold c hmem
      · obtain ⟨hqueued, hawaiting⟩ := hC hunfired
        rw [List.mem_singleton.mp hmem]
        exact silent_cancel h (h.returned id hid) hawaiting he (hwork ▸ hqueued)
    · exact hold c hmem
  | @executeCancel id unfired he hreading hwork hcancels =>
    rw [hcancels] at hmem
    obtain hmem | hmem := List.mem_append.mp hmem
    · exact hold c hmem
    · cases unfired with
      | false => exact absurd hmem List.not_mem_nil
      | true =>
        have hawaiting : ¬s.timer.Awaiting id := by
          rintro ⟨r, hr, _⟩
          rw [hreading] at hr
          cases hr
        have hseq := h.functors.cancelled id true (hwork ▸ List.mem_cons_self)
        have hapart := h.functors.apart
        rw [hwork] at hapart
        rw [List.mem_singleton.mp hmem]
        refine silent_cancel h hseq hawaiting he fun hqueued => ?_
        exact (List.pairwise_cons.mp hapart).1 _ hqueued rfl

end Runs

theorem guardedInvariant (T : Type) [DecidableEq T] : GuardedInvariant (system T)
    (fun s => Inv s ∧ ∀ c ∈ s.cancels, Silent s c) CancelsKnown where
  init s hs := by
    refine ⟨inv_initial hs, fun c hc => ?_⟩
    rw [hs.cancels] at hc
    exact absurd hc List.not_mem_nil
  keeps s e t h hC he hs := ⟨inv_step h.1 he hs, silent_step h.1 h.2 hC he hs⟩

/-- In every run in which the loop thread cancels no timer that is still queued or awaits its
turn, every executed `cancel` is effective in every state. -/
theorem effective_of_guarded [DecidableEq T] {s : State T} {es : List (Event T)} (hs : Initial s)
    (hg : Guarded (system T) CancelsKnown s es) : Throughout (system T) Effective s es :=
  (guardedInvariant T).throughout _ (fun _ h => effective_of_silent h.1 h.2) hs hg

/-- The timerfd channel is channel 1. -/
def entered : State ℕ where
  queue :=
    { loop := EventLoop.entered 0 EPollPoller.new 0
      loopWaking := false
      waking _ := false
      running := false
      pushed := []
      executed := [] }
  timer := TimerLoop.initial
  timerfdChannel := 1
  adding _ := none
  returned := []
  cancels := []

theorem initial_entered : Initial entered := ⟨⟨rfl, rfl, rfl, rfl, rfl, rfl, rfl⟩, rfl, rfl, rfl⟩

/-- Thread 2 adds a timer, and a handler of the loop thread cancels it before the functor has
been executed. -/
def earlyCancel : List (Event ℕ) :=
  [.addTimer 2 100 10 0, .loop (.wakeup 2) 0, .returnId 2, .loop (.poll [5]) 0, .loop .handle 0,
    .loopCancel (toLex (100, 1)), .loop .endHandling 0, .loop .swap 0, .loop .execute 1]

theorem earlyCancel_remains : ∃ t, Run (system ℕ) entered earlyCancel t ∧ ¬Effective t := by
  have hreplay : (replay (system ℕ) entered earlyCancel).any (fun t => decide (¬Effective t)) = true := by
    decide +kernel
  obtain ⟨t, hr, ht⟩ := exists_run_of_replay _ hreplay
  exact ⟨t, hr, of_decide_eq_true ht⟩

/-- The same with the `cancel` in thread 3. -/
def queuedCancel : List (Event ℕ) :=
  [.addTimer 2 100 10 0, .loop (.wakeup 2) 0, .returnId 2, .cancel 3 (toLex (100, 1)), .loop (.wakeup 3) 0,
    .loop (.poll [0]) 0, .loop .handle 0, .loop .endHandling 0, .loop .swap 0, .loop .execute 1,
    .loop .execute 2, .loop .endFunctors 0]

theorem queuedCancel_effective : ∃ t, Run (system ℕ) entered queuedCancel t ∧
    Throughout (system ℕ) Effective entered queuedCancel := by
  have hreplay : (replay (restrict (system ℕ) CancelsKnown) entered queuedCancel).any (fun _ => true) =
      true := by decide +kernel
  obtain ⟨t, hr, _⟩ := exists_run_of_replay _ hreplay
  exact ⟨t, run_of_restrict _ hr, effective_of_guarded initial_entered (restrict_guarded _ hr)⟩

end TimerThreads
end Muduo

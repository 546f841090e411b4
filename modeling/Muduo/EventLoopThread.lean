import Muduo.FunctorQueue

/-!
# EventLoopThread

`net/EventLoopThread.cc`: the owner runs `startLoop()` and later the destructor, the
thread it starts runs `threadFunc()`. The critical sections of `startLoop` and
`threadFunc` are single steps. The destructor's `quit()` is two steps, the store to
`quit_` and the `wakeup()`; the prologue of `loop()` and its first test of `quit_`
are two steps as well. Other threads may queue functors.
-/
namespace Muduo.EventLoopThread
open StepSystem

/-- Where `threadFunc` stands. -/
inductive LoopThread
  /-- `thread_.start()` has not been called -/
  | created
  /-- in `callback_` -/
  | callback
  /-- at `loop_ = &loop` -/
  | publishing
  /-- at `looping_ = true; quit_ = false` of `loop()` -/
  | entering
  /-- at the first test of `quit_` -/
  | testing
  | looping
  | returned
  deriving DecidableEq, Repr

/-- Where the owner stands. -/
inductive Owner
  | constructed
  /-- in `startLoop`, at the test of `loop_` -/
  | checking
  /-- in `cond_.wait()` -/
  | waiting
  | started
  /-- in the destructor, at `quit_ = true` -/
  | exiting
  /-- at `wakeup()` -/
  | waking
  /-- in `thread_.join()` -/
  | joining
  | joined
  deriving DecidableEq, Repr

/-- The destructor's `quit()` has set `quit_`. -/
def Owner.HasQuit (o : Owner) : Prop := o = waking ∨ o = joining ∨ o = joined

instance (o : Owner) : Decidable o.HasQuit := inferInstanceAs (Decidable (_ ∨ _ ∨ _))

structure State (F T : Type) where
  /-- `loop`, and the calls of other threads on it -/
  queue : FunctorQueue.State F T
  /-- `loop_ != NULL` -/
  published : Bool
  /-- `exiting_` -/
  exiting : Bool
  thread : LoopThread
  owner : Owner

inductive Event (F T : Type)
  /-- the owner calls `thread_.start()` -/
  | start
  /-- `callback_` queues a functor -/
  | callbackPush (cb : F)
  | endCallback
  | publish
  /-- the owner tests `loop_` -/
  | check
  /-- the owner's `wait()` returns, notified or not -/
  | wake
  /-- the destructor begins -/
  | destroy
  | quit
  | wakeup
  | join
  /-- the prologue of `loop()` -/
  | enter
  /-- the first test of `quit_` -/
  | test
  /-- a step inside `loop()`, or of a thread that queues a functor -/
  | loop (e : FunctorQueue.Event F T)
  /-- `loop()` returns -/
  | leave

variable {F T : Type}

/-- `loop()` is entered and nobody but the destructor calls `quit()`. -/
def loopEnabled (owner : T) (s : State F T) : FunctorQueue.Event F T → Prop
  | .push t _ | .wakeup t => s.published = true ∧ (t = owner → s.owner = .started)
  | .quit _ | .loopQuit => False
  | .poll _ | .handle | .endHandling | .swap | .execute | .endFunctors | .loopPush _
  | .loopWakeup => s.thread = .looping

def enabled (owner : T) (s : State F T) : Event F T → Prop
  | .start => s.owner = .constructed
  | .callbackPush _ | .endCallback => s.thread = .callback
  | .publish => s.thread = .publishing
  | .check => s.owner = .checking
  | .wake => s.owner = .waiting
  | .destroy => s.owner = .started ∧ s.queue.waking owner = false
  | .quit => s.owner = .exiting
  | .wakeup => s.owner = .waking
  | .join => s.owner = .joining ∧ s.thread = .returned
  | .enter => s.thread = .entering
  | .test => s.thread = .testing
  | .loop e => FunctorQueue.enabled s.queue e ∧ loopEnabled owner s e
  | .leave => s.thread = .looping ∧ s.queue.loop.position = .exited

section Exec
variable [DecidableEq T]

instance decidableLoopEnabled (owner : T) (s : State F T) (e : FunctorQueue.Event F T) :
    Decidable (loopEnabled owner s e) := by
  cases e <;> unfold loopEnabled <;> infer_instance

instance decidableEnabled (owner : T) (s : State F T) :
    (e : Event F T) → Decidable (enabled owner s e)
  | .destroy | .join | .loop _ | .leave => inferInstanceAs (Decidable (_ ∧ _))
  | .start | .callbackPush _ | .endCallback | .publish | .check | .wake | .quit | .wakeup | .enter
  | .test => inferInstanceAs (Decidable (_ = _))

def setLoop (s : State F T) (loop : EventLoop F) : State F T :=
  { s with queue := { s.queue with loop } }

def exec (owner : T) (s : State F T) : Event F T → State F T
  | .start => { s with owner := .checking, thread := .callback }
  | .callbackPush cb => setLoop s (s.queue.loop.push cb)
  | .endCallback => { s with thread := .publishing }
  | .publish => { s with published := true, thread := .entering }
  | .check => { s with owner := if s.published then .started else .waiting }
  | .wake => { s with owner := .checking }
  | .destroy => { s with exiting := true, owner := .exiting }
  | .quit => { s with queue := FunctorQueue.exec s.queue (.quit owner), owner := .waking }
  | .wakeup => { s with queue := FunctorQueue.exec s.queue (.wakeup owner), owner := .joining }
  | .join => { s with owner := .joined }
  | .enter => { setLoop s { s.queue.loop with quit := false } with thread := .testing }
  | .test =>
    let position := if s.queue.loop.quit then .exited else .poll
    { setLoop s { s.queue.loop with position } with thread := .looping }
  | .loop e => { s with queue := FunctorQueue.exec s.queue e }
  | .leave => { s with thread := .returned }

end Exec

/-- `EventLoopThread::EventLoopThread` has run. -/
structure Constructed (s : State F T) : Prop where
  queue : FunctorQueue.Entered s.queue
  waking : ∀ t, s.queue.waking t = false
  published : s.published = false
  exiting : s.exiting = false
  thread : s.thread = .created
  owner : s.owner = .constructed

def system (F : Type) {T : Type} [DecidableEq T] (owner : T) :
    System (State F T) (Event F T) Assertion where
  init := Constructed
  enabled := enabled owner
  step s e := .ok (exec owner s e)

instance (F : Type) {T : Type} [DecidableEq T] (owner : T) (s : State F T) (e : Event F T) :
    Decidable ((system F owner).enabled s e) := decidableEnabled owner s e

/-- The loop thread has left `loop()`. -/
def Left (s : State F T) : Prop :=
  s.thread = .returned ∨ s.thread = .looping ∧ s.queue.loop.position = .exited

/-- Once the destructor's `quit()` has set `quit_`, it is set or the loop has been left. -/
def QuitKept (s : State F T) : Prop :=
  s.owner.HasQuit → s.queue.loop.quit = true ∨ Left s

/-- The prologue of `loop()` does not come after the destructor's `quit()`. -/
def EntersFirst (s : State F T) : Event F T → Prop
  | .enter => ¬s.owner.HasQuit
  | .start | .callbackPush _ | .endCallback | .publish | .check | .wake | .destroy | .quit | .wakeup
  | .join | .test | .loop _ | .leave => True

instance (s : State F T) : (e : Event F T) → Decidable (EntersFirst s e)
  | .enter => inferInstanceAs (Decidable (¬_))
  | .start | .callbackPush _ | .endCallback | .publish | .check | .wake | .destroy | .quit | .wakeup
  | .join | .test | .loop _ | .leave => inferInstanceAs (Decidable True)

section Steps
variable [DecidableEq T] {owner : T} {s t : State F T}

/-- No step inside `loop()` or of a queueing thread resets `quit_` or re-enters the loop. -/
theorem quit_queue_exec {e : FunctorQueue.Event F T} (hl : loopEnabled owner s e) :
    (FunctorQueue.exec s.queue e).loop.quit = s.queue.loop.quit := by
  cases e with
  | quit | loopQuit => exact hl.elim
  | poll | endHandling | swap | endFunctors | loopPush | loopWakeup | push | wakeup => rfl
  | handle =>
    simp only [FunctorQueue.exec]
    split
    · rfl
    · split_ifs
      · rfl
      · rfl
  | execute =>
    simp only [FunctorQueue.exec]
    split
    · rfl
    · rfl

theorem exited_queue_exec {e : FunctorQueue.Event F T} (he : FunctorQueue.enabled s.queue e)
    (hp : s.queue.loop.position = .exited) :
    (FunctorQueue.exec s.queue e).loop.position = .exited := by
  cases e with
  | poll | handle | endHandling | swap | execute | endFunctors =>
    simp [FunctorQueue.enabled, hp] at he
  | loopPush | loopWakeup | loopQuit | push | quit | wakeup => exact hp

theorem left_loop {e : FunctorQueue.Event F T} (he : FunctorQueue.enabled s.queue e)
    (h : Left s) : Left (exec owner s (.loop e)) := by
  obtain hr | ⟨hl, hp⟩ := h
  · exact .inl hr
  · exact .inr ⟨hl, exited_queue_exec he hp⟩

theorem hasQuit_not {o : Owner} (h : o = .constructed ∨ o = .checking ∨ o = .waiting ∨
    o = .started ∨ o = .exiting) : ¬o.HasQuit := by
  obtain rfl | rfl | rfl | rfl | rfl := h <;> simp [Owner.HasQuit]

/-- Every step but the prologue of `loop()` keeps a `quit_` that has been set. -/
theorem quitKept_exec {e : Event F T} (h : QuitKept s) (he : enabled owner s e)
    (hC : EntersFirst s e) : QuitKept (exec owner s e) := by
  cases e with
  | start | wake | destroy => exact fun hq => absurd hq (hasQuit_not (by simp [exec]))
  | check =>
    intro hq
    refine absurd hq (hasQuit_not ?_)
    simp only [exec]
    split_ifs
    · simp
    · simp
  | callbackPush cb =>
    intro hq
    refine (h hq).imp_right fun hl => ?_
    rcases hl with hr | ⟨hl, _⟩
    · exact .inl hr
    · have hc : s.thread = .callback := he
      rw [hl] at hc
      cases hc
  | endCallback =>
    intro hq
    refine (h hq).imp_right fun hl => ?_
    have hc : s.thread = .callback := he
    simp [Left, hc] at hl
  | publish =>
    intro hq
    refine (h hq).imp_right fun hl => ?_
    have hc : s.thread = .publishing := he
    simp [Left, hc] at hl
  | quit => exact fun _ => .inl rfl
  | wakeup => exact fun _ => h (.inl he)
  | join => exact fun _ => h (.inr (.inl he.1))
  | enter => exact fun hq => absurd hq hC
  | test =>
    intro hq
    left
    refine (h hq).resolve_right fun hl => ?_
    have hc : s.thread = .testing := he
    simp [Left, hc] at hl
  | loop e =>
    intro hq
    refine (h hq).imp (fun hquit => ?_) (left_loop he.1)
    exact (quit_queue_exec he.2).trans hquit
  | leave => exact fun _ => .inr (.inl rfl)

end Steps

theorem exactGuard (F : Type) {T : Type} [DecidableEq T] (owner : T) :
    ExactGuard (system F owner) QuitKept QuitKept EntersFirst where
  init s h hq := absurd hq (hasQuit_not (.inl h.owner))
  sound _ h := h
  keeps s e t hI hC he hs := by
    cases hs
    exact quitKept_exec hI he hC
  breaks s e t _ hC he hs := by
    cases hs
    cases e with
    | enter =>
      intro h
      obtain hquit | hl := h (not_not.mp hC)
      · cases hquit
      · simp [Left, exec] at hl
    | start | callbackPush | endCallback | publish | check | wake | destroy | quit | wakeup | join
    | test | loop | leave => exact absurd trivial hC

/-- In a run of an owner and its loop thread the destructor's `quit()` is never lost exactly
when the prologue of `loop()` is never run after it. -/
theorem quitKept_throughout_iff {F T : Type} [DecidableEq T] {owner : T} {s t : State F T}
    {es : List (Event F T)} (hs : Constructed s) (hr : Run (system F owner) s es t) :
    Throughout (system F owner) QuitKept s es ↔ Guarded (system F owner) EntersFirst s es :=
  (exactGuard F owner).throughout_iff _ hs hr

/-- The destructor's `quit()` has been overwritten. -/
structure Lost (s : State F T) : Prop where
  owner : s.owner = .waking ∨ s.owner = .joining
  quit : s.queue.loop.quit = false
  thread : s.thread = .testing ∨ s.thread = .looping ∧ s.queue.loop.position ≠ .exited

/-- A loop whose `quit_` is not set is not left. -/
theorem not_exited_queue_exec [DecidableEq T] {q : FunctorQueue.State F T}
    {e : FunctorQueue.Event F T} (hquit : q.loop.quit = false) (hp : q.loop.position ≠ .exited) :
    (FunctorQueue.exec q e).loop.position ≠ .exited := by
  cases e with
  | poll | endHandling | swap => simp [FunctorQueue.exec, EventLoop.pollReturn, EventLoop.endHandling,
      EventLoop.swap]
  | endFunctors => simp [FunctorQueue.exec, EventLoop.endFunctors, hquit]
  | loopPush | loopWakeup | loopQuit | push | quit | wakeup => exact hp
  | handle =>
    simp only [FunctorQueue.exec]
    split
    · exact hp
    · split_ifs
      · exact hp
      · exact hp
  | execute =>
    simp only [FunctorQueue.exec]
    split
    · exact hp
    · exact hp

theorem lost_exec [DecidableEq T] {owner : T} {s : State F T} {e : Event F T} (h : Lost s)
    (he : enabled owner s e) : Lost (exec owner s e) := by
  obtain ⟨howner, hquit, hthread⟩ := h
  cases e with
  | start | check | wake | destroy | quit =>
    simp only [enabled] at he
    simp [he] at howner
  | callbackPush | endCallback | publish | enter =>
    simp only [enabled] at he
    simp [he] at hthread
  | wakeup => exact ⟨.inr rfl, hquit, hthread⟩
  | join =>
    obtain ⟨_, hret⟩ := he
    simp [hret] at hthread
  | test => exact ⟨howner, hquit, .inr ⟨rfl, by simp [exec, setLoop, hquit]⟩⟩
  | loop e =>
    refine ⟨howner, (quit_queue_exec he.2).trans hquit, ?_⟩
    exact hthread.imp_right fun ⟨hl, hp⟩ => ⟨hl, not_exited_queue_exec hquit hp⟩
  | leave =>
    obtain ⟨hl, hp⟩ := he
    simp [hl, hp] at hthread

/-- After a lost `quit()` the destructor waits in `join()` forever. -/
theorem lost_run [DecidableEq T] {owner : T} {s t : State F T} {es : List (Event F T)}
    (h : Lost s) (hr : Run (system F owner) s es t) : ¬Left t ∧ t.owner ≠ .joined := by
  have hlost : Lost t := by
    induction hr with
    | nil => exact h
    | snoc _ he hst ih =>
      cases hst
      exact lost_exec ih he
  constructor
  · rintro (hret | ⟨hl, hp⟩)
    · have hthread := hlost.thread
      simp [hret] at hthread
    · have hthread := hlost.thread
      simp [hl, hp] at hthread
  · obtain howner | howner := hlost.owner
    · simp [howner]
    · simp [howner]

/-- The owner is thread 0. -/
def constructed : State ℕ ℕ where
  queue := FunctorQueue.entered
  published := false
  exiting := false
  thread := .created
  owner := .constructed

theorem constructed_constructed : Constructed constructed :=
  ⟨⟨rfl, rfl, rfl, rfl, rfl, rfl, rfl⟩, fun _ => rfl, rfl, rfl, rfl, rfl⟩

/-- The owner is released by the condition variable and destroys the object before the thread
has entered `loop()`. -/
def earlyQuit : List (Event ℕ ℕ) :=
  [.start, .endCallback, .publish, .check, .destroy, .quit, .wakeup, .enter]

theorem earlyQuit_lost : ∃ t, Run (system ℕ 0) constructed earlyQuit t ∧ ¬QuitKept t ∧ Lost t := by
  refine ⟨earlyQuit.foldl (exec 0) constructed, run_of_replay _ rfl, ?_,
    ⟨.inr rfl, rfl, .inl rfl⟩⟩
  intro h
  obtain hquit | hl := h (.inr (.inl rfl))
  · cases hquit
  · obtain hret | ⟨hl, _⟩ := hl
    · cases hret
    · cases hl

/-- The same owner, with the thread in `poll` when it is told to quit. -/
def orderlyQuit : List (Event ℕ ℕ) :=
  [.start, .check, .endCallback, .publish, .wake, .check, .enter, .test, .destroy, .quit, .wakeup,
    .loop (.poll [0]), .loop .handle, .loop .endHandling, .loop .swap, .loop .endFunctors, .leave, .join]

theorem orderlyQuit_kept : Throughout (system ℕ 0) QuitKept constructed orderlyQuit := by
  have hr : Run (restrict (system ℕ 0) EntersFirst) constructed orderlyQuit
      (orderlyQuit.foldl (exec 0) constructed) := run_of_replay _ rfl
  have hguarded := restrict_guarded _ hr
  exact (quitKept_throughout_iff constructed_constructed (run_of_restrict _ hr)).mpr hguarded

end Muduo.EventLoopThread

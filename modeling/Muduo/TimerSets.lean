import Muduo.TimerThreads

/-!
# The two sets of a timer queue

`addTimerInLoop`, `cancelInLoop` and `handleRead` in any order, where callbacks may call the
first two. Timers are created by any thread, a while before they are added, and any `TimerId`
at all may be cancelled. An address whose timer has been deleted may be given out again.
-/
namespace Muduo.TimerSets
open StepSystem
open TimerLoop (Outside Created Added Effect)

structure State where
  timer : TimerLoop.State
  /-- the timers that have been created and not yet added -/
  created : List TimerId

inductive Event
  /-- `new Timer` in any thread -/
  | newTimer (timer : Address) (expiration : Timestamp) (interval : ℚ)
  | addTimerInLoop (timerId : TimerId) (clock : Timestamp)
  | cancelInLoop (timerId : TimerId)
  /-- the timerfd expires -/
  | expire
  /-- `handleRead` up to its first callback -/
  | handleRead (now : Timestamp)
  /-- the next callback is started -/
  | run
  /-- the last callback has returned -/
  | endRead (clock : Timestamp)

def enabled (s : State) : Event → Prop
  | .newTimer timer _ _ => s.timer.queue.heap timer = none ∧ timer < uintptrMax
  | .addTimerInLoop id _ => s.timer.UserCode ∧ id ∈ s.created
  | .cancelInLoop _ => s.timer.UserCode
  | .expire => TimerLoop.enabled s.timer .expire
  | .handleRead now => TimerLoop.enabled s.timer (.handleRead now)
  | .run => TimerLoop.enabled s.timer .run
  | .endRead clock => TimerLoop.enabled s.timer (.endRead clock)

def step (s : State) : Event → Checked State
  | .newTimer timer expiration interval =>
    let queue := s.timer.queue.newTimer timer expiration interval
    .ok {
      timer := { s.timer with queue }
      created := s.created ++ [toLex (timer, queue.numCreated)] }
  | .addTimerInLoop id clock => do
    let timer ← TimerThreads.addTimerInLoop s.timer id.timer clock
    return { timer, created := s.created.erase id }
  | .cancelInLoop id => do
    let timer ← TimerLoop.step s.timer (.cancel id)
    return { s with timer }
  | .expire => do
    let timer ← TimerLoop.step s.timer .expire
    return { s with timer }
  | .handleRead now => do
    let timer ← TimerLoop.step s.timer (.handleRead now)
    return { s with timer }
  | .run => do
    let timer ← TimerLoop.step s.timer .run
    return { s with timer }
  | .endRead clock => do
    let timer ← TimerLoop.step s.timer (.endRead clock)
    return { s with timer }

def initial : State := ⟨TimerLoop.initial, []⟩

def system : System State Event Assertion where
  init s := s = initial
  enabled := enabled
  step := step

instance (s : State) : (e : Event) → Decidable (system.enabled s e)
  | .newTimer timer _ _ =>
    have : Decidable (s.timer.queue.heap timer = none) :=
      decidable_of_iff _ Option.isNone_iff_eq_none
    inferInstanceAs (Decidable (_ ∧ _))
  | .addTimerInLoop _ _ => inferInstanceAs (Decidable (_ ∧ _))
  | .cancelInLoop _ => inferInstanceAs (Decidable s.timer.UserCode)
  | .expire => inferInstanceAs (Decidable (TimerLoop.system.enabled s.timer .expire))
  | .handleRead now => inferInstanceAs (Decidable (TimerLoop.system.enabled s.timer (.handleRead now)))
  | .run => inferInstanceAs (Decidable (TimerLoop.system.enabled s.timer .run))
  | .endRead clock => inferInstanceAs (Decidable (TimerLoop.system.enabled s.timer (.endRead clock)))

/-- `timers_` and `activeTimers_` hold the same timers, each once, under its current
expiration and under its own number. Those of the batch are in neither. -/
structure SameTimers (s : State) : Prop where
  sizes : s.timer.queue.timers.size = s.timer.queue.activeTimers.size
  active : ∀ e ∈ s.timer.queue.timers, ∃ t, s.timer.queue.heap e.timer = some t ∧
    e.when = t.expiration ∧ toLex (e.timer, t.sequence) ∈ s.timer.queue.activeTimers
  timers : ∀ id ∈ s.timer.queue.activeTimers, ∃ t, s.timer.queue.heap id.timer = some t ∧
    id.sequence = t.sequence ∧ toLex (t.expiration, id.timer) ∈ s.timer.queue.timers
  once : ∀ e ∈ s.timer.queue.timers, ∀ e' ∈ s.timer.queue.timers, e.timer = e'.timer → e = e'
  apart : ∀ e ∈ s.timer.batch, (∀ e' ∈ s.timer.queue.timers, e'.timer ≠ e.timer) ∧
    ∀ id ∈ s.timer.queue.activeTimers, id.timer ≠ e.timer

structure Inv (s : State) : Prop where
  timer : TimerLoop.Inv s.timer
  outside : ∀ id ∈ s.created, Outside s.timer id
  apart : s.created.Pairwise fun id id' => id.timer ≠ id'.timer

theorem Inv.sameTimers {s : State} (h : Inv s) : SameTimers s where
  sizes := h.timer.good.sizes
  active e he := by
    obtain ⟨t, ht, hwhen, hmem⟩ := h.timer.good.entry e he
    exact ⟨t, ht, hwhen.symm, hmem⟩
  timers id hid := by
    obtain ⟨t, ⟨ht, hsequence⟩, hmem⟩ := h.timer.good.active id hid
    exact ⟨t, ht, (congrArg ActiveTimer.sequence hsequence).symm, hmem⟩
  once e he e' he' := h.timer.good.eq_of_timer he he'
  apart e he := by
    have hapart := h.timer.good.apart e he
    refine ⟨hapart, ?_⟩
    intro id hid
    obtain ⟨t, -, hmem⟩ := h.timer.good.active id hid
    exact hapart _ hmem

theorem inv_initial : Inv initial where
  timer := TimerLoop.inv_initial
  outside _ hid := absurd hid List.not_mem_nil
  apart := .nil

section
variable {s : State} {id : TimerId}

/-- A step of the loop thread for timers that have been added. -/
theorem Inv.effect {e : TimerLoop.Event} (h : Inv s)
    (he : ∃ t, TimerLoop.step s.timer e = .ok t ∧ Effect s.timer e t) :
    Yields (TimerLoop.step s.timer e >>= fun timer => pure { s with timer }) Inv := by
  obtain ⟨t, ht, heffect⟩ := he
  rw [ht, ok_bind]
  refine yields_ok ⟨TimerLoop.inv_effect h.timer heffect, ?_, h.apart⟩
  intro id hid
  exact TimerLoop.outside_effect h.timer (h.outside id hid) heffect

theorem Inv.newTimer {timer : Address} {expiration : Timestamp} {interval : ℚ} (h : Inv s)
    (he : enabled s (.newTimer timer expiration interval)) :
    Yields (step s (.newTimer timer expiration interval)) Inv := by
  obtain ⟨hfree, hmax⟩ := he
  have hcreated : Created s.timer (toLex (timer, s.timer.queue.numCreated + 1))
      { s.timer with queue := s.timer.queue.newTimer timer expiration interval } :=
    ⟨hfree, hmax, rfl, expiration, interval, rfl⟩
  refine yields_ok ⟨TimerLoop.inv_created h.timer hcreated, ?_, ?_⟩
  · intro id hid
    rcases List.mem_append.mp hid with hold | hnew
    · exact TimerLoop.outside_created hcreated (h.outside id hold)
    · rw [List.mem_singleton.mp hnew]
      exact TimerLoop.outside_new h.timer hcreated
  · refine List.pairwise_append.mpr ⟨h.apart, List.pairwise_singleton _ _, ?_⟩
    intro id hid id' hid' heq
    rw [List.mem_singleton.mp hid'] at heq
    -- the allocator gives out no address that is in use
    obtain ⟨u, hu, -⟩ := (h.outside id hid).alive
    rw [heq, show ActiveTimer.timer (toLex (timer, _)) = timer from rfl, hfree] at hu
    cases hu

theorem Inv.addTimerInLoop {clock : Timestamp} (h : Inv s)
    (he : enabled s (.addTimerInLoop id clock)) :
    Yields (step s (.addTimerInLoop id clock)) Inv := by
  obtain ⟨-, hid⟩ := he
  have houtside := h.outside id hid
  obtain ⟨t, ht, hadded⟩ := TimerThreads.addTimerInLoop_added h.timer houtside clock
  have hnodup : s.created.Nodup := h.apart.imp fun hne heq => hne (congrArg _ heq)
  unfold step
  dsimp only
  rw [ht, ok_bind]
  refine yields_ok ⟨TimerLoop.inv_added h.timer houtside hadded, ?_,
    h.apart.sublist List.erase_sublist⟩
  intro id' hid'
  obtain ⟨hne, hmem⟩ := hnodup.mem_erase_iff.mp hid'
  have hsymm : Std.Symm fun id id' : TimerId => id.timer ≠ id'.timer := ⟨fun _ _ h => h.symm⟩
  have htimer : id'.timer ≠ id.timer := h.apart.forall hmem hid hne
  exact TimerLoop.outside_added hadded (h.outside id' hmem) htimer

end

theorem totalInvariant : TotalInvariant system Inv where
  init s hs := by
    rw [show s = initial from hs]
    exact inv_initial
  step s e h he := by
    cases e with
    | newTimer => exact h.newTimer he
    | addTimerInLoop => exact h.addTimerInLoop he
    | cancelInLoop id => exact h.effect (TimerLoop.cancel_effect h.timer he id)
    | expire | handleRead | run | endRead => exact h.effect (TimerLoop.step_effect h.timer he)

/-- In no run does an assertion of the queue fail, and between the calls the two sets agree. -/
theorem sets_agree : Safe system ∧ ∀ s, Reachable system s → SameTimers s :=
  ⟨totalInvariant.safe, fun _ hs => ((totalInvariant.invariant _).reachable _ hs).sameTimers⟩

/-- The callback of the first timer adds one, and cancels itself and the timer that is due with
it. -/
def callback : List Event :=
  [.newTimer 100 10 0, .newTimer 101 12 5, .addTimerInLoop (toLex (101, 2)) 0,
    .addTimerInLoop (toLex (100, 1)) 0, .expire, .handleRead 15, .run, .newTimer 102 30 0,
    .addTimerInLoop (toLex (102, 3)) 16, .cancelInLoop (toLex (100, 1)),
    .cancelInLoop (toLex (101, 2)), .run, .endRead 17]

theorem sets_agree_callback : ∃ s, Run system initial callback s ∧ SameTimers s := by
  have hreplay : (replay system initial callback).any (fun _ => true) = true := by decide +kernel
  obtain ⟨s, hr, -⟩ := exists_run_of_replay _ hreplay
  exact ⟨s, hr, sets_agree.2 s ⟨initial, callback, rfl, hr⟩⟩

end Muduo.TimerSets

import Muduo.FunctorQueue

/-!
# Work queued before quit

A thread queues functors on a running loop and then calls `quit()` on it. The loop
tests `quit_` after a batch of functors, and a functor queued after the swap of that
batch has to wait for the next one.
-/
namespace Muduo.QueuedBeforeQuit
open StepSystem FunctorQueue

inductive Caller (T : Type)
  | loopThread
  | other (t : T)
  deriving DecidableEq

structure Queued (G T : Type) where
  caller : Caller T
  /-- `loop()` had not returned -/
  running : Bool
  cb : G

structure State (G T : Type) where
  queue : FunctorQueue.State (Queued G T) T
  /-- the number of functors that had been queued when the caller last called `quit()` -/
  quitAfter : Caller T → ℕ

abbrev Event (G T : Type) := FunctorQueue.Event (Queued G T) T

variable {G T : Type}

/-- A functor is queued under the name of its caller. -/
def Labelled (s : State G T) : Event G T → Prop
  | .push t q => q.caller = .other t ∧ (q.running = true ↔ s.queue.loop.position ≠ .exited)
  | .loopPush q => q.caller = .loopThread ∧ q.running = true
  | .poll _ | .handle | .endHandling | .swap | .execute | .endFunctors | .loopWakeup | .loopQuit
  | .quit _ | .wakeup _ => True

def enabled (s : State G T) (e : Event G T) : Prop :=
  FunctorQueue.enabled s.queue e ∧ Labelled s e

/-- The caller of `quit()`, if the event is one. -/
def quitter : Event G T → Option (Caller T)
  | .quit t => some (.other t)
  | .loopQuit => some .loopThread
  | .poll _ | .handle | .endHandling | .swap | .execute | .endFunctors | .loopWakeup | .loopPush _
  | .push .. | .wakeup _ => none

section Exec
variable [DecidableEq T]

instance (s : State G T) : (e : Event G T) → Decidable (Labelled s e)
  | .push .. | .loopPush _ => inferInstanceAs (Decidable (_ ∧ _))
  | .poll _ | .handle | .endHandling | .swap | .execute | .endFunctors | .loopWakeup | .loopQuit
  | .quit _ | .wakeup _ => inferInstanceAs (Decidable True)

instance (s : State G T) (e : Event G T) : Decidable (enabled s e) :=
  inferInstanceAs (Decidable (_ ∧ _))

def exec (s : State G T) (e : Event G T) : State G T where
  queue := FunctorQueue.exec s.queue e
  quitAfter := match quitter e with
    | some c => Function.update s.quitAfter c s.queue.pushed.length
    | none => s.quitAfter

end Exec

structure Initial (s : State G T) : Prop where
  queue : FunctorQueue.Entered s.queue
  quit : s.queue.loop.quit = false
  quitAfter : ∀ c, s.quitAfter c = 0

def system (G T : Type) [DecidableEq T] : System (State G T) (Event G T) Assertion where
  init := Initial
  enabled := enabled
  step s e := .ok (exec s e)

instance (G T : Type) [DecidableEq T] (s : State G T) (e : Event G T) :
    Decidable ((system G T).enabled s e) := inferInstanceAs (Decidable (enabled s e))

/-- The functor queued as number `k` was queued on the running loop by `c`, who has called
`quit()` since. -/
def Owed (s : State G T) (c : Caller T) (k : ℕ) : Prop :=
  k < s.quitAfter c ∧ ∃ q, s.queue.pushed[k]? = some q ∧ q.caller = c ∧ q.running = true

/-- Functors are executed in the order in which they are queued. -/
def AllExecuted (s : State G T) : Prop := ∀ c k, Owed s c k → k < s.queue.executed.length

/-- Nothing that `c` has queued on the running loop is left for a batch after the test of `quit_`. -/
def InTime (s : State G T) (c : Caller T) : Prop :=
  s.queue.loop.position = .functors ∨ s.queue.loop.position = .exited →
    ∀ q ∈ s.queue.loop.pendingFunctors, q.caller = c → q.running = false

instance [DecidableEq T] (s : State G T) (c : Caller T) : Decidable (InTime s c) :=
  inferInstanceAs (Decidable (_ → _))

/-- `quit()` is called in time. -/
def QuitsInTime (s : State G T) (e : Event G T) : Prop := ∀ c, quitter e = some c → InTime s c

instance [DecidableEq T] (s : State G T) (e : Event G T) : Decidable (QuitsInTime s e) :=
  match he : quitter e with
  | none => isTrue (by simp [QuitsInTime, he])
  | some c => decidable_of_iff (InTime s c) (by simp [QuitsInTime, he])

/-- The functors that are executed or in the current batch. -/
def started (s : State G T) : ℕ := s.queue.executed.length + s.queue.loop.batch.length

structure Inv (s : State G T) : Prop where
  queue : FunctorQueue.Inv s.queue
  quitAfter : ∀ c, s.quitAfter c ≤ s.queue.pushed.length

/-- What is owed is in time for the swap before the test of `quit_`. -/
def Good (s : State G T) : Prop :=
  ∀ c k, Owed s c k → s.queue.loop.position = .functors ∨ s.queue.loop.position = .exited →
    k < started s

/-- The loop stops after this batch, and something owed is not in it. -/
def Bad (s : State G T) : Prop :=
  s.queue.loop.quit = true ∧
    (s.queue.loop.position = .functors ∨ s.queue.loop.position = .exited) ∧
    ∃ c k, Owed s c k ∧ started s ≤ k

theorem inv_initial {s : State G T} (h : Initial s) : Inv s where
  queue := FunctorQueue.inv_init h.queue
  quitAfter c := by simp [h.quitAfter]

theorem good_initial {s : State G T} (h : Initial s) : Good s := by
  rintro c k ⟨hk, _⟩
  rw [h.quitAfter] at hk
  omega

/-- Beyond the batch come the pending functors. -/
theorem pushed_pending {s : State G T} (hI : Inv s) (k : ℕ) :
    s.queue.pushed[started s + k]? = s.queue.loop.pendingFunctors[k]? := by
  have hlen : (s.queue.executed ++ s.queue.loop.batch).length = started s := by simp [started]
  rw [← hI.queue.order, List.getElem?_append_right (by omega), hlen, Nat.add_sub_cancel_left]

theorem lt_started_of_notMem {s : State G T} (hI : Inv s) {c : Caller T} {k : ℕ} {q : Queued G T}
    (hq : s.queue.pushed[k]? = some q) (hc : q.caller = c) (hrun : q.running = true)
    (hpending : ∀ q ∈ s.queue.loop.pendingFunctors, q.caller = c → q.running = false) :
    k < started s := by
  by_contra hk
  obtain ⟨j, rfl⟩ := Nat.exists_eq_add_of_le (not_lt.mp hk)
  rw [pushed_pending hI] at hq
  have hfalse := hpending q (List.mem_of_getElem? hq) hc
  rw [hrun] at hfalse
  cases hfalse

section Steps
variable [DecidableEq T] {s t : State G T} {e : Event G T}

theorem pushed_exec (q : FunctorQueue.State (Queued G T) T) (e : Event G T) :
    q.pushed <+: (FunctorQueue.exec q e).pushed := by
  cases e with
  | loopPush | push => exact List.prefix_append ..
  | poll | endHandling | swap | endFunctors | loopWakeup | loopQuit | quit | wakeup =>
    exact List.prefix_refl _
  | handle =>
    simp only [FunctorQueue.exec]
    split
    · exact List.prefix_refl _
    · split_ifs
      · exact List.prefix_refl _
      · exact List.prefix_refl _
  | execute =>
    simp only [FunctorQueue.exec]
    split
    · exact List.prefix_refl _
    · exact List.prefix_refl _

theorem quitAfter_exec (c : Caller T) : (exec s e).quitAfter c =
    if quitter e = some c then s.queue.pushed.length else s.quitAfter c := by
  unfold exec
  cases hq : quitter e with
  | none => simp
  | some d =>
    by_cases hd : d = c
    · simp [hd]
    · have hc : ¬c = d := fun heq => hd heq.symm
      simp [hd, hc]

theorem inv_exec (h : Inv s) (he : enabled s e) : Inv (exec s e) where
  queue := FunctorQueue.inv_exec h.queue he.1
  quitAfter c := by
    have hlen := (pushed_exec s.queue e).length_le
    have hold := h.quitAfter c
    rw [quitAfter_exec]
    change _ ≤ (FunctorQueue.exec s.queue e).pushed.length
    split_ifs
    · exact hlen
    · omega

theorem getElem?_pushed {k : ℕ} (h : k < s.queue.pushed.length) :
    (exec s e).queue.pushed[k]? = s.queue.pushed[k]? := by
  obtain ⟨new, hnew⟩ := pushed_exec s.queue e
  change (FunctorQueue.exec s.queue e).pushed[k]? = _
  rw [← hnew, List.getElem?_append_left h]

/-- What is owed stays owed. -/
theorem Owed.exec {c : Caller T} {k : ℕ} (h : Owed s c k) (hI : Inv s) : Owed (exec s e) c k := by
  obtain ⟨hk, hq⟩ := h
  have hlen := hI.quitAfter c
  refine ⟨?_, ?_⟩
  · rw [quitAfter_exec]
    split_ifs
    · omega
    · exact hk
  · rwa [getElem?_pushed (by omega)]

/-- And what becomes owed does so by a call of `quit()`. -/
theorem owed_exec {c : Caller T} {k : ℕ} (h : Owed (exec s e) c k) (hI : Inv s) :
    Owed s c k ∨ quitter e = some c ∧ k < s.queue.pushed.length ∧
      ∃ q, s.queue.pushed[k]? = some q ∧ q.caller = c ∧ q.running = true := by
  obtain ⟨hk, hq⟩ := h
  have hlen := hI.quitAfter c
  rw [quitAfter_exec] at hk
  split_ifs at hk with hc
  · rw [getElem?_pushed hk] at hq
    exact .inr ⟨hc, hk, hq⟩
  · rw [getElem?_pushed (by omega)] at hq
    exact .inl ⟨hk, hq⟩

/-- Where the loop thread stands after a step, and how much is started then. -/
theorem position_exec (he : enabled s e)
    (hp : (exec s e).queue.loop.position = .functors ∨ (exec s e).queue.loop.position = .exited) :
    (s.queue.loop.position = .functors ∨ s.queue.loop.position = .exited) ∧
      started (exec s e) = started s ∨ e = .swap := by
  obtain ⟨he, _⟩ := he
  cases e with
  | swap => exact .inr rfl
  | poll | endHandling =>
    simp [exec, FunctorQueue.exec, EventLoop.pollReturn, EventLoop.endHandling] at hp
  | handle =>
    left
    have hh : s.queue.loop.position = .handling := he.1
    have hposition : (exec s .handle).queue.loop.position = s.queue.loop.position := by
      simp only [exec, FunctorQueue.exec]
      split
      · rfl
      · split_ifs
        · rfl
        · rfl
    rw [hposition, hh] at hp
    simp at hp
  | execute =>
    left
    refine ⟨.inl he.1, ?_⟩
    obtain ⟨_, _, hne⟩ := he
    obtain ⟨q, rest, hb⟩ := List.exists_cons_of_ne_nil hne
    simp [started, exec, FunctorQueue.exec, hb, EventLoop.take]
    omega
  | endFunctors => exact .inl ⟨.inl he.1, rfl⟩
  | loopPush | loopWakeup | loopQuit | push | quit | wakeup => exact .inl ⟨hp, rfl⟩

theorem good_exec (hI : Inv s) (h : Good s) (he : enabled s e) (hC : QuitsInTime s e) :
    Good (exec s e) := by
  intro c k hk hp
  obtain ⟨hpos, hstarted⟩ | rfl := position_exec he hp
  · rw [hstarted]
    obtain hold | ⟨hquit, _, q, hq, hc, hrun⟩ := owed_exec hk hI
    · exact h c k hold hpos
    · exact lt_started_of_notMem hI hq hc hrun (hC c hquit hpos)
  · -- the swap takes all that is pending into the batch
    have hpushed : started (exec s .swap) = s.queue.pushed.length := by
      have hb : s.queue.loop.batch = [] := hI.queue.batch (by
        have hswap : s.queue.loop.position = .swapping := he.1
        simp [hswap])
      rw [← hI.queue.order, hb]
      simp [started, exec, FunctorQueue.exec, EventLoop.swap]
    rw [hpushed]
    obtain ⟨hlt, _⟩ | ⟨_, hlt, _⟩ := owed_exec hk hI
    · have hlen := hI.quitAfter c
      omega
    · exact hlt

/-- A call of `quit()` that is not in time leaves a functor behind. -/
theorem bad_of_late (hI : Inv s) (hC : ¬QuitsInTime s e) : Bad (exec s e) := by
  unfold QuitsInTime InTime at hC
  push Not at hC
  obtain ⟨c, hquit, hp, q, hmem, hc, hrun⟩ := hC
  obtain ⟨j, hj⟩ := List.getElem?_of_mem hmem
  rw [← pushed_pending hI] at hj
  have hlt : started s + j < s.queue.pushed.length := (List.getElem?_eq_some_iff.mp hj).1
  have howed : Owed (exec s e) c (started s + j) := by
    refine ⟨by rw [quitAfter_exec, if_pos hquit]; exact hlt, q, ?_, hc, by simpa using hrun⟩
    rw [getElem?_pushed hlt]
    exact hj
  have hle : started s ≤ started s + j := by omega
  cases e with
  | quit => exact ⟨rfl, hp, c, _, howed, hle⟩
  | loopQuit => exact ⟨rfl, hp, c, _, howed, hle⟩
  | poll | handle | endHandling | swap | execute | endFunctors | loopWakeup | loopPush | push
  | wakeup => cases hquit

/-- And it stays behind. -/
theorem bad_exec (hI : Inv s) (h : Bad s) (he : enabled s e) : Bad (exec s e) := by
  obtain ⟨hquit, hp, c, k, howed, hk⟩ := h
  have howed' : Owed (exec s e) c k := howed.exec hI
  obtain ⟨hen, _⟩ := he
  cases e with
  | poll | handle | endHandling | swap =>
    simp only [FunctorQueue.enabled] at hen
    simp [hen] at hp
  | execute =>
    obtain ⟨hf, _, hne⟩ := hen
    obtain ⟨q, rest, hb⟩ := List.exists_cons_of_ne_nil hne
    refine ⟨?_, .inl ?_, c, k, howed', ?_⟩
    · simpa [exec, FunctorQueue.exec, hb, EventLoop.take] using hquit
    · simpa [exec, FunctorQueue.exec, hb, EventLoop.take] using hf
    · have hsame : started (exec s .execute) = started s := by
        simp [started, exec, FunctorQueue.exec, hb, EventLoop.take]
        omega
      omega
  | endFunctors =>
    refine ⟨hquit, .inr ?_, c, k, howed', hk⟩
    simp [exec, FunctorQueue.exec, EventLoop.endFunctors, hquit]
  | loopPush | loopWakeup | push | wakeup => exact ⟨hquit, hp, c, k, howed', hk⟩
  | loopQuit | quit => exact ⟨rfl, hp, c, k, howed', hk⟩

/-- A run in time is good, and any other leaves something behind. -/
theorem dichotomy (G T : Type) [DecidableEq T] : Dichotomy (system G T) (fun s => Inv s ∧ Good s)
    (fun s => Inv s ∧ Bad s) QuitsInTime where
  init s hs := ⟨inv_initial hs, good_initial hs⟩
  keeps s e t h hC he hst := by
    cases hst
    exact ⟨inv_exec h.1 he, good_exec h.1 h.2 he hC⟩
  falls s e t h hC he hst := by
    cases hst
    exact ⟨inv_exec h.1 he, bad_of_late h.1 hC⟩
  stays s e t h he hst := by
    cases hst
    exact ⟨inv_exec h.1 he, bad_exec h.1 h.2 he⟩

end Steps

/-- When `loop()` returns, all that its callers of `quit()` had queued before is executed exactly
when each of these calls was in time. -/
theorem allExecuted_iff [DecidableEq T] {s t : State G T} {es : List (Event G T)}
    (hs : Initial s) (hr : Run (system G T) s es t) (hx : t.queue.loop.position = .exited) :
    AllExecuted t ↔ Guarded (system G T) QuitsInTime s es := by
  have hstarted : Inv t → started t = t.queue.executed.length := by
    intro hI
    have hb : t.queue.loop.batch = [] := hI.queue.batch (by simp [hx])
    simp [started, hb]
  constructor
  · intro hall
    by_contra hnot
    obtain ⟨hI, _, _, c, k, howed, hk⟩ := (dichotomy G T).run _ hs hr hnot
    have hlt := hall c k howed
    have heq := hstarted hI
    omega
  · intro hg c k howed
    obtain ⟨hI, hk⟩ := (dichotomy G T).guardedInvariant.run _ hs hr hg
    rw [← hstarted hI]
    exact hk c k howed (.inr hx)

/-- A loop just entered. -/
def entered : State ℕ ℕ where
  queue :=
    { loop := EventLoop.entered 0 EPollPoller.new 0
      loopWaking := false
      waking _ := false
      running := false
      pushed := []
      executed := [] }
  quitAfter _ := 0

theorem initial_entered : Initial entered :=
  ⟨⟨rfl, rfl, rfl, rfl, rfl, rfl, rfl⟩, rfl, fun _ => rfl⟩

/-- Thread 1 queues functor 7 and calls `quit()`. -/
def queueAndQuit : List (Event ℕ ℕ) :=
  [.push 1 ⟨.other 1, true, 7⟩, .wakeup 1, .quit 1, .wakeup 1]

/-- Both after the swap and before the test of `quit_`. -/
def lateQuit : List (Event ℕ ℕ) := [.poll [], .endHandling, .swap] ++ queueAndQuit ++ [.endFunctors]

theorem lateQuit_pending : ∃ t, Run (system ℕ ℕ) entered lateQuit t ∧
    t.queue.loop.position = .exited ∧ ¬AllExecuted t := by
  refine ⟨lateQuit.foldl exec entered, run_of_replay _ rfl, rfl, fun hall => ?_⟩
  have howed : Owed (lateQuit.foldl exec entered) (.other 1) 0 :=
    ⟨by decide, ⟨.other 1, true, 7⟩, rfl, rfl, rfl⟩
  exact absurd (hall (.other 1) 0 howed) (by decide)

/-- And both before the swap. -/
def timelyQuit : List (Event ℕ ℕ) :=
  [.poll []] ++ queueAndQuit ++ [.endHandling, .swap, .execute, .endFunctors]

theorem timelyQuit_executed : AllExecuted (timelyQuit.foldl exec entered) := by
  have hr : Run (restrict (system ℕ ℕ) QuitsInTime) entered timelyQuit
      (timelyQuit.foldl exec entered) := run_of_replay _ rfl
  have hguarded := restrict_guarded _ hr
  exact (allExecuted_iff initial_entered (run_of_restrict _ hr) rfl).mpr hguarded

end Muduo.QueuedBeforeQuit

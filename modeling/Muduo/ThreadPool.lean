import Muduo.Assertion
import Muduo.Library.StepSystem
import Muduo.Library.WaitSet

/-!
# ThreadPool

`base/ThreadPool.h` and `base/ThreadPool.cc` after `start()`, with workers in `runInThread` and any
threads, workers in a task among them, that call `run` and `stop`. `running_` is tested under
the mutex in `take` and without it in `runInThread`. Tasks are not empty and do not throw.
-/
namespace Muduo.ThreadPool
open StepSystem

/-- Where a thread stands. A call of `run` or `stop` is made in a task of the pool or not. -/
inductive Place (α : Type)
  /-- a thread that is no worker, in neither `run` nor `stop` -/
  | outside
  /-- a worker at the loop test of `runInThread` -/
  | loopTest
  /-- at the lock of `take` -/
  | locking
  /-- `take` has the mutex, and is at the test of its loop -/
  | takeTest
  /-- in `cond_.wait()` -/
  | takeWait
  /-- at the end of `take`, which returns `task` -/
  | takeEnd (task : Option α)
  /-- `take` has returned `task` -/
  | taken (task : Option α)
  /-- in `task()` -/
  | executing
  /-- `runInThread` has returned -/
  | returned
  /-- `run` has the mutex, before `queue_.push_back(task)` -/
  | push (inTask : Bool) (task : α)
  /-- at `cond_.notify()` -/
  | notify (inTask : Bool)
  /-- `stop` has the mutex, before `running_ = false` -/
  | clear (inTask : Bool)
  /-- at `cond_.notifyAll()` -/
  | notifyAll (inTask : Bool)
  /-- at the end of the critical section of `run` -/
  | runEnd (inTask : Bool)
  /-- at the end of the critical section of `stop` -/
  | stopEnd (inTask : Bool)
  /-- in `join` -/
  | joining (inTask : Bool)
  deriving DecidableEq, Repr

namespace Place
variable {α : Type}

/-- The thread has the mutex. -/
def Holds : Place α → Prop
  | takeTest | takeEnd _ | push .. | notify _ | clear _ | notifyAll _ | runEnd _ | stopEnd _ => True
  | outside | loopTest | locking | takeWait | taken _ | executing | returned | joining _ => False

/-- The thread is in `cond_.wait()`. -/
def Waits (place : Place α) : Prop := place = takeWait

/-- A task that the thread is about to take, or to notify of. -/
def tasks : Place α → ℕ
  | takeTest | notify _ => 1
  | outside | loopTest | locking | takeWait | takeEnd _ | taken _ | executing | returned | push ..
  | clear _ | notifyAll _ | runEnd _ | stopEnd _ | joining _ => 0

/-- The task that the thread has taken and not started. -/
def inHand : Place α → List α
  | takeEnd task | taken task => task.toList
  | outside | loopTest | locking | takeTest | takeWait | executing | returned | push .. | notify _
  | clear _ | notifyAll _ | runEnd _ | stopEnd _ | joining _ => []

/-- Where a call of `run` or `stop` returns to. -/
def back (inTask : Bool) : Place α := if inTask then executing else outside

/-- The thread may call `run` and `stop`; whether it is in a task. -/
def inTask? : Place α → Option Bool
  | outside => some false
  | executing => some true
  | loopTest | locking | takeTest | takeWait | takeEnd _ | taken _ | returned | push .. | notify _
  | clear _ | notifyAll _ | runEnd _ | stopEnd _ | joining _ => none

end Place

structure State (τ α : Type) where
  /-- the holder of `mutex_` -/
  owner : Option τ
  places : τ → Place α
  cond : WaitSet τ
  queue : List α
  running : Bool
  /-- the tasks that `run` has queued -/
  queued : List α
  /-- the tasks that have been taken, each with its worker -/
  taken : List (τ × α)
  /-- the tasks that have been started, each with its worker -/
  started : List (τ × α)

inductive Event (τ α : Type)
  /-- the next statement of `t`; where it is `cond_.notify()`, it wakes `u` -/
  | next (t : τ) (u : Option τ)
  /-- `run(task)` locks the mutex -/
  | run (t : τ) (task : α)
  /-- `stop()` locks the mutex -/
  | stop (t : τ)
  /-- a wait ends for no reason -/
  | wake (t : τ)
  /-- a woken thread gets the mutex -/
  | relock (t : τ)
  deriving DecidableEq, Repr

section
variable {τ α : Type} [DecidableEq τ] (workers : Finset τ)

/-- The thread at `place` can go on. -/
def CanGo (s : State τ α) (u : Option τ) : Place α → Prop
  | .locking => s.owner = none
  | .notify _ => s.cond.Notifies u
  | .joining _ => ∀ w ∈ workers, s.places w = .returned
  | .loopTest | .takeTest | .takeEnd _ | .taken _ | .executing | .push .. | .clear _
  | .notifyAll _ | .runEnd _ | .stopEnd _ => True
  | .outside | .takeWait | .returned => False

instance [DecidableEq α] (s : State τ α) (u : Option τ) : DecidablePred (CanGo workers s u)
  | .locking => inferInstanceAs (Decidable (_ = _))
  | .notify _ => inferInstanceAs (Decidable (s.cond.Notifies u))
  | .joining _ => inferInstanceAs (Decidable (∀ w ∈ workers, s.places w = .returned))
  | .loopTest | .takeTest | .takeEnd _ | .taken _ | .executing | .push .. | .clear _
  | .notifyAll _ | .runEnd _ | .stopEnd _ => inferInstanceAs (Decidable True)
  | .outside | .takeWait | .returned => inferInstanceAs (Decidable False)

def enabled (s : State τ α) : Event τ α → Prop
  | .next t u => CanGo workers s u (s.places t)
  | .run t _ | .stop t => s.owner = none ∧ (s.places t).inTask? ≠ none
  | .wake t => t ∈ s.cond.waiting
  | .relock t => s.owner = none ∧ t ∈ s.cond.woken

instance [DecidableEq α] (s : State τ α) : (e : Event τ α) → Decidable (enabled workers s e)
  | .next t u => inferInstanceAs (Decidable (CanGo workers s u (s.places t)))
  | .run .. | .stop _ | .relock _ => inferInstanceAs (Decidable (_ ∧ _))
  | .wake _ => inferInstanceAs (Decidable (_ ∈ _))

def State.move (s : State τ α) (t : τ) (place : Place α) : State τ α :=
  { s with places := Function.update s.places t place }

/-- The loop of `take`, and the statements after it. -/
def takeTest (s : State τ α) (t : τ) : State τ α :=
  match s.queue with
  | [] =>
    if s.running then { s.move t .takeWait with owner := none, cond := s.cond.wait t }
    else s.move t (.takeEnd none)
  | task :: rest =>
    { s.move t (.takeEnd (some task)) with queue := rest, taken := s.taken ++ [(t, task)] }

def next (s : State τ α) (t : τ) (u : Option τ) : State τ α :=
  match s.places t with
  | .loopTest => s.move t (if s.running then .locking else .returned)
  | .locking => { s.move t .takeTest with owner := some t }
  | .takeTest => takeTest s t
  | .takeEnd task => { s.move t (.taken task) with owner := none }
  | .taken (some task) => { s.move t .executing with started := s.started ++ [(t, task)] }
  | .taken none | .executing => s.move t .loopTest
  | .push inTask task =>
    { s.move t (.notify inTask) with queue := s.queue ++ [task], queued := s.queued ++ [task] }
  | .notify inTask => { s.move t (.runEnd inTask) with cond := s.cond.notify u }
  | .clear inTask => { s.move t (.notifyAll inTask) with running := false }
  | .notifyAll inTask => { s.move t (.stopEnd inTask) with cond := s.cond.notifyAll }
  | .runEnd inTask => { s.move t (.back inTask) with owner := none }
  | .stopEnd inTask => { s.move t (.joining inTask) with owner := none }
  | .joining inTask => s.move t (.back inTask)
  | .outside | .takeWait | .returned => s

def step (s : State τ α) : Event τ α → Checked (State τ α)
  | .next t u => .ok (next s t u)
  | .run t task => match (s.places t).inTask? with
    | some inTask => .ok { s.move t (.push inTask task) with owner := some t }
    | none => .ok s
  | .stop t => match (s.places t).inTask? with
    | some inTask => .ok { s.move t (.clear inTask) with owner := some t }
    | none => .ok s
  | .wake t => .ok { s with cond := s.cond.wake t }
  | .relock t => .ok { s.move t .takeTest with owner := some t, cond := s.cond.relock t }

/-- `start()` has returned. -/
def afterStart : State τ α where
  owner := none
  places t := if t ∈ workers then .loopTest else .outside
  cond := .empty τ
  queue := []
  running := true
  queued := []
  taken := []
  started := []

def system : System (State τ α) (Event τ α) Assertion where
  init s := workers.Nonempty ∧ s = afterStart workers
  enabled := enabled workers
  step := step

instance [DecidableEq α] (s : State τ α) (e : Event τ α) :
    Decidable ((system workers).enabled s e) := inferInstanceAs (Decidable (enabled workers s e))

end

variable {τ α : Type} [DecidableEq τ] {workers : Finset τ} {s s' : State τ α} {t u : τ} {task : α}

/-- The tasks of the list that are those of the worker `t`. -/
def tasksOf (t : τ) (l : List (τ × α)) : List α := (l.filter fun x => x.1 = t).map Prod.snd

@[simp] theorem tasksOf_append (l : List (τ × α)) (a : α) :
    tasksOf t (l ++ [(u, a)]) = if u = t then tasksOf t l ++ [a] else tasksOf t l := by
  unfold tasksOf
  by_cases hu : u = t
  · simp [hu]
  · simp [hu]

/-- What a worker has taken it has started, but for the task in its hand. -/
def Hands (taken started : List (τ × α)) (places : τ → Place α) : Prop :=
  ∀ t, tasksOf t taken = tasksOf t started ++ (places t).inHand

section
variable {taken started : List (τ × α)} {places : τ → Place α} {place : Place α}

theorem Hands.move (h : Hands taken started places) (hp : place.inHand = (places t).inHand) :
    Hands taken started (Function.update places t place) := by
  intro u
  by_cases hu : u = t
  · subst hu
    rw [Function.update_self, hp]
    exact h u
  · rw [Function.update_of_ne hu]
    exact h u

theorem Hands.take (h : Hands taken started places) (ht : (places t).inHand = [])
    (hp : place.inHand = [task]) :
    Hands (taken ++ [(t, task)]) started (Function.update places t place) := by
  intro u
  rw [tasksOf_append]
  by_cases hu : u = t
  · subst hu
    rw [if_pos rfl, Function.update_self, hp, h u, ht, List.append_nil]
  · rw [if_neg (Ne.symm hu), Function.update_of_ne hu]
    exact h u

theorem Hands.start (h : Hands taken started places) (ht : (places t).inHand = [task])
    (hp : place.inHand = []) :
    Hands taken (started ++ [(t, task)]) (Function.update places t place) := by
  intro u
  rw [tasksOf_append]
  by_cases hu : u = t
  · subst hu
    rw [if_pos rfl, Function.update_self, hp, h u, ht, List.append_nil]
  · rw [if_neg (Ne.symm hu), Function.update_of_ne hu]
    exact h u

end

structure Inv (s : State τ α) : Prop where
  owner : MutexShows s.owner Place.Holds s.places
  cond : s.cond.Shows Place.Waits s.places
  fifo : s.queued = s.taken.map Prod.snd ++ s.queue
  hands : Hands s.taken s.started s.places
  tasks : s.running = true →
    s.cond.Covers (s.queue.length - heldCount s.owner s.places Place.tasks)
  stopped : s.running = false → s.cond.waiting = ∅ ∨ ∃ t inTask, s.places t = .notifyAll inTask

theorem inv_afterStart : Inv (afterStart workers : State τ α) where
  owner t := by
    refine iff_of_false (by simp [afterStart]) ?_
    simp only [afterStart]
    split_ifs
    · exact fun h => h
    · exact fun h => h
  cond t := by
    refine iff_of_false (by simp [afterStart]) ?_
    simp only [afterStart]
    split_ifs
    · simp [Place.Waits]
    · simp [Place.Waits]
  fifo := rfl
  hands t := by
    simp only [afterStart]
    split_ifs
    · rfl
    · rfl
  tasks _ := WaitSet.covers_empty _
  stopped h := by cases h

/-- A thread that is not at `notifyAll` moves on. -/
theorem Inv.stopped_move {place : Place α} (h : Inv s) (ht : ∀ b, s.places t ≠ .notifyAll b)
    (hrunning : s.running = false) : s.cond.waiting = ∅ ∨
      ∃ u b, Function.update s.places t place u = .notifyAll b := by
  rcases h.stopped hrunning with hw | ⟨u, b, hu⟩
  · exact .inl hw
  · refine .inr ⟨u, b, ?_⟩
    rw [Function.update_of_ne]
    · exact hu
    · rintro rfl
      exact ht b hu

theorem Inv.owner_eq (h : Inv s) {place : Place α} (ht : s.places t = place) (hp : place.Holds) :
    s.owner = some t := (h.owner t).mpr (ht ▸ hp)

theorem Inv.owner_ne (h : Inv s) (ht : ¬(s.places t).Holds) : s.owner ≠ some t :=
  fun ho => ht ((h.owner t).mp ho)

theorem heldCount_update {place : Place α} (h : Inv s) (ht : ¬(s.places t).Holds) :
    heldCount s.owner (Function.update s.places t place) Place.tasks =
      heldCount s.owner s.places Place.tasks := heldCount_move (h.owner_ne ht)

theorem not_waits {place : Place α} (h : place.Holds) : ¬place.Waits := by
  rintro rfl
  exact h

/-- A thread moves on outside of the critical sections. -/
theorem Inv.moved {place : Place α} (h : Inv s) (ht : ¬(s.places t).Holds)
    (ht' : ¬(s.places t).Waits) (hp : ¬place.Holds) (hp' : ¬place.Waits)
    (hhand : place.inHand = (s.places t).inHand) : Inv (s.move t place) where
  owner := h.owner.move ht hp
  cond := h.cond.move ht' hp'
  fifo := h.fifo
  hands := h.hands.move hhand
  tasks hr := by
    have htasks := h.tasks hr
    rw [← heldCount_update h ht] at htasks
    exact htasks
  stopped := h.stopped_move (by
    intro b hb
    rw [hb] at ht
    exact ht trivial)

/-- The mutex goes to a thread that has not waited for it in `cond_`. -/
theorem Inv.locked {place : Place α} (h : Inv s) (hfree : s.owner = none)
    (ht : ¬(s.places t).Holds) (ht' : ¬(s.places t).Waits) (hp : place.Holds)
    (hhand : place.inHand = (s.places t).inHand) :
    Inv { s.move t place with owner := some t } where
  owner := by
    have hshows := h.owner
    rw [hfree] at hshows
    exact hshows.acquire hp
  cond := h.cond.move ht' (not_waits hp)
  fifo := h.fifo
  hands := h.hands.move hhand
  tasks hr := by
    have htasks := h.tasks hr
    rw [hfree, heldCount_none] at htasks
    exact WaitSet.Covers.held rfl rfl (htasks.mono (Nat.sub_le_sub_left (Nat.zero_le _) _))
  stopped := h.stopped_move (by
    intro b hb
    rw [hb] at ht
    exact ht trivial)

/-- A critical section ends. -/
theorem Inv.unlocked {place : Place α} (h : Inv s) (ht : (s.places t).Holds)
    (hcount : (s.places t).tasks = 0) (hnot : ∀ b, s.places t ≠ .notifyAll b) (hp : ¬place.Holds)
    (hp' : ¬place.Waits) (hhand : place.inHand = (s.places t).inHand) :
    Inv { s.move t place with owner := none } where
  owner := by
    have hshows := h.owner
    rw [h.owner_eq rfl ht] at hshows
    exact hshows.release hp
  cond := h.cond.move (not_waits ht) hp'
  fifo := h.fifo
  hands := h.hands.move hhand
  tasks hr := by
    have htasks := h.tasks hr
    rw [heldCount_of_owner (h.owner_eq rfl ht), hcount] at htasks
    exact htasks
  stopped := h.stopped_move hnot

/-- The holder of the mutex moves on and keeps it. -/
theorem Inv.kept {place : Place α} (h : Inv s) (ht : (s.places t).Holds) (hp : place.Holds) :
    MutexShows s.owner Place.Holds (Function.update s.places t place) := by
  have hshows := h.owner
  rw [h.owner_eq rfl ht] at hshows ⊢
  exact hshows.keep hp

/-- `take` waits for a task, takes one, or finds that `stop` has been called. -/
theorem inv_takeTest (h : Inv s) (ht : s.places t = .takeTest) : Inv (takeTest s t) := by
  have hp : (s.places t).Holds := by
    rw [ht]
    trivial
  have hhand : (s.places t).inHand = [] := by rw [ht, Place.inHand]
  have hnot : ∀ b, s.places t ≠ .notifyAll b := by simp [ht]
  have howner := h.owner_eq rfl hp
  have hshows := h.owner
  rw [howner] at hshows
  unfold takeTest
  split
  · rename_i hnil
    split_ifs with hrunning
    · exact {
        owner := hshows.release fun h => h
        cond := h.cond.wait rfl
        fifo := h.fifo
        hands := h.hands.move hhand.symm
        tasks := fun _ => by
          change (s.cond.wait t).Covers (s.queue.length - heldCount none _ _)
          rw [hnil]
          exact WaitSet.covers_zero.mono (Nat.sub_le _ _)
        stopped := fun hr => by
          rw [show s.running = false from hr] at hrunning
          cases hrunning }
    · exact {
        owner := h.kept hp trivial
        cond := h.cond.move (not_waits hp) (by simp [Place.Waits])
        fifo := h.fifo
        hands := h.hands.move hhand.symm
        tasks := fun hr => absurd hr hrunning
        stopped := h.stopped_move hnot }
  · rename_i task rest hqueue
    exact {
      owner := h.kept hp trivial
      cond := h.cond.move (not_waits hp) (by simp [Place.Waits])
      fifo := by
        change s.queued = (s.taken ++ [(t, task)]).map Prod.snd ++ rest
        rw [h.fifo, hqueue, List.map_append, List.append_assoc]
        rfl
      hands := h.hands.take hhand rfl
      tasks := fun hr => by
        have htasks := h.tasks hr
        rw [heldCount_of_owner howner, ht, hqueue] at htasks
        exact WaitSet.Covers.held howner rfl (htasks.mono (by simp [Place.tasks]))
      stopped := h.stopped_move hnot }

/-- A worker starts the task in its hand. -/
theorem inv_execute (h : Inv s) (ht : s.places t = .taken (some task)) :
    Inv { s.move t .executing with started := s.started ++ [(t, task)] } := by
  have hnot : ¬(s.places t).Holds := by simp [ht, Place.Holds]
  exact {
    owner := h.owner.move hnot fun h => h
    cond := h.cond.move (by simp [ht, Place.Waits]) (by simp [Place.Waits])
    fifo := h.fifo
    hands := h.hands.start (by simp [ht, Place.inHand]) rfl
    tasks := fun hr => by
      have htasks := h.tasks hr
      rw [← heldCount_update h hnot] at htasks
      exact htasks
    stopped := h.stopped_move (by simp [ht]) }

/-- `run` queues its task, and the notification of it is due. -/
theorem inv_push {inTask : Bool} (h : Inv s) (ht : s.places t = .push inTask task) :
    Inv { s.move t (.notify inTask) with
      queue := s.queue ++ [task]
      queued := s.queued ++ [task] } := by
  have hp : (s.places t).Holds := by
    rw [ht]
    trivial
  have howner := h.owner_eq rfl hp
  exact {
    owner := h.kept hp trivial
    cond := h.cond.move (not_waits hp) (by simp [Place.Waits])
    fifo := by
      change s.queued ++ [task] = s.taken.map Prod.snd ++ (s.queue ++ [task])
      rw [h.fifo, List.append_assoc]
    hands := h.hands.move (by simp [ht, Place.inHand])
    tasks := fun hr => by
      have htasks := h.tasks hr
      rw [heldCount_of_owner howner, ht] at htasks
      exact WaitSet.Covers.held howner rfl (htasks.mono (by simp [Place.tasks]))
    stopped := h.stopped_move (by simp [ht]) }

theorem inv_notify {inTask : Bool} {v : Option τ} (h : Inv s) (ht : s.places t = .notify inTask)
    (hv : s.cond.Notifies v) :
    Inv { s.move t (.runEnd inTask) with cond := s.cond.notify v } := by
  have hp : (s.places t).Holds := by
    rw [ht]
    trivial
  have howner := h.owner_eq rfl hp
  exact {
    owner := h.kept hp trivial
    cond := (h.cond.notify v).move (not_waits hp) (by simp [Place.Waits])
    fifo := h.fifo
    hands := h.hands.move (by simp [ht, Place.inHand])
    tasks := fun hr => by
      have htasks := h.tasks hr
      rw [heldCount_of_owner howner, ht] at htasks
      refine WaitSet.Covers.held howner rfl ((htasks.notify hv).mono ?_)
      simp only [Place.tasks, State.move]
      omega
    stopped := fun hr => by
      rcases h.stopped hr with hw | ⟨u, b, hu⟩
      · cases v with
        | none => exact .inl hw
        | some u =>
          have hmem : u ∈ s.cond.waiting := hv
          rw [hw] at hmem
          exact absurd hmem (Finset.notMem_empty u)
      · have hsame : some u = some t := (h.owner_eq hu trivial).symm.trans howner
        rw [Option.some.inj hsame, ht] at hu
        cases hu }

/-- `running_ = false` -/
theorem inv_clear {inTask : Bool} (h : Inv s) (ht : s.places t = .clear inTask) :
    Inv { s.move t (.notifyAll inTask) with running := false } := by
  have hp : (s.places t).Holds := by
    rw [ht]
    trivial
  exact {
    owner := h.kept hp trivial
    cond := h.cond.move (not_waits hp) (by simp [Place.Waits])
    fifo := h.fifo
    hands := h.hands.move (by simp [ht, Place.inHand])
    tasks := fun hr => by cases hr
    stopped := fun _ => .inr ⟨t, inTask, Function.update_self ..⟩ }

theorem inv_notifyAll {inTask : Bool} (h : Inv s) (ht : s.places t = .notifyAll inTask) :
    Inv { s.move t (.stopEnd inTask) with cond := s.cond.notifyAll } := by
  have hp : (s.places t).Holds := by
    rw [ht]
    trivial
  exact {
    owner := h.kept hp trivial
    cond := h.cond.notifyAll.move (not_waits hp) (by simp [Place.Waits])
    fifo := h.fifo
    hands := h.hands.move (by simp [ht, Place.inHand])
    tasks := fun _ => WaitSet.covers_notifyAll _
    stopped := fun _ => .inl rfl }

theorem inv_wake (h : Inv s) : Inv { s with cond := s.cond.wake t } where
  owner := h.owner
  cond := h.cond.wake t
  fifo := h.fifo
  hands := h.hands
  tasks hr := (h.tasks hr).wake t
  stopped hr := by
    rcases h.stopped hr with hw | hu
    · refine .inl ?_
      change s.cond.waiting.erase t = ∅
      rw [hw, Finset.erase_empty]
    · exact .inr hu

/-- A woken worker gets the mutex, and tests its loop again. -/
theorem inv_relock (h : Inv s) (hfree : s.owner = none) (ht : t ∈ s.cond.woken) :
    Inv { s.move t .takeTest with owner := some t, cond := s.cond.relock t } := by
  have hplace : s.places t = .takeWait := h.cond.waits_of_woken ht
  exact {
    owner := by
      have hshows := h.owner
      rw [hfree] at hshows
      exact hshows.acquire trivial
    cond := h.cond.relock ht (by simp [Place.Waits])
    fifo := h.fifo
    hands := h.hands.move (by simp [hplace, Place.inHand])
    tasks := fun hr => by
      have htasks := h.tasks hr
      rw [hfree, heldCount_none] at htasks
      exact WaitSet.Covers.held rfl rfl (htasks.relock t)
    stopped := h.stopped_move (by simp [hplace]) }

theorem not_holds_back (inTask : Bool) :
    ¬(Place.back inTask : Place α).Holds ∧ ¬(Place.back inTask : Place α).Waits ∧
      (Place.back inTask : Place α).inHand = [] := by
  cases inTask with
  | true => exact ⟨fun h => h, by simp [Place.back, Place.Waits], rfl⟩
  | false => exact ⟨fun h => h, by simp [Place.back, Place.Waits], rfl⟩

theorem inv_next {v : Option τ} (h : Inv s) (hgo : CanGo workers s v (s.places t)) :
    Inv (next s t v) := by
  cases ht : s.places t with
  | loopTest =>
    simp only [next, ht]
    cases s.running with
    | true =>
      exact h.moved (by simp [ht, Place.Holds]) (by simp [ht, Place.Waits]) (fun h => h)
        (by simp [Place.Waits]) (by simp [ht, Place.inHand])
    | false =>
      exact h.moved (by simp [ht, Place.Holds]) (by simp [ht, Place.Waits]) (fun h => h)
        (by simp [Place.Waits]) (by simp [ht, Place.inHand])
  | locking =>
    rw [ht] at hgo
    simp only [next, ht]
    exact h.locked hgo (by simp [ht, Place.Holds]) (by simp [ht, Place.Waits]) trivial
      (by simp [ht, Place.inHand])
  | takeTest =>
    simp only [next, ht]
    exact inv_takeTest h ht
  | takeEnd task =>
    simp only [next, ht]
    exact h.unlocked (by simp [ht, Place.Holds]) (by simp [ht, Place.tasks]) (by simp [ht])
      (fun h => h) (by simp [Place.Waits]) (by simp [ht, Place.inHand])
  | taken task =>
    cases task with
    | some task =>
      simp only [next, ht]
      exact inv_execute h ht
    | none =>
      simp only [next, ht]
      exact h.moved (by simp [ht, Place.Holds]) (by simp [ht, Place.Waits]) (fun h => h)
        (by simp [Place.Waits]) (by simp [ht, Place.inHand])
  | executing =>
    simp only [next, ht]
    exact h.moved (by simp [ht, Place.Holds]) (by simp [ht, Place.Waits]) (fun h => h)
      (by simp [Place.Waits]) (by simp [ht, Place.inHand])
  | push inTask task =>
    simp only [next, ht]
    exact inv_push h ht
  | notify inTask =>
    rw [ht] at hgo
    simp only [next, ht]
    exact inv_notify h ht hgo
  | clear inTask =>
    simp only [next, ht]
    exact inv_clear h ht
  | notifyAll inTask =>
    simp only [next, ht]
    exact inv_notifyAll h ht
  | runEnd inTask =>
    obtain ⟨hholds, hwaits, hhand⟩ := not_holds_back (α := α) inTask
    simp only [next, ht]
    exact h.unlocked (by simp [ht, Place.Holds]) (by simp [ht, Place.tasks]) (by simp [ht])
      hholds hwaits (hhand.trans (by simp [ht, Place.inHand]))
  | stopEnd inTask =>
    simp only [next, ht]
    exact h.unlocked (by simp [ht, Place.Holds]) (by simp [ht, Place.tasks]) (by simp [ht])
      (fun h => h) (by simp [Place.Waits]) (by simp [ht, Place.inHand])
  | joining inTask =>
    obtain ⟨hholds, hwaits, hhand⟩ := not_holds_back (α := α) inTask
    simp only [next, ht]
    exact h.moved (by simp [ht, Place.Holds]) (by simp [ht, Place.Waits]) hholds hwaits
      (hhand.trans (by simp [ht, Place.inHand]))
  | outside | takeWait | returned =>
    rw [ht] at hgo
    exact hgo.elim

/-- A thread that may call `run` or `stop` is in neither. -/
theorem of_inTask? {place : Place α} (h : place.inTask? ≠ none) :
    ¬place.Holds ∧ ¬place.Waits ∧ place.inHand = [] := by
  cases place with
  | outside | executing => exact ⟨fun h => h, by simp [Place.Waits], rfl⟩
  | loopTest | locking | takeTest | takeWait | takeEnd _ | taken _ | returned | push _ _ | notify _
  | clear _ | notifyAll _ | runEnd _ | stopEnd _ | joining _ => exact absurd rfl h

theorem totalInvariant (α : Type) (workers : Finset τ) :
    TotalInvariant (system workers : System (State τ α) _ _) Inv where
  init s h := by
    rw [h.2]
    exact inv_afterStart
  step s e h he := by
    cases e with
    | next t v => exact yields_ok (inv_next h he)
    | run t task =>
      obtain ⟨inTask, hcaller⟩ := Option.ne_none_iff_exists'.mp he.2
      obtain ⟨hholds, hwaits, hhand⟩ := of_inTask? he.2
      simp only [system, step, hcaller]
      exact yields_ok (h.locked he.1 hholds hwaits trivial hhand.symm)
    | stop t =>
      obtain ⟨inTask, hcaller⟩ := Option.ne_none_iff_exists'.mp he.2
      obtain ⟨hholds, hwaits, hhand⟩ := of_inTask? he.2
      simp only [system, step, hcaller]
      exact yields_ok (h.locked he.1 hholds hwaits trivial hhand.symm)
    | wake t => exact yields_ok (inv_wake h)
    | relock t => exact yields_ok (inv_relock h he.1 he.2)

/-! ### What becomes of tasks and workers -/

/-- Every task is taken in the order of `run`, and started at most once, by the worker that has
taken it; while a worker waits that has not been woken, the woken ones, and the holder of the
mutex, answer for all tasks. -/
structure Dispatched (s : State τ α) : Prop where
  order : s.queued = s.taken.map Prod.snd ++ s.queue
  once : ∀ t, tasksOf t s.taken = tasksOf t s.started ++ (s.places t).inHand
  covered : s.running = true → s.cond.waiting.Nonempty →
    s.queue.length ≤ s.cond.woken.card + heldCount s.owner s.places Place.tasks
  covered_free : s.running = true → s.owner = none → s.cond.waiting.Nonempty →
    s.queue.length ≤ s.cond.woken.card
  /-- after `running_ = false` only `stop` itself may come before its `notifyAll` -/
  stopped : s.running = false → s.cond.waiting = ∅ ∨
    ∃ t inTask, s.owner = some t ∧ s.places t = .notifyAll inTask

theorem Inv.dispatched (h : Inv s) : Dispatched s where
  order := h.fifo
  once := h.hands
  covered hr hw := by
    have hle := h.tasks hr hw
    omega
  covered_free hr hfree hw := by
    have hle := h.tasks hr hw
    rw [hfree, heldCount_none] at hle
    exact hle
  stopped hr := by
    rcases h.stopped hr with hw | ⟨t, inTask, ht⟩
    · exact .inl hw
    · exact .inr ⟨t, inTask, h.owner_eq ht trivial, ht⟩

/-- A worker with a task in its hand can go on by itself until it has started the task. -/
theorem exists_start (ht : (s.places t).inHand = [task]) :
    ∃ es s', (∀ e ∈ es, ∃ v, e = .next t v) ∧ Run (system workers) s es s' ∧
      s'.started = s.started ++ [(t, task)] := by
  have hstart : ∀ u : State τ α, u.places t = .taken (some task) →
      (system workers).enabled u (.next t none) ∧
      (system workers).step u (.next t none) =
        .ok { u.move t .executing with started := u.started ++ [(t, task)] } := by
    intro u hu
    simp only [system, enabled, step, next, hu]
    exact ⟨trivial, trivial⟩
  cases hplace : s.places t with
  | taken task' =>
    rw [hplace] at ht
    obtain rfl : task' = some task := by
      cases task' with
      | none => cases ht
      | some a => exact congrArg some (List.cons.inj ht).1
    obtain ⟨he, hs⟩ := hstart s hplace
    exact ⟨[.next t none], _, by simp, .snoc (.nil s) he hs, rfl⟩
  | takeEnd task' =>
    rw [hplace] at ht
    obtain rfl : task' = some task := by
      cases task' with
      | none => cases ht
      | some a => exact congrArg some (List.cons.inj ht).1
    have hen : (system workers).enabled s (.next t none) := by
      simp only [system, enabled, hplace]
      trivial
    have hst : (system workers).step s (.next t none) =
        .ok { s.move t (.taken (some task)) with owner := none } := by
      simp only [system, step, next, hplace]
    obtain ⟨he, hs⟩ := hstart { s.move t (.taken (some task)) with owner := none }
      (Function.update_self ..)
    exact ⟨[.next t none, .next t none], _, by simp, run_cons _ hen hst (.snoc (.nil _) he hs), rfl⟩
  | outside | loopTest | locking | takeTest | takeWait | executing | returned | push _ _ | notify _
  | clear _ | notifyAll _ | runEnd _ | stopEnd _ | joining _ =>
    rw [hplace] at ht
    cases ht

/-- `stop` has notified all, and nobody sleeps. -/
def Stopped (s : State τ α) : Prop := s.running = false ∧ s.cond.waiting = ∅

theorem stopped_next {v : Option τ} (h : Stopped s) : Stopped (next s t v) := by
  obtain ⟨hr, hw⟩ := h
  cases ht : s.places t with
  | takeTest =>
    simp only [next, ht, takeTest]
    split
    · rw [if_neg (by simp [hr])]
      exact ⟨hr, hw⟩
    · exact ⟨hr, hw⟩
  | taken task =>
    cases task with
    | some task =>
      simp only [next, ht]
      exact ⟨hr, hw⟩
    | none =>
      simp only [next, ht]
      exact ⟨hr, hw⟩
  | notify inTask =>
    simp only [next, ht]
    refine ⟨hr, ?_⟩
    cases v with
    | none => exact hw
    | some u =>
      change s.cond.waiting.erase u = ∅
      rw [hw, Finset.erase_empty]
  | clear inTask =>
    simp only [next, ht]
    exact ⟨rfl, hw⟩
  | notifyAll inTask =>
    simp only [next, ht]
    exact ⟨hr, rfl⟩
  | outside | loopTest | locking | takeWait | takeEnd _ | executing | returned | push _ _
  | runEnd _ | stopEnd _ | joining _ =>
    simp only [next, ht]
    exact ⟨hr, hw⟩

theorem stopped_step {e : Event τ α} (h : Stopped s) (hs : step s e = .ok s') : Stopped s' := by
  cases e with
  | next t v =>
    obtain rfl := Except.ok.inj hs
    exact stopped_next h
  | run t task =>
    simp only [step] at hs
    split at hs
    · obtain rfl := Except.ok.inj hs
      exact h
    · obtain rfl := Except.ok.inj hs
      exact h
  | stop t =>
    simp only [step] at hs
    split at hs
    · obtain rfl := Except.ok.inj hs
      exact h
    · obtain rfl := Except.ok.inj hs
      exact h
  | wake t =>
    obtain rfl := Except.ok.inj hs
    refine ⟨h.1, ?_⟩
    change s.cond.waiting.erase t = ∅
    rw [h.2, Finset.erase_empty]
  | relock t =>
    obtain rfl := Except.ok.inj hs
    exact h

theorem stopped_run {es : List (Event τ α)} (hrun : Run (system workers) s es s')
    (h : Stopped s) : Stopped s' := by
  induction hrun with
  | nil => exact h
  | snoc _ _ hs ih => exact stopped_step ih hs

/-- In every interleaving the tasks are dispatched, each taken task can be started at once, and
no worker sleeps again once `stop` has notified all. -/
theorem dispatch (α : Type) (workers : Finset τ) (s : State τ α)
    (hs : Reachable (system workers) s) : Dispatched s ∧
      (∀ t task, (s.places t).inHand = [task] → ∃ es s', (∀ e ∈ es, ∃ v, e = .next t v) ∧
        Run (system workers) s es s' ∧ s'.started = s.started ++ [(t, task)]) ∧
      ∀ es s', Run (system workers) s es s' → Stopped s → Stopped s' := by
  have h : Inv s := ((totalInvariant α workers).invariant _).reachable _ hs
  exact ⟨h.dispatched, fun t task ht => exists_start ht, fun es s' hrun => stopped_run hrun⟩

/-- The workers 1 and 2 wait; the thread 0 runs a task, which the worker 1 starts, and stops. -/
def sampleEvents : List (Event ℕ ℕ) :=
  [.next 1 none, .next 1 none, .next 1 none, .next 2 none, .next 2 none, .next 2 none,
    .run 0 7, .next 0 none, .next 0 (some 1), .next 0 none,
    .relock 1, .next 1 none, .next 1 none, .next 1 none,
    .stop 0, .next 0 none, .next 0 none, .next 0 none]

theorem sample_stopped : ∃ s : State ℕ ℕ, Reachable (system {1, 2}) s ∧
    s.started = [(1, 7)] ∧ s.running = false ∧ s.cond.waiting = ∅ := by
  have h : (replay (system {1, 2}) (afterStart {1, 2}) sampleEvents).any (fun s =>
      s.owner = none ∧ s.started = [(1, 7)] ∧ s.running = false) = true := by
    decide +kernel
  obtain ⟨s, hr, hs⟩ := exists_run_of_replay _ h
  obtain ⟨hfree, hstarted, hrunning⟩ := of_decide_eq_true hs
  have hreach : Reachable (system {1, 2}) s := ⟨_, _, ⟨⟨1, by simp⟩, rfl⟩, hr⟩
  refine ⟨s, hreach, hstarted, hrunning, ?_⟩
  rcases (dispatch ℕ {1, 2} s hreach).1.stopped hrunning with hw | ⟨t, _, howner, _⟩
  · exact hw
  · rw [hfree] at howner
    cases howner

end Muduo.ThreadPool

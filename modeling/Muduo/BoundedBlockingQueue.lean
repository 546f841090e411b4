import Muduo.Assertion
import Muduo.Library.StepSystem
import Muduo.Library.WaitSet

/-!
# BoundedBlockingQueue

`base/BoundedBlockingQueue.h` under any threads that call `put` and `take`. A thread takes the
mutex, tests its loop, waits or changes the queue, notifies, and releases the mutex, each of them
in a step of its own; a thread may be woken for no reason, and any thread may take the mutex
when it is free.
-/
namespace Muduo.BoundedBlockingQueue
open StepSystem

/-- Where a thread stands in `put` or `take`. -/
inductive Place (α : Type)
  | outside
  /-- `put` has the mutex, and is at the test of its loop -/
  | putTest (x : α)
  /-- in `notFull_.wait()` -/
  | putWait (x : α)
  /-- at `notEmpty_.notify()` -/
  | putNotify
  /-- `take` has the mutex, and is at the test of its loop -/
  | takeTest
  /-- in `notEmpty_.wait()` -/
  | takeWait
  /-- at `notFull_.notify()` -/
  | takeNotify
  /-- at the end of `put` or `take`, which releases the mutex -/
  | leaving
  deriving DecidableEq, Repr

namespace Place
variable {α : Type}

/-- The thread has the mutex. -/
def Holds : Place α → Prop
  | putTest _ | putNotify | takeTest | takeNotify | leaving => True
  | outside | putWait _ | takeWait => False

instance : DecidablePred (Holds (α := α))
  | putTest _ | putNotify | takeTest | takeNotify | leaving => inferInstanceAs (Decidable True)
  | outside | putWait _ | takeWait => inferInstanceAs (Decidable False)

/-- The thread is in `notFull_.wait()`. -/
def WaitsNotFull (place : Place α) : Prop := ∃ x, place = putWait x

/-- The thread is in `notEmpty_.wait()`. -/
def WaitsNotEmpty (place : Place α) : Prop := place = takeWait

/-- The thread is at the test of its loop. -/
def Tests : Place α → Prop
  | putTest _ | takeTest => True
  | outside | putWait _ | putNotify | takeWait | takeNotify | leaving => False

instance : DecidablePred (Tests (α := α))
  | putTest _ | takeTest => inferInstanceAs (Decidable True)
  | outside | putWait _ | putNotify | takeWait | takeNotify | leaving =>
    inferInstanceAs (Decidable False)

/-- An item that the thread is about to take, or to notify of. -/
def items : Place α → ℕ
  | takeTest | putNotify => 1
  | outside | putTest _ | putWait _ | takeWait | takeNotify | leaving => 0

/-- A free slot that the thread is about to fill, or to notify of. -/
def slots : Place α → ℕ
  | putTest _ | takeNotify => 1
  | outside | putWait _ | putNotify | takeTest | takeWait | leaving => 0

end Place

structure State (τ α : Type) where
  /-- the holder of `mutex_` -/
  owner : Option τ
  places : τ → Place α
  notEmpty : WaitSet τ
  notFull : WaitSet τ
  queue : List α
  /-- the items that have been put -/
  put : List α
  /-- the items that have been taken -/
  taken : List α

inductive Event (τ α : Type)
  /-- `put(x)` locks the mutex -/
  | put (t : τ) (x : α)
  /-- `take()` locks the mutex -/
  | take (t : τ)
  /-- the test of the loop; the thread begins to wait, or changes the queue -/
  | test (t : τ)
  /-- `notify()`, which wakes `u` -/
  | notify (t : τ) (u : Option τ)
  | unlock (t : τ)
  /-- a wait ends for no reason -/
  | wake (t : τ)
  /-- a woken thread gets the mutex -/
  | relock (t : τ)
  deriving DecidableEq, Repr

section
variable {τ α : Type} [DecidableEq τ] (capacity : ℕ)

def enabled (s : State τ α) : Event τ α → Prop
  | .put t _ | .take t => s.owner = none ∧ s.places t = .outside
  | .test t => (s.places t).Tests
  | .notify t u => s.places t = .putNotify ∧ s.notEmpty.Notifies u ∨
      s.places t = .takeNotify ∧ s.notFull.Notifies u
  | .unlock t => s.places t = .leaving
  | .wake t => t ∈ s.notEmpty.waiting ∨ t ∈ s.notFull.waiting
  | .relock t => s.owner = none ∧ (t ∈ s.notEmpty.woken ∨ t ∈ s.notFull.woken)

instance [DecidableEq α] (s : State τ α) : (e : Event τ α) → Decidable (enabled s e)
  | .put .. | .take _ | .relock _ => inferInstanceAs (Decidable (_ ∧ _))
  | .test _ => inferInstanceAs (Decidable (Place.Tests _))
  | .notify .. | .wake _ => inferInstanceAs (Decidable (_ ∨ _))
  | .unlock _ => inferInstanceAs (Decidable (_ = _))

def State.move (s : State τ α) (t : τ) (place : Place α) : State τ α :=
  { s with places := Function.update s.places t place }

def step (s : State τ α) : Event τ α → Checked (State τ α)
  | .put t x => .ok { s.move t (.putTest x) with owner := some t }
  | .take t => .ok { s.move t .takeTest with owner := some t }
  | .test t => match s.places t with
    | .putTest x =>
      if s.queue.length = capacity then
        .ok { s.move t (.putWait x) with owner := none, notFull := s.notFull.wait t }
      else do
        assert (s.queue.length ≠ capacity) .queueFull
        return { s.move t .putNotify with queue := s.queue ++ [x], put := s.put ++ [x] }
    | .takeTest => match s.queue with
      | [] => .ok { s.move t .takeWait with owner := none, notEmpty := s.notEmpty.wait t }
      | front :: rest => do
        assert (s.queue ≠ []) .queueEmpty
        return { s.move t .takeNotify with queue := rest, taken := s.taken ++ [front] }
    | _ => .ok s
  | .notify t u => match s.places t with
    | .putNotify => .ok { s.move t .leaving with notEmpty := s.notEmpty.notify u }
    | .takeNotify => .ok { s.move t .leaving with notFull := s.notFull.notify u }
    | _ => .ok s
  | .unlock t => .ok { s.move t .outside with owner := none }
  | .wake t => .ok { s with notEmpty := s.notEmpty.wake t, notFull := s.notFull.wake t }
  | .relock t =>
    let s := { s with
      owner := some t
      notEmpty := s.notEmpty.relock t
      notFull := s.notFull.relock t }
    match s.places t with
    | .putWait x => .ok (s.move t (.putTest x))
    | .takeWait => .ok (s.move t .takeTest)
    | _ => .ok s

/-- Nobody has called, and the queue is empty. -/
def initial : State τ α := ⟨none, fun _ => .outside, .empty τ, .empty τ, [], [], []⟩

def system : System (State τ α) (Event τ α) Assertion where
  init s := s = initial
  enabled := enabled
  step := step capacity

instance [DecidableEq α] (s : State τ α) (e : Event τ α) :
    Decidable ((system capacity).enabled s e) := inferInstanceAs (Decidable (enabled s e))

end

variable {τ α : Type} [DecidableEq τ] {capacity : ℕ} {s s' : State τ α} {t u : τ}

/-- What the holder of the mutex counts for. -/
def State.held (s : State τ α) (f : Place α → ℕ) : ℕ := heldCount s.owner s.places f

structure Inv (capacity : ℕ) (s : State τ α) : Prop where
  owner : MutexShows s.owner Place.Holds s.places
  notEmpty : s.notEmpty.Shows Place.WaitsNotEmpty s.places
  notFull : s.notFull.Shows Place.WaitsNotFull s.places
  length : s.queue.length ≤ capacity
  fifo : s.put = s.taken ++ s.queue
  items : s.notEmpty.Covers (s.queue.length - s.held Place.items)
  slots : s.notFull.Covers (capacity - s.queue.length - s.held Place.slots)

omit [DecidableEq τ] in
theorem held_none (h : s.owner = none) (f : Place α → ℕ) : s.held f = 0 := by
  rw [State.held, h]
  exact heldCount_none

omit [DecidableEq τ] in
theorem held_some (h : s.owner = some t) (f : Place α → ℕ) : s.held f = f (s.places t) :=
  heldCount_of_owner h

theorem inv_initial : Inv capacity (initial : State τ α) where
  owner t := iff_of_false (by simp [initial]) (fun h => h)
  notEmpty t := by simp [initial, Place.WaitsNotEmpty]
  notFull t := by simp [initial, Place.WaitsNotFull]
  length := Nat.zero_le _
  fifo := rfl
  items := WaitSet.covers_empty _
  slots := WaitSet.covers_empty _

theorem not_waits {place : Place α} (h : place.Holds) :
    ¬place.WaitsNotEmpty ∧ ¬place.WaitsNotFull := by
  constructor
  · rintro rfl
    exact h
  · rintro ⟨x, rfl⟩
    exact h

/-- The thread at the test of its loop, at a notification or at the end has the mutex. -/
theorem Inv.owner_eq (h : Inv capacity s) {place : Place α} (ht : s.places t = place)
    (hp : place.Holds) : s.owner = some t := (h.owner t).mpr (ht ▸ hp)

/-- The holder of the mutex, and what the notifications cover besides its own item or slot. -/
theorem Inv.owned (h : Inv capacity s) {place : Place α} (ht : s.places t = place)
    (hp : (s.places t).Holds) : s.owner = some t ∧
      s.notEmpty.Covers (s.queue.length - place.items) ∧
      s.notFull.Covers (capacity - s.queue.length - place.slots) := by
  have howner := h.owner_eq rfl hp
  have hitems := h.items
  have hslots := h.slots
  rw [held_some howner, ht] at hitems hslots
  exact ⟨howner, hitems, hslots⟩

/-- The mutex goes to `t`, which is in no wait. -/
theorem Inv.acquired (h : Inv capacity s) (hfree : s.owner = none) {place : Place α}
    (hp : place.Holds) : MutexShows (some t) Place.Holds (s.move t place).places := by
  have howner := h.owner
  rw [hfree] at howner
  exact howner.acquire hp

/-- The holder of the mutex moves on and keeps it. -/
theorem Inv.kept (h : Inv capacity s) {place : Place α} (ht : (s.places t).Holds)
    (hp : place.Holds) : MutexShows (s.move t place).owner Place.Holds (s.move t place).places := by
  have howner : s.owner = some t := h.owner_eq rfl ht
  have hshows := h.owner
  rw [howner] at hshows
  change MutexShows s.owner Place.Holds (Function.update s.places t place)
  rw [howner]
  exact hshows.keep hp

/-- The holder of the mutex gives it up. -/
theorem Inv.released (h : Inv capacity s) {place : Place α} (ht : (s.places t).Holds)
    (hp : ¬place.Holds) : MutexShows none Place.Holds (s.move t place).places := by
  have hshows := h.owner
  rw [h.owner_eq rfl ht] at hshows
  exact hshows.release hp

/-- A caller locks the mutex. -/
theorem inv_lock (h : Inv capacity s) (hfree : s.owner = none) (ht : s.places t = .outside)
    {place : Place α} (hp : place.Holds) :
    Inv capacity { s.move t place with owner := some t } := by
  have hitems := h.items
  have hslots := h.slots
  rw [held_none hfree] at hitems hslots
  obtain ⟨hempty, hfull⟩ := not_waits hp
  exact {
    owner := h.acquired hfree hp
    notEmpty := h.notEmpty.move (by simp [ht, Place.WaitsNotEmpty]) hempty
    notFull := h.notFull.move (by simp [ht, Place.WaitsNotFull]) hfull
    length := h.length
    fifo := h.fifo
    items := hitems.mono (Nat.sub_le_sub_left (Nat.zero_le _) _)
    slots := hslots.mono (Nat.sub_le_sub_left (Nat.zero_le _) _) }

/-- `put` finds the queue full, and waits. -/
theorem inv_putWait {x : α} (h : Inv capacity s) (ht : s.places t = .putTest x)
    (hfull : s.queue.length = capacity) :
    Inv capacity { s.move t (.putWait x) with owner := none, notFull := s.notFull.wait t } := by
  have hp : (s.places t).Holds := by
    rw [ht]
    trivial
  obtain ⟨_, hitems, _⟩ := h.owned ht hp
  exact {
    owner := h.released hp (fun h => h)
    notEmpty := h.notEmpty.move (not_waits hp).1 (by simp [Place.WaitsNotEmpty])
    notFull := h.notFull.wait ⟨x, rfl⟩
    length := h.length
    fifo := h.fifo
    items := hitems
    slots := by
      have hnone : capacity - s.queue.length - 0 = 0 := by omega
      change (s.notFull.wait t).Covers (capacity - s.queue.length - 0)
      rw [hnone]
      exact WaitSet.covers_zero }

/-- `take` finds the queue empty, and waits. -/
theorem inv_takeWait (h : Inv capacity s) (ht : s.places t = .takeTest) (hnil : s.queue = []) :
    Inv capacity { s.move t .takeWait with owner := none, notEmpty := s.notEmpty.wait t } := by
  have hp : (s.places t).Holds := by
    rw [ht]
    trivial
  obtain ⟨_, _, hslots⟩ := h.owned ht hp
  exact {
    owner := h.released hp (fun h => h)
    notEmpty := h.notEmpty.wait rfl
    notFull := h.notFull.move (not_waits hp).2 (by simp [Place.WaitsNotFull])
    length := h.length
    fifo := h.fifo
    items := by
      change (s.notEmpty.wait t).Covers (s.queue.length - 0)
      rw [hnil]
      exact WaitSet.covers_zero
    slots := hslots }

/-- `put` finds room: the item is in the queue, and its notification is due. -/
theorem inv_push {x : α} (h : Inv capacity s) (ht : s.places t = .putTest x)
    (hroom : s.queue.length ≠ capacity) :
    Inv capacity { s.move t .putNotify with queue := s.queue ++ [x], put := s.put ++ [x] } := by
  have hp : (s.places t).Holds := by
    rw [ht]
    trivial
  obtain ⟨howner, hitems, hslots⟩ := h.owned ht hp
  have hlength := h.length
  exact {
    owner := h.kept hp trivial
    notEmpty := h.notEmpty.move (not_waits hp).1 (by simp [Place.WaitsNotEmpty])
    notFull := h.notFull.move (not_waits hp).2 (by simp [Place.WaitsNotFull])
    length := by
      simp only [List.length_append, List.length_singleton]
      omega
    fifo := by
      change s.put ++ [x] = s.taken ++ (s.queue ++ [x])
      rw [h.fifo, List.append_assoc]
    items := by
      refine WaitSet.Covers.held howner rfl (hitems.mono ?_)
      simp [Place.items]
    slots := by
      refine WaitSet.Covers.held howner rfl (hslots.mono ?_)
      simp only [Place.slots, List.length_append, List.length_singleton]
      omega }

/-- `take` finds an item: its slot is free, and the notification of it is due. -/
theorem inv_pop {front : α} {rest : List α} (h : Inv capacity s) (ht : s.places t = .takeTest)
    (hqueue : s.queue = front :: rest) :
    Inv capacity { s.move t .takeNotify with queue := rest, taken := s.taken ++ [front] } := by
  have hp : (s.places t).Holds := by
    rw [ht]
    trivial
  obtain ⟨howner, hitems, hslots⟩ := h.owned ht hp
  have hlength := h.length
  rw [hqueue, List.length_cons] at hitems hslots hlength
  exact {
    owner := h.kept hp trivial
    notEmpty := h.notEmpty.move (not_waits hp).1 (by simp [Place.WaitsNotEmpty])
    notFull := h.notFull.move (not_waits hp).2 (by simp [Place.WaitsNotFull])
    length := (Nat.le_succ _).trans hlength
    fifo := by
      change s.put = s.taken ++ [front] ++ rest
      rw [h.fifo, hqueue, List.append_assoc]
      rfl
    items := by
      refine WaitSet.Covers.held howner rfl (hitems.mono ?_)
      simp [Place.items]
    slots := by
      refine WaitSet.Covers.held howner rfl (hslots.mono ?_)
      simp only [Place.slots]
      omega }

/-- `notEmpty_.notify()` -/
theorem inv_putNotify {v : Option τ} (h : Inv capacity s) (ht : s.places t = .putNotify)
    (hv : s.notEmpty.Notifies v) :
    Inv capacity { s.move t .leaving with notEmpty := s.notEmpty.notify v } := by
  have hp : (s.places t).Holds := by
    rw [ht]
    trivial
  obtain ⟨howner, hitems, hslots⟩ := h.owned ht hp
  exact {
    owner := h.kept hp trivial
    notEmpty := (h.notEmpty.notify v).move (not_waits hp).1 (by simp [Place.WaitsNotEmpty])
    notFull := h.notFull.move (not_waits hp).2 (by simp [Place.WaitsNotFull])
    length := h.length
    fifo := h.fifo
    items := by
      refine WaitSet.Covers.held howner rfl ((hitems.notify hv).mono ?_)
      simp only [Place.items, State.move]
      omega
    slots := hslots.held howner rfl }

/-- `notFull_.notify()` -/
theorem inv_takeNotify {v : Option τ} (h : Inv capacity s) (ht : s.places t = .takeNotify)
    (hv : s.notFull.Notifies v) :
    Inv capacity { s.move t .leaving with notFull := s.notFull.notify v } := by
  have hp : (s.places t).Holds := by
    rw [ht]
    trivial
  obtain ⟨howner, hitems, hslots⟩ := h.owned ht hp
  exact {
    owner := h.kept hp trivial
    notEmpty := h.notEmpty.move (not_waits hp).1 (by simp [Place.WaitsNotEmpty])
    notFull := (h.notFull.notify v).move (not_waits hp).2 (by simp [Place.WaitsNotFull])
    length := h.length
    fifo := h.fifo
    items := hitems.held howner rfl
    slots := by
      refine WaitSet.Covers.held howner rfl ((hslots.notify hv).mono ?_)
      simp only [Place.slots, State.move]
      omega }

theorem inv_unlock (h : Inv capacity s) (ht : s.places t = .leaving) :
    Inv capacity { s.move t .outside with owner := none } := by
  have hp : (s.places t).Holds := by
    rw [ht]
    trivial
  obtain ⟨_, hitems, hslots⟩ := h.owned ht hp
  exact {
    owner := h.released hp (fun h => h)
    notEmpty := h.notEmpty.move (not_waits hp).1 (by simp [Place.WaitsNotEmpty])
    notFull := h.notFull.move (not_waits hp).2 (by simp [Place.WaitsNotFull])
    length := h.length
    fifo := h.fifo
    items := hitems
    slots := hslots }

theorem inv_wake (h : Inv capacity s) :
    Inv capacity { s with notEmpty := s.notEmpty.wake t, notFull := s.notFull.wake t } where
  owner := h.owner
  notEmpty := h.notEmpty.wake t
  notFull := h.notFull.wake t
  length := h.length
  fifo := h.fifo
  items := h.items.wake t
  slots := h.slots.wake t

/-- A woken thread gets the mutex, and tests its loop again. -/
theorem inv_relock (h : Inv capacity s) (hfree : s.owner = none)
    (ht : t ∈ s.notEmpty.woken ∨ t ∈ s.notFull.woken) :
    Yields (step capacity s (.relock t)) (Inv capacity) := by
  have hitems := h.items
  have hslots := h.slots
  rw [held_none hfree] at hitems hslots
  simp only [step]
  rcases ht with ht | ht
  · have hplace : s.places t = .takeWait := h.notEmpty.waits_of_woken ht
    have hnot : ¬(s.places t).WaitsNotFull := by simp [hplace, Place.WaitsNotFull]
    rw [hplace, h.notFull.relock_of_not hnot]
    exact yields_ok {
      owner := h.acquired hfree trivial
      notEmpty := h.notEmpty.relock ht (by simp [Place.WaitsNotEmpty])
      notFull := h.notFull.move hnot (by simp [Place.WaitsNotFull])
      length := h.length
      fifo := h.fifo
      items := (hitems.relock t).held rfl rfl
      slots := hslots.held rfl rfl }
  · obtain ⟨x, hplace⟩ := h.notFull.waits_of_woken ht
    have hnot : ¬(s.places t).WaitsNotEmpty := by simp [hplace, Place.WaitsNotEmpty]
    rw [hplace, h.notEmpty.relock_of_not hnot]
    exact yields_ok {
      owner := h.acquired hfree trivial
      notEmpty := h.notEmpty.move hnot (by simp [Place.WaitsNotEmpty])
      notFull := h.notFull.relock ht (by simp [Place.WaitsNotFull])
      length := h.length
      fifo := h.fifo
      items := hitems.held rfl rfl
      slots := (hslots.relock t).held rfl rfl }

theorem inv_test (h : Inv capacity s) (ht : (s.places t).Tests) :
    Yields (step capacity s (.test t)) (Inv capacity) := by
  cases hplace : s.places t with
  | putTest x =>
    simp only [step, hplace]
    split_ifs with hfull
    · exact yields_ok (inv_putWait h hplace hfull)
    · rw [assert_pos hfull]
      exact yields_ok (inv_push h hplace hfull)
  | takeTest =>
    simp only [step, hplace]
    split
    · rename_i hnil
      exact yields_ok (inv_takeWait h hplace hnil)
    · rename_i front rest hqueue
      rw [assert_pos (by simp [hqueue])]
      exact yields_ok (inv_pop h hplace hqueue)
  | outside | putWait x | putNotify | takeWait | takeNotify | leaving =>
    rw [hplace] at ht
    exact ht.elim

theorem totalInvariant (τ α : Type) [DecidableEq τ] (capacity : ℕ) :
    TotalInvariant (system capacity : System (State τ α) _ _) (Inv capacity) where
  init s h := by
    rw [show s = initial from h]
    exact inv_initial
  step s e h he := by
    cases e with
    | put t x => exact yields_ok (inv_lock h he.1 he.2 trivial)
    | take t => exact yields_ok (inv_lock h he.1 he.2 trivial)
    | test t => exact inv_test h he
    | notify t v =>
      rcases he with ⟨ht, hv⟩ | ⟨ht, hv⟩
      · simp only [system, step, ht]
        exact yields_ok (inv_putNotify h ht hv)
      · simp only [system, step, ht]
        exact yields_ok (inv_takeNotify h ht hv)
    | unlock t => exact yields_ok (inv_unlock h he)
    | wake t => exact yields_ok (inv_wake h)
    | relock t => exact inv_relock h he.1 he.2

/-- While a thread waits that has not been woken, the woken ones, and the holder of the mutex,
answer for all that there is; what is taken is what has been put, in order. -/
structure Accounted (capacity : ℕ) (s : State τ α) : Prop where
  consumers : s.notEmpty.waiting.Nonempty →
    s.queue.length ≤ s.notEmpty.woken.card + s.held Place.items
  producers : s.notFull.waiting.Nonempty →
    capacity - s.queue.length ≤ s.notFull.woken.card + s.held Place.slots
  fifo : s.put = s.taken ++ s.queue

/-- No wakeup is lost. A thread that has got the mutex answers for one item until it has taken
it, or waits again, or has notified of it; when the mutex is free the woken threads alone
answer for all items and for all free slots. -/
theorem no_lost_wakeup (capacity : ℕ) :
    Safe (system capacity : System (State τ α) _ _) ∧
    ∀ s : State τ α, Reachable (system capacity) s → Accounted capacity s ∧
      (s.owner = none →
        (s.notEmpty.waiting.Nonempty → s.queue.length ≤ s.notEmpty.woken.card) ∧
        (s.notFull.waiting.Nonempty → capacity - s.queue.length ≤ s.notFull.woken.card)) := by
  refine ⟨(totalInvariant τ α capacity).safe, fun s hs => ?_⟩
  have h : Inv capacity s := ((totalInvariant τ α capacity).invariant _).reachable _ hs
  refine ⟨⟨?_, ?_, h.fifo⟩, fun hfree => ⟨?_, ?_⟩⟩
  · intro hw
    have hle := h.items hw
    omega
  · intro hw
    have hle := h.slots hw
    omega
  · intro hw
    have hle := h.items hw
    rw [held_none hfree] at hle
    exact hle
  · intro hw
    have hle := h.slots hw
    rw [held_none hfree] at hle
    exact hle

/-- Two consumers wait; one item is put, and one of them is woken. -/
def sampleEvents : List (Event ℕ ℕ) :=
  [.take 1, .test 1, .take 2, .test 2, .put 3 7, .test 3, .notify 3 (some 1), .unlock 3]

theorem sample_waiting : ∃ s : State ℕ ℕ, Reachable (system 1) s ∧ 2 ∈ s.notEmpty.waiting ∧
    s.queue = [7] ∧ s.queue.length ≤ s.notEmpty.woken.card := by
  have h : (replay (system 1) initial sampleEvents).any (fun s => s.owner = none ∧
      2 ∈ s.notEmpty.waiting ∧ s.queue = [7]) = true := by
    decide +kernel
  obtain ⟨s, hr, hs⟩ := exists_run_of_replay _ h
  obtain ⟨hfree, hwaiting, hqueue⟩ := of_decide_eq_true hs
  have hreach : Reachable (system 1) s := ⟨_, _, rfl, hr⟩
  exact ⟨s, hreach, hwaiting, hqueue,
    (((no_lost_wakeup 1).2 s hreach).2 hfree).1 ⟨2, hwaiting⟩⟩

end Muduo.BoundedBlockingQueue

import Mathlib.Data.Finset.Card
import Mathlib.Tactic.Common

/-!
# The threads in the wait of a condition variable

A thread that waits gives up its mutex and sleeps until it is woken, by a notification or for no
reason at all. It is back when it has the mutex again; until then other threads may overtake it.

What the threads wait for is counted: `Covers n` says that as long as one of them sleeps, each of
`n` things to be had is covered by a thread that is already awake. That is all a program needs
that notifies one thread for each thing it adds. The threads of a program stand at places of any
type `π`; who has the mutex, and who is in a wait, is to show in their places.
-/

structure WaitSet (τ : Type*) where
  /-- the threads that have not been woken -/
  waiting : Finset τ
  /-- the threads that have been woken and do not have the mutex yet -/
  woken : Finset τ
  disjoint : Disjoint waiting woken

namespace WaitSet

def empty (τ : Type*) : WaitSet τ := ⟨∅, ∅, Finset.disjoint_empty_left ∅⟩

/-- While a thread sleeps, `n` others have been woken. -/
def Covers {τ : Type*} (w : WaitSet τ) (n : ℕ) : Prop := w.waiting.Nonempty → n ≤ w.woken.card

section
variable {τ : Type*} {w : WaitSet τ} {t : τ} {m n : ℕ}

theorem notMem_waiting (h : t ∈ w.woken) : t ∉ w.waiting :=
  fun ht => Finset.disjoint_left.mp w.disjoint ht h

theorem Covers.mono (h : w.Covers n) (hmn : m ≤ n) : w.Covers m := fun hw => hmn.trans (h hw)

theorem covers_empty (n : ℕ) : (empty τ).Covers n := fun h => absurd h Finset.not_nonempty_empty

/-- Nothing is to be had. -/
theorem covers_zero : w.Covers 0 := fun _ => Nat.zero_le _

end

section
variable {τ : Type*} [DecidableEq τ] (w : WaitSet τ)

/-- All threads in the wait. -/
def members : Finset τ := w.waiting ∪ w.woken

/-- The thread `t` begins to wait. -/
def wait (t : τ) : WaitSet τ where
  waiting := insert t w.waiting
  woken := w.woken.erase t
  disjoint := by
    rw [Finset.disjoint_insert_left]
    exact ⟨Finset.notMem_erase t w.woken, w.disjoint.mono_right (Finset.erase_subset t w.woken)⟩

/-- The thread `t` is woken, if it sleeps. -/
def wake (t : τ) : WaitSet τ where
  waiting := w.waiting.erase t
  woken := if t ∈ w.waiting then insert t w.woken else w.woken
  disjoint := by
    have h := w.disjoint.mono_left (Finset.erase_subset t w.waiting)
    split_ifs with ht
    · rw [Finset.disjoint_insert_right]
      exact ⟨Finset.notMem_erase t w.waiting, h⟩
    · exact h

/-- A notification may wake `u`: one of the sleeping threads, or none if none sleeps. -/
def Notifies : Option τ → Prop
  | some t => t ∈ w.waiting
  | none => w.waiting = ∅

instance : DecidablePred w.Notifies
  | some _ => inferInstanceAs (Decidable (_ ∈ _))
  | none => inferInstanceAs (Decidable (_ = _))

def notify : Option τ → WaitSet τ
  | some t => w.wake t
  | none => w

def notifyAll : WaitSet τ := ⟨∅, w.waiting ∪ w.woken, Finset.disjoint_empty_left _⟩

/-- The woken thread `t` gets the mutex back. -/
def relock (t : τ) : WaitSet τ :=
  ⟨w.waiting, w.woken.erase t, w.disjoint.mono_right (Finset.erase_subset t w.woken)⟩

variable {w} {t u : τ} {n : ℕ}

@[simp] theorem members_empty : (empty τ).members = ∅ := Finset.empty_union ∅

@[simp] theorem mem_wait : u ∈ (w.wait t).members ↔ u = t ∨ u ∈ w.members := by
  simp only [members, wait, Finset.mem_union, Finset.mem_insert, Finset.mem_erase]
  by_cases h : u = t
  · simp [h]
  · simp [h]

@[simp] theorem mem_wake : u ∈ (w.wake t).members ↔ u ∈ w.members := by
  simp only [members, wake, Finset.mem_union, Finset.mem_erase]
  by_cases h : u = t
  · subst h
    split_ifs with ht
    · simp [ht]
    · simp [ht]
  · split_ifs with ht
    · simp [h]
    · simp [h]

@[simp] theorem mem_notify {v : Option τ} : u ∈ (w.notify v).members ↔ u ∈ w.members := by
  cases v with
  | some t => exact mem_wake
  | none => exact Iff.rfl

@[simp] theorem mem_notifyAll : u ∈ w.notifyAll.members ↔ u ∈ w.members := by
  simp [members, notifyAll]

theorem mem_relock (h : t ∉ w.waiting) : u ∈ (w.relock t).members ↔ u ≠ t ∧ u ∈ w.members := by
  simp only [members, relock, Finset.mem_union, Finset.mem_erase]
  by_cases hu : u = t
  · simp [hu, h]
  · simp [hu]

theorem relock_of_notMem (h : t ∉ w.woken) : w.relock t = w := by
  unfold relock
  simp only [Finset.erase_eq_of_notMem h]

theorem Covers.wake (h : w.Covers n) (t : τ) : (w.wake t).Covers n := by
  intro hw
  refine (h (hw.mono (Finset.erase_subset t w.waiting))).trans (Finset.card_le_card ?_)
  unfold WaitSet.wake
  dsimp only
  split_ifs
  · exact Finset.subset_insert t w.woken
  · exact subset_rfl

/-- One thing more, and one notification for it. -/
theorem Covers.notify {v : Option τ} (h : w.Covers n) (hv : w.Notifies v) :
    (w.notify v).Covers (n + 1) := by
  cases v with
  | none =>
    intro hw
    have hnone : w.waiting = ∅ := hv
    exact absurd hnone hw.ne_empty
  | some t =>
    have ht : t ∈ w.waiting := hv
    have hnot : t ∉ w.woken := fun hwoken => notMem_waiting hwoken ht
    intro _
    change n + 1 ≤ (if t ∈ w.waiting then insert t w.woken else w.woken).card
    rw [if_pos ht, Finset.card_insert_of_notMem hnot]
    exact Nat.succ_le_succ (h ⟨t, ht⟩)

theorem covers_notifyAll (n : ℕ) : w.notifyAll.Covers n :=
  fun h => absurd h Finset.not_nonempty_empty

/-- A woken thread that has the mutex answers for one thing itself. -/
theorem Covers.relock (h : w.Covers n) (t : τ) : (w.relock t).Covers (n - 1) := by
  intro hw
  have hle : n ≤ w.woken.card := h hw
  have hcard := Finset.pred_card_le_card_erase (s := w.woken) (a := t)
  change n - 1 ≤ (w.woken.erase t).card
  omega

/-! ### The places of the threads -/

section
variable {π : Type*} {places : τ → π} {place : π}

/-- The threads in the wait are those whose places say so. -/
def Shows (w : WaitSet τ) (waits : π → Prop) (places : τ → π) : Prop :=
  ∀ t, t ∈ w.members ↔ waits (places t)

variable {waits : π → Prop}

/-- The thread `t` moves on outside of the wait. -/
theorem Shows.move (h : w.Shows waits places) (hold : ¬waits (places t)) (hnew : ¬waits place) :
    w.Shows waits (Function.update places t place) := by
  intro u
  by_cases hu : u = t
  · subst hu
    rw [Function.update_self]
    exact iff_of_false (fun hm => hold ((h u).mp hm)) hnew
  · rw [Function.update_of_ne hu]
    exact h u

theorem Shows.wait (h : w.Shows waits places) (hnew : waits place) :
    (w.wait t).Shows waits (Function.update places t place) := by
  intro u
  rw [mem_wait]
  by_cases hu : u = t
  · subst hu
    rw [Function.update_self]
    exact iff_of_true (.inl rfl) hnew
  · rw [Function.update_of_ne hu, ← h u]
    simp [hu]

theorem Shows.wake (h : w.Shows waits places) (t : τ) : (w.wake t).Shows waits places :=
  fun u => mem_wake.trans (h u)

theorem Shows.notify (h : w.Shows waits places) (v : Option τ) : (w.notify v).Shows waits places :=
  fun u => mem_notify.trans (h u)

theorem Shows.notifyAll (h : w.Shows waits places) : w.notifyAll.Shows waits places :=
  fun u => mem_notifyAll.trans (h u)

theorem Shows.relock (h : w.Shows waits places) (ht : t ∈ w.woken) (hnew : ¬waits place) :
    (w.relock t).Shows waits (Function.update places t place) := by
  intro u
  rw [mem_relock (notMem_waiting ht)]
  by_cases hu : u = t
  · subst hu
    rw [Function.update_self]
    exact iff_of_false (fun hm => hm.1 rfl) hnew
  · rw [Function.update_of_ne hu, ← h u]
    simp [hu]

theorem Shows.waits_of_woken (h : w.Shows waits places) (ht : t ∈ w.woken) : waits (places t) :=
  (h t).mp (Finset.mem_union_right _ ht)

/-- A thread that stands elsewhere is not there to be woken. -/
theorem Shows.relock_of_not (h : w.Shows waits places) (ht : ¬waits (places t)) :
    w.relock t = w := relock_of_notMem fun hw => ht (h.waits_of_woken hw)

end

end

end WaitSet

/-! ### The mutex -/

/-- The holder of a mutex is the thread whose place says so. -/
def MutexShows {τ π : Type*} (owner : Option τ) (holds : π → Prop) (places : τ → π) : Prop :=
  ∀ t, owner = some t ↔ holds (places t)

namespace MutexShows
variable {τ π : Type*} [DecidableEq τ] {owner : Option τ} {holds : π → Prop} {places : τ → π}
  {place : π} {t : τ}

theorem acquire (h : MutexShows none holds places) (hnew : holds place) :
    MutexShows (some t) holds (Function.update places t place) := by
  intro u
  by_cases hu : u = t
  · subst hu
    rw [Function.update_self]
    exact iff_of_true rfl hnew
  · rw [Function.update_of_ne hu, ← h u]
    exact iff_of_false (fun heq => hu (Option.some.inj heq).symm) (by simp)

/-- A thread moves on, and has the mutex neither before nor after. -/
theorem move (h : MutexShows owner holds places) (hold : ¬holds (places t)) (hnew : ¬holds place) :
    MutexShows owner holds (Function.update places t place) := by
  intro u
  by_cases hu : u = t
  · subst hu
    rw [Function.update_self]
    exact iff_of_false (fun heq => hold ((h u).mp heq)) hnew
  · rw [Function.update_of_ne hu]
    exact h u

theorem keep (h : MutexShows (some t) holds places) (hnew : holds place) :
    MutexShows (some t) holds (Function.update places t place) := by
  intro u
  by_cases hu : u = t
  · subst hu
    rw [Function.update_self]
    exact iff_of_true rfl hnew
  · rw [Function.update_of_ne hu]
    exact h u

theorem release (h : MutexShows (some t) holds places) (hnew : ¬holds place) :
    MutexShows none holds (Function.update places t place) := by
  intro u
  by_cases hu : u = t
  · subst hu
    rw [Function.update_self]
    exact iff_of_false (by simp) hnew
  · rw [Function.update_of_ne hu, ← h u]
    exact iff_of_false (by simp) fun heq => hu (Option.some.inj heq).symm

end MutexShows

/-- What the holder of the mutex counts for. -/
def heldCount {τ π : Type*} (owner : Option τ) (places : τ → π) (f : π → ℕ) : ℕ :=
  (owner.map fun t => f (places t)).getD 0

section
variable {τ π : Type*} {owner : Option τ} {places places' : τ → π} {place : π} {f : π → ℕ} {t : τ}

theorem heldCount_none : heldCount none places f = 0 := rfl

theorem heldCount_of_owner (h : owner = some t) : heldCount owner places f = f (places t) := by
  rw [h]
  rfl

variable [DecidableEq τ]

/-- Who is not the holder may move. -/
theorem heldCount_move (h : owner ≠ some t) :
    heldCount owner (Function.update places t place) f = heldCount owner places f := by
  cases owner with
  | none => rfl
  | some u =>
    have hu : u ≠ t := fun heq => h (congrArg some heq)
    simp [heldCount, hu]

/-- The thread `t` has moved to `place`, and has the mutex. -/
theorem WaitSet.Covers.held {w : WaitSet τ} {n : ℕ} (howner : owner = some t)
    (hplaces : places' = Function.update places t place) (h : w.Covers (n - f place)) :
    w.Covers (n - heldCount owner places' f) := by
  rw [heldCount_of_owner howner, hplaces, Function.update_self]
  exact h

end

import Muduo.TimerCancel

/-!
# Timers run as scheduled

What a timer queue does to its timers as long as they are not cancelled: when each of
them is run, in which order, and where it is between its runs.
-/
namespace Muduo.TimerLoop
open StepSystem

/-- The runs of a timer. -/
def State.starts (s : State) (id : TimerId) : List Start := s.started.filter (·.id = id)

def State.NeverCancelled (s : State) (id : TimerId) : Prop := ∀ c ∈ s.cancelled, c.id ≠ id

/-- Call `n` of `handleRead` is the first after the insertion to find the timer expired. -/
structure State.DueRead (s : State) (x : Insertion) (n : ℕ) : Prop where
  inserted : x.reads ≤ n
  expired : ∃ now ∈ s.reads[n]?, x.expiration ≤ now
  first : ∀ m, x.reads ≤ m → m < n → ∀ now ∈ s.reads[m]?, now < x.expiration

/-- The runs so far, and the batch against them. -/
structure History (s : State) : Prop where
  /-- the batch waits in order -/
  sorted : ∀ r, s.reading = some r → r.unvisited.Pairwise (· < ·)
  now : ∀ r, s.reading = some r → s.reads.getLast? = some r.now
  expired : ∀ r, s.reading = some r → ∀ e ∈ r.unvisited, e.when ≤ r.now
  reads : ∀ st ∈ s.started, st.read < s.reads.length
  sequence : ∀ st ∈ s.started, st.id.sequence ≤ s.queue.numCreated
  /-- what waits has not been run in this call -/
  awaiting : ∀ st ∈ s.started, s.Awaiting st.id → st.read + 1 < s.reads.length
  later : ∀ r, s.reading = some r → ∀ st ∈ s.started, st.read + 1 = s.reads.length →
    ∀ e ∈ r.unvisited, st.expiration ≤ e.when
  once : s.started.Pairwise fun st st' => st.id = st'.id → st.read < st'.read
  notEarly : ∀ st ∈ s.started, ∃ now ∈ s.reads[st.read]?, st.expiration ≤ now
  ordered : s.started.Pairwise fun st st' => st.read = st'.read → st.expiration ≤ st'.expiration
  canceling : ∀ id ∈ s.queue.cancelingTimers, ∃ c ∈ s.cancelled, c.id = id

section Steps
variable {s t : State} {e : Event}

/-- A step between two callbacks. -/
theorem History.of_reading (h : History s) (hI : Inv s) (he : Effect s e t)
    (hreading : t.reading = s.reading) (hreads : t.reads = s.reads) (hstarted : t.started = s.started)
    (hnum : s.queue.numCreated ≤ t.queue.numCreated)
    (hcanceling : ∀ id ∈ t.queue.cancelingTimers, ∃ c ∈ t.cancelled, c.id = id) : History t where
  sorted := hreading ▸ h.sorted
  now := by rw [hreading, hreads]; exact h.now
  expired := hreading ▸ h.expired
  reads := by rw [hstarted, hreads]; exact h.reads
  sequence st hst := (h.sequence st (hstarted ▸ hst)).trans hnum
  awaiting st hst ha := by
    rw [hreads]
    exact h.awaiting st (hstarted ▸ hst) ((awaiting_iff hI he hreading).mp ha)
  later := by rw [hreading, hstarted, hreads]; exact h.later
  once := hstarted ▸ h.once
  notEarly := by rw [hstarted, hreads]; exact h.notEarly
  ordered := hstarted ▸ h.ordered
  canceling := hcanceling

end Steps

/-- The expiration of a timer, from its runs so far. -/
def State.current (s : State) (x : Insertion) : Timestamp := match (s.starts x.id).getLast? with
  | none => x.expiration
  | some st => Timestamp.addTime (s.reads.getD st.read 0) x.interval

/-- Where a timer is that has not been cancelled. -/
inductive Place (s : State) (x : Insertion) : Prop
  | waiting (u : Timer) (halive : s.queue.Alive x.id u) (hinterval : u.interval = x.interval)
      (hmem : toLex (u.expiration, x.id.timer) ∈ s.queue.timers) (hcurrent : u.expiration = s.current x)
      (hone : ¬0 < x.interval → s.starts x.id = [] ∧
        ∀ m, x.reads ≤ m → ∀ now ∈ s.reads[m]?, now < x.expiration)
  | due (u : Timer) (r : HandleRead) (hr : s.reading = some r) (halive : s.queue.Alive x.id u)
      (hinterval : u.interval = x.interval) (hmem : toLex (u.expiration, x.id.timer) ∈ r.unvisited)
      (hcurrent : u.expiration = s.current x)
      (hone : ¬0 < x.interval → s.starts x.id = [] ∧ s.DueRead x (s.reads.length - 1))
  | ran (u : Timer) (r : HandleRead) (hr : s.reading = some r) (halive : s.queue.Alive x.id u)
      (hinterval : u.interval = x.interval) (hmem : toLex (u.expiration, x.id.timer) ∈ r.visited)
      (hlast : ∃ st, (s.starts x.id).getLast? = some st ∧ st.read = s.reads.length - 1)
      (hone : ¬0 < x.interval → s.starts x.id = [⟨x.id, s.reads.length - 1, x.expiration⟩] ∧
        s.DueRead x (s.reads.length - 1))
  | gone (n : ℕ) (hone : ¬0 < x.interval) (hdead : ∀ u, ¬s.queue.Alive x.id u)
      (hstarts : s.starts x.id = [⟨x.id, n, x.expiration⟩]) (hdue : s.DueRead x n)

section Steps
variable {s t : State} {e : Event} {x : Insertion}

theorem current_congr (hstarts : t.starts x.id = s.starts x.id)
    (hreads : ∀ st ∈ s.starts x.id, t.reads.getD st.read 0 = s.reads.getD st.read 0) :
    t.current x = s.current x := by
  rw [State.current, hstarts, State.current]
  cases hlast : (s.starts x.id).getLast? with
  | none => rfl
  | some st => simp only [hreads st (List.mem_of_getLast? hlast)]

/-- A step between two callbacks that leaves the timer where it is. -/
theorem Place.frame (h : Place s x) (hreading : t.reading = s.reading) (hreads : t.reads = s.reads)
    (hstarted : t.started = s.started)
    (hkeep : ∀ u, s.queue.Alive x.id u → t.queue.Alive x.id u ∧
      ∀ w, toLex (w, x.id.timer) ∈ s.queue.timers → toLex (w, x.id.timer) ∈ t.queue.timers)
    (hdead : (∀ u, ¬s.queue.Alive x.id u) → ∀ u, ¬t.queue.Alive x.id u) : Place t x := by
  have hstarts : t.starts x.id = s.starts x.id := by rw [State.starts, hstarted, State.starts]
  have hcurrent : t.current x = s.current x := current_congr hstarts fun _ _ => by rw [hreads]
  have hdue : ∀ n, s.DueRead x n → t.DueRead x n := fun n ⟨h₁, h₂, h₃⟩ =>
    ⟨h₁, hreads ▸ h₂, hreads ▸ h₃⟩
  cases h with
  | waiting u halive hinterval hmem hcur hone =>
    obtain ⟨halive', htimers⟩ := hkeep u halive
    refine .waiting u halive' hinterval (htimers _ hmem) (hcur.trans hcurrent.symm) fun hnot => ?_
    rw [hstarts, hreads]
    exact hone hnot
  | due u r hr halive hinterval hmem hcur hone =>
    refine .due u r (hreading.trans hr) (hkeep u halive).1 hinterval hmem (hcur.trans hcurrent.symm)
      fun hnot => ?_
    rw [hstarts, hreads]
    exact ⟨(hone hnot).1, hdue _ (hone hnot).2⟩
  | ran u r hr halive hinterval hmem hlast hone =>
    refine .ran u r (hreading.trans hr) (hkeep u halive).1 hinterval hmem ?_ fun hnot => ?_
    · rw [hstarts, hreads]
      exact hlast
    · rw [hstarts, hreads]
      exact ⟨(hone hnot).1, hdue _ (hone hnot).2⟩
  | gone n hone hgone hs hd => exact .gone n hone (hdead hgone) (hstarts.trans hs) (hdue n hd)

theorem DueRead.append {n : ℕ} {now : Timestamp} (h : s.DueRead x n) (hlt : n < s.reads.length)
    (ht : t.reads = s.reads ++ [now]) : t.DueRead x n where
  inserted := h.inserted
  expired := by
    rw [ht, List.getElem?_append_left hlt]
    exact h.expired
  first m hm hmn := by
    rw [ht, List.getElem?_append_left (by omega)]
    exact h.first m hm hmn

theorem State.DueRead.lt {n : ℕ} (h : s.DueRead x n) : n < s.reads.length := by
  obtain ⟨now, hnow, _⟩ := h.expired
  exact (List.getElem?_eq_some_iff.mp hnow).1

/-- Every timer that has not been cancelled is somewhere. -/
def Tracked (s : State) : Prop :=
  ∀ x ∈ s.inserted, x.reads ≤ s.reads.length ∧ (s.NeverCancelled x.id → Place s x)

theorem State.DueRead.unique {n m : ℕ} (hn : s.DueRead x n) (hm : s.DueRead x m) : n = m := by
  obtain ⟨now, hnow, hle⟩ := hn.expired
  obtain ⟨now', hnow', hle'⟩ := hm.expired
  obtain hlt | heq | hlt := Nat.lt_trichotomy n m
  · exact absurd (hm.first n hn.inserted hlt now hnow) (not_lt.mpr hle)
  · exact heq
  · exact absurd (hn.first m hm.inserted hlt now' hnow') (not_lt.mpr hle')

end Steps

end Muduo.TimerLoop

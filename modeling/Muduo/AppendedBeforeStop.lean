import Muduo.AsyncLogging

/-!
# Records appended before stop

`stop()` clears `running_`, and the back-end tests it before it looks at the buffers. What was
appended after the last critical section of the back-end is collected only if the back-end has
passed that test already.
-/
namespace Muduo.AsyncLogging
open StepSystem

/-- The bytes that are not collected. -/
def State.pending (s : State) : List UInt8 := bytes s.buffers ++ s.currentBuffer.data

/-- The records that were appended when `stop()` was called are in collected batches, and all
batches are written. -/
def Saved (s : State) : Prop :=
  (s.appended.take s.appendedBefore).flatten <+: bytes s.batches.flatten ∧
    s.output.map Entry.item = s.batches.flatMap expected

/-- The back-end has seen `running_`, and not yet collected. -/
def Position.Collects (position : Position) : Prop := position = .locking ∨ position = .waiting

instance (position : Position) : Decidable position.Collects := inferInstanceAs (Decidable (_ ∨ _))

/-- `stop()` is called when the back-end is going to collect, or when there is nothing to
collect. -/
def StopsInTime (s : State) (e : Event) : Prop :=
  e = .stop → s.position.Collects ∨ s.pending = []

instance (s : State) (e : Event) : Decidable (StopsInTime s e) :=
  inferInstanceAs (Decidable (_ → _))

/-- The records that were appended when `stop()` was called are in collected batches. -/
def Covered (s : State) : Prop :=
  (s.appended.take s.appendedBefore).flatten.length ≤ (bytes s.batches.flatten).length

/-- `stop()` has been called. -/
def Caller.Stopping (caller : Caller) : Prop :=
  caller = .notifying ∨ caller = .joining ∨ caller = .stopped

structure StopInv (s : State) : Prop where
  inv : Inv s
  before : s.appendedBefore ≤ s.appended.length
  stopped : s.caller = .stopped → s.position = .returned

/-- What is missing will be collected. -/
def Good (s : State) : Prop := Covered s ∨ s.position.Collects

/-- Something is missing, and nothing will be collected. -/
structure Bad (s : State) : Prop where
  notCovered : ¬Covered s
  position : ¬s.position.Collects
  running : s.running = false
  stopping : s.caller.Stopping

variable {s t : State} {e : Event}

theorem prefix_of_covered (h : Inv s) (hc : Covered s) :
    (s.appended.take s.appendedBefore).flatten <+: bytes s.batches.flatten := by
  have happended : (s.appended.take s.appendedBefore).flatten <+: s.appended.flatten :=
    (List.take_prefix ..).flatten
  have hbatches : bytes s.batches.flatten <+: s.appended.flatten := by
    rw [h.accounted.appended]
    exact List.prefix_append ..
  exact List.prefix_of_prefix_length_le happended hbatches hc

theorem covered_of_pending (h : Inv s) (hp : s.pending = []) : Covered s := by
  have hold := h.accounted.appended
  unfold State.pending at hp
  rw [hp, List.append_nil] at hold
  unfold Covered
  rw [← hold]
  exact (List.take_prefix ..).flatten.length_le

/-- A critical section collects all. -/
theorem collect_pending (h : Inv s) (hp : s.position.Collects) (hst : collect s = .ok t) :
    t.pending = [] ∧ t.position = .overload ∧ t.appended = s.appended ∧
      t.appendedBefore = s.appendedBefore ∧ t.caller = s.caller := by
  obtain ⟨h1, h2, hw⟩ := h.spare.ready (.inr hp)
  rw [collect_eq h1 h2 hw h.next] at hst
  cases hst
  exact ⟨rfl, rfl, rfl, rfl, rfl⟩

/-- Records that are appended later do not matter. -/
theorem covered_append {logline : List UInt8} (h : StopInv s) :
    Covered { append s logline with appended := s.appended ++ [logline] } ↔ Covered s := by
  have htake : (s.appended ++ [logline]).take s.appendedBefore = s.appended.take s.appendedBefore :=
    List.take_append_of_le_length h.before
  obtain ⟨_, heq⟩ | heq := append_cases logline h.inv.next
  · rw [heq]
    simp only [Covered, htake]
  · rw [heq]
    simp only [Covered, htake]

theorem test_cases (hst : test s = .ok t) :
    s.running = true ∧ t = { s with position := .locking } ∨
      s.running = false ∧ t = { s with buffersToWrite := [], position := .returned } := by
  unfold test at hst
  split_ifs at hst with hrun
  · obtain ⟨_, _, hst⟩ := bind_eq_ok.mp hst
    obtain ⟨_, _, hst⟩ := bind_eq_ok.mp hst
    obtain ⟨_, _, hst⟩ := bind_eq_ok.mp hst
    exact .inl ⟨hrun, (Except.ok.inj hst).symm⟩
  · exact .inr ⟨by simpa using hrun, (Except.ok.inj hst).symm⟩

/-- The steps of the back-end, but for the critical section, change nothing that matters here but
its position. -/
theorem backend_cases (h : Inv s) (he : enabled s e) (hst : step s e = .ok t)
    (hback : e = .begin ∨ (∃ now, e = .overload now) ∨ e = .write ∨ e = .recycle) :
    (Covered t ↔ Covered s) ∧ ¬s.position.Collects ∧ ¬t.position.Collects ∧
      t.appended = s.appended ∧ t.appendedBefore = s.appendedBefore ∧ t.running = s.running ∧
      t.caller = s.caller ∧ s.position ≠ .returned := by
  obtain rfl | ⟨now, rfl⟩ | rfl | rfl := hback
  · have hp : s.position = .starting := he
    obtain ⟨_, _, hst⟩ := bind_eq_ok.mp hst
    cases hst
    simp [hp, Position.Collects, Covered]
  · have hp : s.position = .overload := he
    cases hst
    unfold overload
    split_ifs
    · simp [hp, Position.Collects, Covered]
    · simp [hp, Position.Collects, Covered]
  · obtain ⟨i, hp⟩ := he
    simp only [step, hp] at hst
    cases hst
    unfold write
    split
    · simp [hp, Position.Collects, Covered]
    · simp [hp, Position.Collects, Covered]
  · have hp : s.position = .recycle := he
    obtain ⟨h1, hne, h2⟩ := h.spare.collected (.inr (.inl hp))
    simp only [step, recycle_eq h1 hne h2] at hst
    cases hst
    simp [hp, Position.Collects, Covered]

/-- With the mutex, the back-end waits or collects. -/
theorem lock_cases (hst : lock s = .ok t) :
    t = { s with position := .waiting } ∨ collect s = .ok t := by
  unfold lock at hst
  split_ifs at hst
  · exact .inl (Except.ok.inj hst).symm
  · exact .inr hst

theorem append_frame {logline : List UInt8} (h : Inv s) :
    (append s logline).appendedBefore = s.appendedBefore ∧
      (append s logline).position = s.position ∧ (append s logline).running = s.running ∧
      (append s logline).caller = s.caller := by
  obtain ⟨_, heq⟩ | heq := append_cases logline h.next
  · rw [heq]
    exact ⟨rfl, rfl, rfl, rfl⟩
  · rw [heq]
    exact ⟨rfl, rfl, rfl, rfl⟩

theorem stopInv_step (h : StopInv s) (he : enabled s e) (hst : step s e = .ok t) : StopInv t := by
  have hI : Inv t := (invariant.invariant _).step s e t h.inv he hst
  have hbefore := h.before
  have hcollect (hp : s.position.Collects) (hst : collect s = .ok t) : StopInv t := by
    obtain ⟨_, _, happended, hb, hcaller⟩ := collect_pending h.inv hp hst
    refine ⟨hI, by rw [happended, hb]; exact hbefore, fun hc => ?_⟩
    have hreturned := h.stopped (hcaller ▸ hc)
    unfold Position.Collects at hp
    simp [hreturned] at hp
  cases e with
  | append =>
    obtain ⟨hb, hp, _, hcaller⟩ := append_frame h.inv
    cases hst
    refine ⟨hI, ?_, fun hc => hp.trans (h.stopped (hcaller ▸ hc))⟩
    change (append s _).appendedBefore ≤ _
    rw [hb, List.length_append]
    omega
  | start =>
    cases hst
    exact ⟨hI, hbefore, fun hc => by cases hc⟩
  | started | notify =>
    cases hst
    exact ⟨hI, hbefore, fun hc => by cases hc⟩
  | stop =>
    cases hst
    exact ⟨hI, le_refl _, fun hc => by cases hc⟩
  | joined =>
    cases hst
    exact ⟨hI, hbefore, fun _ => he.2⟩
  | begin | overload | write | recycle =>
    obtain ⟨_, _, _, happended, hb, _, hcaller, hp⟩ := backend_cases h.inv he hst (by simp)
    refine ⟨hI, by rw [happended, hb]; exact hbefore, fun hc => ?_⟩
    exact absurd (h.stopped (hcaller ▸ hc)) hp
  | test =>
    have hp : s.position = .testing := he
    obtain ⟨_, rfl⟩ | ⟨_, rfl⟩ := test_cases hst
    · refine ⟨hI, hbefore, fun hc => ?_⟩
      have hreturned := h.stopped hc
      rw [hp] at hreturned
      cases hreturned
    · exact ⟨hI, hbefore, fun _ => rfl⟩
  | lock =>
    have hp : s.position = .locking := he
    obtain rfl | hst := lock_cases hst
    · refine ⟨hI, hbefore, fun hc => ?_⟩
      have hreturned := h.stopped hc
      rw [hp] at hreturned
      cases hreturned
    · exact hcollect (.inl hp) hst
  | wake => exact hcollect (.inr he) hst

theorem good_step (h : StopInv s) (hg : Good s) (hC : StopsInTime s e) (he : enabled s e)
    (hst : step s e = .ok t) : Good t := by
  have hI : Inv t := (invariant.invariant _).step s e t h.inv he hst
  have hcollect (hp : s.position.Collects) (hst : collect s = .ok t) : Good t :=
    .inl (covered_of_pending hI (collect_pending h.inv hp hst).1)
  cases e with
  | append =>
    obtain ⟨_, hp, _⟩ := append_frame h.inv
    cases hst
    refine hg.imp (covered_append h).mpr fun hpos => ?_
    change (append s _).position.Collects
    rw [hp]
    exact hpos
  | start =>
    obtain ⟨_, hp⟩ := h.inv.life.constructed he
    cases hst
    obtain hg | hg := hg
    · exact .inl hg
    · simp [hp, Position.Collects] at hg
  | started | notify | joined =>
    cases hst
    exact hg
  | stop =>
    cases hst
    obtain hpos | hpending := hC rfl
    · exact .inr hpos
    · exact .inl (covered_of_pending hI hpending)
  | begin | overload | write | recycle =>
    obtain ⟨hcovered, hpos, _⟩ := backend_cases h.inv he hst (by simp)
    exact .inl (hcovered.mpr (hg.resolve_right hpos))
  | test =>
    have hp : s.position = .testing := he
    obtain hg | hg := hg
    · obtain ⟨_, rfl⟩ | ⟨_, rfl⟩ := test_cases hst
      · exact .inl hg
      · exact .inl hg
    · simp [hp, Position.Collects] at hg
  | lock =>
    obtain rfl | hst := lock_cases hst
    · exact .inr (.inr rfl)
    · exact hcollect (.inl he) hst
  | wake => exact hcollect (.inr he) hst

/-- What is pending in a call of `stop()` that is not in time will not be collected. -/
theorem bad_of_late (h : StopInv s) (hC : ¬StopsInTime s e) (hst : step s e = .ok t) : Bad t := by
  unfold StopsInTime at hC
  push Not at hC
  obtain ⟨rfl, hpos, hpending⟩ := hC
  cases hst
  refine ⟨?_, hpos, rfl, .inl rfl⟩
  have hold := congrArg List.length h.inv.accounted.appended
  have hlen : 0 < s.pending.length := List.length_pos_iff.mpr hpending
  unfold State.pending at hlen
  rw [List.length_append] at hold
  simp only [Covered, List.take_length]
  omega

theorem bad_step (h : StopInv s) (hb : Bad s) (he : enabled s e) (hst : step s e = .ok t) :
    Bad t := by
  have hstopping := hb.stopping
  unfold Caller.Stopping at hstopping
  have hpos := hb.position
  unfold Position.Collects at hpos
  cases e with
  | append =>
    obtain ⟨_, hp, hrun, hcaller⟩ := append_frame h.inv
    cases hst
    exact
      { notCovered := fun hc => hb.notCovered ((covered_append h).mp hc)
        position := by
          change ¬(append s _).position.Collects
          rw [hp]
          exact hb.position
        running := hrun.trans hb.running
        stopping := by
          change (append s _).caller.Stopping
          rw [hcaller]
          exact hb.stopping }
  | start | stop =>
    simp only [enabled] at he
    simp [he] at hstopping
  | started =>
    simp [he.1] at hstopping
  | notify =>
    cases hst
    exact { hb with stopping := .inr (.inl rfl) }
  | joined =>
    cases hst
    exact { hb with stopping := .inr (.inr rfl) }
  | begin | overload | write | recycle =>
    obtain ⟨hcovered, _, hp, _, _, hrun, hcaller, _⟩ := backend_cases h.inv he hst (by simp)
    exact
      { notCovered := fun hc => hb.notCovered (hcovered.mp hc)
        position := hp
        running := hrun.trans hb.running
        stopping := hcaller ▸ hb.stopping }
  | test =>
    obtain ⟨hrun, _⟩ | ⟨_, rfl⟩ := test_cases hst
    · rw [hb.running] at hrun
      cases hrun
    · exact { hb with position := by simp [Position.Collects] }
  | lock => exact absurd (.inl he) hpos
  | wake => exact absurd (.inr he) hpos

theorem stopInv_constructed : StopInv constructed where
  inv := inv_constructed
  before := le_refl _
  stopped h := by cases h

/-- A run whose call of `stop()` is in time is good, and any other leaves something behind. -/
theorem dichotomy : Dichotomy system (fun s => StopInv s ∧ Good s) (fun s => StopInv s ∧ Bad s)
    StopsInTime where
  init s hs := by
    obtain rfl := hs
    exact ⟨stopInv_constructed, .inl (le_refl _)⟩
  keeps s e t h hC he hst := ⟨stopInv_step h.1 he hst, good_step h.1 h.2 hC he hst⟩
  falls s e t h hC he hst := ⟨stopInv_step h.1 he hst, bad_of_late h.1 hC hst⟩
  stays s e t h he hst := ⟨stopInv_step h.1 he hst, bad_step h.1 h.2 he hst⟩

/-- When `stop()` returns, all that was appended before it was called has been collected and
written exactly when the call was in time. -/
theorem saved_iff {es : List Event} (hr : Run system constructed es t) (hc : t.caller = .stopped) :
    Saved t ↔ Guarded system StopsInTime constructed es := by
  constructor
  · intro hsaved
    by_contra hnot
    obtain ⟨_, hb⟩ := dichotomy.run _ rfl hr hnot
    exact hb.notCovered hsaved.1.length_le
  · intro hg
    obtain ⟨h, hgood⟩ := dichotomy.guardedInvariant.run _ rfl hr hg
    have hp := h.stopped hc
    have hcovered : Covered t := hgood.resolve_right (by simp [hp, Position.Collects])
    have hout := h.inv.accounted.output
    refine ⟨prefix_of_covered h.inv hcovered, ?_⟩
    simpa [State.remaining, State.unwritten, hp, items] using hout

/-- A record is appended while the back-end is at its loop test, and `stop()` is called. -/
def lateStop : List Event :=
  [.start, .begin, .started, .append [1], .stop, .notify, .test, .joined]

theorem lateStop_lost : ∃ t, Run system constructed lateStop t ∧ t.caller = .stopped ∧
    t.appended.take t.appendedBefore = [[1]] ∧ t.output = [] ∧ ¬Saved t := by
  have hreplay : (replay system constructed lateStop).any (fun t => decide (t.caller = .stopped ∧
      t.appended.take t.appendedBefore = [[1]] ∧ t.output = [] ∧ t.batches = [])) = true := by
    decide +kernel
  obtain ⟨t, hr, ht⟩ := exists_run_of_replay system hreplay
  obtain ⟨hc, happended, hout, hbatches⟩ := of_decide_eq_true ht
  refine ⟨t, hr, hc, happended, hout, fun hsaved => ?_⟩
  have hlen := hsaved.1.length_le
  simp [happended, hbatches] at hlen

/-- And when it is in its wait. -/
def timelyStop : List Event :=
  [.start, .begin, .started, .test, .lock, .append [1], .stop, .notify, .wake, .overload "",
    .write, .write, .recycle, .test, .joined]

theorem timelyStop_saved : ∃ t, Run system constructed timelyStop t ∧ t.output = [.logged [1]] ∧
    Saved t := by
  have hreplay : (replay (restrict system StopsInTime) constructed timelyStop).any
      (fun t => decide (t.caller = .stopped ∧ t.output = [.logged [1]])) = true := by
    decide +kernel
  obtain ⟨t, hr, ht⟩ := exists_run_of_replay _ hreplay
  obtain ⟨hc, hout⟩ := of_decide_eq_true ht
  have hr' := run_of_restrict system hr
  exact ⟨t, hr', hout, (saved_iff hr' hc).mpr (restrict_guarded system hr)⟩

end Muduo.AsyncLogging

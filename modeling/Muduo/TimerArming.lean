import Muduo.TimerLoop

/-!
# No timer is stranded

The timerfd is armed by `addTimer` when the new timer is the first to expire, and by
`reset` at the end of `handleRead`; `cancel` leaves it alone. In `reset` an
expiration that is not `valid()` stands for an empty `timers_`.
-/
namespace Muduo

/-- The timeout is not zero, and ends by the moment `earliest`, or 100 microseconds after the
arming if that is later. -/
def Arming.InTime (a : Arming) (earliest : Timestamp) : Prop :=
  0 < a.timeout.nanoseconds ∧
    a.clock * 1000 + a.timeout.nanoseconds ≤ max earliest (a.clock + 100) * 1000

instance (a : Arming) (earliest : Timestamp) : Decidable (a.InTime earliest) :=
  inferInstanceAs (Decidable (_ ∧ _))

namespace Timerfd
variable {f : Timerfd} {earliest later : Timestamp}

def Due (f : Timerfd) (earliest : Timestamp) : Prop :=
  f.readable = true ∨ ∃ a ∈ f.armed, a.InTime earliest

instance (f : Timerfd) (earliest : Timestamp) : Decidable (f.Due earliest) :=
  inferInstanceAs (Decidable (_ ∨ _))

theorem Due.mono (h : f.Due earliest) (hle : earliest ≤ later) : f.Due later := by
  obtain h | ⟨a, ha, hpos, hmax⟩ := h
  · exact .inl h
  · have hle' : max earliest (a.clock + 100) ≤ max later (a.clock + 100) :=
      max_le_max hle (le_refl _)
    exact .inr ⟨a, ha, hpos, hmax.trans (mul_le_mul_of_nonneg_right hle' (by decide))⟩

theorem due_resetTimerfd (f : Timerfd) (expiration clock : Timestamp) :
    (f.resetTimerfd expiration clock).Due expiration := by
  rw [resetTimerfd_eq]
  have hns := nanoseconds_howMuchTimeFromNow expiration clock
  refine .inr ⟨_, rfl, ?_, ?_⟩
  · have hle : (100 : ℤ) ≤ max (expiration - clock) 100 := le_max_right _ _
    rw [hns]
    omega
  · have hmax : max expiration (clock + 100) = clock + max (expiration - clock) 100 := by
      rw [← max_add_add_left, add_sub_cancel]
    rw [hns, hmax, add_mul]

end Timerfd

namespace TimerLoop
open StepSystem

/-- Between two calls of `handleRead` the timerfd is readable, or armed in time for the first
of `timers_`. -/
def NotStranded (s : State) : Prop :=
  s.reading = none → ∀ e ∈ s.queue.timers.first, s.queue.timerfd.Due (Entry.when e)

instance (s : State) : Decidable (NotStranded s) :=
  have : Decidable (s.reading = none) := decidable_of_iff _ Option.isNone_iff_eq_none
  inferInstanceAs (Decidable (_ → _))

/-- At the end of `handleRead` a timer that expires at `w` will be in `timers_`. -/
def State.Remains (s : State) (w : Timestamp) : Prop := (∃ e ∈ s.queue.timers, e.when = w) ∨
  ∃ r ∈ s.reading, ∃ e ∈ r.expired, ∃ t ∈ s.queue.heap e.timer,
    s.queue.Kept e.timer t ∧ (t.restart r.now).expiration = w

/-- What remains is `valid()`, or the timerfd is due for it already. -/
def Rearms (s : State) : Event → Prop
  | .endRead _ => (∀ w, s.Remains w → w.valid) ∨ ∀ w, s.Remains w → s.queue.timerfd.Due w
  | .addTimer .. | .cancel _ | .expire | .handleRead _ | .run => True

/-- Due for the first, due for all. -/
theorem due_first_iff {timers : OrderedSet Entry} {f : Timerfd} :
    (∀ e ∈ timers.first, f.Due (Entry.when e)) ↔ ∀ e ∈ timers, f.Due e.when := by
  constructor
  · intro h e he
    obtain ⟨e₀, hfirst, hle⟩ := OrderedSet.exists_first he
    exact (h e₀ hfirst).mono (Entry.when_le hle)
  · intro h e he
    exact h e (OrderedSet.mem_of_first he)

section Steps
variable {s t : State} {e : Event}

/-- `addTimer` keeps the timerfd due for those up to `bound`. -/
theorem due_of_addTimer (bound : Timestamp) {q : TimerQueue} {w clock : Timestamp}
    (h : ∀ e ∈ q.timers, e.when ≤ bound → q.timerfd.Due e.when) {e : Entry}
    (he : e.when = w ∨ e ∈ q.timers) (hle : e.when ≤ bound) :
    (if q.earliestChanged w then q.timerfd.resetTimerfd w clock else q.timerfd).Due e.when := by
  unfold TimerQueue.earliestChanged
  cases hfirst : q.timers.first with
  | none =>
    obtain rfl | hmem := he
    · exact Timerfd.due_resetTimerfd _ _ _
    · exact absurd hmem (OrderedSet.first_eq_none.mp hfirst e)
  | some e₀ =>
    have hleast : e ∈ q.timers → e₀.when ≤ e.when := fun hmem =>
      Entry.when_le (OrderedSet.first_le hfirst hmem)
    by_cases hlt : w < e₀.when
    · simp only [hlt, decide_true, if_true]
      have hw : w ≤ e.when := by
        obtain heq | hmem := he
        · exact le_of_eq heq.symm
        · exact hlt.le.trans (hleast hmem)
      exact (Timerfd.due_resetTimerfd _ _ _).mono hw
    · simp only [hlt, decide_false, Bool.false_eq_true, if_false]
      have hw : e₀.when ≤ e.when := by
        obtain heq | hmem := he
        · rw [heq]
          exact not_lt.mp hlt
        · exact hleast hmem
      exact (h e₀ (OrderedSet.mem_of_first hfirst) (hw.trans hle)).mono hw

theorem remains_iff {now : Timestamp} {visited : List Entry} {queue : TimerQueue}
    (hr : s.reading = some ⟨now, visited, []⟩)
    (hq : { s.queue with callingExpiredTimers := false }.Reinserted now visited queue) (w : Timestamp) :
    s.Remains w ↔ ∃ e ∈ queue.timers, e.when = w := by
  constructor
  · rintro (⟨e, he, hw⟩ | ⟨r, hr', e, he, u, hu, hk, hw⟩)
    · exact ⟨e, (hq.timers e).mpr (.inl he), hw⟩
    · obtain rfl := Option.some.inj (hr.symm.trans hr')
      have he : e ∈ visited := by simpa [HandleRead.expired] using he
      exact ⟨_, (hq.timers _).mpr (.inr ⟨e, he, u, hu, hk, rfl⟩), hw⟩
  · rintro ⟨e, he, hw⟩
    obtain hold | ⟨x, hx, u, hu, hk, rfl⟩ := (hq.timers e).mp he
    · exact .inl ⟨e, hold, hw⟩
    · exact .inr ⟨_, hr, x, by simpa [HandleRead.expired] using hx, u, hu, hk, hw⟩

theorem notStranded_effect (h : NotStranded s) (hC : Rearms s e) (he : Effect s e t) :
    NotStranded t := by
  intro hreading
  cases he with
  | addTimer clock =>
    have hdue := due_first_iff.mp (h hreading)
    rw [due_first_iff]
    intro x hx
    refine due_of_addTimer x.when (fun y hy _ => hdue y hy) ?_ (le_refl _)
    exact (OrderedSet.mem_insert.mp hx).imp_left (congrArg Entry.when)
  | erase =>
    have hdue := due_first_iff.mp (h hreading)
    rw [due_first_iff]
    intro x hx
    exact hdue x (OrderedSet.mem_erase.mp hx).2
  | cancel hmem hr =>
    change s.reading = none at hreading
    rw [hr] at hreading
    cases hreading
  | miss => exact h hreading
  | expire => exact fun x _ => .inl rfl
  | handleRead | run => cases hreading
  | @endRead now visited queue clock hr hq =>
    intro x hx
    have hmem : s.Remains (Entry.when x) :=
      (remains_iff hr hq _).mpr ⟨x, OrderedSet.mem_of_first hx, rfl⟩
    change (queue.rearmed clock).Due (Entry.when x)
    have hfirst : queue.timers.first = some x := hx
    simp only [TimerQueue.rearmed, hfirst]
    split_ifs with hvalid
    · exact Timerfd.due_resetTimerfd _ _ _
    · rw [hq.timerfd]
      obtain hall | hall := hC
      · exact absurd (hall _ hmem) hvalid
      · exact hall _ hmem

/-- Where the guard is missed, the first of `timers_` is not `valid()`, and stranded. -/
theorem stranded_effect (hC : ¬Rearms s e) (he : Effect s e t) : ¬NotStranded t := by
  cases he with
  | addTimer | erase | cancel | miss | expire | handleRead | run => exact absurd trivial hC
  | @endRead now visited queue clock hr hq =>
    unfold Rearms at hC
    push Not at hC
    obtain ⟨⟨w, hw, hinvalid⟩, w', hw', hnot⟩ := hC
    obtain ⟨x, hx, rfl⟩ := (remains_iff hr hq w).mp hw
    obtain ⟨x', hx', rfl⟩ := (remains_iff hr hq w').mp hw'
    obtain ⟨x₀, hfirst, hle⟩ := OrderedSet.exists_first hx
    intro h
    have hdue : (queue.rearmed clock).Due x₀.when := h rfl x₀ hfirst
    have hinvalid₀ : ¬Timestamp.valid x₀.when := by
      intro hvalid
      exact hinvalid (lt_of_lt_of_le hvalid (Entry.when_le hle))
    simp only [TimerQueue.rearmed, hfirst, if_neg hinvalid₀, hq.timerfd] at hdue
    exact hnot (hdue.mono (Entry.when_le (OrderedSet.first_le hfirst hx')))

end Steps

theorem exactGuard : ExactGuard system (fun s => Inv s ∧ NotStranded s) NotStranded Rearms where
  init s hs := by
    rw [hs]
    exact ⟨inv_initial, fun _ e he => by cases he⟩
  sound s h := h.2
  keeps s e t h hC he hs := by
    have heffect := effect_of_step h.1 he hs
    exact ⟨inv_effect h.1 heffect, notStranded_effect h.2 hC heffect⟩
  breaks s e t h hC he hs := stranded_effect hC (effect_of_step h.1 he hs)

/-- A call of `handleRead` that has read a valid clock is armed for what its callbacks add in
the past. -/
def Armed (s : State) : Prop := ∀ r, s.reading = some r → r.now.valid ∧
  ∀ e ∈ s.queue.timers, e.when ≤ r.now → s.queue.timerfd.Due e.when

theorem armed_effect {s t : State} {e : Event} (h : Armed s) (he : Effect s e t)
    (hclock : ∀ now, e = .handleRead now → now.valid) : Armed t := by
  intro r hr
  cases he with
  | addTimer clock =>
    obtain ⟨hvalid, hdue⟩ := h r hr
    refine ⟨hvalid, fun x hx hle => due_of_addTimer r.now hdue ?_ hle⟩
    exact (OrderedSet.mem_insert.mp hx).imp_left (congrArg Entry.when)
  | erase =>
    obtain ⟨hvalid, hdue⟩ := h r hr
    exact ⟨hvalid, fun x hx => hdue x (OrderedSet.mem_erase.mp hx).2⟩
  | cancel | miss => exact h r hr
  | expire => exact ⟨(h r hr).1, fun _ _ _ => .inl rfl⟩
  | handleRead _ hq =>
    obtain rfl := Option.some.inj hr
    refine ⟨hclock _ rfl, fun x hx hle => ?_⟩
    exact absurd hle (not_le.mpr ((hq.timers x).mp hx).2)
  | run hr' =>
    obtain rfl := Option.some.inj hr
    have hold := h _ hr'
    exact hold
  | endRead => cases hr

/-- What is inserted again expires after a valid clock, so what is not valid was added before. -/
theorem rearms_of_armed {s : State} {e : Event} (h : Armed s) (he : enabled s e) : Rearms s e := by
  cases e with
  | addTimer | cancel | expire | handleRead | run => trivial
  | endRead clock =>
    obtain ⟨r, hr, _⟩ := he
    obtain ⟨hnow, hdue⟩ := h r hr
    have hkept : ∀ w, s.Remains w → (∃ x ∈ s.queue.timers, Entry.when x = w) ∨ r.now ≤ w := by
      rintro w (hold | ⟨r', hr', x, _, u, _, ⟨hrepeats, _⟩, rfl⟩)
      · exact .inl hold
      · obtain rfl := Option.some.inj (hr.symm.trans hr')
        simp only [Timer.restart, if_pos hrepeats]
        exact .inr (Timestamp.le_addTime _ (le_of_lt hrepeats))
    by_cases hall : ∀ w, s.Remains w → w.valid
    · exact .inl hall
    · push Not at hall
      obtain ⟨w, hw, hinvalid⟩ := hall
      have hlt : w < r.now := lt_of_le_of_lt (not_lt.mp hinvalid) hnow
      obtain ⟨x, hx, rfl⟩ := (hkept w hw).resolve_right (not_le.mpr hlt)
      have hx' := hdue x hx hlt.le
      refine .inr fun w' hw' => ?_
      by_cases hle : w' ≤ r.now
      · obtain ⟨y, hy, rfl⟩ | hge := hkept w' hw'
        · exact hdue y hy hle
        · exact hx'.mono (hlt.le.trans hge)
      · exact hx'.mono (hlt.le.trans (not_le.mp hle).le)

theorem guarded_of_valid {es : List Event} {t : State} (hr : Run system initial es t)
    (hclock : ∀ now, .handleRead now ∈ es → Timestamp.valid now) :
    Armed t ∧ Guarded system Rearms initial es := by
  induction hr with
  | nil =>
    refine ⟨fun r hr => ?_, guarded_nil _⟩
    cases hr
  | @snoc t u es e hr he hs ih =>
    obtain ⟨harmed, hg⟩ := ih fun now hnow => hclock now (List.mem_append_left _ hnow)
    have hI : Inv t := totalInvariant.invariant.run _ inv_initial hr
    refine ⟨armed_effect harmed (effect_of_step hI he hs) fun now hnow => ?_,
      (guarded_snoc _ hr).mpr ⟨hg, rearms_of_armed harmed he⟩⟩
    exact hclock now (List.mem_append_right _ (List.mem_singleton.mpr hnow.symm))

/-- No timer is stranded as long as `handleRead` finds the clock past the epoch. -/
theorem notStranded_of_valid {es : List Event} {t : State} (hr : Run system initial es t)
    (hclock : ∀ now, .handleRead now ∈ es → Timestamp.valid now) :
    Throughout system NotStranded initial es :=
  exactGuard.throughout_iff _ rfl hr |>.mpr (guarded_of_valid hr hclock).2

end TimerLoop
end Muduo

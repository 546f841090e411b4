import Muduo.TimerLoop

/-!
# Cancelling a timer in the loop thread

`cancel` takes a timer out of both sets. While `handleRead` holds a batch of expired
timers outside of them, `cancel` can only keep a timer of the batch from being
inserted again; the loop over the batch does not look at `cancelingTimers_`.
-/
namespace Muduo.TimerLoop
open StepSystem

/-- The timer is in the batch, and its turn is still to come. -/
def State.Awaiting (s : State) (id : TimerId) : Prop :=
  ∃ r ∈ s.reading, ∃ e ∈ r.unvisited, ∃ t ∈ s.queue.heap e.timer, toLex (e.timer, t.sequence) = id

instance (s : State) (id : TimerId) : Decidable (s.Awaiting id) :=
  inferInstanceAs (Decidable (∃ r ∈ s.reading, _))

/-- No timer is cancelled between its expiration and its turn. -/
def CancelsInTime (s : State) : Event → Prop
  | .cancel id => ¬s.Awaiting id
  | .addTimer .. | .expire | .handleRead _ | .run | .endRead _ => True

instance (s : State) : (e : Event) → Decidable (CancelsInTime s e)
  | .cancel _ => inferInstanceAs (Decidable (¬_))
  | .addTimer .. | .expire | .handleRead _ | .run | .endRead _ => inferInstanceAs (Decidable True)

/-- Once `cancel` has returned, the callback of the timer is not started. -/
def Silenced (s : State) : Prop :=
  ∀ c ∈ s.cancelled, ∀ st ∈ s.started.drop c.starts, st.id ≠ c.id

instance (s : State) : Decidable (Silenced s) := inferInstanceAs (Decidable (∀ c ∈ s.cancelled, _))

/-- The timer will not be started: it is in neither set, and if it is in the batch it has had
its turn and will not be inserted again. -/
structure Dead (s : State) (id : TimerId) : Prop where
  sequence : id.sequence ≤ s.queue.numCreated
  active : id ∉ s.queue.activeTimers
  awaiting : ¬s.Awaiting id
  visited : ∀ r, s.reading = some r → ∀ e ∈ r.visited, ∀ t, s.queue.heap e.timer = some t →
    toLex (e.timer, t.sequence) = id → id ∈ s.queue.cancelingTimers

/-- What was cancelled is dead, and has not been started since. -/
def Quiet (s : State) : Prop := ∀ c ∈ s.cancelled, c.starts ≤ s.started.length ∧ Dead s c.id ∧
  ∀ st ∈ s.started.drop c.starts, st.id ≠ c.id

/-- Something that was cancelled is started afterwards. -/
def Noisy (s : State) : Prop := ∃ c ∈ s.cancelled, c.starts ≤ s.started.length ∧
  (s.Awaiting c.id ∨ ∃ st ∈ s.started.drop c.starts, st.id = c.id)

section Steps
variable {s t : State} {e : Event} {id : TimerId}

theorem awaiting_iff (h : Inv s) (he : Effect s e t) (hreading : t.reading = s.reading) :
    t.Awaiting id ↔ s.Awaiting id := by
  have hheap : ∀ r, s.reading = some r → ∀ x ∈ r.unvisited,
      t.queue.heap x.timer = s.queue.heap x.timer := by
    intro r hr x hx
    exact heap_batch h he (by simp [hreading, hr]) ((mem_batch hr).mpr (.inr hx))
  constructor
  · rintro ⟨r, hr, x, hx, u, hu, hid⟩
    rw [hreading] at hr
    rw [hheap r hr x hx] at hu
    exact ⟨r, hr, x, hx, u, hu, hid⟩
  · rintro ⟨r, hr, x, hx, u, hu, hid⟩
    rw [← hheap r hr x hx] at hu
    exact ⟨r, hreading ▸ hr, x, hx, u, hu, hid⟩

/-- A step between two callbacks. -/
theorem Dead.of_reading (h : Inv s) (hd : Dead s id) (he : Effect s e t)
    (hreading : t.reading = s.reading) (hnum : s.queue.numCreated ≤ t.queue.numCreated)
    (hactive : id ∉ t.queue.activeTimers)
    (hcanceling : ∀ id, id ∈ s.queue.cancelingTimers → id ∈ t.queue.cancelingTimers) : Dead t id where
  sequence := hd.sequence.trans hnum
  active := hactive
  awaiting := mt (awaiting_iff h he hreading).mp hd.awaiting
  visited r hr x hx u hu hid := by
    rw [hreading] at hr
    rw [heap_batch h he (by simp [hreading, hr]) ((mem_batch hr).mpr (.inl hx))] at hu
    exact hcanceling _ (hd.visited r hr x hx u hu hid)

theorem dead_of_effect (h : Inv s) (hd : Dead s id) (he : Effect s e t) : Dead t id := by
  have he' := he
  cases he with
  | addTimer clock hfresh hmax =>
    refine hd.of_reading h he' rfl (Nat.le_succ _) (fun hmem => ?_) fun _ hc => hc
    obtain rfl | hold := OrderedSet.mem_insert.mp hmem
    · have hle : s.queue.numCreated + 1 ≤ s.queue.numCreated := hd.sequence
      omega
    · exact hd.active hold
  | erase =>
    exact hd.of_reading h he' rfl (le_refl _) (fun hmem => hd.active (OrderedSet.mem_erase.mp hmem).2)
      fun _ hc => hc
  | cancel =>
    exact hd.of_reading h he' rfl (le_refl _) hd.active fun _ hc => OrderedSet.mem_insert.mpr (.inr hc)
  | miss | expire => exact hd.of_reading h he' rfl (le_refl _) hd.active fun _ hc => hc
  | @handleRead now batch queue hr hq =>
    have hold : id ∉ s.queue.activeTimers := hd.active
    refine ⟨hq.numCreated ▸ hd.sequence, fun hmem => ?_, ?_, fun r hr' x hx => ?_⟩
    · obtain ⟨u, ⟨hu, hid⟩, hentry⟩ := hq.good.active id hmem
      rw [hq.heap] at hu
      have hactive := h.good.mem_active ((hq.timers _).mp hentry).1 hu
      rw [← hid] at hold
      exact hold hactive
    · -- what expires was in `activeTimers_`
      rintro ⟨r, hr', x, hx, u, hu, hid⟩
      obtain rfl := Option.some.inj hr'
      change queue.heap x.timer = some u at hu
      rw [hq.heap] at hu
      have hactive := h.good.mem_active ((hq.mem x).mp hx).1 hu
      rw [hid] at hactive
      exact hold hactive
    · obtain rfl := Option.some.inj hr'
      exact absurd hx List.not_mem_nil
  | @run now visited rest x u hr hu =>
    have hnot : toLex (x.timer, u.sequence) ≠ id := by
      intro hid
      exact hd.awaiting ⟨_, hr, x, List.mem_cons_self, u, hu, hid⟩
    refine ⟨hd.sequence, hd.active, ?_, fun r hr' y hy v hv hid => ?_⟩
    · rintro ⟨r, hr', y, hy, v, hv, hid⟩
      obtain rfl := Option.some.inj hr'
      exact hd.awaiting ⟨_, hr, y, List.mem_cons_of_mem _ hy, v, hv, hid⟩
    · obtain rfl := Option.some.inj hr'
      obtain hy | hy := List.mem_append.mp hy
      · exact hd.visited _ hr y hy v hv hid
      · rw [List.mem_singleton.mp hy] at hv hid
        obtain rfl := Option.some.inj (hu.symm.trans hv)
        exact absurd hid hnot
  | @endRead now visited queue clock hr hq =>
    refine ⟨hq.numCreated ▸ hd.sequence, fun hmem => ?_, ?_, ?_⟩
    · obtain ⟨u, ⟨hu, hid⟩, hentry⟩ := hq.good.active id hmem
      obtain hold | ⟨x, hx, v, hv, hk, heq⟩ := (hq.timers _).mp hentry
      · have hapart : ∀ x ∈ visited, Entry.timer x ≠ id.timer := by
          intro x hx
          exact (h.good.apart x ((mem_batch hr).mpr (.inl hx)) _ hold).symm
        rw [hq.other _ hapart] at hu
        have hactive := h.good.mem_active hold hu
        change toLex (id.timer, u.sequence) ∈ s.queue.activeTimers at hactive
        rw [hid] at hactive
        exact hd.active hactive
      · -- it is inserted again only if it is not being cancelled
        have htimer : id.timer = x.timer := congrArg Entry.timer heq
        rw [htimer, hq.kept x hx v hv hk] at hu
        obtain rfl := Option.some.inj hu
        have hid' : toLex (x.timer, v.sequence) = id := by rw [← hid, htimer]; rfl
        have hcanceling := hd.visited _ hr x hx v hv hid'
        rw [← hid'] at hcanceling
        exact hk.2 hcanceling
    · rintro ⟨r, hr', _⟩
      cases hr'
    · intro r hr'
      cases hr'

theorem dead_of_cancel (h : Inv s) (hseq : id.sequence ≤ s.queue.numCreated) (hC : ¬s.Awaiting id)
    (he : Effect s (.cancel id) t) : Dead t id := by
  have he' := he
  cases he with
  | @erase _ u hmem hu =>
    refine ⟨hseq, ?_, mt (awaiting_iff h he' rfl).mp hC, fun r hr x hx v hv hid => ?_⟩
    · intro hmem'
      exact (OrderedSet.mem_erase.mp hmem').1 rfl
    · -- a timer of the sets is not in the batch
      obtain ⟨hne, _⟩ := TimerQueue.heap_delete.mp hv
      exact absurd (congrArg ActiveTimer.timer hid) hne
  | cancel hmem =>
    refine ⟨hseq, hmem, mt (awaiting_iff h he' rfl).mp hC, fun r hr x hx v hv hid => ?_⟩
    exact OrderedSet.mem_insert.mpr (.inl rfl)
  | miss hmem hr =>
    refine ⟨hseq, hmem, hC, fun r hr' => ?_⟩
    rw [hr] at hr'
    cases hr'

/-- A step starts at most the timer whose turn it is. -/
theorem started_effect (he : Effect s e t) :
    ∃ new, t.started = s.started ++ new ∧ ∀ st ∈ new, s.Awaiting st.id := by
  cases he with
  | addTimer | erase | cancel | miss | expire | handleRead | endRead =>
    exact ⟨[], (List.append_nil _).symm, fun st hst => absurd hst List.not_mem_nil⟩
  | @run now visited rest x u hr hu =>
    refine ⟨_, rfl, fun st hst => ?_⟩
    rw [List.mem_singleton.mp hst]
    exact ⟨_, hr, x, List.mem_cons_self, u, hu, rfl⟩

theorem cancelled_effect (he : Effect s e t) : t.cancelled = s.cancelled ∨
    ∃ id, e = .cancel id ∧ t.cancelled = s.cancelled ++ [⟨id, s.started.length⟩] := by
  cases he with
  | addTimer | expire | handleRead | run | endRead => exact .inl rfl
  | erase | cancel | miss => exact .inr ⟨_, rfl, rfl⟩

theorem quiet_step (h : Inv s) (hq : Quiet s) (hC : CancelsInTime s e) (hen : enabled s e)
    (he : Effect s e t) : Quiet t := by
  obtain ⟨new, hstarted, hnew⟩ := started_effect he
  have hold : ∀ c ∈ s.cancelled, c.starts ≤ t.started.length ∧ Dead t c.id ∧
      ∀ st ∈ t.started.drop c.starts, st.id ≠ c.id := by
    intro c hc
    obtain ⟨hlen, hd, hne⟩ := hq c hc
    refine ⟨?_, dead_of_effect h hd he, fun st hst heq => ?_⟩
    · rw [hstarted, List.length_append]
      omega
    · rw [hstarted, List.drop_append_of_le_length hlen] at hst
      obtain hst | hst := List.mem_append.mp hst
      · exact hne st hst heq
      · have hawaiting := hnew st hst
        rw [heq] at hawaiting
        exact hd.awaiting hawaiting
  intro c hc
  obtain hsame | ⟨id, rfl, hcancelled⟩ := cancelled_effect he
  · rw [hsame] at hc
    exact hold c hc
  · rw [hcancelled] at hc
    obtain hc | hc := List.mem_append.mp hc
    · exact hold c hc
    · rw [List.mem_singleton.mp hc]
      have hd : Dead t id := dead_of_cancel h (h.issued hen.2) hC he
      have hsame : t.started = s.started := by
        cases he with
        | erase | cancel | miss => rfl
      rw [hsame]
      exact ⟨le_refl _, hd, by simp⟩

theorem awaiting_effect (h : Inv s) (he : Effect s e t) (ha : s.Awaiting id) :
    t.Awaiting id ∨ ∃ st, t.started = s.started ++ [st] ∧ st.id = id := by
  have he' := he
  cases he with
  | addTimer | erase | cancel | miss | expire => exact .inl ((awaiting_iff h he' rfl).mpr ha)
  | handleRead hr =>
    obtain ⟨r, hr', _⟩ := ha
    rw [hr] at hr'
    cases hr'
  | run hr hu =>
    obtain ⟨r, hr', x, hx, v, hv, hid⟩ := ha
    obtain rfl := Option.some.inj (hr.symm.trans hr')
    obtain rfl | hx := List.mem_cons.mp hx
    · obtain rfl := Option.some.inj (hu.symm.trans hv)
      exact .inr ⟨_, rfl, hid⟩
    · exact .inl ⟨_, rfl, x, hx, v, hv, hid⟩
  | endRead clock hr =>
    obtain ⟨r, hr', x, hx, _⟩ := ha
    obtain rfl := Option.some.inj (hr.symm.trans hr')
    exact absurd hx List.not_mem_nil

theorem noisy_step (h : Inv s) (hn : Noisy s) (he : Effect s e t) : Noisy t := by
  obtain ⟨c, hc, hlen, hstart⟩ := hn
  obtain ⟨new, hstarted, _⟩ := started_effect he
  have hc' : c ∈ t.cancelled := by
    obtain hsame | ⟨id, _, hcancelled⟩ := cancelled_effect he
    · rwa [hsame]
    · rw [hcancelled]
      exact List.mem_append_left _ hc
  refine ⟨c, hc', by rw [hstarted, List.length_append]; omega, ?_⟩
  obtain ha | ⟨st, hst, hid⟩ := hstart
  · obtain ha | ⟨st, hst, hid⟩ := awaiting_effect h he ha
    · exact .inl ha
    · refine .inr ⟨st, ?_, hid⟩
      rw [hst, List.drop_append_of_le_length hlen]
      exact List.mem_append_right _ (List.mem_singleton.mpr rfl)
  · refine .inr ⟨st, ?_, hid⟩
    rw [hstarted, List.drop_append_of_le_length hlen]
    exact List.mem_append_left _ hst

theorem noisy_of_late (h : Inv s) (hC : ¬CancelsInTime s e) (he : Effect s e t) : Noisy t := by
  cases e with
  | cancel id =>
    have ha : s.Awaiting id := not_not.mp hC
    have hsame : t.started = s.started ∧ t.reading = s.reading ∧
        t.cancelled = s.cancelled ++ [⟨id, s.started.length⟩] := by
      cases he with
      | erase | cancel | miss => exact ⟨rfl, rfl, rfl⟩
    obtain ⟨hstarted, hreading, hcancelled⟩ := hsame
    refine ⟨⟨id, s.started.length⟩, ?_, by rw [hstarted], .inl ((awaiting_iff h he hreading).mpr ha)⟩
    rw [hcancelled]
    exact List.mem_append_right _ (List.mem_singleton.mpr rfl)
  | addTimer | expire | handleRead | run | endRead => exact absurd trivial hC

end Steps

theorem quiet_initial : Quiet initial := fun _ hc => absurd hc List.not_mem_nil

theorem dichotomy : Dichotomy system (fun s => Inv s ∧ Quiet s) (fun s => Inv s ∧ Noisy s)
    CancelsInTime where
  init s hs := by
    rw [hs]
    exact ⟨inv_initial, quiet_initial⟩
  keeps s e t h hC he hs := by
    have heffect := effect_of_step h.1 he hs
    exact ⟨inv_effect h.1 heffect, quiet_step h.1 h.2 hC he heffect⟩
  falls s e t h hC he hs := by
    have heffect := effect_of_step h.1 he hs
    exact ⟨inv_effect h.1 heffect, noisy_of_late h.1 hC heffect⟩
  stays s e t h he hs := by
    have heffect := effect_of_step h.1 he hs
    exact ⟨inv_effect h.1 heffect, noisy_step h.1 h.2 heffect⟩

/-- Cancelled timers stay silent in every run that cancels no timer between its expiration and
its turn, and in no other run that ends outside of `handleRead`. -/
theorem silenced_iff {es : List Event} {t : State} (hr : Run system initial es t) :
    (Guarded system CancelsInTime initial es → Throughout system Silenced initial es) ∧
      (t.reading = none → Silenced t → Guarded system CancelsInTime initial es) := by
  constructor
  · intro hg
    exact dichotomy.guardedInvariant.throughout _ (fun s h c hc => (h.2 c hc).2.2) rfl hg
  · intro hreading hsilent
    by_contra hnot
    obtain ⟨_, c, hc, _, hstart⟩ := dichotomy.run _ rfl hr hnot
    obtain ⟨r, hr', _⟩ | ⟨st, hst, hid⟩ := hstart
    · rw [hreading] at hr'
      cases hr'
    · exact hsilent c hc st hst hid

/-- Two timers expire together, and the callback of the first cancels the second. -/
def lateCancel : List Event :=
  [.addTimer 100 10 0 1, .addTimer 200 10 0 1, .handleRead 10, .run, .cancel (toLex (200, 2)), .run,
    .endRead 11]

theorem lateCancel_started : ∃ t, Run system initial lateCancel t ∧ ¬Silenced t := by
  have hreplay : (replay system initial lateCancel).any (fun t => decide (¬Silenced t)) = true := by
    decide +kernel
  obtain ⟨t, hr, ht⟩ := exists_run_of_replay _ hreplay
  exact ⟨t, hr, of_decide_eq_true ht⟩

/-- Two timers expire together; the callback of the second, a repeating timer, cancels both. -/
def selfCancel : List Event :=
  [.addTimer 100 10 0 1, .addTimer 200 10 1 1, .expire, .handleRead 10, .run, .run,
    .cancel (toLex (200, 2)), .cancel (toLex (100, 1)), .endRead 11, .handleRead 2000000, .endRead 2000000]

theorem selfCancel_silenced : ∃ t, Run system initial selfCancel t ∧
    Throughout system Silenced initial selfCancel := by
  have hreplay : (replay (restrict system CancelsInTime) initial selfCancel).any (fun _ => true) =
      true := by decide +kernel
  obtain ⟨t, hr, _⟩ := exists_run_of_replay _ hreplay
  have hrun := run_of_restrict _ hr
  exact ⟨t, hrun, (silenced_iff hrun).1 (restrict_guarded _ hr)⟩

end Muduo.TimerLoop

import Muduo.EPollPoller
import Muduo.Library.StepSystem
import Muduo.PollPoller

/-!
# The two pollers

The same operations on channels with distinct descriptors `fd` run on an
`EPollPoller` and on a `PollPoller`. What the two know of a channel is determined
by the stage its operations have led to.
-/
namespace Muduo.PollerEquivalence
open StepSystem

inductive Stage
  /-- never registered -/
  | unused
  /-- its first update has left it without interest -/
  | idle
  /-- registered with some interest -/
  | listening
  /-- registered, and an update has taken its interest or found none -/
  | silenced
  | removed
  deriving DecidableEq, Repr

structure State where
  /-- `Channel::events_`, by channel -/
  events : ChannelId → Events
  epoll : EPollPoller
  /-- the other poller, or the assertion it has failed -/
  poll : Checked PollPoller
  stage : ChannelId → Stage

inductive Event
  /-- `enableReading`, `enableWriting`, `disableWriting` or `disableAll` -/
  | update (c : ChannelId) (i : Channel.Interest)
  | remove (c : ChannelId)
  /-- both pollers poll the same descriptors; `epoll_wait(2)` returns `active` -/
  | poll (ready : ℕ → Events) (active : List (ChannelId × Events))

/-- The stage after an update. -/
def Stage.update (stage : Stage) (isNoneEvent : Bool) : Stage :=
  if isNoneEvent then
    match stage with
    | unused | silenced | removed => idle
    | idle | listening => silenced
  else listening

section
variable (fd : ChannelId ↪ ℕ)

/-- The channel `c` with the given `events_`. -/
def channelAt (c : ChannelId) (events : Events) : Channel := ⟨c, 0, fd c, events⟩

def State.channel (s : State) (c : ChannelId) : Channel := channelAt fd c (s.events c)

def step (s : State) : Event → Checked State
  | .update c i => do
    let ch := (s.channel fd c).set i
    let epoll ← s.epoll.updateChannel ch
    return {
      events := Function.update s.events c ch.events
      epoll
      poll := s.poll >>= fun p => p.updateChannel ch
      stage := Function.update s.stage c ((s.stage c).update ch.isNoneEvent) }
  | .remove c => do
    let ch := s.channel fd c
    assert (ch.isNoneEvent) .channelRemoveNoneEvent
    let epoll ← s.epoll.removeChannel ch
    return { s with
      epoll
      poll := s.poll >>= fun p => p.removeChannel ch
      stage := Function.update s.stage c .removed }
  | .poll ready active => do
    let (_, epoll) ← s.epoll.poll fd active
    return { s with
      epoll
      poll := do
        let p ← s.poll
        let (_, p) ← p.poll fd ready
        return p }

def initial : State := ⟨fun _ => kNoneEvent, .new, .ok .new, fun _ => .unused⟩

def system : System State Event Assertion where
  init s := s = initial
  enabled s
    | .update .. | .remove .. => True
    | .poll ready active => s.epoll.EpollWait ready active
  step := step fd

/-- The `PollPoller` has failed no assertion, and whatever is ready the two report the
same. -/
def Agree (s : State) : Prop :=
  Yields s.poll fun p => ∀ ready active, s.epoll.EpollWait ready active →
    Yields (s.epoll.poll fd active) fun r => Yields (p.poll fd ready) fun q =>
      ∀ x, x ∈ r.1 ↔ x ∈ q.1

/-- The uses of a channel on which the pollers agree: a silenced channel is only
removed, a removed one is left alone, and one that is registered without interest
is updated before it is removed. -/
def Proper (s : State) : Event → Prop
  | .update c _ => s.stage c ≠ .silenced ∧ s.stage c ≠ .removed
  | .remove c => s.stage c ≠ .idle
  | .poll .. => True

/-! ### The relation of the pollers -/

def Stage.view : Stage → Channel → EPollPoller.View
  | unused, _ | removed, _ => EPollPoller.absent
  | idle, ch | listening, ch => EPollPoller.added ch
  | silenced, ch => EPollPoller.deleted ch

def Stage.Known (p : PollPoller) (ch : Channel) : Stage → Prop
  | unused => p.channels ch.fd = none ∧ p.index ch.id < 0
  | idle | listening => p.Holds ch false
  | silenced => p.Holds ch true
  | removed => p.channels ch.fd = none ∧ 0 ≤ p.index ch.id

structure Matches (epoll : EPollPoller) (p : PollPoller) (ch : Channel) (stage : Stage) : Prop where
  valid : Channel.EventsValid ch.events
  listening : stage = .listening ↔ ch.isNoneEvent = false
  view : epoll.view ch = stage.view ch
  known : stage.Known p ch

structure Related (s : State) (p : PollPoller) : Prop where
  poll : s.poll = .ok p
  consistent : p.Consistent
  channel : ∀ c, Matches s.epoll p (s.channel fd c) (s.stage c)
  fds : ∀ n c, p.channels n = some c → n = fd c
  interest : ∀ n x, s.epoll.interest n = some x → n = fd x.2
  room : 0 < s.epoll.eventsSize

end

variable {fd : ChannelId ↪ ℕ} {s : State} {p q : PollPoller} {c : ChannelId} {ch : Channel}

theorem related_initial : Related fd initial .new where
  poll := rfl
  consistent :=
    { slot := fun n c h => by cases h
      owner := fun i pfd h => by simp [PollPoller.new] at h
      valid := fun pfd h => by simp [PollPoller.new] at h }
  channel c :=
    { valid := .inl rfl
      listening := by simp [initial, State.channel, channelAt, Channel.isNoneEvent]
      view := rfl
      known := ⟨rfl, by simp [initial, PollPoller.new]⟩ }
  fds n c h := by cases h
  interest n x h := by cases h
  room := by decide

/-- What the stage says of `channels_`. -/
theorem Stage.Known.channels {stage : Stage} (h : stage.Known p ch) :
    p.channels ch.fd = none ∨ p.channels ch.fd = some ch.id := by
  cases stage with
  | unused => exact .inl h.1
  | removed => exact .inl h.1
  | idle | listening | silenced =>
    obtain ⟨_, hs⟩ := h
    exact .inr hs.channels

theorem Related.fds_of_others (h : Related fd s p) (ho : PollPoller.Others ch p q)
    (hfd : ch.fd = fd ch.id) {stage : Stage} (hself : stage.Known q ch) :
    ∀ n d, q.channels n = some d → n = fd d := by
  intro n d hd
  by_cases hn : n = ch.fd
  · rw [hn] at hd ⊢
    obtain hc | hc := hself.channels
    · rw [hc] at hd
      cases hd
    · rw [hc] at hd
      cases hd
      exact hfd
  · rw [ho.channels n hn] at hd
    exact h.fds n d hd

/-- A call for one channel leaves what the stage says of another one. -/
theorem Stage.Known.others {stage : Stage} {d : Channel} (h : stage.Known p d)
    (hfds : ∀ n c, p.channels n = some c → n = fd c) (hd : d.fd = fd d.id)
    (ho : PollPoller.Others ch p q) (hid : d.id ≠ ch.id) (hfd : d.fd ≠ ch.fd) :
    stage.Known q d := by
  have hch : p.channels d.fd = none → q.channels d.fd = none ∧ q.index d.id = p.index d.id := by
    intro hnone
    refine ⟨(ho.channels _ hfd).trans hnone, ho.index _ hid ?_⟩
    intro n hn
    rw [hfds n _ hn, ← hd, hnone] at hn
    cases hn
  cases stage with
  | unused => exact ⟨(hch h.1).1, (hch h.1).2 ▸ h.2⟩
  | removed => exact ⟨(hch h.1).1, (hch h.1).2 ▸ h.2⟩
  | idle | listening | silenced => exact ho.holds hfd h

/-- The state after both pollers have accepted a call for the channel `c`. -/
def State.put (fd : ChannelId ↪ ℕ) (s : State) (c : ChannelId) (events : Events) (stage : Stage)
    (q : PollPoller) : State where
  events := Function.update s.events c events
  epoll := s.epoll.put (channelAt fd c events) (stage.view (channelAt fd c events))
  poll := .ok q
  stage := Function.update s.stage c stage

theorem Related.put {events : Events} {stage : Stage} (h : Related fd s p)
    (hev : Channel.EventsValid events)
    (hlistening : stage = .listening ↔ (channelAt fd c events).isNoneEvent = false)
    (hq : q.Consistent) (ho : PollPoller.Others (channelAt fd c events) p q)
    (hknown : stage.Known q (channelAt fd c events)) :
    Related fd (s.put fd c events stage q) q where
  poll := rfl
  consistent := hq
  channel d := by
    by_cases hd : d = c
    · subst hd
      have hch : (s.put fd d events stage q).channel fd d = channelAt fd d events := by
        simp [State.put, State.channel]
      have hstage : (s.put fd d events stage q).stage d = stage := by simp [State.put]
      rw [hch, hstage]
      exact ⟨hev, hlistening, EPollPoller.view_put_self _, hknown⟩
    · have hch : (s.put fd c events stage q).channel fd d = s.channel fd d := by
        simp [State.put, State.channel, hd]
      have hstage : (s.put fd c events stage q).stage d = s.stage d := by simp [State.put, hd]
      have hapart : EPollPoller.Apart (s.channel fd d) (channelAt fd c events) :=
        ⟨hd, fun heq => hd (fd.injective heq)⟩
      obtain ⟨hvalid, hlisten, hview, hk⟩ := h.channel d
      rw [hch, hstage]
      refine ⟨hvalid, hlisten, ?_, hk.others h.fds rfl ho hapart.1 hapart.2⟩
      exact (EPollPoller.view_put_apart _ hapart).trans hview
  fds := h.fds_of_others ho rfl hknown
  interest n x hx := by
    by_cases hn : n = fd c
    · subst hn
      have hx' : (stage.view (channelAt fd c events)).interest = some x := by
        simpa [State.put, EPollPoller.put, channelAt] using hx
      cases stage with
      | idle | listening =>
        cases hx'
        rfl
      | unused | silenced | removed => cases hx'
    · exact h.interest n x (by simpa [State.put, EPollPoller.put, channelAt, hn] using hx)
  room := h.room

/-! ### Calls that both pollers accept -/

theorem Stage.update_eq_listening {stage : Stage} {isNoneEvent : Bool} :
    stage.update isNoneEvent = .listening ↔ isNoneEvent = false := by
  cases isNoneEvent <;> cases stage <;> simp [Stage.update]

/-- The state after the channel `c` has been updated. -/
def State.updated (fd : ChannelId ↪ ℕ) (s : State) (c : ChannelId) (i : Channel.Interest)
    (q : PollPoller) : State :=
  s.put fd c (i.apply (s.events c)) ((s.stage c).update ((s.channel fd c).set i).isNoneEvent) q

/-- What an update leads to if both pollers handle it as the new stage says. -/
theorem Related.step_update {i : Channel.Interest} (stage : Stage) (h : Related fd s p)
    (hstage : (s.stage c).update ((s.channel fd c).set i).isNoneEvent = stage)
    (hepoll : s.epoll.updateChannel ((s.channel fd c).set i) =
      .ok (s.epoll.put ((s.channel fd c).set i) (stage.view ((s.channel fd c).set i))))
    (hpoll : Yields (p.updateChannel ((s.channel fd c).set i)) fun q => q.Consistent ∧
      PollPoller.Others ((s.channel fd c).set i) p q ∧
      stage.Known q ((s.channel fd c).set i)) :
    Yields (step fd s (.update c i)) fun t => ∃ q, t = s.updated fd c i q ∧ Related fd t q := by
  subst hstage
  obtain ⟨q, hq, hcons, ho, hknown⟩ := hpoll
  have hstep : step fd s (.update c i) = .ok (s.updated fd c i q) := by
    simp only [step, hepoll, h.poll, ok_bind, hq, pure_eq_ok]
    rfl
  rw [hstep]
  have hvalid : Channel.EventsValid (i.apply (s.events c)) := (h.channel c).valid.apply i
  exact yields_ok ⟨q, rfl, h.put hvalid Stage.update_eq_listening hcons ho hknown⟩

/-- A proper update is accepted by both pollers. -/
theorem Related.step_update_proper {i : Channel.Interest} (h : Related fd s p)
    (hproper : Proper s (.update c i)) :
    Yields (step fd s (.update c i)) fun t => ∃ q, t = s.updated fd c i q ∧ Related fd t q := by
  obtain ⟨hsilenced, hremoved⟩ := hproper
  obtain ⟨hvalid, _, hview, hknown⟩ := h.channel c
  have hvalid' : Channel.EventsValid ((s.channel fd c).set i).events := hvalid.apply i
  cases hstage : s.stage c with
  | silenced => exact absurd hstage hsilenced
  | removed => exact absurd hstage hremoved
  | unused =>
    rw [hstage] at hview hknown
    have hepoll : s.epoll.updateChannel ((s.channel fd c).set i) =
        .ok (s.epoll.put ((s.channel fd c).set i) (EPollPoller.added ((s.channel fd c).set i))) :=
      EPollPoller.updateChannel_absent hview
    have hpoll : Yields (p.updateChannel ((s.channel fd c).set i)) fun q => q.Consistent ∧
        PollPoller.Others ((s.channel fd c).set i) p q ∧
        q.Holds ((s.channel fd c).set i) false :=
      PollPoller.updateChannel_new h.consistent hknown.2 hknown.1 hvalid'
    cases hnone : ((s.channel fd c).set i).isNoneEvent with
    | true => exact h.step_update .idle (by rw [hnone, hstage]; rfl) hepoll hpoll
    | false => exact h.step_update .listening (by rw [hnone, hstage]; rfl) hepoll hpoll
  | idle | listening =>
    rw [hstage] at hview hknown
    have hepoll : s.epoll.updateChannel ((s.channel fd c).set i) =
        .ok (s.epoll.put ((s.channel fd c).set i)
          (if ((s.channel fd c).set i).isNoneEvent then EPollPoller.deleted ((s.channel fd c).set i)
            else EPollPoller.added ((s.channel fd c).set i))) :=
      EPollPoller.updateChannel_added hview rfl rfl
    have hpoll : Yields (p.updateChannel ((s.channel fd c).set i)) fun q => q.Consistent ∧
        PollPoller.Others ((s.channel fd c).set i) p q ∧
        q.Holds ((s.channel fd c).set i) (false || ((s.channel fd c).set i).isNoneEvent) :=
      PollPoller.updateChannel_held h.consistent hknown rfl rfl hvalid'
    cases hnone : ((s.channel fd c).set i).isNoneEvent with
    | true =>
      rw [hnone] at hepoll hpoll
      exact h.step_update .silenced (by rw [hnone, hstage]; rfl) hepoll hpoll
    | false =>
      rw [hnone] at hepoll hpoll
      exact h.step_update .listening (by rw [hnone, hstage]; rfl) hepoll hpoll

/-- What `EPollPoller` accepts is the removal of an idle or of a silenced channel. -/
theorem Related.stage_of_remove {t : State} (h : Related fd s p)
    (ht : step fd s (.remove c) = .ok t) :
    (s.channel fd c).isNoneEvent = true ∧ (s.stage c = .idle ∨ s.stage c = .silenced) := by
  obtain ⟨_, hlistening, hview, _⟩ := h.channel c
  by_cases hnone : (s.channel fd c).isNoneEvent
  · refine ⟨hnone, ?_⟩
    have habsent : s.epoll.view (s.channel fd c) ≠ EPollPoller.absent := by
      intro habsent
      simp [step, hnone, assert_pos, EPollPoller.removeChannel_absent habsent] at ht
    cases hstage : s.stage c with
    | idle => exact .inl rfl
    | silenced => exact .inr rfl
    | listening => simp [hlistening.mp hstage] at hnone
    | unused | removed =>
      rw [hstage] at hview
      exact absurd hview habsent
  · simp [step, hnone, assert_neg] at ht

/-- A silenced channel is removed from both pollers. -/
theorem Related.step_remove (h : Related fd s p) (hstage : s.stage c = .silenced) :
    Yields (step fd s (.remove c)) fun t => ∃ q, Related fd t q := by
  obtain ⟨hvalid, hlistening, hview, hknown⟩ := h.channel c
  rw [hstage] at hlistening hview hknown
  have hnone : (s.channel fd c).isNoneEvent = true := by simpa using hlistening
  have hlistening' : Stage.removed = .listening ↔ (s.channel fd c).isNoneEvent = false := by
    simp [hnone]
  have hepoll := EPollPoller.removeChannel_deleted hview hnone
  obtain ⟨q, hq, hcons, ho, hgone⟩ := PollPoller.removeChannel_negated h.consistent hknown hnone
  have hstep : step fd s (.remove c) = .ok (s.put fd c (s.events c) .removed q) := by
    simp only [step, hnone, assert_pos, ok_bind, hepoll, h.poll, hq, pure_eq_ok, State.put,
      Function.update_eq_self]
    rfl
  rw [hstep]
  exact yields_ok ⟨q, h.put hvalid hlistening' hcons ho hgone⟩

/-! ### What the two report -/

/-- The channels that `epoll_wait(2)` reports. -/
theorem Related.mem_iff (h : Related fd s p) {ready : ℕ → Events}
    {active : List (ChannelId × Events)} (hw : s.epoll.EpollWait ready active) (c : ChannelId)
    (revents : Events) :
    (c, revents) ∈ active ↔ (s.stage c = .idle ∨ s.stage c = .listening) ∧
      revents = reported (ready (fd c)) (s.events c) ∧ revents ≠ 0 := by
  obtain ⟨_, _, hview, _⟩ := h.channel c
  have hinterest : s.epoll.interest (fd c) = ((s.stage c).view (s.channel fd c)).interest :=
    congrArg EPollPoller.View.interest hview
  rw [hw.mem_iff]
  constructor
  · rintro ⟨n, mask, hn, hrevents⟩
    obtain rfl := h.interest n _ hn
    rw [hinterest] at hn
    cases hstage : s.stage c with
    | unused | silenced | removed =>
      rw [hstage] at hn
      cases hn
    | idle | listening =>
      rw [hstage] at hn
      cases hn
      exact ⟨by simp, hrevents⟩
  · rintro ⟨hstage, hrevents⟩
    refine ⟨fd c, s.events c, ?_, hrevents⟩
    obtain hstage | hstage := hstage
    · rw [hinterest, hstage]
      rfl
    · rw [hinterest, hstage]
      rfl

/-- `EPollPoller` reports what `epoll_wait(2)` has returned. -/
theorem Related.epoll_poll (h : Related fd s p) {ready : ℕ → Events}
    {active : List (ChannelId × Events)} (hw : s.epoll.EpollWait ready active) :
    Yields (s.epoll.poll fd active) fun r => r.1 = active ∧
      (r.2 = s.epoll ∨ r.2 = { s.epoll with eventsSize := s.epoll.eventsSize * 2 }) := by
  apply EPollPoller.poll_eq _ hw.length_le
  rintro ⟨c, revents⟩ hmem
  have hview : s.epoll.channels (fd c) = ((s.stage c).view (s.channel fd c)).channels :=
    congrArg EPollPoller.View.channels (h.channel c).view
  obtain ⟨hstage | hstage, _⟩ := (h.mem_iff hw c revents).mp hmem
  · rw [hview, hstage]
    rfl
  · rw [hview, hstage]
    rfl

/-- Related pollers report the same. -/
theorem Related.agree (h : Related fd s p) : Agree fd s := by
  refine ⟨p, h.poll, fun ready active hw => ?_⟩
  apply (h.epoll_poll hw).mono
  rintro r ⟨hr, _⟩
  apply (PollPoller.poll_spec h.consistent h.fds ready).mono
  rintro q ⟨_, hq⟩ ⟨c, revents⟩
  rw [hr, h.mem_iff hw, hq]
  obtain ⟨hvalid, _, _, hknown⟩ := h.channel c
  constructor
  · rintro ⟨hstage, rfl, hne⟩
    refine ⟨s.channel fd c, rfl, rfl, hvalid, ?_, rfl, hne⟩
    obtain hstage | hstage := hstage
    · rw [hstage] at hknown
      exact hknown
    · rw [hstage] at hknown
      exact hknown
  · rintro ⟨ch, rfl, hfd, hvalid', hholds, rfl, hne⟩
    have hsame : ∀ negated, p.Holds (s.channel fd ch.id) negated →
        negated = false ∧ s.events ch.id = ch.events := by
      intro negated hk
      obtain ⟨hneg, hshort⟩ := hk.unique hholds rfl
      exact ⟨hneg, PollPoller.toShort_injective hvalid hvalid' hshort⟩
    obtain ⟨_, hslot⟩ := hholds
    have hch := hslot.channels
    rw [hfd] at hch
    cases hstage : s.stage ch.id with
    | unused | removed =>
      rw [hstage] at hknown
      have hnone : p.channels (fd ch.id) = none := hknown.1
      rw [hnone] at hch
      cases hch
    | silenced =>
      rw [hstage] at hknown
      cases (hsame true hknown).1
    | idle | listening =>
      rw [hstage] at hknown
      rw [(hsame false hknown).2, ← hfd]
      exact ⟨by simp, rfl, hne⟩

theorem Stage.Known.polled {stage : Stage} (ready : ℕ → Events) (h : stage.Known p ch) :
    stage.Known (p.polled ready) ch := by
  cases stage with
  | unused | removed => exact h
  | idle | listening | silenced => exact PollPoller.holds_polled ready h

/-- A poll changes neither what is registered nor the stages. -/
theorem Related.step_poll (h : Related fd s p) {ready : ℕ → Events}
    {active : List (ChannelId × Events)} (hw : s.epoll.EpollWait ready active) :
    Yields (step fd s (.poll ready active)) fun t => Related fd t (p.polled ready) := by
  obtain ⟨⟨_, epoll⟩, hepoll, _, heq⟩ := h.epoll_poll hw
  obtain ⟨⟨_, q⟩, hpoll, rfl, _⟩ := PollPoller.poll_spec h.consistent h.fds ready
  have hstep : step fd s (.poll ready active) =
      .ok { s with epoll, poll := .ok (p.polled ready) } := by
    simp only [step, hepoll, h.poll, ok_bind, hpoll, pure_eq_ok]
  have hroom := h.room
  obtain ⟨n, hn, rfl⟩ : ∃ n, 0 < n ∧ epoll = { s.epoll with eventsSize := n } := by
    obtain rfl | rfl := heq
    · exact ⟨s.epoll.eventsSize, hroom, rfl⟩
    · exact ⟨s.epoll.eventsSize * 2, by omega, rfl⟩
  rw [hstep]
  apply yields_ok
  have hchannel : ∀ c, Matches { s.epoll with eventsSize := n } (p.polled ready)
      (s.channel fd c) (s.stage c) := by
    intro c
    obtain ⟨hvalid, hlistening, hview, hknown⟩ := h.channel c
    exact ⟨hvalid, hlistening, hview, hknown.polled ready⟩
  exact ⟨rfl, PollPoller.consistent_polled ready h.consistent, hchannel, h.fds, h.interest, hn⟩

/-! ### Calls on which they part -/

/-- The peer of the descriptor `n` hangs up. -/
def hangUp (n : ℕ) : ℕ → Events := Function.update (fun _ => 0) n POLLHUP

theorem reported_hangUp {events : Events} (h : Channel.EventsValid events) :
    reported POLLHUP events = POLLHUP := by
  rcases h with rfl | rfl | rfl | rfl <;> decide

theorem reported_zero (events : Events) : reported 0 events = 0 := BitVec.zero_and

/-- Of a registered channel whose peer hangs up, `epoll_wait(2)` reports that alone. -/
theorem epollWait_hangUp {epoll : EPollPoller} (hvalid : Channel.EventsValid ch.events)
    (hroom : 0 < epoll.eventsSize) :
    (epoll.put ch (EPollPoller.added ch)).EpollWait (hangUp ch.fd) [(ch.id, POLLHUP)] where
  mem_iff c revents := by
    have hself : (epoll.put ch (EPollPoller.added ch)).interest ch.fd = some (ch.events, ch.id) := by
      simp [EPollPoller.put, EPollPoller.added]
    constructor
    · intro hmem
      obtain ⟨rfl, rfl⟩ : c = ch.id ∧ revents = POLLHUP := by simpa using hmem
      refine ⟨ch.fd, ch.events, hself, ?_, by decide⟩
      simp [hangUp, reported_hangUp hvalid]
    · rintro ⟨n, mask, hn, rfl, hne⟩
      by_cases hfd : n = ch.fd
      · subst hfd
        rw [hself] at hn
        cases hn
        simp [hangUp, reported_hangUp hvalid]
      · have hready : hangUp ch.fd n = 0 := by simp [hangUp, hfd]
        rw [hready, reported_zero] at hne
        exact absurd rfl hne
  nodup := List.nodup_singleton _
  length_le := hroom

/-- A silenced channel that is updated is back in the interest set, but still ignored by
`poll(2)`: the two differ once the peer hangs up. -/
theorem Related.step_update_silenced {i : Channel.Interest} (h : Related fd s p)
    (hstage : s.stage c = .silenced) :
    Yields (step fd s (.update c i)) fun t => ¬Agree fd t := by
  obtain ⟨hvalid, _, hview, hknown⟩ := h.channel c
  have hvalid' : Channel.EventsValid ((s.channel fd c).set i).events := hvalid.apply i
  rw [hstage] at hview hknown
  have hepoll : s.epoll.updateChannel ((s.channel fd c).set i) =
      .ok (s.epoll.put ((s.channel fd c).set i) (EPollPoller.added ((s.channel fd c).set i))) :=
    EPollPoller.updateChannel_deleted hview
  obtain ⟨q, hq, hcons, ho, hheld⟩ : Yields (p.updateChannel ((s.channel fd c).set i)) fun q =>
      q.Consistent ∧ PollPoller.Others ((s.channel fd c).set i) p q ∧
      q.Holds ((s.channel fd c).set i) (true || ((s.channel fd c).set i).isNoneEvent) :=
    PollPoller.updateChannel_held h.consistent hknown rfl rfl hvalid'
  simp only [step, hepoll, h.poll, ok_bind, hq, pure_eq_ok]
  apply yields_ok
  rintro ⟨q', hq', hagree⟩
  cases hq'
  have hw := epollWait_hangUp hvalid' h.room
  have hself : ∀ x ∈ [(((s.channel fd c).set i).id, POLLHUP)],
      (s.epoll.put ((s.channel fd c).set i)
        (EPollPoller.added ((s.channel fd c).set i))).channels (fd x.1) = some x.1 := by
    intro x hx
    obtain rfl := List.mem_singleton.mp hx
    simp [EPollPoller.put, EPollPoller.added, State.channel, channelAt]
  have hsilenced : Stage.silenced.Known q ((s.channel fd c).set i) := hheld
  obtain ⟨r, hr, q', hq', hmem⟩ := hagree _ _ hw
  have hactive := ((EPollPoller.poll_eq hself hw.length_le).of_eq hr).1
  have hspec := ((PollPoller.poll_spec hcons (h.fds_of_others ho rfl hsilenced) _).of_eq hq').2
  rw [hactive] at hmem
  obtain ⟨d, hid, _, _, hd, _⟩ := (hspec _ _).mp ((hmem _).mp (List.mem_singleton_self _))
  cases (hheld.unique hd hid.symm).1

/-- A removed channel cannot be registered again. -/
theorem Related.not_agree_update_removed {i : Channel.Interest} {t : State}
    (h : Related fd s p) (hstage : s.stage c = .removed)
    (ht : step fd s (.update c i) = .ok t) : ¬Agree fd t := by
  have hknown := (h.channel c).known
  rw [hstage] at hknown
  have hgone : p.updateChannel ((s.channel fd c).set i) = .error .pollUpdateFound :=
    PollPoller.updateChannel_gone hknown.2 hknown.1
  simp only [step, h.poll, ok_bind, hgone, bind_eq_ok] at ht
  obtain ⟨epoll, _, ht⟩ := ht
  cases ht
  rintro ⟨q, hq, _⟩
  cases hq

/-- A channel registered without interest cannot be removed at once. -/
theorem Related.not_agree_remove_idle {t : State} (h : Related fd s p)
    (hstage : s.stage c = .idle) (ht : step fd s (.remove c) = .ok t) : ¬Agree fd t := by
  obtain ⟨hnone, _⟩ := h.stage_of_remove ht
  have hknown := (h.channel c).known
  rw [hstage] at hknown
  have hfail := PollPoller.removeChannel_positive hknown hnone
  simp only [step, h.poll, ok_bind, hfail, bind_eq_ok] at ht
  obtain ⟨_, _, epoll, _, ht⟩ := ht
  cases ht
  rintro ⟨q, hq, _⟩
  cases hq

theorem exactGuard (fd : ChannelId ↪ ℕ) :
    ExactGuard (system fd) (fun s => ∃ p, Related fd s p) (Agree fd) Proper where
  init s hs := ⟨.new, hs ▸ related_initial⟩
  sound s := by
    rintro ⟨p, h⟩
    exact h.agree
  keeps s e t := by
    rintro ⟨p, h⟩ hproper he ht
    cases e with
    | update c i =>
      obtain ⟨q, _, hq⟩ := (h.step_update_proper hproper).of_eq ht
      exact ⟨q, hq⟩
    | remove c =>
      obtain ⟨_, hstage | hstage⟩ := h.stage_of_remove ht
      · exact absurd hstage hproper
      · exact (h.step_remove hstage).of_eq ht
    | poll ready active => exact ⟨_, (h.step_poll he).of_eq ht⟩
  breaks s e t := by
    rintro ⟨p, h⟩ hproper he ht
    cases e with
    | update c i =>
      have hstage : s.stage c = .silenced ∨ s.stage c = .removed := by
        by_contra hstage
        exact hproper (not_or.mp hstage)
      obtain hstage | hstage := hstage
      · exact (h.step_update_silenced hstage).of_eq ht
      · exact h.not_agree_update_removed hstage ht
    | remove c => exact h.not_agree_remove_idle (not_not.mp hproper) ht
    | poll ready active => exact absurd trivial hproper

/-- Every sequence of operations that `EPollPoller` accepts is accepted by `PollPoller`,
with the same reports at any time and for any readiness, if and only if it uses each
channel properly. -/
theorem agree_throughout_iff {t : State} {es : List Event}
    (hr : Run (system fd) initial es t) :
    Throughout (system fd) (Agree fd) initial es ↔ Guarded (system fd) Proper initial es :=
  (exactGuard fd).throughout_iff (system fd) rfl hr

/-- A channel is enabled and disabled: properly, and both pollers agree. -/
theorem disabled_run : ∃ t, Run (system (.refl ℕ)) initial
      [.update 0 .enableReading, .update 0 .disableAll] t ∧
    Guarded (system (.refl ℕ)) Proper initial
      [.update 0 .enableReading, .update 0 .disableAll] ∧
    t.stage 0 = .silenced ∧ ∃ p, Related (.refl ℕ) t p := by
  have hproper : Proper initial (.update 0 .enableReading) := ⟨by decide, by decide⟩
  have h₀ : Related (.refl ℕ) initial .new := related_initial
  obtain ⟨s₁, hs₁, q₁, rfl, h₁⟩ := h₀.step_update_proper hproper
  have hstage₁ : (initial.updated (.refl ℕ) 0 .enableReading q₁).stage 0 = .listening := rfl
  have hproper₁ : Proper (initial.updated (.refl ℕ) 0 .enableReading q₁) (.update 0 .disableAll) :=
    ⟨by simp [hstage₁], by simp [hstage₁]⟩
  obtain ⟨s₂, hs₂, q₂, rfl, h₂⟩ := h₁.step_update_proper hproper₁
  have hrun : Run (system (.refl ℕ)) initial [.update 0 .enableReading] _ :=
    .snoc (.nil _) trivial hs₁
  refine ⟨_, .snoc hrun trivial hs₂, ?_, rfl, q₂, h₂⟩
  have hguarded : Guarded (system (.refl ℕ)) Proper initial [.update 0 .enableReading] :=
    (guarded_snoc _ (.nil initial)).mpr ⟨guarded_nil _, hproper⟩
  exact (guarded_snoc _ hrun).mpr ⟨hguarded, hproper₁⟩

/-- The run of `disabled_run` keeps the pollers in agreement. -/
theorem disabled_agree : ∃ t, Run (system (.refl ℕ)) initial
      [.update 0 .enableReading, .update 0 .disableAll] t ∧
    Throughout (system (.refl ℕ)) (Agree (.refl ℕ)) initial
      [.update 0 .enableReading, .update 0 .disableAll] := by
  obtain ⟨t, hr, hguarded, _⟩ := disabled_run
  exact ⟨t, hr, (agree_throughout_iff hr).mpr hguarded⟩

/-- A channel is enabled, disabled and enabled again. `EPollPoller` accepts this, and then
the two do not agree. -/
theorem reenabled_not_agree : ∃ t, Run (system (.refl ℕ)) initial
      [.update 0 .enableReading, .update 0 .disableAll, .update 0 .enableReading] t ∧
    ¬Agree (.refl ℕ) t := by
  obtain ⟨s, hr, _, hstage, p, h⟩ := disabled_run
  obtain ⟨t, ht, hagree⟩ := h.step_update_silenced (i := .enableReading) hstage
  exact ⟨t, .snoc hr trivial ht, hagree⟩

end Muduo.PollerEquivalence

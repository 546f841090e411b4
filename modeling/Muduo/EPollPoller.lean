import Muduo.Channel
import Muduo.Library.PartialMap

/-!
# EPollPoller

`net/poller/EPollPoller.cc` together with the kernel's interest set of its
`epollfd_`. A channel is absent from the poller (`kNew`), added, or deleted: kept
in `channels_` but out of the interest set.
-/
namespace Muduo

def kNew : ℤ := -1
def kAdded : ℤ := 1
def kDeleted : ℤ := 2

/-- `EPollPoller::kInitEventListSize` -/
def kInitEventListSize : ℕ := 16

structure EPollPoller where
  /-- `channels_`, by descriptor -/
  channels : ℕ → Option ChannelId
  /-- `Channel::index_`, by channel -/
  index : ChannelId → ℤ
  /-- the kernel's interest set: mask and data pointer, by descriptor -/
  interest : ℕ → Option (Events × ChannelId)
  /-- `events_.size()` -/
  eventsSize : ℕ

inductive EpollOp
  | add
  | mod
  | del
  deriving DecidableEq, Repr

namespace EPollPoller

def new : EPollPoller := ⟨fun _ => none, fun _ => kNew, fun _ => none, kInitEventListSize⟩

/-- `epoll_ctl(2)`: the new interest set, or an error. -/
def epollCtl (interest : ℕ → Option (Events × ChannelId)) (op : EpollOp) (ch : Channel) :
    Option (ℕ → Option (Events × ChannelId)) :=
  match op, interest ch.fd with
  | .add, none => some (Function.update interest ch.fd (some (ch.events, ch.id)))
  | .mod, some _ => some (Function.update interest ch.fd (some (ch.events, ch.id)))
  | .del, some _ => some (Function.update interest ch.fd none)
  | _, _ => none

/-- `EPollPoller::update`: only a failed `EPOLL_CTL_DEL` is survived. -/
def update (p : EPollPoller) (op : EpollOp) (ch : Channel) : Checked EPollPoller :=
  match epollCtl p.interest op ch with
  | some interest => .ok { p with interest }
  | none => if op = .del then .ok p else .error .epollCtl

def setIndex (p : EPollPoller) (ch : Channel) (idx : ℤ) : EPollPoller :=
  { p with index := Function.update p.index ch.id idx }

def updateChannel (p : EPollPoller) (ch : Channel) : Checked EPollPoller := do
  let index := p.index ch.id
  if index = kNew ∨ index = kDeleted then
    let p ←
      if index = kNew then do
        assert (p.channels ch.fd = none) .epollUpdateAbsent
        pure { p with channels := Function.update p.channels ch.fd (some ch.id) }
      else do
        assert (p.channels ch.fd ≠ none) .epollUpdateFound
        assert (p.channels ch.fd = some ch.id) .epollUpdateSame
        pure p
    (p.setIndex ch kAdded).update .add ch
  else
    assert (p.channels ch.fd ≠ none) .epollUpdateFound
    assert (p.channels ch.fd = some ch.id) .epollUpdateSame
    assert (index = kAdded) .epollUpdateIndex
    if ch.isNoneEvent then
      let p ← p.update .del ch
      pure (p.setIndex ch kDeleted)
    else
      p.update .mod ch

def removeChannel (p : EPollPoller) (ch : Channel) : Checked EPollPoller := do
  assert (p.channels ch.fd ≠ none) .epollRemoveFound
  assert (p.channels ch.fd = some ch.id) .epollRemoveSame
  assert (ch.isNoneEvent) .epollRemoveNoneEvent
  let index := p.index ch.id
  assert (index = kAdded ∨ index = kDeleted) .epollRemoveIndex
  let p := { p with channels := Function.update p.channels ch.fd none }
  let p ← if index = kAdded then p.update .del ch else pure p
  pure (p.setIndex ch kNew)

/-- `fillActiveChannels`: the active channels, each with its `revents_`. `fd` is the
descriptor of a channel. -/
def fillActiveChannels (p : EPollPoller) (fd : ChannelId → ℕ) :
    List (ChannelId × Events) → Checked (List (ChannelId × Events))
  | [] => .ok []
  | (c, revents) :: events => do
    assert (p.channels (fd c) ≠ none) .epollFillFound
    assert (p.channels (fd c) = some c) .epollFillSame
    let activeChannels ← p.fillActiveChannels fd events
    return (c, revents) :: activeChannels

/-- `poll`, where `epoll_wait(2)` has returned `events`. -/
def poll (p : EPollPoller) (fd : ChannelId → ℕ) (events : List (ChannelId × Events)) :
    Checked (List (ChannelId × Events) × EPollPoller) := do
  if events.length > 0 then
    assert (events.length ≤ p.eventsSize) .epollFillSize
    let activeChannels ← p.fillActiveChannels fd events
    return (activeChannels,
      if events.length = p.eventsSize then { p with eventsSize := p.eventsSize * 2 } else p)
  else return ([], p)

/-- Level-triggered `epoll_wait(2)` returns all of what is ready: in any order, and
each descriptor of the interest set once. -/
structure EpollWait (p : EPollPoller) (ready : ℕ → Events)
    (events : List (ChannelId × Events)) : Prop where
  mem_iff : ∀ c revents, (c, revents) ∈ events ↔ ∃ fd mask, p.interest fd = some (mask, c) ∧
    revents = reported (ready fd) mask ∧ revents ≠ 0
  nodup : events.Nodup
  length_le : events.length ≤ p.eventsSize

/-- All the poller knows about one channel: its index and what its descriptor maps to. -/
@[ext] structure View where
  index : ℤ
  channels : Option ChannelId
  interest : Option (Events × ChannelId)

/-- Unknown to the poller, as is its descriptor. -/
def absent : View := ⟨kNew, none, none⟩

/-- Registered, with its own mask and address in the kernel's interest set. -/
def added (ch : Channel) : View := ⟨kAdded, some ch.id, some (ch.events, ch.id)⟩

/-- Known to the poller, but out of the interest set. -/
def deleted (ch : Channel) : View := ⟨kDeleted, some ch.id, none⟩

def view (p : EPollPoller) (ch : Channel) : View :=
  ⟨p.index ch.id, p.channels ch.fd, p.interest ch.fd⟩

/-- The poller with another view of one channel. -/
def put (p : EPollPoller) (ch : Channel) (v : View) : EPollPoller where
  channels := Function.update p.channels ch.fd v.channels
  index := Function.update p.index ch.id v.index
  interest := Function.update p.interest ch.fd v.interest
  eventsSize := p.eventsSize

/-- `ch` and `d` share neither their address nor their descriptor. -/
def Apart (ch d : Channel) : Prop := ch.id ≠ d.id ∧ ch.fd ≠ d.fd

variable {p : EPollPoller} {ch : Channel}

theorem view_put {d : Channel} (v : View) (hid : d.id = ch.id) (hfd : d.fd = ch.fd) :
    (p.put ch v).view d = v := by
  simp [view, put, hid, hfd]

@[simp] theorem view_put_self (v : View) : (p.put ch v).view ch = v := view_put v rfl rfl

theorem put_put {d : Channel} (v v' : View) (hid : d.id = ch.id) (hfd : d.fd = ch.fd) :
    (p.put ch v).put d v' = p.put d v' := by
  simp [put, hid, hfd]

/-- Everything else is unchanged. -/
theorem view_put_apart {d : Channel} (v : View) (h : Apart d ch) :
    (p.put ch v).view d = p.view d := by
  simp [view, put, h.1, h.2]

theorem updateChannel_absent (h : p.view ch = absent) :
    p.updateChannel ch = .ok (p.put ch (added ch)) := by
  obtain ⟨hidx, hch, hint⟩ := View.mk.inj h
  simp [updateChannel, hidx, hch, hint, assert, setIndex, update, epollCtl, put, added]

theorem updateChannel_deleted (h : p.view ch = deleted ch) :
    p.updateChannel ch = .ok (p.put ch (added ch)) := by
  obtain ⟨hidx, hch, hint⟩ := View.mk.inj h
  have hc : Function.update p.channels ch.fd (some ch.id) = p.channels := by
    rw [← hch, Function.update_eq_self]
  simp [updateChannel, hidx, hch, hint, assert, setIndex, update, epollCtl, put, added,
    kDeleted, kNew, hc]

/-- The new mask of a registered channel; `old` is the channel before the change. -/
theorem updateChannel_added {old : Channel} (h : p.view old = added old) (hid : ch.id = old.id)
    (hfd : ch.fd = old.fd) :
    p.updateChannel ch =
      .ok (p.put ch (if ch.isNoneEvent then deleted ch else added ch)) := by
  obtain ⟨hidx, hch, hint⟩ := View.mk.inj h
  rw [← hid] at hidx hch
  rw [← hfd] at hch hint
  have hc : Function.update p.channels ch.fd (some ch.id) = p.channels := by
    rw [← hch, Function.update_eq_self]
  have hi : Function.update p.index ch.id kAdded = p.index := by
    rw [← hidx, Function.update_eq_self]
  by_cases hn : ch.isNoneEvent
  · simp [updateChannel, hidx, hch, hint, assert, setIndex, update, epollCtl, put, deleted, hn, hc,
      kAdded, kNew, kDeleted]
  · rw [if_neg hn]
    simp only [updateChannel, hidx, hch, update, epollCtl, hint, assert, hn, put, added, hc, hi]
    rfl

/-- The view of a channel the poller has been told of. -/
def registered (ch : Channel) : View := if ch.isNoneEvent then deleted ch else added ch

/-- What the poller knows of `ch` is what `ch` says of itself; a channel without
interest may also be unknown. -/
def Settled (p : EPollPoller) (ch : Channel) : Prop :=
  p.view ch = registered ch ∨ ch.isNoneEvent = true ∧ p.view ch = absent

/-- The pollers differ at most in what they know of `ch`. -/
def SameBut (ch : Channel) (p q : EPollPoller) : Prop := ∀ d, Apart d ch → q.view d = p.view d

theorem SameBut.refl (ch : Channel) (p : EPollPoller) : SameBut ch p p := fun _ _ => rfl

theorem SameBut.trans {q r : EPollPoller} (h : SameBut ch p q) (g : SameBut ch q r) :
    SameBut ch p r := fun d hd => (g d hd).trans (h d hd)

/-- `SameBut` looks at the address and the descriptor only. -/
theorem SameBut.congr {d : Channel} {q : EPollPoller} (h : SameBut d p q) (hid : d.id = ch.id)
    (hfd : d.fd = ch.fd) : SameBut ch p q := by
  intro e he
  refine h e ⟨?_, ?_⟩
  · rw [hid]
    exact he.1
  · rw [hfd]
    exact he.2

/-- At the other descriptors nothing has changed. -/
theorem SameBut.at_fd {q : EPollPoller} (h : SameBut ch p q) {fd : ℕ} (hfd : fd ≠ ch.fd) :
    q.channels fd = p.channels fd ∧ q.interest fd = p.interest fd := by
  have hview := h (.new (ch.id + 1) 0 fd) ⟨by simp [Channel.new], hfd⟩
  obtain ⟨-, hchannels, hinterest⟩ := View.mk.inj hview
  exact ⟨hchannels, hinterest⟩

theorem SameBut.index_eq {q : EPollPoller} (h : SameBut ch p q) {x : ChannelId} (hx : x ≠ ch.id) :
    q.index x = p.index x := by
  have hview := h (.new x 0 (ch.fd + 1)) ⟨hx, by simp [Channel.new]⟩
  exact (View.mk.inj hview).1

theorem sameBut_put (v : View) : SameBut ch p (p.put ch v) := fun _ hd => view_put_apart v hd

theorem registered_of_isNoneEvent (h : ch.isNoneEvent = true) : registered ch = deleted ch :=
  if_pos h

theorem registered_of_interest (h : ch.isNoneEvent = false) : registered ch = added ch := by
  simp [registered, h]

/-- A change of interest is accepted unless it takes no interest to no interest. -/
theorem updateChannel_settled {old : Channel} (h : p.Settled old) (hid : ch.id = old.id)
    (hfd : ch.fd = old.fd) (hne : old.isNoneEvent = false ∨ ch.isNoneEvent = false) :
    p.updateChannel ch = .ok (p.put ch (registered ch)) := by
  have hview : p.view ch = p.view old := by simp only [view, hid, hfd]
  have hdel : deleted ch = deleted old := by simp only [deleted, hid]
  cases hold : old.isNoneEvent with
  | false =>
    rcases h with h | ⟨h, _⟩
    · rw [registered_of_interest hold] at h
      exact updateChannel_added h hid hfd
    · rw [hold] at h
      cases h
  | true =>
    have hn : ch.isNoneEvent = false := by
      rcases hne with hne | hne
      · rw [hold] at hne
        cases hne
      · exact hne
    rw [registered_of_interest hn]
    rcases h with h | ⟨_, h⟩
    · rw [registered_of_isNoneEvent hold, ← hdel, ← hview] at h
      exact updateChannel_deleted h
    · rw [← hview] at h
      exact updateChannel_absent h

theorem fillActiveChannels_eq {fd : ChannelId → ℕ} {events : List (ChannelId × Events)}
    (h : ∀ x ∈ events, p.channels (fd x.1) = some x.1) :
    p.fillActiveChannels fd events = .ok events := by
  induction events with
  | nil => rfl
  | cons x events ih =>
    obtain ⟨c, revents⟩ := x
    have hc : p.channels (fd c) = some c := h (c, revents) List.mem_cons_self
    have hrest := ih fun x hx => h x (List.mem_cons_of_mem _ hx)
    simp [fillActiveChannels, hc, hrest, assert]

/-- `poll` reports what `epoll_wait(2)` has returned. -/
theorem poll_eq {fd : ChannelId → ℕ} {events : List (ChannelId × Events)}
    (h : ∀ x ∈ events, p.channels (fd x.1) = some x.1) (hlen : events.length ≤ p.eventsSize) :
    Yields (p.poll fd events) fun r => r.1 = events ∧
      (r.2 = p ∨ r.2 = { p with eventsSize := p.eventsSize * 2 }) := by
  unfold poll
  split_ifs with hpos hfull
  · rw [assert_pos hlen, fillActiveChannels_eq h]
    exact yields_ok ⟨rfl, .inr rfl⟩
  · rw [assert_pos hlen, fillActiveChannels_eq h]
    exact yields_ok ⟨rfl, .inl rfl⟩
  · refine yields_ok ⟨?_, .inl rfl⟩
    exact (List.length_eq_zero_iff.mp (by omega)).symm

theorem fillActiveChannels_avoids {e : Assertion} (hfound : .epollFillFound ≠ e)
    (hsame : .epollFillSame ≠ e) (p : EPollPoller) (fd : ChannelId → ℕ)
    (events : List (ChannelId × Events)) :
    Avoids e (p.fillActiveChannels fd events) fun activeChannels =>
      activeChannels = events ∧ ∀ x ∈ events, p.channels (fd x.1) = some x.1 := by
  induction events with
  | nil => exact avoids_ok ⟨rfl, by simp⟩
  | cons x events ih =>
    obtain ⟨c, revents⟩ := x
    unfold fillActiveChannels
    apply (avoids_assert hfound).bind
    intro _ _
    apply (avoids_assert hsame).bind
    intro _ hc
    apply ih.bind
    rintro activeChannels ⟨rfl, hrest⟩
    exact avoids_ok ⟨rfl, List.forall_mem_cons.mpr ⟨hc, hrest⟩⟩

/-- The active channels are those that the kernel reports, and they are in `channels_`. -/
theorem poll_avoids {e : Assertion} (hsize : .epollFillSize ≠ e) (hfound : .epollFillFound ≠ e)
    (hsame : .epollFillSame ≠ e) (p : EPollPoller) (fd : ChannelId → ℕ)
    (events : List (ChannelId × Events)) :
    Avoids e (p.poll fd events) fun r =>
      r.1 = events ∧ r.2.channels = p.channels ∧ r.2.index = p.index ∧
        r.2.interest = p.interest ∧ ∀ x ∈ events, p.channels (fd x.1) = some x.1 := by
  unfold poll
  split_ifs with hpos hfull
  · apply (avoids_assert hsize).bind
    intro _ _
    apply (fillActiveChannels_avoids hfound hsame p fd events).bind
    rintro activeChannels ⟨hactive, hchannels⟩
    exact avoids_ok ⟨hactive, rfl, rfl, rfl, hchannels⟩
  · apply (avoids_assert hsize).bind
    intro _ _
    apply (fillActiveChannels_avoids hfound hsame p fd events).bind
    rintro activeChannels ⟨hactive, hchannels⟩
    exact avoids_ok ⟨hactive, rfl, rfl, rfl, hchannels⟩
  · obtain rfl : events = [] := List.length_eq_zero_iff.mp (by omega)
    exact avoids_ok ⟨rfl, rfl, rfl, rfl, by simp⟩

theorem removeChannel_absent (h : p.view ch = absent) :
    p.removeChannel ch = .error .epollRemoveFound := by
  obtain ⟨_, hch, _⟩ := View.mk.inj h
  simp [removeChannel, hch, assert]

theorem removeChannel_deleted (h : p.view ch = deleted ch) (hn : ch.isNoneEvent = true) :
    p.removeChannel ch = .ok (p.put ch absent) := by
  obtain ⟨hidx, hch, hint⟩ := View.mk.inj h
  have hi : Function.update p.interest ch.fd none = p.interest := by
    rw [← hint, Function.update_eq_self]
  simp [removeChannel, hidx, hch, hn, assert, setIndex, put, absent, hi, kAdded, kDeleted]

theorem removeChannel_added (h : p.view ch = added ch) (hn : ch.isNoneEvent = true) :
    p.removeChannel ch = .ok (p.put ch absent) := by
  obtain ⟨hidx, hch, hint⟩ := View.mk.inj h
  simp [removeChannel, hidx, hch, hint, hn, assert, setIndex, put, absent, update, epollCtl,
    kAdded]

end EPollPoller
end Muduo

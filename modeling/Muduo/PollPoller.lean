import Muduo.Channel

/-!
# PollPoller

`net/poller/PollPoller.cc`. A channel that is ignored keeps its place in
`pollfds_` with the descriptor `-fd-1`. The field `index_` of a channel, its place
in `pollfds_`, is kept by the poller.
-/
namespace Muduo

/-- `struct pollfd` -/
structure PollFd where
  fd : ℤ
  events : BitVec 16
  revents : BitVec 16
  deriving DecidableEq, Repr

structure PollPoller where
  /-- `channels_`, by descriptor -/
  channels : ℕ → Option ChannelId
  /-- `Channel::index_`, by channel -/
  index : ChannelId → ℤ
  pollfds : List PollFd

/-- `static_cast<short>` -/
def toShort (events : Events) : BitVec 16 := events.setWidth 16

namespace PollPoller

def new : PollPoller := ⟨fun _ => none, fun _ => -1, []⟩

/-- `channels_.find(fd)` -/
def find (p : PollPoller) (fd : ℤ) : Option ChannelId :=
  if 0 ≤ fd then p.channels fd.toNat else none

/-- What `poll(2)` stores in `revents`: nothing for a negative descriptor. -/
def kernelPoll (ready : ℕ → Events) (pfd : PollFd) : PollFd :=
  { pfd with
    revents :=
      if 0 ≤ pfd.fd then
        toShort (ready pfd.fd.toNat) &&& (pfd.events ||| toShort POLLERR ||| toShort POLLHUP)
      else 0 }

/-- `fillActiveChannels`: the active channels, each with its `revents_`. `fd` is the
descriptor of a channel. -/
def fillActiveChannels (p : PollPoller) (fd : ChannelId → ℕ) :
    List PollFd → ℕ → Checked (List (ChannelId × Events))
  | [], _ => .ok []
  | pfd :: pollfds, numEvents =>
    if numEvents > 0 then
      if 0 < pfd.revents.toInt then
        match p.find pfd.fd with
        | none => .error .pollFillFound
        | some c => do
          assert (fd c = pfd.fd) .pollFillFd
          let activeChannels ← p.fillActiveChannels fd pollfds (numEvents - 1)
          return (c, pfd.revents.signExtend 32) :: activeChannels
      else p.fillActiveChannels fd pollfds numEvents
    else .ok []

def poll (p : PollPoller) (fd : ChannelId → ℕ) (ready : ℕ → Events) :
    Checked (List (ChannelId × Events) × PollPoller) := do
  let pollfds := p.pollfds.map (kernelPoll ready)
  let numEvents := pollfds.countP fun pfd => pfd.revents ≠ 0
  let p := { p with pollfds }
  if numEvents > 0 then
    let activeChannels ← p.fillActiveChannels fd pollfds numEvents
    return (activeChannels, p)
  else return ([], p)

def updateChannel (p : PollPoller) (ch : Channel) : Checked PollPoller := do
  if p.index ch.id < 0 then
    assert (p.channels ch.fd = none) .pollUpdateAbsent
    return {
      channels := Function.update p.channels ch.fd (some ch.id)
      index := Function.update p.index ch.id p.pollfds.length
      pollfds := p.pollfds ++ [⟨ch.fd, toShort ch.events, 0⟩] }
  else
    assert (p.channels ch.fd ≠ none) .pollUpdateFound
    assert (p.channels ch.fd = some ch.id) .pollUpdateSame
    let idx := (p.index ch.id).toNat
    match p.pollfds[idx]? with
    | none => .error .pollUpdateIndex
    | some pfd =>
      assert (pfd.fd = ch.fd ∨ pfd.fd = -ch.fd - 1) .pollUpdatePollFd
      let pfd := { pfd with
        fd := if ch.isNoneEvent then -ch.fd - 1 else pfd.fd
        events := toShort ch.events
        revents := 0 }
      return { p with pollfds := p.pollfds.set idx pfd }

def removeChannel (p : PollPoller) (ch : Channel) : Checked PollPoller := do
  assert (p.channels ch.fd ≠ none) .pollRemoveFound
  assert (p.channels ch.fd = some ch.id) .pollRemoveSame
  assert (ch.isNoneEvent) .pollRemoveNoneEvent
  assert (0 ≤ p.index ch.id) .pollRemoveIndex
  let idx := (p.index ch.id).toNat
  match p.pollfds[idx]?, p.pollfds.getLast? with
  | some pfd, some last =>
    assert (pfd.fd = -ch.fd - 1 ∧ pfd.events.signExtend 32 = ch.events) .pollRemovePollFd
    let channels := Function.update p.channels ch.fd none
    if idx = p.pollfds.length - 1 then
      return { p with channels, pollfds := p.pollfds.dropLast }
    else
      let channelAtEnd := if last.fd < 0 then -last.fd - 1 else last.fd
      match channels channelAtEnd.toNat with
      | none => .error .pollRemoveEnd
      | some c =>
        return {
          channels
          index := Function.update p.index c (p.index ch.id)
          pollfds := (p.pollfds.set idx last).dropLast }
  | _, _ => .error .pollRemoveIndex

/-- The descriptor that stands in `pollfds_`. -/
def pollFd (negated : Bool) (fd : ℕ) : ℤ := if negated then -fd - 1 else fd

theorem pollFd_injective {a b : Bool} {m n : ℕ} (h : pollFd a m = pollFd b n) : m = n := by
  simp only [pollFd] at h
  split_ifs at h <;> omega

theorem pollFd_nonneg {a : Bool} {n : ℕ} : 0 ≤ pollFd a n ↔ a = false := by
  cases a <;> simp [pollFd]
  omega

/-- Channel `c` of descriptor `fd` is registered and has `pfd` in `pollfds_`. -/
structure Slot (p : PollPoller) (fd : ℕ) (c : ChannelId) (pfd : PollFd) : Prop where
  channels : p.channels fd = some c
  index : 0 ≤ p.index c
  pollfd : p.pollfds[(p.index c).toNat]? = some pfd
  fd : ∃ negated, pfd.fd = pollFd negated fd

/-- `channels_` and `pollfds_` hold the same channels, and the masks are those a
channel is ever given. -/
structure Consistent (p : PollPoller) : Prop where
  slot : ∀ fd c, p.channels fd = some c → ∃ pfd, p.Slot fd c pfd
  owner : ∀ (i : ℕ) pfd, p.pollfds[i]? = some pfd →
    ∃ fd c, p.Slot fd c pfd ∧ p.index c = i
  valid : ∀ pfd ∈ p.pollfds, ∃ events, Channel.EventsValid events ∧ pfd.events = toShort events

/-- `ch` is registered with its events, and ignored if `negated`. -/
def Holds (p : PollPoller) (ch : Channel) (negated : Bool) : Prop :=
  ∃ revents, p.Slot ch.fd ch.id ⟨pollFd negated ch.fd, toShort ch.events, revents⟩

/-- What a call for `ch` leaves of the others. -/
structure Others (ch : Channel) (p q : PollPoller) : Prop where
  channels : ∀ fd, fd ≠ ch.fd → q.channels fd = p.channels fd
  slot : ∀ fd c pfd, fd ≠ ch.fd → p.Slot fd c pfd → q.Slot fd c pfd
  index : ∀ c, c ≠ ch.id → (∀ fd, p.channels fd ≠ some c) → q.index c = p.index c

theorem Others.holds {p q : PollPoller} {ch d : Channel} {negated : Bool} (h : Others ch p q)
    (hd : d.fd ≠ ch.fd) (hp : p.Holds d negated) : q.Holds d negated := by
  obtain ⟨revents, hs⟩ := hp
  exact ⟨revents, h.slot _ _ _ hd hs⟩

variable {p : PollPoller} {ch : Channel}

/-- A place of `pollfds_` belongs to one descriptor. -/
theorem Slot.fd_eq {m n : ℕ} {c d : ChannelId} {pfd pfd' : PollFd} (h : p.Slot m c pfd)
    (h' : p.Slot n d pfd') (hi : p.index c = p.index d) : m = n := by
  have hpfd : pfd = pfd' := by
    have hp := h.pollfd
    rw [hi, h'.pollfd] at hp
    exact (Option.some.inj hp).symm
  obtain ⟨a, ha⟩ := h.fd
  obtain ⟨b, hb⟩ := h'.fd
  rw [hpfd, hb] at ha
  exact (pollFd_injective ha).symm

/-- Different places belong to different descriptors. -/
theorem Slot.fd_ne {m n : ℕ} {c d : ChannelId} {pfd pfd' : PollFd} (h : p.Slot m c pfd)
    (h' : p.Slot n d pfd') (hi : p.index c ≠ p.index d) : m ≠ n := by
  rintro rfl
  have hc := h.channels
  rw [h'.channels] at hc
  exact hi (congrArg p.index (Option.some.inj hc).symm)

theorem Slot.lt_length {m : ℕ} {c : ChannelId} {pfd : PollFd} (h : p.Slot m c pfd) :
    (p.index c).toNat < p.pollfds.length := by
  have hp := h.pollfd
  by_contra hlt
  rw [List.getElem?_eq_none (by omega)] at hp
  cases hp

theorem Holds.unique {d : Channel} {a b : Bool} (h : p.Holds ch a) (h' : p.Holds d b)
    (hid : ch.id = d.id) : a = b ∧ toShort ch.events = toShort d.events := by
  obtain ⟨_, hs⟩ := h
  obtain ⟨_, hs'⟩ := h'
  have hpfd := hs.pollfd
  rw [hid, hs'.pollfd] at hpfd
  obtain ⟨hfd, hevents, _⟩ := PollFd.mk.inj (Option.some.inj hpfd)
  refine ⟨?_, hevents.symm⟩
  have hsame := pollFd_injective hfd
  rw [hsame] at hfd
  simp only [pollFd] at hfd
  split_ifs at hfd with hb ha
  · rw [ha, hb]
  · omega
  · omega
  · simp_all

/-- Where each place of `pollfds_` is that of `ch` or the one another channel had, the tables stay
consistent. -/
theorem Consistent.update {q : PollPoller} {new : PollFd} (hp : p.Consistent) (ho : Others ch p q)
    (hself : q.Slot ch.fd ch.id new)
    (hevents : ∃ events, Channel.EventsValid events ∧ new.events = toShort events)
    (howner : ∀ (i : ℕ) pfd, q.pollfds[i]? = some pfd → pfd = new ∧ q.index ch.id = i ∨
      ∃ fd c, fd ≠ ch.fd ∧ p.Slot fd c pfd ∧ q.index c = i) : q.Consistent where
  slot fd c hc := by
    by_cases hne : fd = ch.fd
    · rw [hne, hself.channels] at hc
      rw [hne, ← Option.some.inj hc]
      exact ⟨new, hself⟩
    · rw [ho.channels fd hne] at hc
      obtain ⟨pfd, hs⟩ := hp.slot fd c hc
      exact ⟨pfd, ho.slot fd c pfd hne hs⟩
  owner i pfd hi := by
    obtain ⟨rfl, hindex⟩ | ⟨fd, c, hne, hs, hindex⟩ := howner i pfd hi
    · exact ⟨ch.fd, ch.id, hself, hindex⟩
    · exact ⟨fd, c, ho.slot fd c pfd hne hs, hindex⟩
  valid pfd hmem := by
    obtain ⟨i, hi⟩ := List.mem_iff_getElem?.mp hmem
    obtain ⟨rfl, -⟩ | ⟨fd, c, -, hs, -⟩ := howner i pfd hi
    · exact hevents
    · exact hp.valid pfd (List.mem_of_getElem? hs.pollfd)

/-! ### `updateChannel` -/

/-- A channel that has never been registered is appended. -/
theorem updateChannel_new (hp : p.Consistent) (hidx : p.index ch.id < 0)
    (hfd : p.channels ch.fd = none) (hev : Channel.EventsValid ch.events) :
    Yields (p.updateChannel ch) fun q => q.Consistent ∧ Others ch p q ∧ q.Holds ch false := by
  have hupdate : p.updateChannel ch = .ok {
      channels := Function.update p.channels ch.fd (some ch.id)
      index := Function.update p.index ch.id p.pollfds.length
      pollfds := p.pollfds ++ [⟨ch.fd, toShort ch.events, 0⟩] } := by
    simp [updateChannel, hidx, hfd, assert]
  rw [hupdate]
  apply yields_ok
  generalize hq : PollPoller.mk _ _ _ = q
  have hslot : ∀ fd c pfd, fd ≠ ch.fd → p.Slot fd c pfd → q.Slot fd c pfd ∧ q.index c = p.index c := by
    intro fd c pfd hne h
    have hc : c ≠ ch.id := by
      intro hc
      have hi := h.index
      rw [hc] at hi
      omega
    have hi : q.index c = p.index c := by simp [← hq, hc]
    have hlt := h.lt_length
    have hpfd := h.pollfd
    refine ⟨⟨by simp [← hq, hne, h.channels], hi ▸ h.index, ?_, h.fd⟩, hi⟩
    rw [hi, ← hq]
    simp only
    rw [List.getElem?_append_left hlt, hpfd]
  have hnew : q.Slot ch.fd ch.id ⟨ch.fd, toShort ch.events, 0⟩ := by
    subst hq
    exact ⟨by simp, by simp, by simp, false, by simp [pollFd]⟩
  have howner : ∀ fd c pfd, p.Slot fd c pfd → fd ≠ ch.fd := by
    intro fd c pfd h heq
    have hc := h.channels
    rw [heq, hfd] at hc
    cases hc
  have ho : Others ch p q := by
    refine ⟨?_, fun fd c pfd hne hs => (hslot fd c pfd hne hs).1, ?_⟩
    · intro fd hne
      simp [← hq, hne]
    · intro c hne _
      simp [← hq, hne]
  refine ⟨hp.update ho hnew ⟨ch.events, hev, rfl⟩ ?_, ho, 0, ?_⟩
  · intro i pfd hi
    have hi' : (p.pollfds ++ [⟨ch.fd, toShort ch.events, 0⟩])[i]? = some pfd := by
      simpa [← hq] using hi
    by_cases hlt : i < p.pollfds.length
    · rw [List.getElem?_append_left hlt] at hi'
      obtain ⟨fd, c, hs, hidx'⟩ := hp.owner i pfd hi'
      have hne := howner fd c pfd hs
      exact .inr ⟨fd, c, hne, hs, (hslot fd c pfd hne hs).2.trans hidx'⟩
    · have hilen : i = p.pollfds.length := by
        have hlen := List.getElem?_eq_some_iff.mp hi'
        obtain ⟨hlen, _⟩ := hlen
        simp only [List.length_append, List.length_singleton] at hlen
        omega
      rw [hilen] at hi'
      have hpfd : (⟨ch.fd, toShort ch.events, 0⟩ : PollFd) = pfd := by simpa using hi'
      exact .inl ⟨hpfd.symm, by simp [← hq, hilen]⟩
  · simpa [pollFd] using hnew

/-- A registered channel keeps its place; once its descriptor is negated it stays so. -/
theorem updateChannel_held {old : Channel} {negated : Bool} (hp : p.Consistent)
    (h : p.Holds old negated) (hid : ch.id = old.id) (hfd : ch.fd = old.fd)
    (hev : Channel.EventsValid ch.events) :
    Yields (p.updateChannel ch) fun q =>
      q.Consistent ∧ Others ch p q ∧ q.Holds ch (negated || ch.isNoneEvent) := by
  obtain ⟨revents, hs⟩ := h
  rw [← hid, ← hfd] at hs
  have hidx : ¬p.index ch.id < 0 := by
    have hi := hs.index
    omega
  have hpfd := hs.pollfd
  have hch := hs.channels
  have hfds : pollFd negated ch.fd = (ch.fd : ℤ) ∨ pollFd negated ch.fd = -(ch.fd : ℤ) - 1 := by
    cases negated <;> simp [pollFd]
  have hneg : (if ch.isNoneEvent then -(ch.fd : ℤ) - 1 else pollFd negated ch.fd) =
      pollFd (negated || ch.isNoneEvent) ch.fd := by
    cases negated <;> cases ch.isNoneEvent <;> simp [pollFd]
  generalize hnew : PollFd.mk (pollFd (negated || ch.isNoneEvent) ch.fd) (toShort ch.events) 0 = new
  have hupdate : p.updateChannel ch =
      .ok { p with pollfds := p.pollfds.set (p.index ch.id).toNat new } := by
    simp only [updateChannel, hidx, hpfd, hch, hneg, ← hnew, if_false, assert_pos hfds]
    rfl
  rw [hupdate]
  apply yields_ok
  generalize hq : PollPoller.mk _ _ _ = q
  have hlt := hs.lt_length
  have hslot : ∀ fd c pfd, fd ≠ ch.fd → p.Slot fd c pfd → q.Slot fd c pfd := by
    intro fd c pfd hne h
    have hi : (p.index ch.id).toNat ≠ (p.index c).toNat := by
      intro heq
      have hc := h.index
      exact hne (h.fd_eq hs (by omega))
    have hpfd' := h.pollfd
    refine ⟨by simpa [← hq] using h.channels, by simpa [← hq] using h.index, ?_, h.fd⟩
    simpa [← hq, List.getElem?_set_ne hi] using hpfd'
  have hself : q.Slot ch.fd ch.id new := by
    refine ⟨by simpa [← hq] using hch, by simpa [← hq] using hs.index, ?_, ?_⟩
    · simp [← hq, hlt]
    · exact ⟨negated || ch.isNoneEvent, by rw [← hnew]⟩
  have ho : Others ch p q := by
    refine ⟨?_, hslot, ?_⟩
    · intro fd _
      simp [← hq]
    · intro c _ _
      simp [← hq]
  refine ⟨hp.update ho hself ⟨ch.events, hev, by rw [← hnew]⟩ ?_, ho, 0, ?_⟩
  · intro i pfd hi
    by_cases heq : i = (p.index ch.id).toNat
    · have hpfd' : new = pfd := by simpa [← hq, heq, hlt] using hi
      have hi' := hs.index
      refine .inl ⟨hpfd'.symm, ?_⟩
      simp only [← hq]
      omega
    · obtain ⟨fd, c, hs', hi'⟩ := hp.owner i pfd
        (by simpa [← hq, List.getElem?_set_ne (Ne.symm heq)] using hi)
      have hne : fd ≠ ch.fd := hs'.fd_ne hs (by omega)
      exact .inr ⟨fd, c, hne, hs', by simpa [← hq] using hi'⟩
  · rw [hnew]
    exact hself

/-- A channel that keeps its index after `removeChannel` cannot be registered again. -/
theorem updateChannel_gone (hidx : 0 ≤ p.index ch.id) (hfd : p.channels ch.fd = none) :
    p.updateChannel ch = .error .pollUpdateFound := by
  have hidx' : ¬p.index ch.id < 0 := by omega
  simp [updateChannel, hidx', hfd, assert]

/-! ### `removeChannel` -/

/-- The events of a mask survive `static_cast<short>`. -/
theorem signExtend_toShort {events : Events} (h : events.toNat < 2 ^ 15) :
    (toShort events).signExtend 32 = events := by
  have hmsb : (toShort events).msb = false := by
    rw [BitVec.msb_eq_false_iff_two_mul_lt]
    simp only [toShort, BitVec.toNat_setWidth]
    omega
  rw [BitVec.signExtend_eq_setWidth_of_msb_false hmsb, toShort]
  apply BitVec.eq_of_toNat_eq
  simp only [BitVec.toNat_setWidth]
  omega

theorem toNat_lt_of_valid {events : Events} (h : Channel.EventsValid events) :
    events.toNat < 2 ^ 15 := by
  rcases h with rfl | rfl | rfl | rfl <;> decide

theorem toShort_injective {a b : Events} (ha : Channel.EventsValid a) (hb : Channel.EventsValid b)
    (h : toShort a = toShort b) : a = b := by
  rw [← signExtend_toShort (toNat_lt_of_valid ha), h, signExtend_toShort (toNat_lt_of_valid hb)]

/-- A channel that is not ignored cannot be removed, even without interest. -/
theorem removeChannel_positive (h : p.Holds ch false) (hn : ch.isNoneEvent = true) :
    p.removeChannel ch = .error .pollRemovePollFd := by
  obtain ⟨revents, hs⟩ := h
  have hlast : p.pollfds.getLast? ≠ none := by
    have hlt := hs.lt_length
    rw [Ne, List.getLast?_eq_none_iff]
    intro hnil
    simp [hnil] at hlt
  obtain ⟨last, hlast⟩ := Option.ne_none_iff_exists'.mp hlast
  have hfd : ¬((ch.fd : ℤ) = -ch.fd - 1) := by omega
  simp [removeChannel, hs.channels, hs.index, hs.pollfd, hlast, hn, assert, pollFd, hfd]

/-- The poller without `ch`, where `last`, of the channel `c`, has taken its place. -/
def swapOut (p : PollPoller) (ch : Channel) (c : ChannelId) (last : PollFd) : PollPoller where
  channels := Function.update p.channels ch.fd none
  index := Function.update p.index c (p.index ch.id)
  pollfds := (p.pollfds.set (p.index ch.id).toNat last).dropLast

section SwapOut
variable {m : ℕ} {c : ChannelId} {pfd last : PollFd}

theorem swapOut_pollfd {i : ℕ} (hi : i + 1 < p.pollfds.length) :
    (p.swapOut ch c last).pollfds[i]? =
      if i = (p.index ch.id).toNat then some last else p.pollfds[i]? := by
  simp only [swapOut]
  rw [List.getElem?_dropLast, if_pos (by simp; omega)]
  split_ifs with h
  · rw [h, List.getElem?_set_self (by omega)]
  · rw [List.getElem?_set_ne (Ne.symm h)]

variable (hch : p.Slot ch.fd ch.id pfd) (hlast : p.Slot m c last)
  (hend : p.index c = p.pollfds.length - 1)
include hch hlast hend

/-- The other channels keep what they have in `pollfds_`. -/
theorem slot_swapOut {fd : ℕ} {d : ChannelId} {pfd' : PollFd} (hne : fd ≠ ch.fd)
    (h : p.Slot fd d pfd') : (p.swapOut ch c last).Slot fd d pfd' := by
  have hlt := hch.lt_length
  have hidx := hch.index
  have hidxne : p.index d ≠ p.index ch.id := fun heq => hne (h.fd_eq hch heq)
  have hchannels : (p.swapOut ch c last).channels fd = some d := by simp [swapOut, hne, h.channels]
  by_cases hd : d = c
  · subst hd
    have hindex : (p.swapOut ch d last).index d = p.index ch.id := by simp [swapOut]
    have hpfd : pfd' = last := by
      have hp := h.pollfd
      rw [hlast.pollfd] at hp
      exact (Option.some.inj hp).symm
    refine ⟨hchannels, by omega, ?_, h.fd⟩
    rw [hindex, swapOut_pollfd (by omega), if_pos rfl, hpfd]
  · have hindex : (p.swapOut ch c last).index d = p.index d := by simp [swapOut, hd]
    have hdlt := h.lt_length
    have hdidx := h.index
    have hdend : p.index d ≠ p.index c := by
      intro heq
      have hc := h.channels
      rw [h.fd_eq hlast heq, hlast.channels] at hc
      exact hd (Option.some.inj hc).symm
    refine ⟨hchannels, by omega, ?_, h.fd⟩
    rw [hindex, swapOut_pollfd (by omega), if_neg (by omega), h.pollfd]

theorem others_swapOut : Others ch p (p.swapOut ch c last) where
  channels fd hne := by simp [swapOut, hne]
  slot fd d pfd' hne h := slot_swapOut hch hlast hend hne h
  index d _ hd := by
    have hdc : d ≠ c := fun heq => hd m (heq ▸ hlast.channels)
    simp [swapOut, hdc]

theorem consistent_swapOut (hp : p.Consistent) : (p.swapOut ch c last).Consistent where
  slot fd d hd := by
    have hne : fd ≠ ch.fd := by
      rintro rfl
      simp [swapOut] at hd
    obtain ⟨pfd', hs⟩ := hp.slot fd d (by simpa [swapOut, hne] using hd)
    exact ⟨pfd', slot_swapOut hch hlast hend hne hs⟩
  owner i pfd' hi := by
    have hlt := hch.lt_length
    have hidx := hch.index
    have hilen : i + 1 < p.pollfds.length := by
      obtain ⟨hlen, _⟩ := List.getElem?_eq_some_iff.mp hi
      simp only [swapOut, List.length_dropLast, List.length_set] at hlen
      omega
    rw [swapOut_pollfd hilen] at hi
    split_ifs at hi with hself
    · have hne : m ≠ ch.fd := hlast.fd_ne hch (by omega)
      cases hi
      exact ⟨m, c, slot_swapOut hch hlast hend hne hlast, by simp [swapOut]; omega⟩
    · obtain ⟨fd, d, hs, hd⟩ := hp.owner i pfd' hi
      have hne : fd ≠ ch.fd := hs.fd_ne hch (by omega)
      have hdc : d ≠ c := by
        rintro rfl
        omega
      exact ⟨fd, d, slot_swapOut hch hlast hend hne hs, by simp [swapOut, hdc, hd]⟩
  valid pfd' hmem := by
    obtain hmem | rfl := List.mem_or_eq_of_mem_set (List.mem_of_mem_dropLast hmem)
    · exact hp.valid pfd' hmem
    · exact hp.valid pfd' (List.mem_of_getElem? hlast.pollfd)

end SwapOut

/-- The channel whose descriptor stands last in `pollfds_`. -/
theorem channelAtEnd_toNat {m : ℕ} {negated : Bool} :
    (if pollFd negated m < 0 then -pollFd negated m - 1 else pollFd negated m).toNat = m := by
  simp only [pollFd]
  split_ifs <;> omega

theorem removeChannel_eq_swapOut {m : ℕ} {c : ChannelId} {last : PollFd} (h : p.Holds ch true)
    (hn : ch.isNoneEvent = true) (hlast : p.Slot m c last)
    (hend : p.index c = p.pollfds.length - 1) :
    p.removeChannel ch = .ok (p.swapOut ch c last) := by
  obtain ⟨revents, hch⟩ := h
  have hlt := hch.lt_length
  have hidx := hch.index
  have hevents : (toShort ch.events).signExtend 32 = ch.events := by
    rw [(Channel.isNoneEvent_iff ch).mp hn]
    decide
  have hpfd : pollFd true ch.fd = -(ch.fd : ℤ) - 1 ∧
      (toShort ch.events).signExtend 32 = ch.events := ⟨rfl, hevents⟩
  have hget : p.pollfds.getLast? = some last := by
    have hl := hlast.pollfd
    rw [hend] at hl
    rw [List.getLast?_eq_getElem?, ← hl]
    congr 1
    omega
  simp only [removeChannel, hch.channels, hch.index, hch.pollfd, hn, hget, assert_pos hpfd]
  by_cases hself : (p.index ch.id).toNat = p.pollfds.length - 1
  · have hc : c = ch.id := by
      have hm := hlast.fd_eq hch (by omega)
      have hcc := hlast.channels
      rw [hm, hch.channels] at hcc
      exact (Option.some.inj hcc).symm
    have hset : p.pollfds.set (p.index ch.id).toNat last = p.pollfds := by
      have hl := hlast.pollfd
      rw [hc] at hl
      obtain ⟨hlt, rfl⟩ := List.getElem?_eq_some_iff.mp hl
      exact List.set_getElem_self hlt
    rw [if_pos hself, swapOut, hset, hc, Function.update_eq_self]
    rfl
  · have hne : m ≠ ch.fd := by
      rintro rfl
      have hc := hlast.channels
      rw [hch.channels] at hc
      cases hc
      omega
    obtain ⟨negated, hfd⟩ := hlast.fd
    rw [if_neg hself, hfd, channelAtEnd_toNat, Function.update_of_ne hne, hlast.channels]
    rfl

/-- An ignored channel is removed; the last of `pollfds_` takes its place. -/
theorem removeChannel_negated (hp : p.Consistent) (h : p.Holds ch true)
    (hn : ch.isNoneEvent = true) :
    Yields (p.removeChannel ch) fun q =>
      q.Consistent ∧ Others ch p q ∧ q.channels ch.fd = none ∧ 0 ≤ q.index ch.id := by
  obtain ⟨revents, hch⟩ := h
  have hlt := hch.lt_length
  have hidx := hch.index
  obtain ⟨m, c, hlast, hend⟩ := hp.owner (p.pollfds.length - 1) _
    (List.getElem?_eq_getElem (by omega))
  have hend' : p.index c = p.pollfds.length - 1 := by omega
  rw [removeChannel_eq_swapOut ⟨revents, hch⟩ hn hlast hend']
  apply yields_ok
  refine ⟨consistent_swapOut hch hlast hend' hp, others_swapOut hch hlast hend', ?_, ?_⟩
  · simp [swapOut]
  · simp only [swapOut, Function.update_apply]
    split_ifs
    · exact hidx
    · exact hidx

/-! ### `poll` -/

theorem reported_toNat_lt (ready : Events) {events : Events} (h : Channel.EventsValid events) :
    (reported ready events).toNat < 2 ^ 15 := by
  have hle : (reported ready events).toNat ≤ (events ||| POLLERR ||| POLLHUP).toNat := by
    simp only [reported, BitVec.toNat_and]
    exact Nat.and_le_right
  have hmask : (events ||| POLLERR ||| POLLHUP).toNat < 2 ^ 15 := by
    rcases h with rfl | rfl | rfl | rfl <;> decide
  omega

theorem toShort_reported (ready events : Events) :
    toShort ready &&& (toShort events ||| toShort POLLERR ||| toShort POLLHUP) =
      toShort (reported ready events) := by
  simp only [toShort, reported, BitVec.setWidth_and, BitVec.setWidth_or]

/-- In the low bits `revents > 0` is `revents != 0`. -/
theorem toInt_toShort_pos {events : Events} (h : events.toNat < 2 ^ 15) :
    0 < (toShort events).toInt ↔ events ≠ 0 := by
  have hnat : (toShort events).toNat = events.toNat := by
    simp only [toShort, BitVec.toNat_setWidth]
    omega
  have hint : (toShort events).toInt = events.toNat := by
    rw [BitVec.toInt_eq_toNat_of_lt (by omega), hnat]
  have hzero : events = 0 ↔ events.toNat = 0 := by simp [← BitVec.toNat_inj]
  rw [hint, Ne, hzero]
  omega

theorem toShort_ne_zero {events : Events} (h : events.toNat < 2 ^ 15) :
    toShort events ≠ 0 ↔ events ≠ 0 := by
  constructor
  · rintro hne rfl
    exact hne rfl
  · intro hne hzero
    have hpos := (toInt_toShort_pos h).mpr hne
    simp [hzero] at hpos

theorem revents_kernelPoll (ready : ℕ → Events) (n : ℕ) (negated : Bool) (events : Events)
    (revents : BitVec 16) :
    (kernelPoll ready ⟨pollFd negated n, toShort events, revents⟩).revents =
      if negated then 0 else toShort (reported (ready n) events) := by
  cases negated
  · simp [kernelPoll, pollFd, ← toShort_reported]
  · have hneg : ¬(0 ≤ pollFd true n) := by simp [pollFd_nonneg]
    simp [kernelPoll, hneg]

theorem fillActiveChannels_zero (fd : ChannelId → ℕ) (pollfds : List PollFd) :
    p.fillActiveChannels fd pollfds 0 = .ok [] := by
  cases pollfds with
  | nil => rfl
  | cons pfd pollfds => simp [fillActiveChannels]

theorem fillActiveChannels_mem {fd : ChannelId → ℕ} {pollfds : List PollFd} {numEvents : ℕ}
    (hpos : ∀ pfd ∈ pollfds, 0 < pfd.revents.toInt ↔ pfd.revents ≠ 0)
    (hfind : ∀ pfd ∈ pollfds, pfd.revents ≠ 0 → ∃ c, p.find pfd.fd = some c ∧ fd c = pfd.fd)
    (hcount : pollfds.countP (fun pfd => pfd.revents ≠ 0) ≤ numEvents) :
    Yields (p.fillActiveChannels fd pollfds numEvents) fun active => ∀ c revents,
      (c, revents) ∈ active ↔ ∃ pfd ∈ pollfds, pfd.revents ≠ 0 ∧ p.find pfd.fd = some c ∧
        revents = pfd.revents.signExtend 32 := by
  induction pollfds generalizing numEvents with
  | nil => exact yields_ok fun c revents => by simp
  | cons pfd pollfds ih =>
    have hpos' := fun x hx => hpos x (List.mem_cons_of_mem pfd hx)
    have hfind' := fun x hx => hfind x (List.mem_cons_of_mem pfd hx)
    by_cases hzero : pfd.revents = 0
    · have hnot : ¬0 < pfd.revents.toInt := by simp [hzero]
      rw [List.countP_cons_of_neg (by simp [hzero])] at hcount
      rw [fillActiveChannels, if_neg hnot]
      split_ifs with hn
      · apply (ih hpos' hfind' hcount).mono
        intro active hactive c revents
        simp [hactive, hzero]
      · apply yields_ok
        intro c revents
        have hcount₀ : pollfds.countP (fun pfd => pfd.revents ≠ 0) = 0 := by omega
        have hall := List.countP_eq_zero.mp hcount₀
        simp only [List.not_mem_nil, List.mem_cons, false_iff]
        rintro ⟨x, rfl | hx, hne, _⟩
        · exact hne hzero
        · exact hall x hx (by simpa using hne)
    · obtain ⟨c₀, hc₀, hfd⟩ := hfind pfd List.mem_cons_self hzero
      rw [List.countP_cons_of_pos (p := fun pfd : PollFd => pfd.revents ≠ 0)
        (decide_eq_true hzero)] at hcount
      rw [fillActiveChannels, if_pos (by omega),
        if_pos ((hpos pfd List.mem_cons_self).mpr hzero), hc₀]
      simp only [assert_pos hfd]
      have hcount' : pollfds.countP (fun pfd => pfd.revents ≠ 0) ≤ numEvents - 1 := by omega
      obtain ⟨active, hfill, hactive⟩ := ih hpos' hfind' hcount'
      refine ⟨(c₀, pfd.revents.signExtend 32) :: active, by rw [hfill]; rfl, ?_⟩
      intro c revents
      simp only [List.mem_cons, Prod.mk.injEq, hactive, exists_eq_or_imp]
      constructor
      · rintro (⟨rfl, rfl⟩ | h)
        · exact .inl ⟨hzero, hc₀, rfl⟩
        · exact .inr h
      · rintro (⟨_, hc, rfl⟩ | h)
        · rw [hc₀] at hc
          exact .inl ⟨(Option.some.inj hc).symm, rfl⟩
        · exact .inr h

/-- `poll(2)` changes `revents` only. -/
def polled (p : PollPoller) (ready : ℕ → Events) : PollPoller :=
  { p with pollfds := p.pollfds.map (kernelPoll ready) }

theorem poll_eq (fd : ChannelId → ℕ) (ready : ℕ → Events) :
    p.poll fd ready =
      let numEvents := (p.polled ready).pollfds.countP fun pfd => pfd.revents ≠ 0
      if numEvents > 0 then do
        let active ← (p.polled ready).fillActiveChannels fd (p.polled ready).pollfds numEvents
        .ok (active, p.polled ready)
      else .ok ([], p.polled ready) := rfl

theorem slot_polled {m : ℕ} {c : ChannelId} {pfd : PollFd} (ready : ℕ → Events)
    (h : p.Slot m c pfd) : (p.polled ready).Slot m c (kernelPoll ready pfd) where
  channels := h.channels
  index := h.index
  pollfd := by simp [polled, h.pollfd]
  fd := h.fd

theorem holds_polled {negated : Bool} (ready : ℕ → Events) (h : p.Holds ch negated) :
    (p.polled ready).Holds ch negated := by
  obtain ⟨revents, hs⟩ := h
  exact ⟨_, slot_polled ready hs⟩

theorem consistent_polled (ready : ℕ → Events) (hp : p.Consistent) :
    (p.polled ready).Consistent where
  slot fd c hc := by
    obtain ⟨pfd, hs⟩ := hp.slot fd c hc
    exact ⟨_, slot_polled ready hs⟩
  owner i pfd hi := by
    simp only [polled, List.getElem?_map, Option.map_eq_some_iff] at hi
    obtain ⟨pfd₀, hi, rfl⟩ := hi
    obtain ⟨fd, c, hs, hidx⟩ := hp.owner i pfd₀ hi
    exact ⟨fd, c, slot_polled ready hs, hidx⟩
  valid pfd hmem := by
    obtain ⟨pfd₀, hmem₀, rfl⟩ := List.mem_map.mp hmem
    exact hp.valid pfd₀ hmem₀

/-- Every polled `pollfd` is that of a registered channel, with nothing in `revents`
if the channel is ignored. -/
theorem Consistent.of_mem_polled {fd : ChannelId → ℕ} {ready : ℕ → Events} {pfd : PollFd}
    (hp : p.Consistent) (hfd : ∀ n c, p.channels n = some c → n = fd c)
    (hmem : pfd ∈ (p.polled ready).pollfds) :
    ∃ ch : Channel, ch.fd = fd ch.id ∧ Channel.EventsValid ch.events ∧ ∃ negated,
      p.Holds ch negated ∧ pfd.fd = pollFd negated ch.fd ∧
      pfd.revents = if negated then 0 else toShort (reported (ready ch.fd) ch.events) := by
  obtain ⟨⟨pfdFd, mask, revents⟩, hmem₀, rfl⟩ := List.mem_map.mp hmem
  obtain ⟨i, hi⟩ := List.getElem?_of_mem hmem₀
  obtain ⟨n, c, hs, _⟩ := hp.owner i _ hi
  obtain ⟨events, hev, rfl⟩ := hp.valid _ hmem₀
  obtain ⟨negated, rfl⟩ := hs.fd
  refine ⟨⟨c, 0, n, events⟩, hfd n c hs.channels, hev, negated, ⟨revents, hs⟩, rfl, ?_⟩
  exact revents_kernelPoll ready n negated events revents

/-- `poll` reports the registered channels that are not ignored. -/
theorem poll_spec {fd : ChannelId → ℕ} (hp : p.Consistent)
    (hfd : ∀ n c, p.channels n = some c → n = fd c) (ready : ℕ → Events) :
    Yields (p.poll fd ready) fun r => r.2 = p.polled ready ∧ ∀ c revents,
      (c, revents) ∈ r.1 ↔ ∃ ch : Channel, ch.id = c ∧ ch.fd = fd c ∧
        Channel.EventsValid ch.events ∧ p.Holds ch false ∧
        revents = reported (ready ch.fd) ch.events ∧ revents ≠ 0 := by
  have hpos : ∀ pfd ∈ (p.polled ready).pollfds, 0 < pfd.revents.toInt ↔ pfd.revents ≠ 0 := by
    intro pfd hmem
    obtain ⟨ch, _, hev, negated, _, _, hrev⟩ := hp.of_mem_polled hfd hmem
    have hlt := reported_toNat_lt (ready ch.fd) hev
    rw [hrev]
    cases negated
    · exact (toInt_toShort_pos hlt).trans (toShort_ne_zero hlt).symm
    · simp
  have hfind : ∀ pfd ∈ (p.polled ready).pollfds, pfd.revents ≠ 0 →
      ∃ c, (p.polled ready).find pfd.fd = some c ∧ fd c = pfd.fd := by
    intro pfd hmem hne
    obtain ⟨ch, hch, _, negated, ⟨_, hs⟩, hpfd, hrev⟩ := hp.of_mem_polled hfd hmem
    cases negated
    · refine ⟨ch.id, ?_, ?_⟩
      · simpa [hpfd, pollFd, find, polled] using hs.channels
      · simp [hpfd, pollFd, hch]
    · simp [hrev] at hne
  have hcount := le_refl ((p.polled ready).pollfds.countP fun pfd => pfd.revents ≠ 0)
  obtain ⟨active, hfill, hactive⟩ := fillActiveChannels_mem hpos hfind hcount
  have hpoll : p.poll fd ready = .ok (active, p.polled ready) := by
    rw [poll_eq]
    simp only
    split_ifs with hn
    · rw [hfill]
      rfl
    · have hnone : (p.polled ready).pollfds.countP (fun pfd => pfd.revents ≠ 0) = 0 := by omega
      rw [hnone, fillActiveChannels_zero] at hfill
      cases hfill
      rfl
  rw [hpoll]
  apply yields_ok
  refine ⟨rfl, fun c revents => ?_⟩
  rw [hactive]
  constructor
  · rintro ⟨pfd, hmem, hne, hc, rfl⟩
    obtain ⟨ch, hch, hev, negated, hs, hpfd, hrev⟩ := hp.of_mem_polled hfd hmem
    cases negated
    · have hlt := reported_toNat_lt (ready ch.fd) hev
      have hid : ch.id = c := by
        obtain ⟨_, hslot⟩ := hs
        have hfound : (p.polled ready).find pfd.fd = p.channels ch.fd := by
          simp [find, hpfd, pollFd, polled]
        rw [hfound, hslot.channels] at hc
        exact Option.some.inj hc
      simp only [Bool.false_eq_true, if_false] at hrev
      rw [hrev] at hne
      rw [hrev, signExtend_toShort hlt]
      exact ⟨ch, hid, hid ▸ hch, hev, hs, rfl, (toShort_ne_zero hlt).mp hne⟩
    · simp [hrev] at hne
  · rintro ⟨ch, rfl, hch, hev, ⟨revents₀, hs⟩, rfl, hne⟩
    have hlt := reported_toNat_lt (ready ch.fd) hev
    have hrev := revents_kernelPoll ready ch.fd false ch.events revents₀
    simp only [Bool.false_eq_true, if_false] at hrev
    refine ⟨_, List.mem_of_getElem? (slot_polled ready hs).pollfd, ?_, ?_, ?_⟩
    · rw [hrev]
      exact (toShort_ne_zero hlt).mpr hne
    · simpa [find, kernelPoll, pollFd, polled] using hs.channels
    · rw [hrev, signExtend_toShort hlt]

end PollPoller
end Muduo

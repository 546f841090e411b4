import Muduo.PollerEquivalence

/-!
# The indices of a `PollPoller`

Any number of channels with distinct descriptors `fd` on one `PollPoller`, each of them
registered with some interest, removed without any, and then left alone. `channels_` and
`pollfds_` stay in bijection through `index_`.
-/
namespace Muduo.PollIndex
open StepSystem PollerEquivalence

inductive Use
  /-- never registered -/
  | fresh
  | registered
  | removed
  deriving DecidableEq, Repr

structure State where
  /-- `Channel::events_`, by channel -/
  events : ChannelId → Events
  poller : PollPoller
  use : ChannelId → Use

inductive Event
  /-- `enableReading`, `enableWriting`, `disableWriting` or `disableAll` -/
  | update (c : ChannelId) (i : Channel.Interest)
  | remove (c : ChannelId)
  | poll (ready : ℕ → Events)

section
variable (fd : ChannelId ↪ ℕ)

def State.channel (s : State) (c : ChannelId) : Channel := channelAt fd c (s.events c)

def step (s : State) : Event → Checked State
  | .update c i => do
    let ch := (s.channel fd c).set i
    let poller ← s.poller.updateChannel ch
    return {
      events := Function.update s.events c ch.events
      poller
      use := Function.update s.use c .registered }
  | .remove c => do
    let ch := s.channel fd c
    assert (ch.isNoneEvent) .channelRemoveNoneEvent
    let poller ← s.poller.removeChannel ch
    return { s with poller, use := Function.update s.use c .removed }
  | .poll ready => do
    let (_, poller) ← s.poller.poll fd ready
    return { s with poller }

def initial : State := ⟨fun _ => kNoneEvent, .new, fun _ => .fresh⟩

def system : System State Event Assertion where
  init s := s = initial
  enabled s
    | .update c i => s.use c ≠ .removed ∧
        (s.use c = .fresh → ((s.channel fd c).set i).isNoneEvent = false)
    | .remove c => s.use c = .registered ∧ (s.channel fd c).isNoneEvent = true
    | .poll _ => True
  step := step fd

/-- `channels_` and `pollfds_` are in bijection, and each channel finds in its place its
descriptor, perhaps negated, and its events. -/
structure Indexed (s : State) : Prop where
  registered : ∀ n c, s.poller.channels n = some c ↔ n = fd c ∧ s.use c = .registered
  index : ∀ c, s.use c = .registered →
    0 ≤ s.poller.index c ∧ s.poller.index c < s.poller.pollfds.length ∧
      ∃ pfd, s.poller.pollfds[(s.poller.index c).toNat]? = some pfd ∧
        (pfd.fd = fd c ∨ pfd.fd = -fd c - 1) ∧ pfd.events.signExtend 32 = s.events c
  injective : ∀ c d, s.use c = .registered → s.use d = .registered →
    s.poller.index c = s.poller.index d → c = d
  surjective : ∀ i < s.poller.pollfds.length, ∃ c, s.use c = .registered ∧ s.poller.index c = i

/-- What a channel that is used so far finds in the poller. Without interest its place is
negated. -/
def Use.Known (p : PollPoller) (ch : Channel) : Use → Prop
  | fresh => Stage.unused.Known p ch
  | registered => ∃ negated, p.Holds ch negated ∧ (ch.isNoneEvent = true → negated = true)
  | removed => Stage.removed.Known p ch

structure Tracked (s : State) : Prop where
  consistent : s.poller.Consistent
  keys : ∀ n c, s.poller.channels n = some c → n = fd c
  valid : ∀ c, Channel.EventsValid (s.events c)
  known : ∀ c, (s.use c).Known s.poller (s.channel fd c)

end

variable {fd : ChannelId ↪ ℕ} {s : State} {p q : PollPoller} {c : ChannelId} {ch : Channel}

theorem tracked_initial : Tracked fd initial where
  consistent := (related_initial : Related fd _ _).consistent
  keys n c h := by cases h
  valid c := .inl rfl
  known c := ⟨rfl, by simp [initial, PollPoller.new]⟩

theorem Use.Known.others {use : Use} {d : Channel} (h : use.Known p d)
    (hkeys : ∀ n c, p.channels n = some c → n = fd c) (hd : d.fd = fd d.id)
    (ho : PollPoller.Others ch p q) (hid : d.id ≠ ch.id) (hfd : d.fd ≠ ch.fd) :
    use.Known q d := by
  cases use with
  | fresh =>
    have hunused : Stage.unused.Known p d := h
    exact hunused.others hkeys hd ho hid hfd
  | removed =>
    have hremoved : Stage.removed.Known p d := h
    exact hremoved.others hkeys hd ho hid hfd
  | registered =>
    obtain ⟨negated, hholds, hnone⟩ := h
    exact ⟨negated, ho.holds hfd hholds, hnone⟩

theorem Use.Known.channels {use : Use} (h : use.Known p ch) :
    p.channels ch.fd = if use = .registered then some ch.id else none := by
  cases use with
  | fresh => exact h.1
  | removed => exact h.1
  | registered =>
    obtain ⟨negated, ⟨_, hs⟩, -⟩ := h
    exact hs.channels

/-- A call for `c` that leaves the others as they are. -/
theorem Tracked.put {events : Events} {use : Use} (h : Tracked fd s)
    (hev : Channel.EventsValid events) (hq : q.Consistent)
    (ho : PollPoller.Others (channelAt fd c events) s.poller q)
    (hknown : use.Known q (channelAt fd c events)) :
    Tracked fd ⟨Function.update s.events c events, q, Function.update s.use c use⟩ where
  consistent := hq
  keys n d hd := by
    by_cases hn : n = fd c
    · have hself := hknown.channels
      rw [hn] at hd ⊢
      rw [show (channelAt fd c events).fd = fd c from rfl, hd] at hself
      split_ifs at hself
      rw [Option.some.inj hself]
      rfl
    · rw [ho.channels n hn] at hd
      exact h.keys n d hd
  valid d := by
    dsimp only
    by_cases hd : d = c
    · rw [hd, Function.update_self]
      exact hev
    · rw [Function.update_of_ne hd]
      exact h.valid d
  known d := by
    unfold State.channel
    dsimp only
    by_cases hd : d = c
    · rw [hd, Function.update_self, Function.update_self]
      exact hknown
    · rw [Function.update_of_ne hd, Function.update_of_ne hd]
      exact (h.known d).others h.keys rfl ho hd fun heq => hd (fd.injective heq)

theorem Tracked.update {i : Channel.Interest} (h : Tracked fd s)
    (he : (system fd).enabled s (.update c i)) :
    Yields (step fd s (.update c i)) (Tracked fd) := by
  obtain ⟨hremoved, hfresh⟩ := he
  have hvalid := (h.valid c).apply i
  have hknown := h.known c
  have hpoll : Yields (s.poller.updateChannel ((s.channel fd c).set i)) fun q => q.Consistent ∧
      PollPoller.Others ((s.channel fd c).set i) s.poller q ∧
      Use.registered.Known q ((s.channel fd c).set i) := by
    cases huse : s.use c with
    | removed => exact absurd huse hremoved
    | fresh =>
      rw [huse] at hknown
      obtain ⟨habsent, hindex⟩ := hknown
      have hsome := hfresh huse
      have hupdate : Yields (s.poller.updateChannel ((s.channel fd c).set i)) _ :=
        PollPoller.updateChannel_new h.consistent hindex habsent hvalid
      refine hupdate.mono ?_
      rintro q ⟨hq, ho, hholds⟩
      refine ⟨hq, ho, false, hholds, ?_⟩
      intro hnone
      rw [hsome] at hnone
      cases hnone
    | registered =>
      rw [huse] at hknown
      obtain ⟨negated, hholds, -⟩ := hknown
      have hupdate : Yields (s.poller.updateChannel ((s.channel fd c).set i)) _ :=
        PollPoller.updateChannel_held h.consistent hholds rfl rfl hvalid
      refine hupdate.mono ?_
      rintro q ⟨hq, ho, hholds⟩
      refine ⟨hq, ho, _, hholds, ?_⟩
      intro hnone
      rw [hnone, Bool.or_true]
  obtain ⟨q, hq, hcons, ho, hholds⟩ := hpoll
  unfold step
  dsimp only
  rw [hq, ok_bind]
  exact yields_ok (h.put hvalid hcons ho hholds)

theorem Tracked.remove (h : Tracked fd s) (he : (system fd).enabled s (.remove c)) :
    Yields (step fd s (.remove c)) (Tracked fd) := by
  obtain ⟨huse, hnone⟩ := he
  have hknown := h.known c
  rw [huse] at hknown
  obtain ⟨negated, hholds, hnegated⟩ := hknown
  rw [hnegated hnone] at hholds
  obtain ⟨q, hq, hcons, ho, habsent, hindex⟩ :=
    PollPoller.removeChannel_negated h.consistent hholds hnone
  have hgone : Use.removed.Known q (s.channel fd c) := ⟨habsent, hindex⟩
  have hput := h.put (h.valid c) hcons ho hgone
  rw [Function.update_eq_self] at hput
  unfold step
  dsimp only
  rw [assert_pos hnone, ok_bind, hq, ok_bind]
  exact yields_ok hput

theorem Tracked.poll {ready : ℕ → Events} (h : Tracked fd s) :
    Yields (step fd s (.poll ready)) (Tracked fd) := by
  obtain ⟨⟨active, q⟩, hq, rfl, -⟩ := PollPoller.poll_spec h.consistent h.keys ready
  unfold step
  dsimp only
  rw [hq, ok_bind]
  refine yields_ok ⟨PollPoller.consistent_polled ready h.consistent, h.keys, h.valid, ?_⟩
  intro d
  have hknown := h.known d
  unfold State.channel at hknown ⊢
  dsimp only
  cases huse : s.use d with
  | fresh | removed =>
    rw [huse] at hknown
    exact hknown
  | registered =>
    rw [huse] at hknown
    obtain ⟨negated, hholds, hnone⟩ := hknown
    exact ⟨negated, PollPoller.holds_polled ready hholds, hnone⟩

theorem totalInvariant (fd : ChannelId ↪ ℕ) : TotalInvariant (system fd) (Tracked fd) where
  init s hs := by
    rw [show s = initial from hs]
    exact tracked_initial
  step s e h he := by
    cases e with
    | update c i => exact h.update he
    | remove c => exact h.remove he
    | poll ready => exact h.poll

theorem Tracked.holds (h : Tracked fd s) (huse : s.use c = .registered) :
    ∃ negated, s.poller.Holds (s.channel fd c) negated := by
  have hknown := h.known c
  rw [huse] at hknown
  obtain ⟨negated, hholds, -⟩ := hknown
  exact ⟨negated, hholds⟩

theorem Tracked.indexed (h : Tracked fd s) : Indexed fd s where
  registered n c := by
    have hchannels := (h.known c).channels
    constructor
    · intro hn
      obtain rfl := h.keys n c hn
      refine ⟨rfl, ?_⟩
      rw [show (s.channel fd c).fd = fd c from rfl, hn] at hchannels
      split_ifs at hchannels with huse
      exact huse
    · rintro ⟨rfl, huse⟩
      rw [if_pos huse] at hchannels
      exact hchannels
  index c huse := by
    obtain ⟨negated, revents, hs⟩ := h.holds huse
    have hindex : 0 ≤ s.poller.index c := hs.index
    have hlt : (s.poller.index c).toNat < s.poller.pollfds.length := hs.lt_length
    refine ⟨hindex, by omega, _, hs.pollfd, ?_, ?_⟩
    · cases negated with
      | false => exact .inl rfl
      | true => exact .inr rfl
    · exact PollPoller.signExtend_toShort (PollPoller.toNat_lt_of_valid (h.valid c))
  injective c d hc hd heq := by
    obtain ⟨_, _, hs⟩ := h.holds hc
    obtain ⟨_, _, hs'⟩ := h.holds hd
    exact fd.injective (hs.fd_eq hs' heq)
  surjective i hi := by
    obtain ⟨n, c, hs, hindex⟩ := h.consistent.owner i _ (List.getElem?_eq_getElem hi)
    have hchannels := (h.known c).channels
    rw [show (s.channel fd c).fd = fd c from rfl, ← h.keys n c hs.channels, hs.channels]
      at hchannels
    split_ifs at hchannels with huse
    exact ⟨c, huse, hindex⟩

/-- In whatever order channels are registered, changed and removed, no assertion fails and the
indices are right. -/
theorem index_consistency (fd : ChannelId ↪ ℕ) :
    Safe (system fd) ∧ ∀ s, Reachable (system fd) s → Indexed fd s := by
  have htotal := totalInvariant fd
  exact ⟨htotal.safe, fun s hs => ((htotal.invariant _).reachable _ hs).indexed⟩

/-- The first of two channels is removed, and the second takes its place. -/
def removal : List Event :=
  [.update 0 .enableReading, .update 1 .enableReading, .update 0 .disableAll, .remove 0]

theorem index_consistency_removal :
    ∃ s, exec (system (.refl ℕ)) initial removal = .ok s ∧ s.poller.index 1 = 0 ∧
      Indexed (.refl ℕ) s := by
  refine ⟨_, rfl, rfl, (index_consistency (.refl ℕ)).2 _ ⟨initial, removal, rfl, ?_⟩⟩
  refine run_cons _ ⟨?_, ?_⟩ rfl (run_cons _ ⟨?_, ?_⟩ rfl (run_cons _ ⟨?_, ?_⟩ rfl
    (run_cons _ ⟨?_, ?_⟩ rfl (.nil _))))
  all_goals decide

end Muduo.PollIndex

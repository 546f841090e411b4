import Muduo.EPollPoller
import Muduo.Library.StepSystem

/-!
# The interest set of the kernel

The channels of an `EPollPoller`, with distinct descriptors `fd`, are updated and removed in any
order. `channels_`, the indices of the channels and the interest set of the kernel always tell
the same, and no `epoll_ctl(2)` fails.
-/
namespace Muduo

namespace EPollPoller

/-- The operation that `updateChannel` asks of the kernel. -/
def updateOp (p : EPollPoller) (ch : Channel) : EpollOp :=
  if p.index ch.id = kNew ∨ p.index ch.id = kDeleted then .add
  else if ch.isNoneEvent then .del
  else .mod

/-- The operation that `removeChannel` asks of the kernel, if any. -/
def removeOp (p : EPollPoller) (ch : Channel) : Option EpollOp :=
  if p.index ch.id = kAdded then some .del else none

/-- `EPOLL_CTL_ADD` is for a descriptor that is absent, the others for one that is present. -/
def Legal (p : EPollPoller) (ch : Channel) : EpollOp → Prop
  | .add => p.interest ch.fd = none
  | .mod | .del => p.interest ch.fd ≠ none

variable {p q : EPollPoller} {ch : Channel}

theorem epollCtl_isSome_iff {op : EpollOp} :
    (epollCtl p.interest op ch).isSome = true ↔ p.Legal ch op := by
  cases hi : p.interest ch.fd with
  | none => cases op <;> simp [epollCtl, Legal, hi]
  | some x => cases op <;> simp [epollCtl, Legal, hi]

/-- What is left of the interest set where only a failed `EPOLL_CTL_DEL` is survived. -/
theorem interest_update {op : EpollOp} (h : p.update op ch = .ok q) :
    q.interest = (epollCtl p.interest op ch).getD p.interest := by
  unfold update at h
  split at h
  · rename_i interest hctl
    obtain rfl := Except.ok.inj h
    simp [hctl]
  · rename_i hctl
    split at h
    · obtain rfl := Except.ok.inj h
      simp [hctl]
    · cases h

/-- `updateOp` is the operation of `updateChannel`. -/
theorem interest_updateChannel (h : p.updateChannel ch = .ok q) :
    q.interest = (epollCtl p.interest (p.updateOp ch) ch).getD p.interest := by
  unfold updateChannel at h
  unfold updateOp
  dsimp only at h
  split at h
  · rename_i hnew
    rw [if_pos hnew]
    split at h
    · obtain ⟨_, _, h⟩ := bind_eq_ok.mp h
      obtain ⟨p', hp', h⟩ := bind_eq_ok.mp h
      obtain rfl := Except.ok.inj hp'
      have hinterest := interest_update h
      exact hinterest
    · obtain ⟨_, _, h⟩ := bind_eq_ok.mp h
      obtain ⟨_, _, h⟩ := bind_eq_ok.mp h
      obtain ⟨p', hp', h⟩ := bind_eq_ok.mp h
      obtain rfl := Except.ok.inj hp'
      have hinterest := interest_update h
      exact hinterest
  · rename_i hadded
    rw [if_neg hadded]
    obtain ⟨_, _, h⟩ := bind_eq_ok.mp h
    obtain ⟨_, _, h⟩ := bind_eq_ok.mp h
    obtain ⟨_, _, h⟩ := bind_eq_ok.mp h
    split at h
    · rename_i hnone
      rw [if_pos hnone]
      obtain ⟨p', hp', h⟩ := bind_eq_ok.mp h
      obtain rfl := Except.ok.inj h
      have hinterest := interest_update hp'
      exact hinterest
    · rename_i hsome
      rw [if_neg hsome]
      exact interest_update h

/-- `removeOp` is the operation of `removeChannel`. -/
theorem interest_removeChannel (h : p.removeChannel ch = .ok q) :
    q.interest = match p.removeOp ch with
      | some op => (epollCtl p.interest op ch).getD p.interest
      | none => p.interest := by
  obtain ⟨_, _, h⟩ := bind_eq_ok.mp h
  obtain ⟨_, _, h⟩ := bind_eq_ok.mp h
  obtain ⟨_, _, h⟩ := bind_eq_ok.mp h
  obtain ⟨_, _, h⟩ := bind_eq_ok.mp h
  unfold removeOp
  dsimp only at h
  split at h
  · rename_i hadded
    rw [if_pos hadded]
    obtain ⟨p', hp', h⟩ := bind_eq_ok.mp h
    obtain rfl := Except.ok.inj h
    have hinterest := interest_update hp'
    exact hinterest
  · rename_i hdeleted
    rw [if_neg hdeleted]
    obtain ⟨p', hp', h⟩ := bind_eq_ok.mp h
    obtain rfl := Except.ok.inj hp'
    obtain rfl := Except.ok.inj h
    rfl

end EPollPoller

namespace EPollMirror
open StepSystem EPollPoller

structure State where
  /-- `Channel::events_`, by channel -/
  events : ChannelId → Events
  poller : EPollPoller

def initial : State := ⟨fun _ => kNoneEvent, .new⟩

inductive Event
  /-- `enableReading`, `enableWriting`, `disableWriting` or `disableAll` -/
  | update (c : ChannelId) (i : Channel.Interest)
  | remove (c : ChannelId)
  deriving DecidableEq, Repr

section
variable (fd : ChannelId ↪ ℕ)

def State.channel (s : State) (c : ChannelId) : Channel := ⟨c, 0, fd c, s.events c⟩

/-- Only a channel that is registered, and without interest, is removed. -/
def enabled (s : State) : Event → Prop
  | .update .. => True
  | .remove c => s.poller.index c ≠ kNew ∧ (s.channel fd c).isNoneEvent = true

instance (s : State) : (e : Event) → Decidable (enabled fd s e)
  | .update .. => inferInstanceAs (Decidable True)
  | .remove _ => inferInstanceAs (Decidable (_ ∧ _))

def step (s : State) : Event → Checked State
  | .update c i => do
    let ch := (s.channel fd c).set i
    let poller ← s.poller.updateChannel ch
    return ⟨Function.update s.events c ch.events, poller⟩
  | .remove c => do
    let ch := s.channel fd c
    assert (ch.isNoneEvent) .channelRemoveNoneEvent
    let poller ← s.poller.removeChannel ch
    return { s with poller }

def system : System State Event Assertion where
  init s := s = initial
  enabled := enabled fd
  step := step fd

instance (s : State) (e : Event) : Decidable ((system fd).enabled s e) :=
  inferInstanceAs (Decidable (enabled fd s e))

/-- The `epoll_ctl(2)` of an event is legal. -/
def LegalCtl (s : State) : Event → Prop
  | .update c i =>
    let ch := (s.channel fd c).set i
    s.poller.Legal ch (s.poller.updateOp ch)
  | .remove c =>
    let ch := s.channel fd c
    ∀ op ∈ s.poller.removeOp ch, s.poller.Legal ch op

/-- `channels_`, the index of `ch` and the interest set of the kernel agree on `ch`. -/
structure Mirrors (p : EPollPoller) (ch : Channel) : Prop where
  index : p.index ch.id = kNew ∨ p.index ch.id = kAdded ∨ p.index ch.id = kDeleted
  channels : p.channels ch.fd = some ch.id ↔ p.index ch.id = kAdded ∨ p.index ch.id = kDeleted
  absent : p.channels ch.fd = none ↔ p.index ch.id = kNew
  interest : p.interest ch.fd = if p.index ch.id = kAdded then some (ch.events, ch.id) else none

/-- What the poller knows of a channel. -/
structure Inv (s : State) : Prop where
  view : ∀ c, s.poller.view (s.channel fd c) = absent ∨
    s.poller.view (s.channel fd c) = added (s.channel fd c) ∨
    s.poller.view (s.channel fd c) = deleted (s.channel fd c)
  others : ∀ n, n ∉ Set.range fd → s.poller.channels n = none ∧ s.poller.interest n = none

end

variable {fd : ChannelId ↪ ℕ} {s t : State} {c : ChannelId} {v : View}

theorem mirrors_of_view {p : EPollPoller} {ch : Channel}
    (h : p.view ch = absent ∨ p.view ch = added ch ∨ p.view ch = deleted ch) : Mirrors p ch := by
  obtain h | h | h := h
  all_goals
    obtain ⟨hindex, hchannels, hinterest⟩ := View.mk.inj h
    constructor <;> simp [hindex, hchannels, hinterest, kNew, kAdded, kDeleted]

theorem inv_initial : Inv fd initial where
  view _ := .inl rfl
  others _ _ := ⟨rfl, rfl⟩

/-- The poller is told of one channel. -/
theorem Inv.put {ch : Channel} (h : Inv fd s) (hch : ch = ⟨c, 0, fd c, ch.events⟩)
    (hv : v = absent ∨ v = added ch ∨ v = deleted ch) :
    Inv fd ⟨Function.update s.events c ch.events, s.poller.put ch v⟩ where
  view d := by
    by_cases hd : d = c
    · subst hd
      have hself : State.channel fd ⟨Function.update s.events d ch.events, s.poller.put ch v⟩ d =
          ch := by
        rw [hch]
        simp [State.channel]
      rw [hself, view_put_self]
      exact hv
    · have hother : State.channel fd ⟨Function.update s.events c ch.events, s.poller.put ch v⟩ d =
          s.channel fd d := by
        simp [State.channel, hd]
      have hapart : Apart (s.channel fd d) ch := by
        rw [hch]
        exact ⟨hd, fun heq => hd (fd.injective heq)⟩
      rw [hother, view_put_apart v hapart]
      exact h.view d
  others n hn := by
    have hne : n ≠ ch.fd := by
      rw [hch]
      rintro rfl
      exact hn ⟨c, rfl⟩
    simpa [EPollPoller.put, hne] using h.others n hn

theorem Inv.update (h : Inv fd s) (c : ChannelId) (i : Channel.Interest) :
    Yields (step fd s (.update c i)) (Inv fd) := by
  have hview := h.view c
  simp only [step]
  obtain hview | hview | hview := hview
  · have hupdate : s.poller.updateChannel ((s.channel fd c).set i) = .ok (s.poller.put
        ((s.channel fd c).set i) (added ((s.channel fd c).set i))) := updateChannel_absent hview
    rw [hupdate, ok_bind]
    exact yields_ok (h.put rfl (.inr (.inl rfl)))
  · have hupdate : s.poller.updateChannel ((s.channel fd c).set i) = .ok (s.poller.put
        ((s.channel fd c).set i) (if ((s.channel fd c).set i).isNoneEvent then
          deleted ((s.channel fd c).set i) else added ((s.channel fd c).set i))) :=
      updateChannel_added hview rfl rfl
    rw [hupdate, ok_bind]
    apply yields_ok
    apply h.put rfl
    split
    · exact .inr (.inr rfl)
    · exact .inr (.inl rfl)
  · have hupdate : s.poller.updateChannel ((s.channel fd c).set i) = .ok (s.poller.put
        ((s.channel fd c).set i) (added ((s.channel fd c).set i))) := updateChannel_deleted hview
    rw [hupdate, ok_bind]
    exact yields_ok (h.put rfl (.inr (.inl rfl)))

theorem Inv.remove (h : Inv fd s) (he : enabled fd s (.remove c)) :
    Yields (step fd s (.remove c)) (Inv fd) := by
  obtain ⟨hnew, hnone⟩ := he
  have hremove : s.poller.removeChannel (s.channel fd c) =
      .ok (s.poller.put (s.channel fd c) absent) := by
    obtain hview | hview | hview := h.view c
    · exact absurd (View.mk.inj hview).1 hnew
    · exact removeChannel_added hview hnone
    · exact removeChannel_deleted hview hnone
  have hevents : Function.update s.events c (s.channel fd c).events = s.events :=
    Function.update_eq_self ..
  have hput : Inv fd ⟨Function.update s.events c (s.channel fd c).events,
      s.poller.put (s.channel fd c) absent⟩ := h.put rfl (.inl rfl)
  rw [hevents] at hput
  simp only [step, assert_pos hnone, hremove, ok_bind]
  exact yields_ok hput

theorem totalInvariant : TotalInvariant (system fd) (Inv fd) where
  init := by
    rintro s rfl
    exact inv_initial
  step s e h he := by
    cases e with
    | update c i => exact h.update c i
    | remove c => exact h.remove he

theorem Inv.legalCtl (h : Inv fd s) (e : Event) : LegalCtl fd s e := by
  cases e with
  | update c i =>
    obtain ⟨-, -, -, hinterest⟩ := mirrors_of_view (h.view c)
    obtain hindex | hindex | hindex := (mirrors_of_view (h.view c)).index
    all_goals
      rw [hindex] at hinterest
      simp only [State.channel] at hindex hinterest
      dsimp only [LegalCtl, updateOp, State.channel, Channel.set_id]
      simp only [hindex]
      split_ifs <;> simp_all [Legal, kNew, kAdded, kDeleted]
  | remove c =>
    obtain ⟨-, -, -, hinterest⟩ := mirrors_of_view (h.view c)
    intro op hop
    simp only [removeOp] at hop
    split at hop
    · rename_i hadded
      rw [if_pos hadded] at hinterest
      cases hop
      simp [Legal, hinterest]
    · cases hop

/-- `channels_` and the kernel mirror the channels, no call fails an assertion, and the
`epoll_ctl(2)` of each is legal. -/
theorem mirrors_kernel (h : Reachable (system fd) s) :
    (∀ c, Mirrors s.poller (s.channel fd c)) ∧
      (∀ n, n ∉ Set.range fd → s.poller.channels n = none ∧ s.poller.interest n = none) ∧
      ∀ e, enabled fd s e → LegalCtl fd s e ∧ ∃ t, step fd s e = .ok t := by
  have hinv : Inv fd s := (totalInvariant.invariant (system fd)).reachable (system fd) h
  refine ⟨fun c => mirrors_of_view (hinv.view c), hinv.others, ?_⟩
  intro e he
  exact ⟨hinv.legalCtl e, totalInvariant.safe (system fd) s h e he⟩

/-- Two channels: one is disabled and enabled again, the other disabled and removed. -/
def reenabled : List Event :=
  [.update 0 .enableReading, .update 1 .enableWriting, .update 0 .disableAll,
    .update 0 .enableWriting, .update 1 .disableWriting, .remove 1]

theorem reenabled_mirrors : ∃ s, Reachable (system (.refl ℕ)) s ∧
    s.poller.index 0 = kAdded ∧ s.poller.index 1 = kNew ∧
    ∀ c, Mirrors s.poller (s.channel (.refl ℕ) c) := by
  have hreplay : (replay (system (.refl ℕ)) initial reenabled).any (fun s => decide
      (s.poller.index 0 = kAdded ∧ s.poller.index 1 = kNew)) = true := by
    decide +kernel
  obtain ⟨s, hr, hs⟩ := exists_run_of_replay _ hreplay
  obtain ⟨hzero, hone⟩ := of_decide_eq_true hs
  have hreach : Reachable (system (.refl ℕ)) s := ⟨initial, reenabled, rfl, hr⟩
  exact ⟨s, hreach, hzero, hone, (mirrors_kernel hreach).1⟩

end EPollMirror
end Muduo

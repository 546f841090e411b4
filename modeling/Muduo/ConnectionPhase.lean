import Muduo.TcpServer

/-!
# The phases of a connection

A connection of a server goes through six phases. In each of them its state, its
mask and what the poller of its loop knows of it are determined; each function of
`TcpConnection` leads from one phase to the next or stays in it.
-/
namespace Muduo

inductive Phase
  /-- constructed, `connectEstablished` being due -/
  | created
  /-- established and not closed -/
  | up
  /-- in `handleClose`, before `closeCallback_` -/
  | closing
  /-- `closeCallback_` has been called -/
  | closed
  /-- erased from `connections_`, `connectDestroyed` being due -/
  | erased
  | destroyed
  deriving DecidableEq, Repr

namespace Phase
open List (replicate)

/-- The history of a connection that has received `n` messages. -/
def history (n : ℕ) : Phase → List Occurrence
  | created => []
  | up => .up :: replicate n .message
  | closing => .up :: replicate n .message ++ [.down]
  | closed => .up :: replicate n .message ++ [.down, .closeCallback]
  | erased => .up :: replicate n .message ++ [.down, .closeCallback, .erase 1]
  | destroyed => .up :: replicate n .message ++ [.down, .closeCallback, .erase 1, .destroyed]

/-- The state and the mask of the connection. -/
def Holds (c : TcpConnection) : Phase → Prop
  | created => c.state = .kConnecting ∧ c.channel.isNoneEvent = true
  | up => (c.state = .kConnected ∨ c.state = .kDisconnecting) ∧ c.Reading
  | closing | closed | erased | destroyed =>
    c.state = .kDisconnected ∧ c.channel.isNoneEvent = true

/-- What the poller knows of the channel. -/
def view (ch : Channel) : Phase → EPollPoller.View
  | created | destroyed => EPollPoller.absent
  | up => EPollPoller.added ch
  | closing | closed | erased => EPollPoller.deleted ch

/-- The phases of a closed connection whose channel has not been removed. -/
def Down (p : Phase) : Prop := p = .closing ∨ p = .closed ∨ p = .erased

/-- The phases of a connection that has been established and not erased. -/
def Listed (p : Phase) : Prop := p = up ∨ p = closing ∨ p = closed

theorem Listed.up_or_down {p : Phase} (h : p.Listed) : p = up ∨ p.Down := by
  obtain hp | hp | hp := h
  · exact .inl hp
  · exact .inr (.inl hp)
  · exact .inr (.inr (.inl hp))

theorem Listed.ne {p : Phase} (h : p.Listed) : p ≠ destroyed ∧ p ≠ erased := by
  obtain rfl | rfl | rfl := h
  · simp
  · simp
  · simp

theorem Down.ne {p : Phase} (h : p.Down) : p ≠ destroyed ∧ p ≠ up := by
  obtain rfl | rfl | rfl := h
  · simp
  · simp
  · simp

/-- The last occurrence determines the phase. -/
theorem history_injective {p q : Phase} {m n : ℕ} (h : p.history m = q.history n) : p = q := by
  have hlast := congrArg List.getLast? h
  cases p <;> cases q <;> simp [history, List.getLast?_cons, List.getLast?_replicate] at hlast ⊢ <;>
    split_ifs at hlast <;> simp_all

theorem holds_isWriting {p : Phase} {c : TcpConnection} (h : p.Holds c) (hp : p ≠ up) :
    c.channel.isWriting = false := by
  have hnone : c.channel.isNoneEvent = true := by
    cases p <;> first | exact h.2 | exact absurd rfl hp
  by_contra hw
  rw [Channel.isNoneEvent_of_isWriting (by simpa using hw)] at hnone
  cases hnone

theorem holds_state {p : Phase} {c : TcpConnection} (h : p.Holds c) (hp : p ≠ up) :
    c.state = .kConnecting ∨ c.state = .kDisconnected := by
  cases p with
  | created => exact .inl h.1
  | up => exact absurd rfl hp
  | closing | closed | erased | destroyed => exact .inr h.1

end Phase

/-- What a call of the user makes of the state of a connection. -/
def UserCall.state : UserCall → StateE → StateE
  | .send .., state => state
  | .shutdown, state => if state = .kConnected then .kDisconnecting else state

theorem UserCall.state_of_ne {state : StateE} (h : state ≠ .kConnected) (u : UserCall) :
    u.state state = state := by
  cases u with
  | send => rfl
  | shutdown => exact if_neg h

namespace TcpConnection

/-- What never changes of a connection. -/
structure SameObject (c c' : TcpConnection) : Prop where
  id : c'.id = c.id
  loop : c'.loop = c.loop
  name : c'.name = c.name
  channel : c'.channel = { c.channel with events := c'.channel.events }

theorem SameObject.refl (c : TcpConnection) : SameObject c c := ⟨rfl, rfl, rfl, rfl⟩

theorem SameObject.channel_id {c c' : TcpConnection} (h : SameObject c c') :
    c'.channel.id = c.channel.id := by
  rw [h.channel]

theorem SameObject.channel_fd {c c' : TcpConnection} (h : SameObject c c') :
    c'.channel.fd = c.channel.fd := by
  rw [h.channel]

theorem Frame.sameObject {c c' : TcpConnection} (h : Frame c c') : SameObject c c' where
  id := by rw [h.rest]
  loop := by rw [h.rest]
  name := by rw [h.rest]
  channel := h.channel

/-- The connection is in phase `p`, as seen by its loop. -/
structure Stands (p : Phase) (l : EventLoop PendingFunctor) (c : TcpConnection) : Prop where
  loop : c.loop = l.id
  ownerLoop : c.channel.ownerLoop = l.id
  holds : p.Holds c
  view : l.poller.view c.channel = p.view c.channel

/-- A function of `c` has run in the loop `l`, and `c` is in phase `p`. -/
structure Reaches (p : Phase) (l : EventLoop PendingFunctor) (c : TcpConnection)
    (l' : EventLoop PendingFunctor) (c' : TcpConnection) : Prop where
  frame : EventLoop.Frame c.channel (PendingFunctor.IsCallback c.id) l l'
  same : SameObject c c'
  stands : Stands p l' c'

variable {p : Phase} {l : EventLoop PendingFunctor} {c : TcpConnection}

theorem Reaches.refl (h : Stands p l c) : Reaches p l c l c := ⟨.refl _ _ l, .refl c, h⟩

theorem Stands.assertInLoopThread (h : Stands p l c) : l.assertInLoopThread c.loop = .ok () :=
  assert_pos h.loop _

theorem Stands.settled (h : Stands p l c) (hp : p ≠ .destroyed) : l.poller.Settled c.channel := by
  have hview := h.view
  have hholds := h.holds
  cases p with
  | created => exact .inr ⟨hholds.2, hview⟩
  | up => exact .inl (by rw [hview, EPollPoller.registered_of_interest hholds.2.isNoneEvent]; rfl)
  | closing | closed | erased =>
    exact .inl (by rw [hview, EPollPoller.registered_of_isNoneEvent hholds.2]; rfl)
  | destroyed => exact absurd rfl hp

theorem Stands.served (h : Stands p l c) (hp : p ≠ .destroyed) : Served l c :=
  ⟨h.loop, h.ownerLoop, h.settled hp⟩

/-- Work that keeps an established connection as it is leaves it established. -/
theorem Stands.reaches_of_keeps {l' : EventLoop PendingFunctor} {c' : TcpConnection}
    (h : Stands .up l c) (hk : Keeps l c l' c') : Reaches .up l c l' c' where
  frame := hk.loop
  same := hk.conn.sameObject
  stands := by
    have hreading := hk.conn.reading h.holds.2
    refine ⟨hk.served.loop, hk.served.ownerLoop, ⟨?_, hreading⟩, ?_⟩
    · obtain hs | ⟨_, hs⟩ := hk.conn.state
      · rw [hs]
        exact h.holds.1
      · exact .inr hs
    · obtain hv | ⟨hn, _⟩ := hk.served.settled
      · rw [hv, EPollPoller.registered_of_interest hreading.isNoneEvent]
        rfl
      · rw [hreading.isNoneEvent] at hn
        cases hn

/-- The change of interest with which a connection is established or closed. -/
theorem Stands.setInterest (q : Phase) (state : StateE) {i : Channel.Interest}
    (h : Stands p l c) (hp : p ≠ .destroyed)
    (hne : c.channel.isNoneEvent = false ∨ (c.channel.set i).isNoneEvent = false)
    (hholds : q.Holds { c with state, channel := c.channel.set i })
    (hview : EPollPoller.registered (c.channel.set i) = q.view (c.channel.set i)) :
    Yields ({ c with state }.setInterest l i) fun r => Reaches q l c r.1 r.2 := by
  have hserved : Served l { c with state } := ⟨h.loop, h.ownerLoop, h.settled hp⟩
  rw [setInterest_ok hserved hne]
  apply yields_ok
  refine ⟨(EventLoop.frame_put l (c.channel.set i) _).congr rfl rfl, ⟨rfl, rfl, rfl, rfl⟩, ?_⟩
  refine ⟨h.loop, h.ownerLoop, hholds, ?_⟩
  exact (EPollPoller.view_put_self _).trans hview

theorem connectEstablished_spec (h : Stands .created l c) :
    Yields (c.connectEstablished l) fun r => Reaches .up l c r.1 r.2 := by
  have hnone := (Channel.isNoneEvent_iff c.channel).mp h.holds.2
  have hreading : (c.channel.set .enableReading).events = kReadEvent := by
    simp only [Channel.set_events, Channel.Interest.apply, hnone]
    decide
  have hsome : (c.channel.set .enableReading).isNoneEvent = false := by
    rw [Channel.isNoneEvent, hreading]
    decide
  unfold connectEstablished
  rw [h.assertInLoopThread, ok_bind, assert_pos h.holds.1, ok_bind]
  apply h.setInterest .up .kConnected (by simp) (.inr hsome) ⟨.inl rfl, .inl hreading⟩
  rw [EPollPoller.registered_of_interest hsome]
  rfl

/-- `setState(kDisconnected)` and `channel_->disableAll()` -/
theorem close_spec (h : Stands .up l c) :
    Yields ({ c with state := .kDisconnected }.setInterest l .disableAll)
      fun r => Reaches .closing l c r.1 r.2 := by
  apply h.setInterest .closing .kDisconnected (by simp) (.inl h.holds.2.isNoneEvent)
    ⟨rfl, Channel.isNoneEvent_disableAll c.channel⟩
  rw [EPollPoller.registered_of_isNoneEvent (Channel.isNoneEvent_disableAll c.channel)]
  rfl

theorem handleClose_spec (h : Stands .up l c) :
    Yields (c.handleClose l) fun r => Reaches .closing l c r.1 r.2 := by
  unfold handleClose
  rw [h.assertInLoopThread, ok_bind, assert_pos h.holds.1, ok_bind]
  exact close_spec h

/-- The phase in which a `handleRead` leaves an established connection. -/
def ReadOutcome.phase : ReadOutcome → Phase
  | .message | .error => .up
  | .closed => .closing

theorem handleRead_spec (h : Stands .up l c) (r : ReadResult) :
    Yields (c.handleRead l r) fun x => Reaches x.2.2.phase l c x.1 x.2.1 := by
  unfold handleRead
  rw [h.assertInLoopThread, ok_bind]
  cases r with
  | fails errno => exact yields_ok (.refl h)
  | delivers data =>
    dsimp only
    split
    · obtain ⟨inputBuffer, hread, _⟩ := c.inputBuffer.readFd_spec data
      rw [hread, ok_bind]
      have hkeeps : Keeps l c l { c with inputBuffer } :=
        .of_same (h.served (by simp)) (.of_inputBuffer inputBuffer) rfl
      exact yields_ok (h.reaches_of_keeps hkeeps)
    · apply (handleClose_spec h).bind
      intro x hx
      exact yields_ok hx

theorem handleWrite_up (h : Stands .up l c) (w : WriteResult) :
    Yields (c.handleWrite l w) fun r => Reaches .up l c r.1 r.2 := by
  apply (handleWrite_spec (h.served (by simp)) w).mono
  intro r hr
  exact h.reaches_of_keeps hr.1

/-- A connection that is down writes no more. -/
theorem handleWrite_quiet (hl : c.loop = l.id) (hw : c.channel.isWriting = false)
    (w : WriteResult) : c.handleWrite l w = .ok (l, c) := by
  simp [handleWrite, EventLoop.assertInLoopThread, assert_pos hl, hw]

theorem userCall_up (h : Stands .up l c) (u : UserCall) :
    Yields (c.userCall l u) fun r => Reaches .up l c r.1 r.2 ∧ r.2.state = u.state c.state := by
  have hserved : Served l c := h.served (by simp)
  cases u with
  | send message w =>
    simp only [userCall, send]
    split_ifs with hs
    · have hstate : c.state ≠ .kDisconnected := by simp [hs]
      apply (sendInLoop_spec hserved hstate message w).mono
      intro r hr
      exact ⟨h.reaches_of_keeps hr.1, hr.2.1.state⟩
    · exact yields_ok ⟨.refl h, rfl⟩
  | shutdown =>
    apply (shutdown_inLoop_spec hserved).mono
    intro r hr
    exact ⟨h.reaches_of_keeps hr.1, hr.2.1.state⟩

/-- Before `connectEstablished` and after `handleClose` a connection takes no calls. -/
theorem userCall_quiet (hs : c.state ≠ .kConnected) (u : UserCall) :
    c.userCall l u = .ok (l, c) := by
  cases u <;> simp [userCall, send, shutdown, hs]

theorem Stands.deleted (h : Stands p l c) (hp : p.Down) : c.state = .kDisconnected ∧
    c.channel.isNoneEvent = true ∧ l.poller.view c.channel = EPollPoller.deleted c.channel := by
  obtain rfl | rfl | rfl := hp
  · exact ⟨h.holds.1, h.holds.2, h.view⟩
  · exact ⟨h.holds.1, h.holds.2, h.view⟩
  · exact ⟨h.holds.1, h.holds.2, h.view⟩

/-- `channel_->remove()` of a closed connection. -/
theorem removeChannel_spec (h : Stands p l c) (hp : p.Down) (hr : l.Removable c.channel.id) :
    Yields (c.removeChannel l) fun r => Reaches .destroyed l c r.1 r.2 := by
  obtain ⟨hs, hn, hview⟩ := h.deleted hp
  unfold removeChannel
  rw [l.removeChannel_eq hn h.ownerLoop hr, EPollPoller.removeChannel_deleted hview hn]
  refine yields_ok ⟨EventLoop.frame_put l c.channel _, .refl c, ?_⟩
  exact ⟨h.loop, h.ownerLoop, ⟨hs, hn⟩, EPollPoller.view_put_self _⟩

theorem connectDestroyed_of_ne (h : c.loop = l.id) (hs : c.state ≠ .kConnected) :
    c.connectDestroyed l = (do
      let (l, c) ← c.removeChannel l
      return (l, c, false)) := by
  unfold connectDestroyed EventLoop.assertInLoopThread
  rw [assert_pos h, ok_bind, if_neg hs]

/-- `connectDestroyed` removes the channel of a closed connection. -/
theorem connectDestroyed_spec (h : Stands p l c) (hp : p.Down) (hr : l.Removable c.channel.id) :
    Yields (c.connectDestroyed l) fun r => r.2.2 = false ∧ Reaches .destroyed l c r.1 r.2.1 := by
  rw [connectDestroyed_of_ne h.loop (by simp [(h.deleted hp).1])]
  apply (removeChannel_spec h hp hr).bind
  intro r hr
  exact yields_ok ⟨rfl, hr⟩

/-- `connectDestroyed` closes an established connection itself. -/
theorem connectDestroyed_connected (h : Stands .up l c) (hs : c.state = .kConnected) :
    Yields (c.connectDestroyed l) fun r => r.2.2 = true ∧ Reaches .closing l c r.1 r.2.1 := by
  unfold connectDestroyed
  rw [h.assertInLoopThread, ok_bind, if_pos hs]
  apply (close_spec h).bind
  intro r hr
  exact yields_ok ⟨rfl, hr⟩

/-- `connectDestroyed` of a connection that has been shut down and not closed. -/
theorem connectDestroyed_disconnecting (h : Stands .up l c) (hs : c.state = .kDisconnecting) :
    c.connectDestroyed l = .error .channelRemoveNoneEvent := by
  rw [connectDestroyed_of_ne h.loop (by simp [hs]), removeChannel,
    l.removeChannel_interested h.holds.2.isNoneEvent]
  rfl

end TcpConnection
end Muduo

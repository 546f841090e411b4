import Muduo.TcpConnection

/-!
# The pieces of a connection's functions

A channel leaves `channels_` by its own removal only, for the assertions of the poller keep two
channels of one descriptor apart. But for that removal, a function of a connection changes
members of the connection, changes the interest of its channel, and queues callbacks. A relation
between before and after that holds of these pieces, and of one after another, holds of the
functions.
-/
namespace Muduo

namespace EPollPoller

/-- Every channel stays in `channels_`, and the index of no channel but `x` changes. -/
structure Updates (x : ChannelId) (p q : EPollPoller) : Prop where
  channels : ∀ fd y, p.channels fd = some y → q.channels fd = some y
  index : ∀ y, y ≠ x → q.index y = p.index y

variable {x : ChannelId} {p q r : EPollPoller} {ch : Channel}

theorem Updates.refl (x : ChannelId) (p : EPollPoller) : Updates x p p :=
  ⟨fun _ _ h => h, fun _ _ => rfl⟩

theorem Updates.trans (h : Updates x p q) (g : Updates x q r) : Updates x p r where
  channels fd y hy := g.channels fd y (h.channels fd y hy)
  index y hy := (g.index y hy).trans (h.index y hy)

theorem updates_of_channels (hc : q.channels = p.channels)
    (hi : ∀ y, y ≠ x → q.index y = p.index y) : Updates x p q where
  channels fd y hy := by rwa [hc]
  index := hi

theorem update_avoids (p : EPollPoller) (op : EpollOp) (ch : Channel) :
    Avoids .removeActiveChannel (p.update op ch) fun q =>
      q.channels = p.channels ∧ q.index = p.index := by
  unfold update
  split
  · exact avoids_ok ⟨rfl, rfl⟩
  · split_ifs
    · exact avoids_ok ⟨rfl, rfl⟩
    · exact avoids_error (by simp)

/-- A channel that is updated is in `channels_`, and no other has left it. -/
theorem updateChannel_avoids (p : EPollPoller) (ch : Channel) :
    Avoids .removeActiveChannel (p.updateChannel ch) fun q => Updates ch.id p q ∧
      q.channels ch.fd = some ch.id ∧ (ch.isNoneEvent = false → q.index ch.id = kAdded) := by
  unfold updateChannel
  dsimp only
  split_ifs with hindex hnew hnone
  · apply (avoids_assert (by simp)).bind
    intro _ habsent
    rw [pure_eq_ok, ok_bind]
    refine (update_avoids _ _ _).mono ?_
    rintro q ⟨hc, hi⟩
    refine ⟨⟨?_, ?_⟩, ?_, ?_⟩
    · intro fd y hy
      have hfd : fd ≠ ch.fd := by
        rintro rfl
        rw [habsent] at hy
        cases hy
      simpa [hc, setIndex, hfd] using hy
    · intro y hy
      simp [hi, setIndex, hy]
    · simp [hc, setIndex]
    · intro _
      simp [hi, setIndex]
  · apply (avoids_assert (by simp)).bind
    intro _ _
    apply (avoids_assert (by simp)).bind
    intro _ hsame
    rw [pure_eq_ok, ok_bind]
    refine (update_avoids _ _ _).mono ?_
    rintro q ⟨hc, hi⟩
    refine ⟨updates_of_channels hc fun y hy => ?_, ?_, fun _ => ?_⟩
    · simp [hi, setIndex, hy]
    · simpa [hc, setIndex] using hsame
    · simp [hi, setIndex]
  · apply (avoids_assert (by simp)).bind
    intro _ _
    apply (avoids_assert (by simp)).bind
    intro _ hsame
    apply (avoids_assert (by simp)).bind
    intro _ _
    apply (update_avoids _ _ _).bind
    rintro q ⟨hc, hi⟩
    apply avoids_ok
    refine ⟨updates_of_channels hc fun y hy => ?_, ?_, ?_⟩
    · simp [hi, setIndex, hy]
    · simpa [hc, setIndex] using hsame
    · simp [hnone]
  · apply (avoids_assert (by simp)).bind
    intro _ _
    apply (avoids_assert (by simp)).bind
    intro _ hsame
    apply (avoids_assert (by simp)).bind
    intro _ hadded
    refine (update_avoids _ _ _).mono ?_
    rintro q ⟨hc, hi⟩
    refine ⟨updates_of_channels hc fun y _ => ?_, ?_, fun _ => ?_⟩
    · rw [hi]
    · rw [hc, hsame]
    · rw [hi, hadded]

/-- The channel `x` may have left `channels_`, but no other. -/
structure Spares (x : ChannelId) (p q : EPollPoller) : Prop where
  channels : ∀ fd y, y ≠ x → p.channels fd = some y → q.channels fd = some y
  index : ∀ y, y ≠ x → q.index y = p.index y

theorem Updates.spares (h : Updates x p q) : Spares x p q where
  channels fd y _ := h.channels fd y
  index := h.index

theorem Spares.trans (h : Spares x p q) (g : Spares x q r) : Spares x p r where
  channels fd y hy hch := g.channels fd y hy (h.channels fd y hy hch)
  index y hy := (g.index y hy).trans (h.index y hy)

theorem removeChannel_avoids (p : EPollPoller) (ch : Channel) :
    Avoids .removeActiveChannel (p.removeChannel ch) (Spares ch.id p) := by
  unfold removeChannel
  apply (avoids_assert (by simp)).bind
  intro _ _
  apply (avoids_assert (by simp)).bind
  intro _ hsame
  apply (avoids_assert (by simp)).bind
  intro _ _
  apply (avoids_assert (by simp)).bind
  intro _ _
  have hspares : ∀ q : EPollPoller, q.channels = Function.update p.channels ch.fd none →
      q.index = p.index → Spares ch.id p (q.setIndex ch kNew) := by
    intro q hc hi
    constructor
    · intro fd y hy hch
      have hfd : fd ≠ ch.fd := by
        rintro rfl
        rw [hsame] at hch
        exact hy (Option.some.inj hch).symm
      simpa [setIndex, hc, hfd] using hch
    · intro y hy
      simp [setIndex, hi, hy]
  dsimp only
  split_ifs
  · apply (update_avoids _ _ _).bind
    rintro q ⟨hc, hi⟩
    exact avoids_ok (hspares q hc hi)
  · exact avoids_ok (hspares _ rfl rfl)

end EPollPoller

namespace EventLoop
variable {F : Type} {x : ChannelId} {l l' l'' : EventLoop F}

/-- What the functions of the channel `x` do to their loop, but for its removal. -/
structure Updates (x : ChannelId) (l l' : EventLoop F) : Prop where
  rest : l' = { l with
    poller := l'.poller
    pendingFunctors := l'.pendingFunctors
    wakeupCounter := l'.wakeupCounter }
  poller : EPollPoller.Updates x l.poller l'.poller

theorem Updates.refl (x : ChannelId) (l : EventLoop F) : Updates x l l := ⟨rfl, .refl x l.poller⟩

theorem Updates.trans (h : Updates x l l') (g : Updates x l' l'') : Updates x l l'' where
  rest := by
    rw [g.rest, h.rest]
  poller := h.poller.trans g.poller

theorem updates_queueInLoop (x : ChannelId) (l : EventLoop F) (b : Bool) (cb : F) :
    Updates x l (l.queueInLoop b cb) := by
  unfold queueInLoop
  dsimp only
  split_ifs
  · exact ⟨rfl, .refl x l.poller⟩
  · exact ⟨rfl, .refl x l.poller⟩

theorem assertInLoopThread_avoids (l : EventLoop F) (owner : LoopId) :
    Avoids .removeActiveChannel (l.assertInLoopThread owner) fun _ => owner = l.id :=
  avoids_assert (by simp)

theorem updateChannel_avoids (l : EventLoop F) (ch : Channel) :
    Avoids .removeActiveChannel (l.updateChannel ch) fun l' => Updates ch.id l l' ∧
      ch.ownerLoop = l.id ∧ l'.poller.channels ch.fd = some ch.id ∧
      (ch.isNoneEvent = false → l'.poller.index ch.id = kAdded) := by
  apply (l.assertInLoopThread_avoids ch.ownerLoop).bind
  intro _ hloop
  apply (EPollPoller.updateChannel_avoids l.poller ch).bind
  rintro poller ⟨hupdates, hchannels, hindex⟩
  exact avoids_ok ⟨⟨rfl, hupdates⟩, hloop, hchannels, hindex⟩

theorem removeChannel_avoids {ch : Channel} (hr : l.Removable ch.id) :
    Avoids .removeActiveChannel (l.removeChannel ch) fun l' =>
      l' = { l with poller := l'.poller } ∧ EPollPoller.Spares ch.id l.poller l'.poller := by
  have hpoller : Avoids .removeActiveChannel
      (do return { l with poller := ← l.poller.removeChannel ch } : Checked (EventLoop F))
      fun l' => l' = { l with poller := l'.poller } ∧
        EPollPoller.Spares ch.id l.poller l'.poller := by
    apply (EPollPoller.removeChannel_avoids l.poller ch).bind
    intro poller hspares
    exact avoids_ok ⟨rfl, hspares⟩
  by_cases hn : ch.isNoneEvent = true
  · by_cases hloop : ch.ownerLoop = l.id
    · rw [removeChannel_eq l hn hloop hr]
      exact hpoller
    · unfold removeChannel assertInLoopThread
      rw [assert_pos hn, ok_bind, assert_neg hloop]
      exact avoids_error (by simp)
  · rw [removeChannel_interested l (by simpa using hn)]
    exact avoids_error (by simp)

end EventLoop

namespace TcpConnection

theorem setInterest_avoids (l : EventLoop PendingFunctor) (c : TcpConnection)
    (i : Channel.Interest) : Avoids .removeActiveChannel (c.setInterest l i) fun r =>
      l.Updates c.channel.id r.1 ∧ r.2.channel.id = c.channel.id := by
  apply (l.updateChannel_avoids (c.channel.set i)).bind
  rintro l' ⟨hupdates, _⟩
  exact avoids_ok ⟨hupdates, rfl⟩

/-- What one may ask of the work on a connection: of a change of interest, that it is kept where
the change does not stop at another assertion than that of `EventLoop::removeChannel`. -/
structure Composes (R : EventLoop PendingFunctor → TcpConnection → EventLoop PendingFunctor →
    TcpConnection → Prop) : Prop where
  trans : ∀ {l c l' c' l'' c''}, R l c l' c' → R l' c' l'' c'' → R l c l'' c''
  setInterest : ∀ l (c : TcpConnection) i,
    Avoids .removeActiveChannel (c.setInterest l i) fun r => R l c r.1 r.2
  queueInLoop : ∀ l (c : TcpConnection) b cb, cb.IsCallback c.id → R l c (l.queueInLoop b cb) c
  members : ∀ l c state socket inputBuffer outputBuffer,
    R l c l { c with state, socket, inputBuffer, outputBuffer }

namespace Composes
variable {R : EventLoop PendingFunctor → TcpConnection → EventLoop PendingFunctor →
    TcpConnection → Prop}
  {l : EventLoop PendingFunctor} {c : TcpConnection}

theorem refl (h : Composes R) (l : EventLoop PendingFunctor) (c : TcpConnection) : R l c l c :=
  h.members l c c.state c.socket c.inputBuffer c.outputBuffer

theorem queueWriteComplete (h : Composes R) : R l c (c.queueWriteComplete l) c := by
  unfold TcpConnection.queueWriteComplete
  split
  · exact h.queueInLoop l c true _ rfl
  · exact h.refl l c

theorem queueHighWaterMark (h : Composes R) (n : ℕ) : R l c (c.queueHighWaterMark l n) c := by
  unfold TcpConnection.queueHighWaterMark
  dsimp only
  split
  · exact h.queueInLoop l c true _ rfl
  · exact h.refl l c

theorem directWrite (h : Composes R) (data : List UInt8) (w : WriteResult) :
    R l c (c.directWrite l data w).loop (c.directWrite l data w).conn := by
  have hsocket (socket : Socket) : R l c l { c with socket } :=
    h.members l c c.state socket c.inputBuffer c.outputBuffer
  unfold TcpConnection.directWrite
  split
  · split
    · dsimp only
      split
      · exact h.trans (hsocket _) h.queueWriteComplete
      · exact hsocket _
    · exact hsocket _
  · exact h.refl l c

theorem queueRemaining (h : Composes R) (rest : List UInt8) :
    Avoids .removeActiveChannel (c.queueRemaining l rest) fun r => R l c r.1 r.2 := by
  obtain ⟨outputBuffer, happend, _⟩ := c.outputBuffer.append_spec rest
  have hmembers (l : EventLoop PendingFunctor) : R l c l { c with outputBuffer } :=
    h.members l c c.state c.socket c.inputBuffer outputBuffer
  have hq : R l c (c.queueHighWaterMark l rest.length) { c with outputBuffer } :=
    h.trans (h.queueHighWaterMark rest.length) (hmembers _)
  unfold TcpConnection.queueRemaining
  dsimp only
  rw [happend, ok_bind]
  split
  · exact avoids_ok hq
  · exact (h.setInterest _ _ _).mono fun r hr => h.trans hq hr

theorem sendInLoop (h : Composes R) (data : List UInt8) (w : WriteResult) :
    Avoids .removeActiveChannel (c.sendInLoop l data w) fun r => R l c r.1 r.2 := by
  unfold TcpConnection.sendInLoop
  apply (avoids_assert (by simp)).bind
  intro _ _
  split
  · exact avoids_ok (h.refl l c)
  · apply (avoids_assert (by simp)).bind
    intro _ _
    have hd : R l c (c.directWrite l data w).loop (c.directWrite l data w).conn :=
      h.directWrite data w
    split
    · exact (h.queueRemaining _).mono fun r hr => h.trans hd hr
    · exact avoids_ok hd

theorem shutdownInLoop (h : Composes R) :
    Avoids .removeActiveChannel (c.shutdownInLoop l) fun r => R l c r.1 r.2 := by
  unfold TcpConnection.shutdownInLoop
  apply (avoids_assert (by simp)).bind
  intro _ _
  split
  · exact avoids_ok (h.refl l c)
  · exact avoids_ok (h.members l c c.state c.socket.shutdownWrite c.inputBuffer c.outputBuffer)

theorem shutdown (h : Composes R) :
    Avoids .removeActiveChannel (c.shutdown l true) fun r => R l c r.1 r.2 := by
  unfold TcpConnection.shutdown
  split
  · have hstate : R l c l { c with state := .kDisconnecting } :=
      h.members l c .kDisconnecting c.socket c.inputBuffer c.outputBuffer
    exact h.shutdownInLoop.mono fun r hr => h.trans hstate hr
  · exact avoids_ok (h.refl l c)

theorem userCall (h : Composes R) (u : UserCall) :
    Avoids .removeActiveChannel (c.userCall l u) fun r => R l c r.1 r.2 := by
  cases u with
  | send message w =>
    simp only [TcpConnection.userCall, send, if_true]
    split
    · exact h.sendInLoop message w
    · exact avoids_ok (h.refl l c)
  | shutdown => exact h.shutdown

/-- A change of interest that comes with a change of state. -/
theorem setState (h : Composes R) (state : StateE) (i : Channel.Interest) :
    Avoids .removeActiveChannel ({ c with state }.setInterest l i) fun r => R l c r.1 r.2 :=
  (h.setInterest l { c with state } i).mono fun _ hr =>
    h.trans (h.members l c state c.socket c.inputBuffer c.outputBuffer) hr

theorem connectEstablished (h : Composes R) :
    Avoids .removeActiveChannel (c.connectEstablished l) fun r => R l c r.1 r.2 := by
  apply (avoids_assert (by simp)).bind
  intro _ _
  apply (avoids_assert (by simp)).bind
  intro _ _
  exact h.setState .kConnected .enableReading

theorem handleClose (h : Composes R) :
    Avoids .removeActiveChannel (c.handleClose l) fun r => R l c r.1 r.2 := by
  apply (avoids_assert (by simp)).bind
  intro _ _
  apply (avoids_assert (by simp)).bind
  intro _ _
  exact h.setState .kDisconnected .disableAll

theorem handleRead (h : Composes R) (r : ReadResult) :
    Avoids .removeActiveChannel (c.handleRead l r) fun x => R l c x.1 x.2.1 := by
  unfold TcpConnection.handleRead
  apply (avoids_assert (by simp)).bind
  intro _ _
  cases r with
  | delivers data =>
    dsimp only
    split
    · obtain ⟨inputBuffer, hread, _⟩ := c.inputBuffer.readFd_spec data
      rw [hread, ok_bind]
      exact avoids_ok (h.members l c c.state c.socket inputBuffer c.outputBuffer)
    · apply h.handleClose.bind
      intro r hr
      exact avoids_ok hr
  | fails errno => exact avoids_ok (h.refl l c)

theorem handleWrite (h : Composes R) (w : WriteResult) :
    Avoids .removeActiveChannel (c.handleWrite l w) fun r => R l c r.1 r.2 := by
  have hsocket (socket : Socket) : R l c l { c with socket } :=
    h.members l c c.state socket c.inputBuffer c.outputBuffer
  unfold TcpConnection.handleWrite
  apply (avoids_assert (by simp)).bind
  intro _ _
  split
  · split
    · rename_i n socket _
      dsimp only
      split
      · have hretrieve : Avoids .removeActiveChannel (c.outputBuffer.retrieve n) fun _ => True := by
          unfold Buffer.retrieve
          split
          · split
            · exact avoids_ok trivial
            · exact avoids_ok trivial
          · exact avoids_error (by simp)
        apply hretrieve.bind
        intro outputBuffer _
        have hboth : R l c l { c with socket, outputBuffer } :=
          h.members l c c.state socket c.inputBuffer outputBuffer
        split
        · apply (h.setInterest _ _ _).bind
          intro r hr
          have hq : R l c (r.2.queueWriteComplete r.1) r.2 :=
            h.trans (h.trans hboth hr) h.queueWriteComplete
          split
          · exact h.shutdownInLoop.mono fun _ hs => h.trans hq hs
          · exact avoids_ok hq
        · exact avoids_ok hboth
      · exact avoids_ok (hsocket socket)
    · exact avoids_ok (hsocket _)
  · exact avoids_ok (h.refl l c)

/-- Where it removes the channel, `connectDestroyed` does nothing else. -/
theorem connectDestroyed (h : Composes R)
    (hremove : Avoids .removeActiveChannel (c.removeChannel l) fun r => R l c r.1 r.2) :
    Avoids .removeActiveChannel (c.connectDestroyed l) fun r => R l c r.1 r.2.1 := by
  unfold TcpConnection.connectDestroyed
  apply (avoids_assert (by simp)).bind
  intro _ _
  split
  · apply (h.setState .kDisconnected .disableAll).bind
    intro r hr
    exact avoids_ok hr
  · apply hremove.bind
    intro r hr
    exact avoids_ok hr

end Composes
end TcpConnection
end Muduo

import Muduo.ConnectionWork
import Muduo.DestroyedClient

/-!
# Channels that are removed while they are active

A handler may remove a channel other than its own: `TcpClient::stop()` and `~TcpClient` remove
that of a connector that is connecting. `EventLoop::removeChannel` asserts that this channel is
not waiting in `activeChannels_`.
-/
namespace Muduo
open StepSystem
open Connector (States kMaxRetryDelayMs kInitRetryDelayMs)

namespace EPollPoller

/-- The interest of a channel that the poller knows can always be taken away. -/
theorem updateChannel_disabled {p : EPollPoller} {ch : Channel} (hindex : p.index ch.id = kAdded)
    (hchannels : p.channels ch.fd = some ch.id) (hn : ch.isNoneEvent = true) :
    ∃ q, p.updateChannel ch = .ok q := by
  have hdel : ∃ q, p.update .del ch = .ok q := by
    unfold update
    split
    · exact ⟨_, rfl⟩
    · exact ⟨p, if_pos rfl⟩
  obtain ⟨q, hq⟩ := hdel
  refine ⟨q.setIndex ch kDeleted, ?_⟩
  simp [updateChannel, hindex, hchannels, hn, hq, assert, kAdded, kNew, kDeleted]

end EPollPoller

namespace TcpConnection
variable {l l' l'' : EventLoop PendingFunctor} {c c' c'' : TcpConnection}

/-- What the functions of a connection do; they remove a channel only where no events are
handled. -/
structure Touches (l : EventLoop PendingFunctor) (c : TcpConnection)
    (l' : EventLoop PendingFunctor) (c' : TcpConnection) : Prop where
  rest : l' = { l with
    poller := l'.poller
    pendingFunctors := l'.pendingFunctors
    wakeupCounter := l'.wakeupCounter }
  spares : EPollPoller.Spares c.channel.id l.poller l'.poller
  channels : l.eventHandling = true → ∀ fd y, l.poller.channels fd = some y →
    l'.poller.channels fd = some y
  channel : c'.channel.id = c.channel.id

theorem touches_of_updates (h : l.Updates c.channel.id l') (hch : c'.channel.id = c.channel.id) :
    Touches l c l' c' :=
  ⟨h.rest, h.poller.spares, fun _ => h.poller.channels, hch⟩

theorem Touches.trans (h : Touches l c l' c') (g : Touches l' c' l'' c'') :
    Touches l c l'' c'' where
  rest := by
    rw [g.rest, h.rest]
  spares := h.spares.trans (h.channel ▸ g.spares)
  channels he fd y hy := by
    have he' : l'.eventHandling = true := by
      rw [h.rest]
      exact he
    exact g.channels he' fd y (h.channels he fd y hy)
  channel := g.channel.trans h.channel

theorem Touches.position (h : Touches l c l' c') : l'.position = l.position := by rw [h.rest]

theorem touches : Composes Touches where
  trans := Touches.trans
  setInterest l c i := (setInterest_avoids l c i).mono fun _ hr => touches_of_updates hr.1 hr.2
  queueInLoop l _ b cb _ := touches_of_updates (EventLoop.updates_queueInLoop _ l b cb) rfl
  members l _ _ _ _ _ := touches_of_updates (.refl _ l) rfl

theorem touches_removeChannel (h : l.eventHandling = false) :
    Avoids .removeActiveChannel (c.removeChannel l) fun r => Touches l c r.1 r.2 := by
  have hr : l.Removable c.channel.id := by simp [EventLoop.Removable, h]
  unfold removeChannel
  apply (EventLoop.removeChannel_avoids hr).bind
  rintro l' ⟨hl', hspares⟩
  apply avoids_ok
  refine ⟨?_, hspares, ?_, rfl⟩
  · rw [hl']
  · simp [h]

end TcpConnection

namespace TcpClient
open EPollPoller (Spares)
open TcpConnection (touches)

/-- The step removes no channel that is active and waits, and a handler that it begins is that of
a channel in the poller. -/
structure HandlesRegistered (w : World) (e : Event) : Prop where
  removes : step w e ≠ .error .removeActiveChannel
  handles : ∀ s, e = .visit s → ∀ x ∈ w.loop.unvisited.head?,
    ∃ fd, w.loop.poller.channels fd = some x

/-- The channel of `k`, where it is connecting, is the current one or not active. -/
def MayRemove (w : World) (k : ClientId) : Prop :=
  ∀ connector ∈ w.connectors k, connector.state = .kConnecting →
    ∀ ch ∈ connector.channel, w.loop.Removable ch.id

instance (w : World) (k : ClientId) : Decidable (MayRemove w k) :=
  inferInstanceAs (Decidable (∀ connector ∈ w.connectors k, _ → ∀ ch ∈ connector.channel, _))

/-- What is asked of a call that stops the connector of a client. -/
def SparesActive (w : World) : Event → Prop
  | .stop k => MayRemove w k
  | .destroy k => ∀ client ∈ w.clients k, client.connection = none → MayRemove w k
  | .poll _ | .visit _ | .test _ _ | .endEvent | .userReturn | .due _ | .timer _ _ | .deleteTimer
  | .endHandling | .swap | .execute | .resetChannel | .endFunctors | .newClient _ _ | .connect _ _
  | .disconnect _ | .enableRetry _ | .userCall _ _ | .keep _ | .drop _ => True

instance decidableSparesActive (w : World) : (e : Event) → Decidable (SparesActive w e)
  | .stop k => inferInstanceAs (Decidable (MayRemove w k))
  | .destroy k => inferInstanceAs (Decidable (∀ client ∈ w.clients k, _ → _))
  | .poll _ | .visit _ | .test _ _ | .endEvent | .userReturn | .due _ | .timer _ _ | .deleteTimer
  | .endHandling | .swap | .execute | .resetChannel | .endFunctors | .newClient _ _ | .connect _ _
  | .disconnect _ | .enableRetry _ | .userCall _ _ | .keep _ | .drop _ =>
    inferInstanceAs (Decidable True)

/-- The channel of a connector is in the poller. -/
structure InPoller (w : World) (k : ClientId) (ch : Channel) : Prop where
  ownerLoop : ch.ownerLoop = w.loop.id
  made : w.made ch.id = some (.connector k, ch.fd)
  index : w.loop.poller.index ch.id = kAdded
  channels : w.loop.poller.channels ch.fd = some ch.id

/-- The active channels that wait for their handlers. -/
structure Waiting (l : EventLoop PendingFunctor) : Prop where
  nodup : l.unvisited.Nodup
  eventHandling : l.eventHandling = true
  active : ∀ x ∈ l.unvisited, x ∈ l.activeChannels ∧ l.currentActiveChannel ≠ some x ∧
    ∃ fd, l.poller.channels fd = some x

/-- Where the thread stands, and which channels wait. -/
structure Thread (w : World) : Prop where
  waiting : w.loop.position = .handling → Waiting w.loop
  current : w.loop.position ≠ .handling → w.loop.currentActiveChannel = none
  functors : w.loop.position = .swapping ∨ w.loop.position = .functors →
    w.loop.eventHandling = false
  due : ∀ c, w.due = some (.removeChannel c) → w.loop.position = .functors

/-- The connectors that are connecting, and those whose channel is to be reset. -/
structure Connectors (w : World) : Prop where
  connecting : ∀ k connector, w.connectors k = some connector → connector.state = .kConnecting →
    ∃ ch, connector.channel = some ch ∧ InPoller w k ch
  resets : ∀ k ∈ w.resets, k < w.nextClient ∧ ∀ connector, w.connectors k = some connector →
    connector.state ≠ .kConnecting ∧ connector.channel ≠ none
  nodup : w.resets.Nodup
  fresh : ∀ k, w.nextClient ≤ k → w.connectors k = none

structure Attached (w : World) : Prop where
  conns : ∀ c conn, w.conns c = some conn →
    conn.channel.id = c ∧ ∃ fd, w.made c = some (.connection, fd)
  connectors : Connectors w
  thread : Thread w

/-- The members of a loop that its handlers leave alone. -/
def stance (l : EventLoop PendingFunctor) :=
  (l.id, l.eventHandling, l.activeChannels, l.currentActiveChannel, l.position, l.unvisited)

variable {w w' : World} {k : ClientId} {c : ConnId} {conn conn' : TcpConnection} {x : ChannelId}
  {connector connector' : Connector} {ch : Channel} {l l' : EventLoop PendingFunctor}

theorem stance_of_rest (h : l' = { l with
    poller := l'.poller
    pendingFunctors := l'.pendingFunctors
    wakeupCounter := l'.wakeupCounter }) : stance l' = stance l := by
  rw [h]
  rfl

theorem removable_of_stance (h : stance l' = stance l) : l'.Removable x ↔ l.Removable x := by
  simp only [stance, Prod.mk.injEq] at h
  obtain ⟨-, hhandling, hactive, hcurrent, -⟩ := h
  rw [EventLoop.Removable, hhandling, hactive, hcurrent, EventLoop.Removable]

theorem Connectors.lt_nextClient (h : Connectors w) (hk : w.connectors k = some connector) :
    k < w.nextClient := by
  by_contra hge
  rw [h.fresh k (not_lt.mp hge)] at hk
  cases hk

/-- Only the connector `k` has changed. -/
structure Replaces (w w' : World) (k : ClientId) : Prop where
  others : ∀ j, j ≠ k → w'.connectors j = w.connectors j
  inPoller : ∀ j ch, j ≠ k → InPoller w j ch → InPoller w' j ch
  resets : ∀ j ∈ w'.resets, j = k ∨ j ∈ w.resets
  nextClient : w.nextClient ≤ w'.nextClient

theorem Connectors.replace (h : Connectors w) (r : Replaces w w' k) (hlt : k < w'.nextClient)
    (hnodup : w'.resets.Nodup)
    (hconnecting : ∀ connector, w'.connectors k = some connector →
      connector.state = .kConnecting → ∃ ch, connector.channel = some ch ∧ InPoller w' k ch)
    (hreset : k ∈ w'.resets → ∀ connector, w'.connectors k = some connector →
      connector.state ≠ .kConnecting ∧ connector.channel ≠ none) : Connectors w' where
  connecting j connector hj hs := by
    by_cases hjk : j = k
    · subst hjk
      exact hconnecting connector hj hs
    · rw [r.others j hjk] at hj
      obtain ⟨ch, hch, hin⟩ := h.connecting j connector hj hs
      exact ⟨ch, hch, r.inPoller j ch hjk hin⟩
  resets j hj := by
    by_cases hjk : j = k
    · subst hjk
      exact ⟨hlt, hreset hj⟩
    · obtain ⟨hjlt, hjreset⟩ := h.resets j ((r.resets j hj).resolve_left hjk)
      rw [r.others j hjk]
      exact ⟨hjlt.trans_le r.nextClient, hjreset⟩
  nodup := hnodup
  fresh j hj := by
    have hjk : j ≠ k := (hlt.trans_le hj).ne'
    rw [r.others j hjk]
    exact h.fresh j (r.nextClient.trans hj)

theorem setConnector_others (w : World) (k : ClientId) (connector : Connector) :
    ∀ j, j ≠ k → (w.setConnector k connector).connectors j = w.connectors j := by
  intro j hjk
  simp [World.setConnector, hjk]

theorem setConnector_found (w : World) (k : ClientId) (connector : Connector) :
    (w.setConnector k connector).connectors k = some connector := by
  simp [World.setConnector]

/-- The loop has lost no channel that waits. -/
theorem Waiting.transport (h : Waiting l) (hs : stance l' = stance l)
    (hchannels : ∀ fd, ∀ x ∈ l.unvisited, l.poller.channels fd = some x →
      l'.poller.channels fd = some x) : Waiting l' := by
  simp only [stance, Prod.mk.injEq] at hs
  obtain ⟨-, hhandling, hactive, hcurrent, -, hunvisited⟩ := hs
  refine ⟨hunvisited ▸ h.nodup, hhandling.trans h.eventHandling, fun x hx => ?_⟩
  rw [hunvisited] at hx
  obtain ⟨hmem, hne, fd, hfd⟩ := h.active x hx
  exact ⟨hactive ▸ hmem, hcurrent ▸ hne, fd, hchannels fd x hx hfd⟩

theorem Thread.transport (h : Thread w) (hs : stance w'.loop = stance w.loop)
    (hchannels : w.loop.position = .handling → ∀ fd, ∀ x ∈ w.loop.unvisited,
      w.loop.poller.channels fd = some x → w'.loop.poller.channels fd = some x)
    (hdue : ∀ c, w'.due = some (.removeChannel c) → w.loop.position = .functors) : Thread w' := by
  have hposition : w'.loop.position = w.loop.position := by
    simp only [stance, Prod.mk.injEq] at hs
    exact hs.2.2.2.2.1
  have hcurrent : w'.loop.currentActiveChannel = w.loop.currentActiveChannel := by
    simp only [stance, Prod.mk.injEq] at hs
    exact hs.2.2.2.1
  have hhandling : w'.loop.eventHandling = w.loop.eventHandling := by
    simp only [stance, Prod.mk.injEq] at hs
    exact hs.2.1
  exact
    { waiting := fun hp => by
        rw [hposition] at hp
        exact (h.waiting hp).transport hs (hchannels hp)
      current := by
        rw [hposition, hcurrent]
        exact h.current
      functors := by
        rw [hposition, hhandling]
        exact h.functors
      due := fun c hc => hposition.trans (hdue c hc) }

theorem InPoller.transport (h : InPoller w k ch) (hid : w'.loop.id = w.loop.id)
    (hmade : w'.made ch.id = w.made ch.id) (hs : Spares x w.loop.poller w'.loop.poller)
    (hne : ch.id ≠ x) : InPoller w' k ch where
  ownerLoop := h.ownerLoop.trans hid.symm
  made := hmade.trans h.made
  index := (hs.index ch.id hne).trans h.index
  channels := hs.channels ch.fd ch.id hne h.channels

/-- No channel has come or gone, and no object has come. -/
structure Keeps (w w' : World) : Prop where
  id : w'.loop.id = w.loop.id
  channels : w'.loop.poller.channels = w.loop.poller.channels
  index : w'.loop.poller.index = w.loop.poller.index
  conns : ∀ c conn, w'.conns c = some conn → w.conns c = some conn
  connectors : ∀ k connector, w'.connectors k = some connector → w.connectors k = some connector
  made : w'.made = w.made
  resets : w'.resets = w.resets
  nextClient : w'.nextClient = w.nextClient

theorem Attached.keeps (h : Attached w) (q : Keeps w w') (thread : Thread w') : Attached w' where
  conns c conn hc := by
    rw [q.made]
    exact h.conns c conn (q.conns c conn hc)
  connectors :=
    { connecting := fun k connector hk hs => by
        obtain ⟨ch, hch, hin⟩ :=
          h.connectors.connecting k connector (q.connectors k connector hk) hs
        refine ⟨ch, hch, hin.ownerLoop.trans q.id.symm, ?_, ?_, ?_⟩
        · rw [q.made]
          exact hin.made
        · rw [q.index]
          exact hin.index
        · rw [q.channels]
          exact hin.channels
      resets := fun k hk => by
        rw [q.resets] at hk
        rw [q.nextClient]
        obtain ⟨hlt, hreset⟩ := h.connectors.resets k hk
        exact ⟨hlt, fun connector hc => hreset connector (q.connectors k connector hc)⟩
      nodup := q.resets ▸ h.connectors.nodup
      fresh := fun k hk => by
        rw [q.nextClient] at hk
        by_contra hne
        obtain ⟨connector, hc⟩ := Option.ne_none_iff_exists'.mp hne
        have hnone := h.connectors.fresh k hk
        rw [q.connectors k connector hc] at hnone
        cases hnone }
  thread := thread

/-- Nor has the thread moved. -/
structure Quiet (w w' : World) : Prop extends Keeps w w' where
  stance : stance w'.loop = stance w.loop
  due : ∀ c, w'.due = some (.removeChannel c) →
    w.due = some (.removeChannel c) ∨ w.loop.position = .functors

theorem Attached.quiet (h : Attached w) (q : Quiet w w') : Attached w' := by
  refine h.keeps q.toKeeps (h.thread.transport q.stance ?_ ?_)
  · intro _ fd x _ hx
    rwa [q.channels]
  · intro c hc
    exact (q.due c hc).elim (h.thread.due c) id

/-- A function of the connection `c` has run. -/
theorem Attached.put (h : Attached w) (hconn : w.conns c = some conn)
    (ht : conn.Touches w.loop l' conn') : Attached (w.put l' c conn') := by
  obtain ⟨hid, fd, hmade⟩ := h.conns c conn hconn
  have hs : stance l' = stance w.loop := stance_of_rest ht.rest
  have hloop : l'.id = w.loop.id := congrArg Prod.fst hs
  exact
    { conns := fun d conn hd => by
        by_cases hdc : d = c
        · subst hdc
          obtain rfl : conn' = conn := by simpa [World.put] using hd
          exact ⟨ht.channel.trans hid, fd, hmade⟩
        · exact h.conns d conn (by simpa [World.put, hdc] using hd)
      connectors :=
        { h.connectors with
          connecting := fun k connector hk hs => by
            obtain ⟨ch, hch, hin⟩ := h.connectors.connecting k connector hk hs
            refine ⟨ch, hch, hin.transport hloop rfl ht.spares ?_⟩
            rintro heq
            have hchannel := hin.made
            rw [heq, hid, hmade] at hchannel
            cases hchannel }
      thread := h.thread.transport hs
        (fun hp fd x _ hx => ht.channels (h.thread.waiting hp).eventHandling fd x hx)
        h.thread.due }

theorem Attached.setConnector (h : Attached w) (hk : w.connectors k = some connector)
    (hs : connector'.state = .kConnecting → connector.state = .kConnecting)
    (hch : connector'.channel = connector.channel) : Attached (w.setConnector k connector') where
  conns := h.conns
  connectors := by
    have hreplaces : Replaces w (w.setConnector k connector') k :=
      ⟨setConnector_others w k connector',
        fun _ _ _ hin => ⟨hin.ownerLoop, hin.made, hin.index, hin.channels⟩, fun _ => .inr, le_rfl⟩
    refine h.connectors.replace hreplaces (h.connectors.lt_nextClient hk) h.connectors.nodup ?_ ?_
    · intro con hcon hconnecting
      obtain rfl := Option.some.inj ((setConnector_found w k connector').symm.trans hcon)
      obtain ⟨ch, hchannel, hin⟩ := h.connectors.connecting k connector hk (hs hconnecting)
      exact ⟨ch, hch.trans hchannel, hin.ownerLoop, hin.made, hin.index, hin.channels⟩
    · intro hmem con hcon
      obtain rfl := Option.some.inj ((setConnector_found w k connector').symm.trans hcon)
      obtain ⟨hne, hsome⟩ := (h.connectors.resets k hmem).2 connector hk
      exact ⟨fun hconnecting => hne (hs hconnecting), hch ▸ hsome⟩
  thread := h.thread.transport rfl (fun _ _ _ _ hx => hx) h.thread.due

/-! ### Objects that go -/

/-- The members that nothing here depends on. -/
theorem keeps_members (w : World) (clients : ClientId → Option TcpClient)
    (closeCallbacks : ConnId → CloseCallback) (fds : ℕ → Option ChannelId)
    (timers expired : List Timer) (kept : List ConnId) (ran : List PendingFunctor)
    (revents : ChannelId → Events) (tests : Option (ConnId × Option Test)) (inCallback : Bool)
    (due : Option Due) : Keeps w { w with
      clients, closeCallbacks, fds, timers, expired, kept, ran, revents, tests, inCallback, due } :=
  ⟨rfl, rfl, rfl, fun _ _ h => h, fun _ _ h => h, rfl, rfl, rfl⟩

theorem quiet_close (w : World) (sockfd : ℕ) : Quiet w (w.close sockfd) :=
  ⟨⟨rfl, rfl, rfl, fun _ _ h => h, fun _ _ h => h, rfl, rfl, rfl⟩, rfl, fun _ h => .inl h⟩

theorem quiet_release (w : World) (c : ConnId) : Quiet w (w.release c) := by
  have hsame : Quiet w w := ⟨keeps_members w .., rfl, fun _ h => .inl h⟩
  unfold World.release World.destroy
  split
  · exact hsame
  · split
    · refine ⟨⟨rfl, rfl, rfl, ?_, fun _ _ h => h, rfl, rfl, rfl⟩, rfl, fun _ h => .inl h⟩
      intro d conn hd
      by_cases hdc : d = c
      · simp [World.close, hdc] at hd
      · simpa [World.close, hdc] using hd
    · exact hsame

theorem quiet_queueInLoop (w : World) (cb : PendingFunctor) :
    Quiet w { w with loop := w.loop.queueInLoop true cb } := by
  have hpoller : (w.loop.queueInLoop true cb).poller = w.loop.poller :=
    TcpConnection.queueInLoop_poller true cb
  have hs : stance (w.loop.queueInLoop true cb) = stance w.loop :=
    stance_of_rest (EventLoop.updates_queueInLoop 0 w.loop true cb).rest
  exact ⟨⟨congrArg Prod.fst hs, congrArg EPollPoller.channels hpoller,
    congrArg EPollPoller.index hpoller, fun _ _ h => h, fun _ _ h => h, rfl, rfl, rfl⟩, hs,
    fun _ h => .inl h⟩

theorem attached_releaseConnector (h : Attached w) (k : ClientId) :
    Avoids .removeActiveChannel (w.releaseConnector k) Attached := by
  unfold World.releaseConnector
  split
  · exact avoids_ok h
  · apply (connector_avoids (by simp) w k).bind
    intro connector _
    apply (avoids_assert (by simp)).bind
    intro _ _
    apply avoids_ok
    apply h.quiet
    refine ⟨⟨rfl, rfl, rfl, fun _ _ h => h, ?_, rfl, rfl, rfl⟩, rfl, fun _ h => .inl h⟩
    intro j con hj
    by_cases hjk : j = k
    · simp [hjk] at hj
    · simpa [hjk] using hj

/-! ### The steps of a connector -/

/-- Between the removal of the channel of `k` and the end of its handler. -/
structure Detached (w : World) (k : ClientId) : Prop where
  attached : ∀ connector connector', w.connectors k = some connector →
    connector'.state ≠ .kConnecting → connector'.channel = connector.channel →
      Attached (w.setConnector k connector')

/-- What is left when the attempt of `k` has failed. -/
structure GaveUp (w : World) (k : ClientId) (w' : World) : Prop where
  attached : Attached w'
  made : w'.made = w.made
  state : ∀ connector, w'.connectors k = some connector → connector.state ≠ .kConnecting

theorem gaveUp_retry (h : Detached w k) (sockfd : ℕ) :
    Avoids .removeActiveChannel (w.retry k sockfd) (GaveUp w k) := by
  unfold World.retry
  dsimp only
  apply (connector_avoids (by simp) _ k).bind
  intro connector hk
  have hgaveUp (con : Connector) (hs : con.state = .kDisconnected)
      (hch : con.channel = connector.channel) :
      GaveUp w k ((w.close sockfd).setConnector k con) := by
    have hset := h.attached connector con hk (by simp [hs]) hch
    refine ⟨hset.quiet (quiet_close (w.setConnector k con) sockfd), rfl, fun con' hcon' => ?_⟩
    obtain rfl : con = con' := by simpa [World.setConnector] using hcon'
    simp [hs]
  split
  · have hr := hgaveUp { connector with
      state := .kDisconnected
      retryDelayMs := min (connector.retryDelayMs * 2) kMaxRetryDelayMs } rfl rfl
    apply avoids_ok
    exact ⟨hr.attached.quiet ⟨keeps_members _ .., rfl, fun _ h => .inl h⟩, hr.made, hr.state⟩
  · exact avoids_ok (hgaveUp { connector with state := .kDisconnected } rfl rfl)

/-- Any connector but a connecting one may be changed. -/
theorem Attached.detached (h : Attached w) (k : ClientId) : Detached w k where
  attached _ _ hk hs hch := h.setConnector hk (fun hc => absurd hc hs) hch

theorem attached_connecting (h : Attached w) {a : Attempt} (ha : w.made a.id = none)
    (k : ClientId) : Avoids .removeActiveChannel (w.connecting k a) Attached := by
  unfold World.connecting
  apply (connector_avoids (by simp) w k).bind
  intro connector hk
  apply (avoids_assert (by simp)).bind
  intro _ hnone
  dsimp only
  apply (w.loop.updateChannel_avoids _).bind
  rintro loop ⟨hupdates, hown, hchannels, hindex⟩
  apply avoids_ok
  have hs : stance loop = stance w.loop := stance_of_rest hupdates.rest
  have hid : loop.id = w.loop.id := congrArg Prod.fst hs
  have hinterest : ((Channel.new a.id w.loop.id a.sockfd).set .enableWriting).isNoneEvent = false :=
    Channel.isNoneEvent_of_isWriting (Channel.isWriting_enableWriting _)
  have hmade (x : ChannelId) (o : Owner × ℕ) (hx : w.made x = some o) :
      x ≠ a.id ∧ Function.update w.made a.id (some (.connector k, a.sockfd)) x = w.made x := by
    have hne : x ≠ a.id := by
      rintro rfl
      rw [ha] at hx
      cases hx
    exact ⟨hne, by simp [hne]⟩
  exact
    { conns := fun c conn hc => by
        obtain ⟨hcid, fd, hx⟩ := h.conns c conn hc
        exact ⟨hcid, fd, (hmade c _ hx).2.trans hx⟩
      connectors := by
        refine h.connectors.replace
          ⟨setConnector_others w k _, fun j ch _ hin => ?_, fun _ => .inr, le_rfl⟩
          (h.connectors.lt_nextClient hk) h.connectors.nodup ?_ ?_
        · obtain ⟨hne, hsame⟩ := hmade ch.id _ hin.made
          exact hin.transport hid hsame hupdates.poller.spares hne
        · intro con hcon _
          obtain rfl := Option.some.inj ((setConnector_found w k _).symm.trans hcon)
          refine ⟨_, rfl, hown.trans hid.symm, ?_, hindex hinterest, hchannels⟩
          simp [Channel.new]
        · intro hmem
          exact absurd hnone ((h.connectors.resets k hmem).2 connector hk).2
      thread := h.thread.transport hs (fun _ fd x _ hx => hupdates.poller.channels fd x hx)
        h.thread.due }

theorem attached_startInLoop (h : Attached w) {a : Attempt} (ha : w.made a.id = none)
    (k : ClientId) : Avoids .removeActiveChannel (w.startInLoop k a) Attached := by
  unfold World.startInLoop
  apply (connector_avoids (by simp) w k).bind
  intro connector _
  apply (avoids_assert (by simp)).bind
  intro _ _
  split
  · unfold World.connectSocket
    split
    · exact attached_connecting h ha k
    · exact (gaveUp_retry (h.detached k) a.sockfd).mono fun _ hw => hw.attached
    · exact avoids_ok (h.quiet (quiet_close w a.sockfd))
  · exact avoids_ok h

theorem attached_start (h : Attached w) {a : Attempt} (ha : w.made a.id = none) (k : ClientId) :
    Avoids .removeActiveChannel (w.start k a) Attached := by
  unfold World.start
  apply (connector_avoids (by simp) w k).bind
  intro connector hk
  have hset : Attached (w.setConnector k { connector with connect := true }) :=
    h.setConnector hk id rfl
  exact attached_startInLoop hset ha k

theorem attached_restart (h : Attached w) {a : Attempt} (ha : w.made a.id = none) (k : ClientId) :
    Avoids .removeActiveChannel (w.restart k a) Attached := by
  unfold World.restart
  apply (connector_avoids (by simp) w k).bind
  intro connector hk
  have hset : Attached (w.setConnector k { connector with
      state := .kDisconnected
      retryDelayMs := kInitRetryDelayMs
      connect := true }) := by
    refine h.setConnector hk (fun hs => ?_) rfl
    cases hs
  exact attached_startInLoop hset ha k

/-- The connector `k` is connecting, or is about to give up its channel. -/
structure Gives (w : World) (k : ClientId) (connector : Connector) (ch : Channel) : Prop where
  found : w.connectors k = some connector
  channel : connector.channel = some ch
  inPoller : InPoller w k ch
  resets : k ∉ w.resets
  detached : Detached w k

theorem Attached.gives (h : Attached w) (hk : w.connectors k = some connector)
    (hs : connector.state = .kConnecting) : ∃ ch, Gives w k connector ch := by
  obtain ⟨ch, hch, hin⟩ := h.connectors.connecting k connector hk hs
  refine ⟨ch, hk, hch, hin, fun hmem => ?_, h.detached k⟩
  exact ((h.connectors.resets k hmem).2 connector hk).1 hs

/-- `setState(kDisconnected)`, the first line of `stopInLoop`, is no step of its own. -/
theorem Gives.setState (h : Gives w k connector ch) (state : States) :
    Gives (w.setConnector k { connector with state }) k { connector with state } ch where
  found := by simp [World.setConnector]
  channel := h.channel
  inPoller := ⟨h.inPoller.ownerLoop, h.inPoller.made, h.inPoller.index, h.inPoller.channels⟩
  resets := h.resets
  detached := by
    refine ⟨fun con con' hk hs hch => ?_⟩
    obtain rfl : { connector with state } = con := by simpa [World.setConnector] using hk
    have hset := h.detached.attached connector con' h.found hs hch
    have heq : (w.setConnector k { connector with state }).setConnector k con' =
        w.setConnector k con' := by simp [World.setConnector]
    rw [heq]
    exact hset

/-- A channel that waits is not the one that is removed. -/
theorem Waiting.ne_of_removable (h : Waiting l) (hr : l.Removable x) :
    ∀ y ∈ l.unvisited, y ≠ x := by
  rintro y hy rfl
  obtain ⟨hmem, hne, -⟩ := h.active y hy
  exact (hr h.eventHandling).elim hne fun hnot => hnot hmem

/-- The channel of `k` has left the poller. -/
theorem Gives.removed {loop : EventLoop PendingFunctor} (g : Gives w k connector ch)
    (hr : w.loop.Removable ch.id) (hs : stance loop = stance w.loop)
    (hspares : Spares ch.id w.loop.poller loop.poller) :
    Detached { w.setConnector k { connector with channel := some (ch.set .disableAll) } with
      loop, resets := w.resets ++ [k] } k := by
  refine ⟨fun con con' hcon hstate hchannel => ?_⟩
  obtain rfl := Option.some.inj ((setConnector_found w k _).symm.trans hcon)
  have hid : loop.id = w.loop.id := congrArg Prod.fst hs
  have h := g.detached.attached connector { con' with channel := connector.channel } g.found hstate
    rfl
  exact
    { conns := h.conns
      connectors := by
        refine h.connectors.replace
          ⟨fun j hjk => ?_, fun j chj hjk hin => ?_, fun j hj => ?_, le_rfl⟩
          (h.connectors.lt_nextClient (setConnector_found w k _)) ?_ ?_ ?_
        · simp [World.setConnector, hjk]
        · refine hin.transport (w := w.setConnector k _) hid rfl hspares (fun heq => ?_)
          have hmade : w.made chj.id = some (.connector j, chj.fd) := hin.made
          rw [heq, g.inPoller.made] at hmade
          simp only [Option.some.injEq, Prod.mk.injEq, Owner.connector.injEq] at hmade
          exact hjk hmade.1.symm
        · exact (List.mem_append.mp hj).symm.imp_left List.mem_singleton.mp
        · exact h.connectors.nodup.append (List.nodup_singleton k)
            (List.disjoint_singleton.mpr g.resets)
        · intro d hd hdstate
          obtain rfl : con' = d := by simpa [World.setConnector] using hd
          exact absurd hdstate hstate
        · intro _ d hd
          obtain rfl : con' = d := by simpa [World.setConnector] using hd
          exact ⟨hstate, by simp [hchannel]⟩
      thread := by
        refine h.thread.transport hs (fun hp fd y hy hfd => ?_) h.thread.due
        exact hspares.channels fd y ((h.thread.waiting hp).ne_of_removable hr y hy) hfd }

theorem detached_removeAndResetChannel (g : Gives w k connector ch)
    (hr : w.loop.Removable ch.id) :
    Avoids .removeActiveChannel (w.removeAndResetChannel k) fun r => Detached r.1 k ∧
      r.1.made = w.made ∧ r.2 = ch.fd := by
  unfold World.removeAndResetChannel
  apply (connector_avoids (by simp) w k).bind
  intro con hcon
  obtain rfl : connector = con := Option.some.inj (g.found.symm.trans hcon)
  rw [g.channel]
  dsimp only
  apply (w.loop.updateChannel_avoids _).bind
  rintro l₁ ⟨hupdates, -⟩
  have hs₁ : stance l₁ = stance w.loop := stance_of_rest hupdates.rest
  have hr₁ : l₁.Removable (ch.set .disableAll).id := (removable_of_stance hs₁).mpr hr
  apply (EventLoop.removeChannel_avoids hr₁).bind
  rintro l₂ ⟨hl₂, hspares⟩
  apply avoids_ok
  have hs₂ : stance l₂ = stance w.loop := by
    rw [hl₂]
    exact hs₁
  have hboth : Spares ch.id w.loop.poller l₂.poller := hupdates.poller.spares.trans hspares
  split_ifs
  · exact ⟨g.removed hr hs₂ hboth, rfl, rfl⟩
  · exact ⟨g.removed hr hs₂ hboth, rfl, rfl⟩

theorem attached_stop (h : Attached w) (hr : MayRemove w k) :
    Avoids .removeActiveChannel (w.stop k) Attached := by
  unfold World.stop
  apply (connector_avoids (by simp) w k).bind
  intro connector hk
  have hset : Attached (w.setConnector k { connector with connect := false }) :=
    h.setConnector hk id rfl
  unfold World.stopInLoop
  apply (connector_avoids (by simp) _ k).bind
  intro con hcon
  obtain rfl : { connector with connect := false } = con := by
    simpa [World.setConnector] using hcon
  split
  · rename_i hs
    obtain ⟨ch, hg⟩ := hset.gives hcon hs
    apply (detached_removeAndResetChannel (hg.setState .kDisconnected)
      (hr connector hk hs ch hg.channel)).bind
    rintro ⟨w', sockfd⟩ ⟨hdetached, -⟩
    exact (gaveUp_retry hdetached sockfd).mono fun _ hw => hw.attached
  · exact avoids_ok hset

theorem attached_handleError (h : Attached w) (hr : MayRemove w k) :
    Avoids .removeActiveChannel (w.handleError k) (GaveUp w k) := by
  unfold World.handleError
  apply (connector_avoids (by simp) w k).bind
  intro connector hk
  apply (avoids_assert (by simp)).bind
  intro _ hs
  obtain ⟨ch, hg⟩ := h.gives hk hs
  apply (detached_removeAndResetChannel hg (hr connector hk hs ch hg.channel)).bind
  rintro ⟨w', sockfd⟩ ⟨hdetached, hmade, -⟩
  refine (gaveUp_retry hdetached sockfd).mono fun w'' hw => ?_
  exact ⟨hw.attached, hw.made.trans hmade, hw.state⟩

theorem Attached.enter (h : Attached w) {due : Option Due}
    (hdue : ∀ c, due = some (.removeChannel c) → w.loop.position = .functors) :
    Attached (w.enter due) :=
  h.quiet ⟨keeps_members w .., rfl, fun c hc => .inr (hdue c hc)⟩

/-- A new connection that is not yet established. -/
theorem attached_constructed (h : Attached w) {s : Connected} (hs : w.made s.id = none)
    (client : TcpClient) (sockfd : ℕ) : Attached (w.constructed k client sockfd s) := by
  have hmade (x : ChannelId) (o : Owner × ℕ) (hx : w.made x = some o) :
      (w.constructed k client sockfd s).made x = some o := by
    have hne : x ≠ s.id := by
      rintro rfl
      rw [hs] at hx
      cases hx
    simpa [World.constructed, hne] using hx
  exact
    { conns := fun c conn hc => by
        by_cases hcs : c = s.id
        · subst hcs
          refine ⟨?_, sockfd, by simp [World.constructed]⟩
          obtain rfl : _ = conn := by simpa [World.constructed] using hc
          rfl
        · obtain ⟨hid, fd, hx⟩ := h.conns c conn (by simpa [World.constructed, hcs] using hc)
          exact ⟨hid, fd, hmade c _ hx⟩
      connectors :=
        { h.connectors with
          connecting := fun j connector hj hcon => by
            obtain ⟨ch, hch, hin⟩ := h.connectors.connecting j connector hj hcon
            exact ⟨ch, hch, hin.ownerLoop, hmade ch.id _ hin.made, hin.index, hin.channels⟩ }
      thread := h.thread.transport rfl (fun _ _ _ _ hx => hx) h.thread.due }

/-- The end of `newConnection`, once the last connection of the client has been released. -/
theorem attached_established (h : Attached w) (c : ConnId) :
    Avoids .removeActiveChannel (w.conn c >>= fun conn =>
      conn.connectEstablished w.loop >>= fun r =>
        pure ((w.put r.1 c r.2).enter (some (.newConnection c)))) Attached := by
  apply (conn_avoids (by simp) w c).bind
  intro conn hconn
  apply touches.connectEstablished.bind
  rintro ⟨loop, conn'⟩ ht
  apply avoids_ok
  apply (h.put hconn ht).enter
  simp

theorem attached_newConnection (h : Attached w) {s : Connected} (hs : w.made s.id = none)
    (sockfd : ℕ) : Avoids .removeActiveChannel (w.newConnection k sockfd s) Attached := by
  unfold World.newConnection
  apply (client_avoids (by simp) w k).bind
  intro client _
  dsimp only
  have hconstructed : Attached (w.constructed k client sockfd s) :=
    attached_constructed h hs client sockfd
  cases client.connection with
  | none => exact attached_established hconstructed s.id
  | some old => exact attached_established (hconstructed.quiet (quiet_release _ old)) s.id

theorem attached_handleWrite (h : Attached w) (hr : MayRemove w k) {s : Connected}
    (hs : w.made s.id = none) :
    Avoids .removeActiveChannel (w.handleWrite k s) Attached := by
  unfold World.handleWrite
  apply (connector_avoids (by simp) w k).bind
  intro connector hk
  split
  · rename_i hconnecting
    obtain ⟨ch, hg⟩ := h.gives hk hconnecting
    apply (detached_removeAndResetChannel hg (hr connector hk hconnecting ch hg.channel)).bind
    rintro ⟨w', sockfd⟩ ⟨hdetached, hmade, -⟩
    have hretry : Avoids .removeActiveChannel (w'.retry k sockfd) Attached :=
      (gaveUp_retry hdetached sockfd).mono fun _ hw => hw.attached
    dsimp only
    split
    · exact hretry
    · split
      · exact hretry
      · apply (connector_avoids (by simp) w' k).bind
        intro con hcon
        have hconnected : Attached (w'.setConnector k { con with state := .kConnected }) :=
          hdetached.attached con { con with state := .kConnected } hcon (by simp) rfl
        split
        · refine attached_newConnection hconnected ?_ sockfd
          rw [← hs, ← hmade]
          rfl
        · exact avoids_ok (hconnected.quiet (quiet_close _ sockfd))
  · apply (avoids_assert (by simp)).bind
    intro _ _
    exact avoids_ok h

/-- The current channel may be removed. -/
theorem attached_handleConnector (h : Attached w) (hcurrent : w.loop.currentActiveChannel = some x)
    {s : Connected} (hs : w.made s.id = none) :
    Avoids .removeActiveChannel (w.handleConnector k x s) Attached := by
  unfold World.handleConnector
  apply (connector_avoids (by simp) w k).bind
  intro connector hk
  apply (avoids_assert (by simp)).bind
  intro _ hx
  have hr : MayRemove w k := by
    intro con hcon _ ch hch _
    obtain rfl : connector = con := Option.some.inj (hk.symm.trans hcon)
    rw [Option.mem_def.mp hch, Option.map_some, Option.some.injEq] at hx
    exact .inl (hx ▸ hcurrent)
  have hwrite (w' : World) (h' : Attached w') (hr' : MayRemove w' k) (hmade : w'.made = w.made) :
      Avoids .removeActiveChannel
        (if w'.revents x &&& POLLOUT ≠ 0 then w'.handleWrite k s else pure w') Attached := by
    split
    · exact attached_handleWrite h' hr' (hmade ▸ hs)
    · exact avoids_ok h'
  split
  · apply (attached_handleError h hr).bind
    intro w' hw
    refine hwrite w' hw.attached (fun con hcon hconnecting => ?_) hw.made
    exact absurd hconnecting (hw.state con hcon)
  · exact hwrite w h hr rfl

/-! ### The functions of a client -/

theorem attached_removeConnection (h : Attached w) {a : Attempt} (ha : w.made a.id = none)
    (k : ClientId) (c : ConnId) :
    Avoids .removeActiveChannel (w.removeConnection k c a) Attached := by
  unfold World.removeConnection
  apply (client_avoids (by simp) w k).bind
  intro client _
  apply (conn_avoids (by simp) w c).bind
  intro conn _
  apply (avoids_assert (by simp)).bind
  intro _ _
  apply (avoids_assert (by simp)).bind
  intro _ _
  have hclient : Attached (w.setClient k { client with connection := none }) :=
    h.quiet ⟨keeps_members w .., rfl, fun _ h => .inl h⟩
  have hqueued := hclient.quiet (quiet_queueInLoop _ (.connectDestroyed c))
  dsimp only
  split
  · exact attached_restart hqueued ha k
  · exact avoids_ok hqueued

theorem attached_closeCallback (h : Attached w) {a : Attempt} (ha : w.made a.id = none)
    (c : ConnId) : Avoids .removeActiveChannel (w.closeCallback c a) Attached := by
  unfold World.closeCallback
  split
  · exact attached_removeConnection h ha _ c
  · exact avoids_ok (h.quiet (quiet_queueInLoop w (.connectDestroyed c)))

theorem attached_newClient (h : Attached w) (name : String) (writeCompleteCallback : Bool) :
    Attached (w.newClient name writeCompleteCallback) where
  conns := h.conns
  connectors := by
    refine h.connectors.replace (k := w.nextClient) ⟨fun j hj => ?_,
      fun _ _ _ hin => ⟨hin.ownerLoop, hin.made, hin.index, hin.channels⟩, fun _ => .inr,
      Nat.le_succ w.nextClient⟩ (Nat.lt_succ_self w.nextClient) h.connectors.nodup ?_ ?_
    · simp [World.newClient, World.setConnector, World.setClient, hj]
    · intro connector hk hs
      obtain rfl : Connector.new = connector := by
        simpa [World.newClient, World.setConnector, World.setClient] using hk
      cases hs
    · intro hmem
      exact absurd (h.connectors.resets w.nextClient hmem).1 (Nat.lt_irrefl w.nextClient)
  thread := h.thread.transport rfl (fun _ _ _ _ hx => hx) h.thread.due

theorem attached_setClient (h : Attached w) (k : ClientId) (client : TcpClient) :
    Attached (w.setClient k client) :=
  h.quiet ⟨keeps_members w .., rfl, fun _ h => .inl h⟩

theorem attached_connect (h : Attached w) {a : Attempt} (ha : w.made a.id = none)
    (k : ClientId) : Avoids .removeActiveChannel (w.connect k a) Attached := by
  unfold World.connect
  apply (client_avoids (by simp) w k).bind
  intro client _
  exact attached_start (attached_setClient h k _) ha k

theorem attached_disconnect (h : Attached w) (k : ClientId) :
    Avoids .removeActiveChannel (w.disconnect k) Attached := by
  unfold World.disconnect
  apply (client_avoids (by simp) w k).bind
  intro client _
  have hclient : Attached (w.setClient k { client with connect := false }) :=
    attached_setClient h k _
  dsimp only
  split
  · exact avoids_ok hclient
  · apply (conn_avoids (by simp) _ _).bind
    intro conn hconn
    apply touches.shutdown.bind
    rintro ⟨loop, conn'⟩ ht
    exact avoids_ok (hclient.put hconn ht)

theorem attached_stopClient (h : Attached w) (hr : MayRemove w k) :
    Avoids .removeActiveChannel (w.stopClient k) Attached := by
  unfold World.stopClient
  apply (client_avoids (by simp) w k).bind
  intro client _
  exact attached_stop (attached_setClient h k _) hr

theorem attached_enableRetry (h : Attached w) (k : ClientId) :
    Avoids .removeActiveChannel (w.enableRetry k) Attached := by
  unfold World.enableRetry
  apply (client_avoids (by simp) w k).bind
  intro client _
  exact avoids_ok (attached_setClient h k _)

theorem attached_destroyClient (h : Attached w)
    (hr : ∀ client ∈ w.clients k, client.connection = none → MayRemove w k) :
    Avoids .removeActiveChannel (w.destroyClient k) Attached := by
  unfold World.destroyClient
  apply (client_avoids (by simp) w k).bind
  intro client hclient
  split
  · rename_i c _
    have hgone : Attached { w with
        closeCallbacks := Function.update w.closeCallbacks c .detail
        clients := Function.update w.clients k none } :=
      h.quiet ⟨keeps_members w .., rfl, fun _ h => .inl h⟩
    exact attached_releaseConnector (hgone.quiet (quiet_release _ c)) k
  · rename_i hnone
    apply (attached_stop h (hr client hclient hnone)).bind
    intro w' h'
    have hgone : Attached { w' with
        timers := w'.timers ++ [Timer.removeConnector k]
        clients := Function.update w'.clients k none } :=
      h'.quiet ⟨keeps_members w' .., rfl, fun _ h => .inl h⟩
    exact attached_releaseConnector hgone k

/-! ### The callbacks of a connection -/

theorem attached_handleClose (h : Attached w) (c : ConnId) :
    Avoids .removeActiveChannel (w.handleClose c) Attached := by
  unfold World.handleClose
  apply (conn_avoids (by simp) w c).bind
  intro conn hconn
  apply touches.handleClose.bind
  rintro ⟨loop, conn'⟩ ht
  apply avoids_ok
  apply (h.put hconn ht).enter
  simp

theorem attached_handleRead (h : Attached w) (c : ConnId) (r : ReadResult) :
    Avoids .removeActiveChannel (w.handleRead c r) Attached := by
  unfold World.handleRead
  apply (conn_avoids (by simp) w c).bind
  intro conn hconn
  apply (touches.handleRead r).bind
  rintro ⟨loop, conn', outcome⟩ ht
  have hput : Attached (w.put loop c conn') := h.put hconn ht
  cases outcome with
  | message => exact avoids_ok (hput.enter (by simp))
  | closed => exact avoids_ok (hput.enter (by simp))
  | error => exact avoids_ok hput

theorem attached_runTest (h : Attached w) (c : ConnId) (t : Test) (r : ReadResult)
    (wr : WriteResult) : Avoids .removeActiveChannel (w.runTest c t r wr) Attached := by
  unfold World.runTest
  split
  · split
    · exact attached_handleClose h c
    · exact avoids_ok h
  · exact avoids_ok h
  · split
    · exact attached_handleRead h c r
    · exact avoids_ok h
  · split
    · unfold World.handleWriteConnection
      apply (conn_avoids (by simp) w c).bind
      intro conn hconn
      apply (touches.handleWrite wr).bind
      rintro ⟨loop, conn'⟩ ht
      exact avoids_ok (h.put hconn ht)
    · exact avoids_ok h

theorem attached_userCall (h : Attached w) (c : ConnId) (u : UserCall) :
    Avoids .removeActiveChannel (w.userCall c u) Attached := by
  unfold World.userCall
  apply (conn_avoids (by simp) w c).bind
  intro conn hconn
  apply (touches.userCall u).bind
  rintro ⟨loop, conn'⟩ ht
  exact avoids_ok (h.put hconn ht)

/-- `connectDestroyed` is a functor, and functors run when no events are handled. -/
theorem attached_connectDestroyed (h : Attached w) (hp : w.loop.position = .functors)
    (c : ConnId) : Avoids .removeActiveChannel (w.connectDestroyed c) Attached := by
  unfold World.connectDestroyed
  apply (conn_avoids (by simp) w c).bind
  intro conn hconn
  have hhandling : w.loop.eventHandling = false := h.thread.functors (.inr hp)
  apply (touches.connectDestroyed (TcpConnection.touches_removeChannel hhandling)).bind
  rintro ⟨loop, conn', inCallback⟩ ht
  have hput : Attached (w.put loop c conn') := h.put hconn ht
  apply avoids_ok
  split_ifs
  · exact hput.enter fun _ _ => ht.position.trans hp
  · exact hput

theorem attached_removeChannel (h : Attached w) (hp : w.loop.position = .functors) (c : ConnId) :
    Avoids .removeActiveChannel (w.removeChannel c) Attached := by
  unfold World.removeChannel
  apply (conn_avoids (by simp) w c).bind
  intro conn hconn
  apply (TcpConnection.touches_removeChannel (h.thread.functors (.inr hp))).bind
  rintro ⟨loop, conn'⟩ ht
  exact avoids_ok (h.put hconn ht)

/-! ### The steps of the loop -/

theorem attached_poll (h : Attached w) (hp : w.loop.position = .poll) (hdue : w.due = none)
    {active : List (ChannelId × Events)} (hnodup : (active.map Prod.fst).Nodup) :
    Avoids .removeActiveChannel (w.poll active) Attached := by
  unfold World.poll
  apply (EPollPoller.poll_avoids (by simp) (by simp) (by simp) w.loop.poller w.fd active).bind
  rintro ⟨activeChannels, poller⟩ ⟨rfl, hchannels, hindex, -, hactive⟩
  apply avoids_ok
  refine h.keeps ⟨rfl, hchannels, hindex, fun _ _ h => h, fun _ _ h => h, rfl, rfl, rfl⟩ ?_
  have hnone : w.loop.currentActiveChannel = none := h.thread.current (by simp [hp])
  refine ⟨fun _ => ⟨hnodup, rfl, fun x hx => ⟨hx, by simp [EventLoop.pollReturn, hnone], ?_⟩⟩,
    fun hne => absurd rfl hne, ?_, fun c hc => ?_⟩
  · obtain ⟨y, hy, rfl⟩ := List.mem_map.mp hx
    exact ⟨w.fd y.1, (congrFun hchannels _).trans (hactive y hy)⟩
  · rintro (hswap | hfunctors)
    · cases hswap
    · cases hfunctors
  · rw [hdue] at hc
    cases hc

/-- The next active channel is in the poller, and becomes the current one. -/
theorem attached_visit (h : Attached w) (hp : w.loop.position = .handling) (hdue : w.due = none)
    {rest : List ChannelId} (hx : w.loop.unvisited = x :: rest) {s : Connected}
    (hs : w.made s.id = none) :
    Avoids .removeActiveChannel (w.visit x rest s) Attached := by
  have hwaiting : Waiting w.loop := h.thread.waiting hp
  have hnodup : (x :: rest).Nodup := hx ▸ hwaiting.nodup
  obtain ⟨hnot, hrest⟩ := List.nodup_cons.mp hnodup
  have h' : Attached { w with loop := w.loop.visit x rest } := by
    refine h.keeps ⟨rfl, rfl, rfl, fun _ _ h => h, fun _ _ h => h, rfl, rfl, rfl⟩
      ⟨fun _ => ⟨hrest, hwaiting.eventHandling, fun y hy => ?_⟩, fun hne => absurd hp hne,
        h.thread.functors, fun c hc => ?_⟩
    · obtain ⟨hmem, -, hchannels⟩ := hwaiting.active y (hx ▸ List.mem_cons_of_mem x hy)
      refine ⟨hmem, ?_, hchannels⟩
      rintro hxy
      obtain rfl : x = y := Option.some.inj hxy
      exact hnot hy
    · rw [hdue] at hc
      cases hc
  unfold World.visit
  dsimp only
  split
  · apply (conn_avoids (by simp) _ x).bind
    intro conn _
    exact avoids_ok (h'.quiet ⟨keeps_members _ .., rfl, fun _ h => .inl h⟩)
  · exact attached_handleConnector h' rfl hs
  · apply avoids_ok
    split
    · exact h'.quiet ⟨⟨rfl, rfl, rfl, fun _ _ h => h, fun _ _ h => h, rfl, rfl, rfl⟩, rfl,
        fun _ h => .inl h⟩
    · exact h'.enter (by simp)
  · exact avoids_error (by simp)

theorem attached_runFunctor (h : Attached w) (hp : w.loop.position = .functors)
    (f : PendingFunctor) : Avoids .removeActiveChannel (w.runFunctor f) Attached := by
  cases f with
  | connectDestroyed c => exact attached_connectDestroyed h hp c
  | writeCompleteCallback | highWaterMarkCallback => exact avoids_ok (h.enter (by simp))
  | connectEstablished | sendInLoop | shutdownInLoop | removeConnectionInLoop => exact avoids_ok h

theorem attached_due (h : Attached w) {due : Due} (hdue : w.due = some due) {a : Attempt}
    (ha : w.made a.id = none) :
    Avoids .removeActiveChannel ({ w with due := none }.runDue a due) Attached := by
  have h' : Attached { w with due := none } := h.quiet ⟨keeps_members w .., rfl, by simp⟩
  cases due with
  | closeCallback c =>
    apply (attached_closeCallback h' ha c).bind
    intro w' hw'
    exact avoids_ok (hw'.quiet (quiet_release w' c))
  | removeChannel c => exact attached_removeChannel h' (h.thread.due c hdue) c
  | newConnection c => exact avoids_ok (h'.quiet (quiet_release _ c))

theorem attached_runTimer (h : Attached w) (t : Timer) {a : Attempt} (ha : w.made a.id = none) :
    Avoids .removeActiveChannel (w.runTimer t a) Attached := by
  have h' : Attached { w with timers := w.timers.erase t, expired := w.expired ++ [t] } :=
    h.quiet ⟨keeps_members w .., rfl, fun _ h => .inl h⟩
  cases t with
  | startInLoop k delayMs => exact attached_startInLoop h' ha k
  | removeConnector k => exact avoids_ok h'

theorem attached_resetChannel (h : Attached w) {rest : List ClientId}
    (hk : w.resets = k :: rest) :
    Avoids .removeActiveChannel (w.resetChannel k rest) Attached := by
  unfold World.resetChannel
  apply (connector_avoids (by simp) w k).bind
  intro connector hconnector
  apply avoids_ok
  obtain ⟨hlt, hreset⟩ := h.connectors.resets k (hk ▸ List.mem_cons_self)
  have hnodup : (k :: rest).Nodup := hk ▸ h.connectors.nodup
  obtain ⟨hnot, hrest⟩ := List.nodup_cons.mp hnodup
  exact
    { conns := h.conns
      connectors := by
        refine h.connectors.replace ⟨setConnector_others w k _,
          fun _ _ _ hin => ⟨hin.ownerLoop, hin.made, hin.index, hin.channels⟩, fun j hj => ?_,
          le_rfl⟩ hlt hrest ?_ (fun hmem => absurd hmem hnot)
        · rw [hk]
          exact .inr (List.mem_cons_of_mem k hj)
        · intro con hcon hs
          obtain rfl := Option.some.inj ((setConnector_found w k _).symm.trans hcon)
          exact absurd hs (hreset connector hconnector).1
      thread := h.thread.transport rfl (fun _ _ _ _ hx => hx) h.thread.due }

theorem attached_releases (fs : List PendingFunctor) (h : Attached w) :
    Attached (fs.foldl (fun w f => w.release f.conn) w) := by
  induction fs generalizing w with
  | nil => exact h
  | cons f fs ih => exact ih (h.quiet (quiet_release w f.conn))

theorem attached_initial (h : Initial w) (hcurrent : w.loop.currentActiveChannel = none) :
    Attached w where
  conns c conn hc := by
    rw [h.conns c] at hc
    cases hc
  connectors :=
    { connecting := fun k connector hk => by
        rw [h.connectors k] at hk
        cases hk
      resets := by simp [h.resets]
      nodup := by simp [h.resets]
      fresh := fun k _ => h.connectors k }
  thread :=
    { waiting := by simp [h.position]
      current := fun _ => hcurrent
      functors := by simp [h.position]
      due := by simp [h.idle.2.1] }

theorem attached_step {e : Event} (h : Attached w) (hg : SparesActive w e) (he : enabled w e) :
    Avoids .removeActiveChannel (step w e) Attached := by
  have hmembers (expired : List Timer) (kept : List ConnId)
      (tests : Option (ConnId × Option Test)) (inCallback : Bool) :
      Attached { w with expired, kept, tests, inCallback } :=
    h.quiet ⟨keeps_members w .., rfl, fun _ h => .inl h⟩
  cases e with
  | poll active =>
    obtain ⟨hidle, hp, -, hnodup, -⟩ := he
    exact attached_poll h hp hidle.2.1 hnodup
  | visit s =>
    obtain ⟨hidle, hp, -, hs⟩ := he
    simp only [step]
    split
    · exact avoids_ok h
    · rename_i x rest hx
      exact attached_visit h hp hidle.2.1 hx hs
  | test r wr =>
    simp only [step]
    split
    · rename_i c t _
      exact attached_runTest (hmembers w.expired w.kept (some (c, t.next)) w.inCallback) c t r wr
    · exact avoids_ok h
    · exact avoids_ok h
  | endEvent =>
    simp only [step]
    split
    · rename_i c _ _
      exact avoids_ok ((hmembers w.expired w.kept none w.inCallback).quiet (quiet_release _ c))
    · exact avoids_ok h
  | userReturn => exact avoids_ok (hmembers w.expired w.kept w.tests false)
  | due a =>
    simp only [step]
    split
    · rename_i due hdue
      exact attached_due h hdue he.2.2.2
    · exact avoids_ok h
  | timer t a => exact attached_runTimer h t he.2.2.2.2
  | deleteTimer =>
    simp only [step]
    split
    · rename_i t expired _
      exact attached_releaseConnector (hmembers expired w.kept w.tests w.inCallback) t.connector
    · exact avoids_ok h
  | endHandling =>
    apply avoids_ok
    have hdue : w.due = none := he.1.2.1
    refine h.keeps ⟨rfl, rfl, rfl, fun _ _ h => h, fun _ _ h => h, rfl, rfl, rfl⟩
      ⟨fun hp => ?_, fun _ => rfl, fun _ => rfl, by simp [hdue]⟩
    cases hp
  | swap =>
    apply avoids_ok
    obtain ⟨hidle, hp⟩ := he
    have hdue : w.due = none := hidle.2.1
    refine h.keeps ⟨rfl, rfl, rfl, fun _ _ h => h, fun _ _ h => h, rfl, rfl, rfl⟩
      ⟨fun hhandling => ?_, fun _ => h.thread.current (by simp [hp]),
        fun _ => h.thread.functors (.inl hp), by simp [hdue]⟩
    cases hhandling
  | execute =>
    obtain ⟨hidle, hp, -⟩ := he
    simp only [step]
    split
    · rename_i f rest hbatch
      have h' : Attached { w with loop := w.loop.take rest, ran := w.ran ++ [f] } :=
        h.quiet ⟨⟨rfl, rfl, rfl, fun _ _ h => h, fun _ _ h => h, rfl, rfl, rfl⟩, rfl,
          fun _ h => .inl h⟩
      exact attached_runFunctor h' hp f
    · exact avoids_ok h
  | resetChannel =>
    simp only [step]
    split
    · rename_i k rest hk
      exact attached_resetChannel h hk
    · exact avoids_ok h
  | endFunctors =>
    apply avoids_ok
    obtain ⟨hidle, hp, -⟩ := he
    have hdue : w.due = none := hidle.2.1
    have hposition : w.loop.endFunctors.position = .poll ∨
        w.loop.endFunctors.position = .exited := by
      simp only [EventLoop.endFunctors]
      split
      · exact .inr rfl
      · exact .inl rfl
    have h' : Attached { w with loop := w.loop.endFunctors, ran := [] } := by
      refine h.keeps ⟨rfl, rfl, rfl, fun _ _ h => h, fun _ _ h => h, rfl, rfl, rfl⟩
        ⟨fun hhandling => ?_, fun _ => h.thread.current (by simp [hp]), fun hfunctors => ?_,
          by simp [hdue]⟩
      · rcases hposition with hpos | hpos
        · exact absurd (hpos.symm.trans hhandling) (by simp)
        · exact absurd (hpos.symm.trans hhandling) (by simp)
      · exact h.thread.functors (.inr hp)
    exact attached_releases w.ran h'
  | newClient name writeCompleteCallback =>
    exact avoids_ok (attached_newClient h name writeCompleteCallback)
  | connect k a => exact attached_connect h he.2.2.2 k
  | disconnect k => exact attached_disconnect h k
  | stop k => exact attached_stopClient h hg
  | enableRetry k => exact attached_enableRetry h k
  | destroy k => exact attached_destroyClient h hg
  | userCall c u => exact attached_userCall h c u
  | keep c => exact avoids_ok (hmembers w.expired (w.kept ++ [c]) w.tests w.inCallback)
  | drop c =>
    have hdropped : Attached { w with kept := w.kept.erase c } :=
      hmembers w.expired (w.kept.erase c) w.tests w.inCallback
    exact avoids_ok (hdropped.quiet (quiet_release _ c))

/-! ### Calls that stop a connector whose channel waits -/

theorem removeAndResetChannel_active (g : Gives w k connector ch) (hr : ¬w.loop.Removable ch.id) :
    w.removeAndResetChannel k = .error .removeActiveChannel := by
  have hnone : (ch.set .disableAll).isNoneEvent = true := Channel.isNoneEvent_disableAll ch
  have hdisabled : ∃ q, w.loop.poller.updateChannel (ch.set .disableAll) = .ok q :=
    EPollPoller.updateChannel_disabled g.inPoller.index g.inPoller.channels hnone
  obtain ⟨poller, hpoller⟩ := hdisabled
  have hupdate : w.loop.updateChannel (ch.set .disableAll) = .ok { w.loop with poller } := by
    unfold EventLoop.updateChannel EventLoop.assertInLoopThread
    rw [assert_pos (show (ch.set .disableAll).ownerLoop = w.loop.id from g.inPoller.ownerLoop),
      ok_bind, hpoller]
    rfl
  have hremove : ({ w.loop with poller } : EventLoop PendingFunctor).removeChannel
      (ch.set .disableAll) = .error .removeActiveChannel :=
    EventLoop.removeChannel_active _ hnone g.inPoller.ownerLoop hr
  simp only [World.removeAndResetChannel, World.connector, g.found, g.channel, ok_bind, hupdate,
    hremove, error_bind]

theorem stop_active (h : Attached w) (hr : ¬MayRemove w k) :
    w.stop k = .error .removeActiveChannel := by
  simp only [MayRemove, Classical.not_forall] at hr
  obtain ⟨connector, hk, hs, ch, hch, hnot⟩ := hr
  rw [Option.mem_def] at hk hch
  have hset : Attached (w.setConnector k { connector with connect := false }) :=
    h.setConnector hk id rfl
  have hfound : (w.setConnector k { connector with connect := false }).connectors k =
      some { connector with connect := false } := by simp [World.setConnector]
  obtain ⟨ch', hg⟩ := hset.gives hfound hs
  obtain rfl : ch = ch' := Option.some.inj (hch.symm.trans hg.channel)
  have hremove := removeAndResetChannel_active (hg.setState .kDisconnected) hnot
  simp only [World.stop, World.stopInLoop, World.connector, hk, hfound, ok_bind]
  rw [if_pos hs, hremove, error_bind]

/-- A step that misses the guard stops at the assertion. -/
theorem step_active {e : Event} (h : Attached w) (he : enabled w e) (hg : ¬SparesActive w e) :
    step w e = .error .removeActiveChannel := by
  cases e with
  | stop k =>
    obtain ⟨client, hclient⟩ := Option.isSome_iff_exists.mp he.2
    have hstop := stop_active (attached_setClient h k { client with connect := false })
      (fun hr => hg hr)
    simp only [step, World.stopClient, World.client, hclient, ok_bind]
    exact hstop
  | destroy k =>
    simp only [SparesActive, Classical.not_forall] at hg
    obtain ⟨client, hclient, hnone, hr⟩ := hg
    rw [Option.mem_def] at hclient
    simp only [step, World.destroyClient, World.client, hclient, ok_bind, hnone]
    rw [stop_active h hr, error_bind]
  | poll | visit | test | endEvent | userReturn | due | timer | deleteTimer | endHandling | swap
  | execute | resetChannel | endFunctors | newClient | connect | disconnect | enableRetry
  | userCall | keep | drop => exact absurd trivial hg

theorem Attached.handles_iff_spares {e : Event} (h : Attached w) (he : enabled w e) :
    HandlesRegistered w e ↔ SparesActive w e := by
  constructor
  · intro hhandles
    by_contra hg
    exact hhandles.removes (step_active h he hg)
  · intro hg
    refine ⟨(attached_step h hg he).1, ?_⟩
    rintro s rfl x hx
    have hmem : x ∈ w.loop.unvisited := List.mem_of_mem_head? hx
    obtain ⟨-, hp, -⟩ := he
    exact ((h.thread.waiting hp).active x hmem).2.2

/-- No assertion of `EventLoop::removeChannel` fails, and no handler runs on a channel that has
been removed, exactly if no call stops a connector whose channel waits. -/
theorem handlesRegistered_iff {es : List Event} (hinit : Initial w)
    (hcurrent : w.loop.currentActiveChannel = none)
    (hoffered : Guarded system system.enabled w es) :
    Guarded system HandlesRegistered w es ↔ Guarded system SparesActive w es := by
  refine guarded_congr_of_keeps system (I := Attached) ?_ (fun _ _ h he => ?_)
    (attached_initial hinit hcurrent) hoffered
  · intro v e v' h he hstep
    have hg : SparesActive v e := by
      by_contra hg
      exact absurd (hstep.symm.trans (step_active h he hg)) (by simp)
    exact (attached_step h hg he).2 v' hstep
  · exact h.handles_iff_spares he

/-- The client 0 is connected as the connection 2, and the channel 3 of the client 1 connects. -/
def connectBoth : List Event :=
  connectEvents ++ [.newClient "second" false, .connect 1 ⟨.connecting, 6, 3⟩]

/-- The message callback of the connection 2. -/
def readEvents : List Event :=
  [.visit ⟨false, false, "", 9⟩, .test (.delivers []) (.accepts 0),
    .test (.delivers []) (.accepts 0), .test (.delivers [7]) (.accepts 0)]

/-- The channel 3 is stopped while the other is handled, and is not active. -/
theorem handlesRegistered_of_inactive :
    let es : List Event := connectBoth ++ .poll [(2, POLLIN)] :: (readEvents ++ [.stop 1,
      .userReturn, .test (.delivers []) (.accepts 0), .endEvent, .endHandling])
    Guarded system HandlesRegistered sample es := by
  intro es
  have hreplay : (replay (restrict system SparesActive) sample es).any (fun _ => true) = true := by
    decide +kernel
  obtain ⟨t, hr, -⟩ := exists_run_of_replay _ hreplay
  have hoffered : Guarded system system.enabled sample es :=
    guarded_enabled system (run_of_restrict system hr)
  exact (handlesRegistered_iff initial_sample rfl hoffered).mpr (restrict_guarded system hr)

/-- The same call, where one `poll` has returned both channels. -/
theorem not_handlesRegistered_of_stop :
    let es : List Event := connectBoth ++ .poll [(2, POLLIN), (3, POLLOUT)] :: readEvents
    Initial sample ∧ sample.loop.currentActiveChannel = none ∧
      (∃ t, Run system sample es t ∧ enabled t (.stop 1) ∧ t.loop.eventHandling = true ∧
        t.loop.currentActiveChannel = some 2 ∧ t.loop.activeChannels = [2, 3] ∧
        step t (.stop 1) = .error .removeActiveChannel) ∧
      Guarded system system.enabled sample (es ++ [.stop 1]) ∧
      ¬Guarded system HandlesRegistered sample (es ++ [.stop 1]) := by
  intro es
  have hreplay : (replay system sample es).any (fun t => decide (enabled t (.stop 1) ∧
      t.loop.eventHandling = true ∧ t.loop.currentActiveChannel = some 2 ∧
        t.loop.activeChannels = [2, 3] ∧ (match step t (.stop 1) with
          | .error a => a
          | .ok _ => .noChannel) = .removeActiveChannel)) = true := by
    decide +kernel
  obtain ⟨t, hr, ht⟩ := exists_run_of_replay _ hreplay
  obtain ⟨he, hhandling, hcurrent, hactive, herror⟩ := of_decide_eq_true ht
  have hstep : step t (.stop 1) = .error .removeActiveChannel := by
    split at herror
    · rename_i a ha
      rw [ha, herror]
    · cases herror
  refine ⟨initial_sample, rfl, ⟨t, hr, he, hhandling, hcurrent, hactive, hstep⟩, ?_, ?_⟩
  · exact (guarded_snoc system hr).mpr ⟨guarded_enabled system hr, he⟩
  · intro hhandles
    exact ((guarded_snoc system hr).mp hhandles).2.removes hstep

end TcpClient
end Muduo

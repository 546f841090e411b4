import Muduo.TcpClient

/-!
# The invariant of the clients

Every channel in the poller belongs to an object that is alive, and the poller knows of open
descriptors only. A connection that is alive is established, or closed and about to be removed,
or removed.
-/
namespace Muduo
open StepSystem

namespace TcpClient
open EPollPoller (SameBut Apart)
open TcpConnection (Stands Reaches SameObject)

/-- The object that `x` is a member of is alive, and has not given up the channel. -/
def Live (w : World) (x : ChannelId) : Prop :=
  match w.made x with
  | some (.connection, _) => (w.conns x).isSome = true
  | some (.connector k, _) =>
    ∃ connector ch, w.connectors k = some connector ∧ connector.channel = some ch ∧ ch.id = x
  | some (.other, _) => True
  | none => False

/-- The poller knows of open descriptors only, and of each at most its own channel. -/
structure Tracks (p : EPollPoller) (fds : ℕ → Option ChannelId)
    (made : ChannelId → Option (Owner × ℕ)) : Prop where
  closed : ∀ fd, fds fd = none → p.channels fd = none ∧ p.interest fd = none
  channels : ∀ fd x, p.channels fd = some x → fds fd = some x
  index : ∀ x, made x = none → p.index x = kNew

theorem Tracks.touch {p q : EPollPoller} {fds fds' : ℕ → Option ChannelId}
    {made made' : ChannelId → Option (Owner × ℕ)} {ch : Channel} (h : Tracks p fds made)
    (hq : SameBut ch p q) (hfds : ∀ fd, fd ≠ ch.fd → fds' fd = fds fd)
    (hmade : ∀ x, made' x = none → made x = none ∧ x ≠ ch.id)
    (hclosed : fds' ch.fd = none → q.channels ch.fd = none ∧ q.interest ch.fd = none)
    (hchannels : ∀ x, q.channels ch.fd = some x → fds' ch.fd = some x) : Tracks q fds' made' where
  closed fd hfd := by
    by_cases he : fd = ch.fd
    · exact he ▸ hclosed (he ▸ hfd)
    · obtain ⟨hc, hi⟩ := hq.at_fd he
      rw [hc, hi]
      exact h.closed fd (hfds fd he ▸ hfd)
  channels fd x hx := by
    by_cases he : fd = ch.fd
    · exact he ▸ hchannels x (he ▸ hx)
    · rw [(hq.at_fd he).1] at hx
      exact (hfds fd he).trans (h.channels fd x hx)
  index x hx := by
    obtain ⟨hm, hne⟩ := hmade x hx
    exact (hq.index_eq hne).trans (h.index x hm)

/-- The channel of a closed connection is about to be removed. -/
def Leaving (w : World) (c : ConnId) : Prop :=
  w.due = some (.closeCallback c) ∨ w.due = some (.removeChannel c) ∨
    PendingFunctor.connectDestroyed c ∈ w.loop.batch ++ w.loop.pendingFunctors

/-- A connection that is alive is established, or closed and about to be removed, or removed. -/
structure ConnInv (w : World) (c : ConnId) (conn : TcpConnection) : Prop where
  id : conn.id = c
  channel : conn.channel.id = c
  fds : w.fds conn.channel.fd = some c
  made : w.made c = some (.connection, conn.channel.fd)
  stands : ∃ p, Stands p w.loop conn ∧ (p = .up ∨ p = .closing ∧ Leaving w c ∨ p = .destroyed)

/-- The channel of a connector that is connecting is in the poller. -/
structure Connecting (w : World) (k : ClientId) (ch : Channel) : Prop where
  ownerLoop : ch.ownerLoop = w.loop.id
  interest : ch.isNoneEvent = false
  view : w.loop.poller.view ch = EPollPoller.added ch
  fds : w.fds ch.fd = some ch.id
  made : w.made ch.id = some (.connector k, ch.fd)

/-- What keeps the descriptor `fd` open for the channel `x`. -/
inductive Opens (w : World) (fd : ℕ) (x : ChannelId) : Prop
  | connection (conn : TcpConnection) (h : w.conns x = some conn) (hfd : conn.channel.fd = fd)
  | connector (k : ClientId) (connector : Connector) (ch : Channel)
      (h : w.connectors k = some connector) (hs : connector.state = .kConnecting)
      (hch : connector.channel = some ch) (hid : ch.id = x) (hfd : ch.fd = fd)
  | other (h : w.made x = some (.other, fd))

/-- `hand` is a descriptor that has been taken from its object, and not yet passed on or closed. -/
structure Inv (hand : Option ℕ) (w : World) : Prop where
  tracks : Tracks w.loop.poller w.fds w.made
  taken : ∀ fd ∈ hand, (∀ c conn, w.conns c = some conn → conn.channel.fd ≠ fd) ∧
    w.loop.poller.channels fd = none ∧ w.loop.poller.interest fd = none
  fds : ∀ fd x, fd ∉ hand → w.fds fd = some x → Opens w fd x
  conns : ∀ c conn, w.conns c = some conn → ConnInv w c conn
  connecting : ∀ k connector, w.connectors k = some connector → connector.state = .kConnecting →
    ∃ ch, connector.channel = some ch ∧ Connecting w k ch
  clients : ∀ k client connector, w.clients k = some client → w.connectors k = some connector →
    client.connection ≠ none → connector.state = .kConnected
  orphan : ∀ k connector, w.clients k = none → w.connectors k = some connector →
    connector.state = .kConnected ∨ connector.state = .kDisconnected ∧ connector.connect = false
  fresh : ∀ k, w.nextClient ≤ k → w.connectors k = none
  resets : ∀ k ∈ w.resets, k < w.nextClient ∧ ∀ connector, w.connectors k = some connector →
    connector.state ≠ .kConnecting ∧ connector.channel ≠ none
  nodup : w.resets.Nodup
  batch : w.loop.position ≠ .functors → w.loop.batch = []

variable {hand : Option ℕ} {w w' : World} {k : ClientId} {c : ConnId} {conn : TcpConnection}
  {connector : Connector} {ch : Channel}

theorem ConnInv.transport (h : ConnInv w c conn) (hid : w'.loop.id = w.loop.id)
    (hview : w'.loop.poller.view conn.channel = w.loop.poller.view conn.channel)
    (hfds : w'.fds conn.channel.fd = w.fds conn.channel.fd) (hmade : w'.made c = w.made c)
    (hl : Leaving w c → Leaving w' c) : ConnInv w' c conn where
  id := h.id
  channel := h.channel
  fds := hfds.trans h.fds
  made := hmade.trans h.made
  stands := by
    obtain ⟨p, hp, hpl⟩ := h.stands
    have hp' : Stands p w'.loop conn :=
      ⟨hp.loop.trans hid.symm, hp.ownerLoop.trans hid.symm, hp.holds, hview.trans hp.view⟩
    obtain hup | ⟨hclosing, hleaving⟩ | hdestroyed := hpl
    · exact ⟨p, hp', .inl hup⟩
    · exact ⟨p, hp', .inr (.inl ⟨hclosing, hl hleaving⟩)⟩
    · exact ⟨p, hp', .inr (.inr hdestroyed)⟩

theorem Connecting.transport (h : Connecting w k ch) (hid : w'.loop.id = w.loop.id)
    (hview : w'.loop.poller.view ch = w.loop.poller.view ch) (hfds : w'.fds ch.fd = w.fds ch.fd)
    (hmade : w'.made ch.id = w.made ch.id) : Connecting w' k ch :=
  ⟨h.ownerLoop.trans hid.symm, h.interest, hview.trans h.view, hfds.trans h.fds,
    hmade.trans h.made⟩

theorem Inv.lt_nextClient (h : Inv hand w) (hk : w.connectors k = some connector) :
    k < w.nextClient := by
  by_contra hge
  rw [h.fresh k (not_lt.mp hge)] at hk
  cases hk

/-- A connector that is connecting has one channel, and that is in the poller. -/
theorem Inv.connecting_channel (h : Inv hand w) (hk : w.connectors k = some connector)
    (hs : connector.state = .kConnecting) (hch : connector.channel = some ch) :
    Connecting w k ch := by
  obtain ⟨ch', hch', hconnecting⟩ := h.connecting k connector hk hs
  obtain rfl : ch = ch' := Option.some.inj (hch.symm.trans hch')
  exact hconnecting

/-- The objects, the poller and the descriptors. -/
def places (w : World) :=
  (w.loop.id, w.loop.poller.channels, w.loop.poller.index, w.loop.poller.interest, w.conns,
    w.connectors, w.made, w.fds, w.nextClient)

/-- All that the invariant says of a world, apart from the queue and the thread. -/
def objects (w : World) := (places w, w.clients, w.resets)

/-- Only clients have changed, functors have been taken, and the thread has moved on. -/
theorem Inv.relabel (h : Inv hand w) (hp : places w' = places w)
    (hclients : ∀ k client connector, w'.clients k = some client →
      w.connectors k = some connector → client.connection ≠ none → connector.state = .kConnected)
    (horphan : ∀ k connector, w'.clients k = none → w.connectors k = some connector →
      connector.state = .kConnected ∨ connector.state = .kDisconnected ∧ connector.connect = false)
    (hresets : ∀ k ∈ w'.resets, k ∈ w.resets) (hnodup : w'.resets.Nodup)
    (hl : ∀ c, Leaving w c → Leaving w' c)
    (hb : w'.loop.position ≠ .functors → w'.loop.batch = []) : Inv hand w' := by
  simp only [places, Prod.mk.injEq] at hp
  obtain ⟨hid, hchannels, hindex, hinterest, hconns, hconnectors, hmade, hfds, hnext⟩ := hp
  have hview : ∀ ch, w'.loop.poller.view ch = w.loop.poller.view ch := by
    intro ch
    simp [EPollPoller.view, hchannels, hindex, hinterest]
  exact {
    tracks := by
      constructor
      · rw [hchannels, hinterest, hfds]
        exact h.tracks.closed
      · rw [hchannels, hfds]
        exact h.tracks.channels
      · rw [hindex, hmade]
        exact h.tracks.index
    taken := by
      rw [hconns, hchannels, hinterest]
      exact h.taken
    fds := by
      intro fd x hx hfd
      rw [hfds] at hfd
      obtain ⟨conn, hc, hf⟩ | ⟨k, connector, ch, hk, hs, hch, hi, hf⟩ | ho := h.fds fd x hx hfd
      · exact .connection conn (hconns ▸ hc) hf
      · exact .connector k connector ch (hconnectors ▸ hk) hs hch hi hf
      · exact .other (hmade ▸ ho)
    conns := by
      intro c conn hc
      rw [hconns] at hc
      exact (h.conns c conn hc).transport hid (hview _) (by rw [hfds]) (by rw [hmade]) (hl c)
    connecting := by
      intro k connector hk hs
      rw [hconnectors] at hk
      obtain ⟨ch, hch, hc⟩ := h.connecting k connector hk hs
      exact ⟨ch, hch, hc.transport hid (hview _) (by rw [hfds]) (by rw [hmade])⟩
    clients := by
      rw [hconnectors]
      exact hclients
    orphan := by
      rw [hconnectors]
      exact horphan
    fresh := by
      rw [hnext, hconnectors]
      exact h.fresh
    resets := by
      intro k hk
      rw [hnext, hconnectors]
      exact h.resets k (hresets k hk)
    nodup := hnodup
    batch := hb }

/-- The thread moves on, and nothing else has changed. -/
theorem Inv.same (h : Inv hand w) (ho : objects w' = objects w)
    (hl : ∀ c, Leaving w c → Leaving w' c)
    (hb : w'.loop.position ≠ .functors → w'.loop.batch = []) : Inv hand w' := by
  simp only [objects, Prod.mk.injEq] at ho
  obtain ⟨hp, hclients, hresets⟩ := ho
  apply h.relabel hp
  · rw [hclients]
    exact h.clients
  · rw [hclients]
    exact h.orphan
  · rw [hresets]
    exact fun _ hk => hk
  · exact hresets ▸ h.nodup
  · exact hl
  · exact hb

theorem inv_initial (h : Initial w) : Inv none w where
  tracks := by
    refine ⟨fun fd hfd => ⟨?_, h.interest fd hfd⟩, h.channels, h.index⟩
    cases hc : w.loop.poller.channels fd with
    | none => rfl
    | some x =>
      rw [h.channels fd x hc] at hfd
      cases hfd
  taken fd hfd := by cases hfd
  fds fd x _ hx := .other (h.fds fd x hx)
  conns c conn hc := by
    rw [h.conns c] at hc
    cases hc
  connecting k connector hk := by
    rw [h.connectors k] at hk
    cases hk
  clients k client connector _ hk := by
    rw [h.connectors k] at hk
    cases hk
  orphan k connector _ hk := by
    rw [h.connectors k] at hk
    cases hk
  fresh k _ := h.connectors k
  resets k hk := by simp [h.resets] at hk
  nodup := by simp [h.resets]
  batch _ := h.batch

/-- The channels in the poller are alive. -/
theorem Inv.live (h : Inv none w) {fd : ℕ} {x : ChannelId}
    (hx : w.loop.poller.channels fd = some x) : Live w x := by
  have hfds := h.tracks.channels fd x hx
  unfold Live
  obtain ⟨conn, hc, hf⟩ | ⟨k, connector, ch, hk, hs, hch, hid, hf⟩ | ho :=
    h.fds fd x (by simp) hfds
  · rw [(h.conns x conn hc).made]
    simp [hc]
  · rw [← hid, (h.connecting_channel hk hs hch).made]
    exact ⟨connector, ch, hk, hch, rfl⟩
  · rw [ho]
    trivial

/-! ### The steps of a connection -/

/-- Two open channels share neither address nor descriptor. -/
theorem apart_of_fds {fds : ℕ → Option ChannelId} {d : Channel} (hc : fds ch.fd = some ch.id)
    (hd : fds d.fd = some d.id) (hne : d.id ≠ ch.id) : Apart d ch := by
  constructor
  · exact hne
  · intro hfd
    rw [hfd, hc] at hd
    exact hne (Option.some.inj hd).symm

theorem ConnInv.fds_channel (h : ConnInv w c conn) :
    w.fds conn.channel.fd = some conn.channel.id := by
  rw [h.fds, h.channel]

/-- A connecting channel is no connection's. -/
theorem Connecting.id_ne (h : Connecting w k ch) (hc : ConnInv w c conn) : ch.id ≠ c := by
  intro hid
  have hmade := h.made
  rw [hid, hc.made] at hmade
  cases hmade

/-- What the work on a connection leaves alone. -/
structure SameRest (w w' : World) : Prop where
  id : w'.loop.id = w.loop.id
  connectors : w'.connectors = w.connectors
  clients : w'.clients = w.clients
  made : w'.made = w.made
  fds : w'.fds = w.fds
  nextClient : w'.nextClient = w.nextClient
  resets : w'.resets = w.resets

/-- A function of the connection `c` has run, and has led to the phase `p`. -/
theorem Inv.put {conn' : TcpConnection} {p : Phase} (h : Inv hand w) (hconn : w.conns c = some conn)
    (hq : SameBut conn.channel w.loop.poller w'.loop.poller) (hsame : SameObject conn conn')
    (hst : Stands p w'.loop conn') (hconns : w'.conns = Function.update w.conns c (some conn'))
    (hrest : SameRest w w') (hc : p = .up ∨ p = .closing ∧ Leaving w' c ∨ p = .destroyed)
    (hl : ∀ d, d ≠ c → Leaving w d → Leaving w' d)
    (hb : w'.loop.position ≠ .functors → w'.loop.batch = []) : Inv hand w' := by
  have hinv : ConnInv w c conn := h.conns c conn hconn
  have hchannel : w'.loop.poller.channels conn.channel.fd = (p.view conn'.channel).channels := by
    have hview := congrArg EPollPoller.View.channels hst.view
    rw [← hview, ← hsame.channel_fd]
    rfl
  have hself : ∀ x, w'.loop.poller.channels conn.channel.fd = some x → x = c := by
    intro x hx
    rw [hchannel] at hx
    obtain rfl | ⟨rfl, -⟩ | rfl := hc
    · have hx : some conn'.channel.id = some x := hx
      rw [hsame.channel_id, hinv.channel] at hx
      exact (Option.some.inj hx).symm
    · have hx : some conn'.channel.id = some x := hx
      rw [hsame.channel_id, hinv.channel] at hx
      exact (Option.some.inj hx).symm
    · cases hx
  -- the channels of the others are not touched
  have hview : ∀ d : Channel, w.fds d.fd = some d.id → d.id ≠ c →
      w'.loop.poller.view d = w.loop.poller.view d := by
    intro d hd hne
    exact hq d (apart_of_fds hinv.fds_channel hd (by rwa [hinv.channel]))
  exact {
    tracks := by
      apply h.tracks.touch hq
      · intro fd _
        rw [hrest.fds]
      · intro x hx
        rw [hrest.made] at hx
        refine ⟨hx, ?_⟩
        rintro rfl
        rw [hinv.channel, hinv.made] at hx
        cases hx
      · intro hfd
        rw [hrest.fds, hinv.fds] at hfd
        cases hfd
      · intro x hx
        rw [hrest.fds, hinv.fds, hself x hx]
    taken := by
      intro fd hfd
      obtain ⟨hnot, hch, hint⟩ := h.taken fd hfd
      have hne : conn.channel.fd ≠ fd := hnot c conn hconn
      obtain ⟨hch', hint'⟩ := hq.at_fd hne.symm
      refine ⟨?_, hch'.trans hch, hint'.trans hint⟩
      intro d connD hd
      rw [hconns] at hd
      obtain ⟨-, rfl⟩ | ⟨-, hd⟩ := PartialMap.of_insert hd
      · rwa [hsame.channel_fd]
      · exact hnot d connD hd
    fds := by
      intro fd x hfd hx
      rw [hrest.fds] at hx
      obtain ⟨connX, hX, hf⟩ | ⟨k, connector, ch, hk, hs, hch, hi, hf⟩ | ho := h.fds fd x hfd hx
      · by_cases hxc : x = c
        · subst hxc
          obtain rfl : conn = connX := Option.some.inj (hconn.symm.trans hX)
          exact .connection conn' (by simp [hconns]) (hsame.channel_fd.trans hf)
        · exact .connection connX (by simp [hconns, hxc, hX]) hf
      · exact .connector k connector ch (by rw [hrest.connectors, hk]) hs hch hi hf
      · exact .other (by rw [hrest.made, ho])
    conns := by
      intro d connD hd
      rw [hconns] at hd
      obtain ⟨rfl, rfl⟩ | ⟨hdc, hd⟩ := PartialMap.of_insert hd
      · exact {
          id := hsame.id.trans hinv.id
          channel := hsame.channel_id.trans hinv.channel
          fds := by rw [hrest.fds, hsame.channel_fd, hinv.fds]
          made := by rw [hrest.made, hsame.channel_fd, hinv.made]
          stands := ⟨p, hst, hc⟩ }
      · have hD : ConnInv w d connD := h.conns d connD hd
        exact hD.transport hrest.id (hview _ hD.fds_channel (by rwa [hD.channel]))
          (by rw [hrest.fds]) (by rw [hrest.made]) (hl d hdc)
    connecting := by
      intro k connector hk hs
      rw [hrest.connectors] at hk
      obtain ⟨ch, hch, hconnecting⟩ := h.connecting k connector hk hs
      exact ⟨ch, hch, hconnecting.transport hrest.id
        (hview _ hconnecting.fds (hconnecting.id_ne hinv)) (by rw [hrest.fds]) (by rw [hrest.made])⟩
    clients := by
      rw [hrest.clients, hrest.connectors]
      exact h.clients
    orphan := by
      rw [hrest.clients, hrest.connectors]
      exact h.orphan
    fresh := by
      rw [hrest.nextClient, hrest.connectors]
      exact h.fresh
    resets := by
      rw [hrest.resets, hrest.nextClient, hrest.connectors]
      exact h.resets
    nodup := hrest.resets ▸ h.nodup
    batch := hb }

theorem Leaving.frame {own : PendingFunctor → Prop} (h : Leaving w c)
    (hf : EventLoop.Frame ch own w.loop w'.loop) (hd : w.due = none ∨ w'.due = w.due) :
    Leaving w' c := by
  have hbatch : w'.loop.batch = w.loop.batch := by rw [hf.rest]
  obtain ⟨new, hnew, -⟩ := hf.pending
  unfold Leaving at h ⊢
  rw [hbatch, hnew]
  obtain hc | hr | hq := h
  · obtain hd | hd := hd
    · rw [hd] at hc
      cases hc
    · exact .inl (hd.trans hc)
  · obtain hd | hd := hd
    · rw [hd] at hr
      cases hr
    · exact .inr (.inl (hd.trans hr))
  · apply Or.inr ∘ Or.inr
    rw [← List.append_assoc]
    exact List.mem_append_left _ hq

theorem Inv.batch_frame {own : PendingFunctor → Prop} {loop : EventLoop PendingFunctor}
    (h : Inv hand w) (hf : EventLoop.Frame ch own w.loop loop)
    (hposition : loop.position ≠ .functors) :
    loop.batch = [] := by
  have hqueue : loop.position = w.loop.position ∧ loop.batch = w.loop.batch := by
    rw [hf.rest]
    exact ⟨rfl, rfl⟩
  exact hqueue.2.trans (h.batch (hqueue.1 ▸ hposition))

theorem Leaving.congr (h : Leaving w c) (hl : w'.loop = w.loop) (hd : w'.due = w.due) :
    Leaving w' c := by
  unfold Leaving at h ⊢
  rw [hl, hd]
  exact h

/-- A function of the connection `c` has run in the state `w`. -/
theorem Inv.work {loop : EventLoop PendingFunctor} {conn' : TcpConnection} {p : Phase}
    (h : Inv hand w) (hconn : w.conns c = some conn) (hr : Reaches p w.loop conn loop conn')
    (hw : w' = { w.put loop c conn' with inCallback := w'.inCallback, due := w'.due })
    (hp : p = .up ∨ p = .closing ∧ Leaving w' c ∨ p = .destroyed)
    (hd : w.due = none ∨ w'.due = w.due) : Inv hand w' := by
  have hloop : w'.loop = loop := by rw [hw]; rfl
  have hf : EventLoop.Frame conn.channel (PendingFunctor.IsCallback conn.id) w.loop w'.loop :=
    hloop ▸ hr.frame
  have hrest : SameRest w w' := by
    constructor
    · exact hf.id_eq
    all_goals
      rw [hw]
      rfl
  apply h.put hconn hf.poller hr.same (hloop ▸ hr.stands) (by rw [hw]; rfl) hrest hp
  · intro d _ hleaving
    exact hleaving.frame hf hd
  · exact h.batch_frame hf

theorem conn_avoids {e : Assertion} (he : .noConnection ≠ e) (w : World) (c : ConnId) :
    Avoids e (w.conn c) fun conn => w.conns c = some conn := by
  unfold World.conn
  cases hc : w.conns c with
  | some conn => exact avoids_ok rfl
  | none => exact avoids_error he

theorem client_avoids {e : Assertion} (he : .noClient ≠ e) (w : World) (k : ClientId) :
    Avoids e (w.client k) fun client => w.clients k = some client := by
  unfold World.client
  cases hc : w.clients k with
  | some client => exact avoids_ok rfl
  | none => exact avoids_error he

theorem connector_avoids {e : Assertion} (he : .noConnector ≠ e) (w : World) (k : ClientId) :
    Avoids e (w.connector k) fun connector => w.connectors k = some connector := by
  unfold World.connector
  cases hc : w.connectors k with
  | some connector => exact avoids_ok rfl
  | none => exact avoids_error he

theorem put_self (hconn : w.conns c = some conn) : w.put w.loop c conn = w := by
  simp [World.put, ← hconn]

/-- A connection that is alive is established or down. -/
theorem ConnInv.up_or_down (h : ConnInv w c conn) :
    Stands .up w.loop conn ∨ conn.state = .kDisconnected ∧ conn.channel.isWriting = false ∧
      ∃ p, Stands p w.loop conn ∧ (p = .closing ∧ Leaving w c ∨ p = .destroyed) := by
  obtain ⟨p, hst, hup | hdown⟩ := h.stands
  · exact .inl (hup ▸ hst)
  · right
    obtain ⟨rfl, hl⟩ | rfl := hdown
    · exact ⟨hst.holds.1, Phase.holds_isWriting hst.holds (by simp), _, hst, .inl ⟨rfl, hl⟩⟩
    · exact ⟨hst.holds.1, Phase.holds_isWriting hst.holds (by simp), _, hst, .inr rfl⟩

theorem inv_userCall (h : Inv hand w) (c : ConnId) (u : UserCall) :
    Avoids .epollUpdateAbsent (w.userCall c u) (Inv hand) := by
  apply (conn_avoids (by simp) w c).bind
  intro conn hconn
  obtain hup | ⟨hs, -⟩ := (h.conns c conn hconn).up_or_down
  · apply (TcpConnection.userCall_up hup u).avoids.bind
    intro r hr
    exact avoids_ok (h.work hconn hr.1 rfl (.inl rfl) (.inr rfl))
  · rw [TcpConnection.userCall_quiet (by simp [hs]), ok_bind]
    apply avoids_ok
    rw [put_self hconn]
    exact h

/-- A connection is closed once. -/
theorem conn_handleClose_down (l : EventLoop PendingFunctor) (hs : conn.state = .kDisconnected) :
    Avoids .epollUpdateAbsent (conn.handleClose l) fun _ => False := by
  apply (avoids_assert (by simp)).bind
  intro _ _
  apply (avoids_assert (by simp)).bind
  intro _ hstate
  simp [hs] at hstate

theorem inv_handleClose (h : Inv hand w) (hdue : w.due = none) (c : ConnId) :
    Avoids .epollUpdateAbsent (w.handleClose c) (Inv hand) := by
  apply (conn_avoids (by simp) w c).bind
  intro conn hconn
  obtain hup | ⟨hs, -⟩ := (h.conns c conn hconn).up_or_down
  · apply (TcpConnection.handleClose_spec hup).avoids.bind
    intro r hr
    exact avoids_ok (h.work hconn hr rfl (.inr (.inl ⟨rfl, .inl rfl⟩)) (.inl hdue))
  · exact (conn_handleClose_down w.loop hs).bind fun _ hfalse => hfalse.elim

/-- A connection that is down may still be given data. -/
theorem conn_handleRead_down (l : EventLoop PendingFunctor) (hs : conn.state = .kDisconnected)
    (r : ReadResult) : Avoids .epollUpdateAbsent (conn.handleRead l r) fun x =>
      x.1 = l ∧ ∃ inputBuffer, x.2.1 = { conn with inputBuffer } ∧ x.2.2 ≠ .closed := by
  apply (avoids_assert (by simp)).bind
  intro _ _
  cases r with
  | fails errno => exact avoids_ok ⟨rfl, conn.inputBuffer, rfl, by simp⟩
  | delivers data =>
    dsimp only
    split
    · obtain ⟨inputBuffer, hread, -⟩ := conn.inputBuffer.readFd_spec data
      rw [hread, ok_bind]
      exact avoids_ok ⟨rfl, inputBuffer, rfl, by simp⟩
    · exact (conn_handleClose_down l hs).bind fun _ hfalse => hfalse.elim

theorem inv_handleRead (h : Inv hand w) (hdue : w.due = none) (c : ConnId) (r : ReadResult) :
    Avoids .epollUpdateAbsent (w.handleRead c r) (Inv hand) := by
  apply (conn_avoids (by simp) w c).bind
  intro conn hconn
  obtain hup | ⟨hs, -, p, hst, hp⟩ := (h.conns c conn hconn).up_or_down
  · apply (TcpConnection.handleRead_spec hup r).avoids.bind
    rintro ⟨loop, conn', outcome⟩ hr
    cases outcome with
    | message => exact avoids_ok (h.work hconn hr rfl (.inl rfl) (.inl hdue))
    | closed => exact avoids_ok (h.work hconn hr rfl (.inr (.inl ⟨rfl, .inl rfl⟩)) (.inl hdue))
    | error => exact avoids_ok (h.work hconn hr rfl (.inl rfl) (.inr rfl))
  · apply (conn_handleRead_down w.loop hs r).bind
    rintro ⟨loop, conn', outcome⟩ ⟨rfl, inputBuffer, rfl, houtcome⟩
    have hreaches : Reaches p w.loop conn w.loop { conn with inputBuffer } := by
      refine ⟨.refl _ _ w.loop, ⟨rfl, rfl, rfl, rfl⟩, hst.loop, hst.ownerLoop, ?_, hst.view⟩
      obtain ⟨rfl, -⟩ | rfl := hp
      · exact hst.holds
      · exact hst.holds
    have hphase : ∀ w' : World, w'.loop = w.loop → w'.due = w.due →
        p = .up ∨ p = .closing ∧ Leaving w' c ∨ p = .destroyed := by
      intro w' hloop hd
      obtain ⟨hclosing, hleaving⟩ | hdestroyed := hp
      · exact .inr (.inl ⟨hclosing, hleaving.congr hloop hd⟩)
      · exact .inr (.inr hdestroyed)
    cases outcome with
    | message =>
      exact avoids_ok (h.work hconn hreaches rfl (hphase _ rfl hdue.symm) (.inl hdue))
    | closed => exact absurd rfl houtcome
    | error => exact avoids_ok (h.work hconn hreaches rfl (hphase _ rfl rfl) (.inr rfl))

theorem inv_handleWriteConnection (h : Inv hand w) (c : ConnId) (r : WriteResult) :
    Avoids .epollUpdateAbsent (w.handleWriteConnection c r) (Inv hand) := by
  apply (conn_avoids (by simp) w c).bind
  intro conn hconn
  obtain hup | ⟨-, hw, p, hst, -⟩ := (h.conns c conn hconn).up_or_down
  · apply (TcpConnection.handleWrite_up hup r).avoids.bind
    intro x hx
    exact avoids_ok (h.work hconn hx rfl (.inl rfl) (.inr rfl))
  · rw [TcpConnection.handleWrite_quiet hst.loop hw, ok_bind]
    apply avoids_ok
    rw [put_self hconn]
    exact h

theorem inv_runTest (h : Inv hand w) (hdue : w.due = none) (c : ConnId) (t : Test)
    (r : ReadResult) (wr : WriteResult) :
    Avoids .epollUpdateAbsent (w.runTest c t r wr) (Inv hand) := by
  cases t with
  | close =>
    simp only [World.runTest]
    split
    · exact inv_handleClose h hdue c
    · exact avoids_ok h
  | error => exact avoids_ok h
  | read =>
    simp only [World.runTest]
    split
    · exact inv_handleRead h hdue c r
    · exact avoids_ok h
  | write =>
    simp only [World.runTest]
    split
    · exact inv_handleWriteConnection h c wr
    · exact avoids_ok h

/-- `channel_->remove()` completes for a closed connection only, and once. -/
theorem conn_removeChannel {l : EventLoop PendingFunctor} {p : Phase} (h : Stands p l conn)
    (hp : p = .up ∨ p = .closing ∨ p = .destroyed) :
    Avoids .epollUpdateAbsent (conn.removeChannel l) fun r =>
      Reaches .destroyed l conn r.1 r.2 := by
  by_cases hup : p = .up
  · subst hup
    unfold TcpConnection.removeChannel
    rw [l.removeChannel_interested h.holds.2.isNoneEvent]
    exact avoids_error (by simp)
  · have hnone : conn.channel.isNoneEvent = true := by
      obtain rfl | rfl | rfl := hp
      · exact absurd rfl hup
      · exact h.holds.2
      · exact h.holds.2
    by_cases hr : l.Removable conn.channel.id
    · obtain rfl | rfl | rfl := hp
      · exact absurd rfl hup
      · exact (TcpConnection.removeChannel_spec h (.inl rfl) hr).avoids
      · unfold TcpConnection.removeChannel
        rw [l.removeChannel_eq hnone h.ownerLoop hr, EPollPoller.removeChannel_absent h.view]
        exact avoids_error (by simp)
    · unfold TcpConnection.removeChannel
      rw [l.removeChannel_active hnone h.ownerLoop hr]
      exact avoids_error (by simp)

theorem ConnInv.phase (h : ConnInv w c conn) :
    ∃ p, Stands p w.loop conn ∧ (p = .up ∨ p = .closing ∨ p = .destroyed) := by
  obtain ⟨p, hst, hp | ⟨hp, -⟩ | hp⟩ := h.stands
  · exact ⟨p, hst, .inl hp⟩
  · exact ⟨p, hst, .inr (.inl hp)⟩
  · exact ⟨p, hst, .inr (.inr hp)⟩

/-- What is queued stays queued; who is not `c` leaves no sooner. -/
theorem Leaving.due_of_ne {d : ConnId} {due : Due} (h : Leaving w d) (hdue : w.due = some due)
    (hne : d ≠ due.conn) (hf : EventLoop.Frame ch (PendingFunctor.IsCallback c) w.loop w'.loop) :
    Leaving w' d := by
  have hqueued : Leaving { w with due := none } d := by
    obtain hc | hr | hq := h
    · rw [hdue] at hc
      exact absurd (congrArg Due.conn (Option.some.inj hc)).symm hne
    · rw [hdue] at hr
      exact absurd (congrArg Due.conn (Option.some.inj hr)).symm hne
    · exact .inr (.inr hq)
  exact hqueued.frame hf (.inl rfl)

/-- The last line of `connectDestroyed`, after the user callback. -/
theorem inv_removeChannel (h : Inv hand w) (hdue : w.due = some (.removeChannel c)) :
    Avoids .epollUpdateAbsent ({ w with due := none }.removeChannel c) (Inv hand) := by
  apply (conn_avoids (by simp) { w with due := none } c).bind
  intro conn hconn
  obtain ⟨p, hst, hp⟩ := (h.conns c conn hconn).phase
  apply (conn_removeChannel hst hp).bind
  rintro ⟨loop, conn'⟩ hr
  apply avoids_ok
  refine h.put hconn hr.frame.poller hr.same hr.stands rfl
    ⟨hr.frame.id_eq, rfl, rfl, rfl, rfl, rfl, rfl⟩ (.inr (.inr rfl)) ?_ ?_
  · intro d hne hleaving
    exact hleaving.due_of_ne hdue hne hr.frame
  · exact h.batch_frame hr.frame

/-- `connectDestroyed` completes for a closed connection, or closes one that is connected. -/
theorem conn_connectDestroyed {l : EventLoop PendingFunctor} {p : Phase} (h : Stands p l conn)
    (hp : p = .up ∨ p = .closing ∨ p = .destroyed) :
    Avoids .epollUpdateAbsent (conn.connectDestroyed l) fun r =>
      Reaches (if r.2.2 then .closing else .destroyed) l conn r.1 r.2.1 := by
  by_cases hs : conn.state = .kConnected
  · obtain rfl | hdown := hp
    · apply (TcpConnection.connectDestroyed_connected h hs).avoids.mono
      intro r hr
      rw [if_pos hr.1]
      exact hr.2
    · have hdisconnected : conn.state = .kDisconnected := by
        obtain rfl | rfl := hdown
        · exact h.holds.1
        · exact h.holds.1
      rw [hs] at hdisconnected
      cases hdisconnected
  · rw [TcpConnection.connectDestroyed_of_ne h.loop hs]
    apply (conn_removeChannel h hp).bind
    intro r hr
    exact avoids_ok hr

/-- The functor `connectDestroyed` of `c` is taken from the batch and run. -/
theorem inv_connectDestroyed {rest ran : List PendingFunctor} (h : Inv hand w)
    (hdue : w.due = none) (hposition : w.loop.position = .functors)
    (hbatch : w.loop.batch = .connectDestroyed c :: rest) :
    Avoids .epollUpdateAbsent ({ w with loop := w.loop.take rest, ran }.connectDestroyed c)
      (Inv hand) := by
  apply (conn_avoids (by simp) { w with loop := w.loop.take rest, ran } c).bind
  intro conn hconn
  obtain ⟨p, hst, hp⟩ := (h.conns c conn hconn).phase
  have htake : Stands p (w.loop.take rest) conn := ⟨hst.loop, hst.ownerLoop, hst.holds, hst.view⟩
  apply (conn_connectDestroyed htake hp).bind
  rintro ⟨loop, conn', inCallback⟩ hr
  -- of the others, no functor has been taken
  have hothers : ∀ d w', d ≠ c → Leaving w d → w'.loop = loop → Leaving w' d := by
    intro d w' hne hleaving hloop
    have hqueued : Leaving { w with loop := w.loop.take rest } d := by
      obtain hc | hr | hq := hleaving
      · rw [hdue] at hc
        cases hc
      · rw [hdue] at hr
        cases hr
      · rw [hbatch, List.cons_append, List.mem_cons] at hq
        obtain hq | hq := hq
        · cases hq
          exact absurd rfl hne
        · exact .inr (.inr hq)
    exact hqueued.frame (hloop ▸ hr.frame) (.inl hdue)
  have hfunctors : loop.position = .functors :=
    (congrArg EventLoop.position hr.frame.rest).trans hposition
  apply avoids_ok
  cases inCallback with
  | true =>
    refine h.put hconn hr.frame.poller hr.same hr.stands rfl
      ⟨hr.frame.id_eq, rfl, rfl, rfl, rfl, rfl, rfl⟩ (.inr (.inl ⟨rfl, .inr (.inl rfl)⟩)) ?_ ?_
    · exact fun d hne hleaving => hothers d _ hne hleaving rfl
    · exact fun hne => absurd hfunctors hne
  | false =>
    refine h.put hconn hr.frame.poller hr.same hr.stands rfl
      ⟨hr.frame.id_eq, rfl, rfl, rfl, rfl, rfl, rfl⟩ (.inr (.inr rfl)) ?_ ?_
    · exact fun d hne hleaving => hothers d _ hne hleaving rfl
    · exact fun hne => absurd hfunctors hne

end TcpClient
end Muduo

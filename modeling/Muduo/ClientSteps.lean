import Muduo.ClientInvariant

/-!
# The steps of a client and of its connector

A handler of the connector closes the descriptor of its channel, or hands it on to the
connection that it makes. In between the descriptor belongs to nobody, and is in the poller no
longer.
-/
namespace Muduo
open StepSystem
open Connector (kMaxRetryDelayMs)

namespace TcpClient
open EPollPoller (SameBut Apart)
open TcpConnection (Stands Reaches SameObject)

variable {hand : Option ℕ} {w w' : World} {k : ClientId} {c : ConnId} {conn : TcpConnection}
  {connector : Connector} {ch : Channel}

/-! ### The steps of a connector -/

theorem Inv.setConnector {connector' : Connector} (h : Inv hand w)
    (hk : w.connectors k = some connector)
    (hsame : connector.state = .kConnecting ∨ connector'.state = .kConnecting →
      connector'.state = connector.state ∧ connector'.channel = connector.channel)
    (hclient : ∀ client, w.clients k = some client → client.connection ≠ none →
      connector'.state = .kConnected)
    (horphan : w.clients k = none → connector'.state = .kConnected ∨
      connector'.state = .kDisconnected ∧ connector'.connect = false)
    (hreset : connector'.channel = connector.channel ∨ k ∉ w.resets) :
    Inv hand (w.setConnector k connector') where
  tracks := h.tracks
  taken := h.taken
  fds fd x hfd hx := by
    obtain ⟨conn, hc, hf⟩ | ⟨j, con, ch, hj, hs, hch, hid, hf⟩ | ho := h.fds fd x hfd hx
    · exact .connection conn hc hf
    · by_cases hjk : j = k
      · subst hjk
        obtain rfl : connector = con := Option.some.inj (hk.symm.trans hj)
        obtain ⟨hs', hch'⟩ := hsame (.inl hs)
        exact .connector j connector' ch (by simp [World.setConnector]) (hs'.trans hs)
          (hch'.trans hch) hid hf
      · exact .connector j con ch (by simp [World.setConnector, hjk, hj]) hs hch hid hf
    · exact .other ho
  conns c conn hc := (h.conns c conn hc).transport rfl rfl rfl rfl id
  connecting j con hj hs := by
    obtain ⟨rfl, rfl⟩ | ⟨-, hj⟩ := PartialMap.of_insert hj
    · obtain ⟨hs', hch'⟩ := hsame (.inr hs)
      obtain ⟨ch, hch, hconnecting⟩ := h.connecting j connector hk (hs'.symm.trans hs)
      exact ⟨ch, hch'.trans hch, hconnecting.transport rfl rfl rfl rfl⟩
    · obtain ⟨ch, hch, hconnecting⟩ := h.connecting j con hj hs
      exact ⟨ch, hch, hconnecting.transport rfl rfl rfl rfl⟩
  clients j client con hj hc hne := by
    obtain ⟨rfl, rfl⟩ | ⟨-, hc⟩ := PartialMap.of_insert hc
    · exact hclient client hj hne
    · exact h.clients j client con hj hc hne
  orphan j con hj hc := by
    obtain ⟨rfl, rfl⟩ | ⟨-, hc⟩ := PartialMap.of_insert hc
    · exact horphan hj
    · exact h.orphan j con hj hc
  fresh j hj := by
    have hjk : j ≠ k := ((h.lt_nextClient hk).trans_le hj).ne'
    simpa [World.setConnector, hjk] using h.fresh j hj
  resets j hj := by
    obtain ⟨hlt, hcon⟩ := h.resets j hj
    refine ⟨hlt, ?_⟩
    intro con hc
    obtain ⟨rfl, rfl⟩ | ⟨-, hc⟩ := PartialMap.of_insert hc
    · obtain ⟨hs, hch⟩ := hcon connector hk
      refine ⟨fun hs' => hs ((hsame (.inr hs')).1 ▸ hs'), ?_⟩
      obtain hreset | hnot := hreset
      · rwa [hreset]
      · exact absurd hj hnot
    · exact hcon con hc
  nodup := h.nodup
  batch := h.batch

/-- No object is on the descriptor `fd`. -/
structure Unowned (w : World) (fd : ℕ) : Prop where
  channels : w.loop.poller.channels fd = none
  interest : w.loop.poller.interest fd = none
  conns : ∀ c conn, w.conns c = some conn → conn.channel.fd ≠ fd
  connecting : ∀ k ch, Connecting w k ch → ch.fd ≠ fd

theorem Inv.unowned {fd : ℕ} (h : Inv hand w) (hfd : fd ∈ hand ∨ w.fds fd = none) :
    Unowned w fd := by
  have hpoller : w.loop.poller.channels fd = none ∧ w.loop.poller.interest fd = none := by
    obtain hfd | hfd := hfd
    · exact (h.taken fd hfd).2
    · exact h.tracks.closed fd hfd
  refine ⟨hpoller.1, hpoller.2, ?_, ?_⟩
  · rintro c conn hc rfl
    have hconn : ConnInv w c conn := h.conns c conn hc
    obtain hfd | hfd := hfd
    · exact (h.taken _ hfd).1 c conn hc rfl
    · rw [hconn.fds] at hfd
      cases hfd
  · rintro k ch hch rfl
    have hchannels : w.loop.poller.channels ch.fd = some ch.id :=
      congrArg EPollPoller.View.channels hch.view
    rw [hpoller.1] at hchannels
    cases hchannels

/-- A descriptor that is on no object is closed. -/
theorem Inv.close {fd : ℕ} (h : Inv hand w) (hfd : hand = some fd ∨ hand = none ∧ w.fds fd = none) :
    Inv none (w.close fd) := by
  have hunowned : Unowned w fd := by
    obtain rfl | ⟨-, hnone⟩ := hfd
    · exact h.unowned (.inl rfl)
    · exact h.unowned (.inr hnone)
  have hinterest : Function.update w.loop.poller.interest fd none = w.loop.poller.interest := by
    rw [← hunowned.interest, Function.update_eq_self]
  have hview : ∀ d, (w.close fd).loop.poller.view d = w.loop.poller.view d := by
    intro d
    simp only [World.close, EPollPoller.view, hinterest]
  have hfds : ∀ fd', fd' ≠ fd → (w.close fd).fds fd' = w.fds fd' := by
    intro fd' hne
    simp [World.close, hne]
  exact {
    tracks := by
      constructor
      · intro fd' hfd'
        simp only [World.close, hinterest]
        by_cases hne : fd' = fd
        · exact hne ▸ ⟨hunowned.channels, hunowned.interest⟩
        · exact h.tracks.closed fd' (hfds fd' hne ▸ hfd')
      · intro fd' x hx
        have hne : fd' ≠ fd := by
          rintro rfl
          have hnone := hunowned.channels
          simp only [World.close] at hx
          rw [hnone] at hx
          cases hx
        exact (hfds fd' hne).trans (h.tracks.channels fd' x hx)
      · exact h.tracks.index
    taken := by
      intro fd' hfd'
      cases hfd'
    fds := by
      intro fd' x _ hx
      have hne : fd' ≠ fd := by
        rintro rfl
        simp [World.close] at hx
      rw [hfds fd' hne] at hx
      have hhand : fd' ∉ hand := by
        obtain rfl | ⟨rfl, -⟩ := hfd
        · simpa using fun he => hne he.symm
        · simp
      obtain ⟨conn, hc, hf⟩ | ⟨k, connector, ch, hk, hs, hch, hid, hf⟩ | ho := h.fds fd' x hhand hx
      · exact .connection conn hc hf
      · exact .connector k connector ch hk hs hch hid hf
      · exact .other ho
    conns := by
      intro c conn hc
      exact (h.conns c conn hc).transport rfl (hview _) (hfds _ (hunowned.conns c conn hc)) rfl id
    connecting := by
      intro k connector hk hs
      obtain ⟨ch, hch, hconnecting⟩ := h.connecting k connector hk hs
      have hfd : ch.fd ≠ fd := hunowned.connecting k ch hconnecting
      exact ⟨ch, hch, hconnecting.transport rfl (hview _) (hfds _ hfd) rfl⟩
    clients := h.clients
    orphan := h.orphan
    fresh := h.fresh
    resets := h.resets
    nodup := h.nodup
    batch := h.batch }

/-- The descriptor of an attempt has been closed, and the connector is disconnected. -/
structure Retried (w : World) (k : ClientId) (connector : Connector) (w' : World) : Prop where
  inv : Inv none w'
  connector : ∃ connector', w'.connectors k = some connector' ∧
    connector'.state = .kDisconnected ∧ connector'.connect = connector.connect
  clients : w'.clients = w.clients
  made : w'.made = w.made
  due : w'.due = w.due
  pending : w'.loop.pendingFunctors = w.loop.pendingFunctors

theorem inv_retry {fd : ℕ} (hk : w.connectors k = some connector)
    (h : ∀ connector' : Connector, connector'.state = .kDisconnected →
      connector'.connect = connector.connect → connector'.channel = connector.channel →
      Inv hand (w.setConnector k connector'))
    (hfd : hand = some fd ∨ hand = none ∧ w.fds fd = none) :
    Avoids .epollUpdateAbsent (w.retry k fd) (Retried w k connector) := by
  unfold World.retry
  apply (connector_avoids (by simp) (w.close fd) k).bind
  intro con hcon
  obtain rfl : connector = con := Option.some.inj (hk.symm.trans hcon)
  dsimp only
  split
  · apply avoids_ok
    let next : Connector := { connector with
      state := .kDisconnected
      retryDelayMs := min (connector.retryDelayMs * 2) kMaxRetryDelayMs }
    have hclosed := (h next rfl rfl rfl).close hfd
    exact {
      inv := hclosed.same rfl (fun _ hl => hl) hclosed.batch
      connector := ⟨next, by simp [World.setConnector, next], rfl, rfl⟩
      clients := rfl
      made := rfl
      due := rfl
      pending := rfl }
  · apply avoids_ok
    let next : Connector := { connector with state := .kDisconnected }
    exact {
      inv := (h next rfl rfl rfl).close hfd
      connector := ⟨next, by simp [World.setConnector, next], rfl, rfl⟩
      clients := rfl
      made := rfl
      due := rfl
      pending := rfl }

/-- The poller has been told of the new channel `ch`. -/
structure Registers (w w' : World) (owner : Owner) (ch : Channel) : Prop where
  poller : SameBut ch w.loop.poller w'.loop.poller
  channels : w'.loop.poller.channels ch.fd = some ch.id
  id : w'.loop.id = w.loop.id
  fds : w'.fds = Function.update w.fds ch.fd (some ch.id)
  made : w'.made = Function.update w.made ch.id (some (owner, ch.fd))
  nextClient : w'.nextClient = w.nextClient
  resets : w'.resets = w.resets
  leaving : ∀ c, Leaving w c → Leaving w' c
  batch : w'.loop.position ≠ .functors → w'.loop.batch = []

section
variable {owner : Owner} (hr : Registers w w' owner ch) (hfd : Unowned w ch.fd)
  (hid : w.made ch.id = none)
include hr hfd hid

theorem Registers.connInv (hc : w.conns c = some conn) (h : ConnInv w c conn) :
    ConnInv w' c conn := by
  have hne : conn.channel.fd ≠ ch.fd := hfd.conns c conn hc
  have hidne : c ≠ ch.id := by
    rintro rfl
    rw [h.made] at hid
    cases hid
  have hview : w'.loop.poller.view conn.channel = w.loop.poller.view conn.channel :=
    hr.poller _ ⟨by rwa [h.channel], hne⟩
  apply h.transport hr.id hview
  · simp [hr.fds, hne]
  · simp [hr.made, hidne]
  · exact hr.leaving c

theorem Registers.connecting {d : Channel} (h : Connecting w k d) : Connecting w' k d := by
  have hne : d.fd ≠ ch.fd := hfd.connecting k d h
  have hidne : d.id ≠ ch.id := by
    intro he
    rw [← he, h.made] at hid
    cases hid
  apply h.transport hr.id (hr.poller d ⟨hidne, hne⟩)
  · simp [hr.fds, hne]
  · simp [hr.made, hidne]

omit hfd hid in
theorem Registers.tracks (h : Tracks w.loop.poller w.fds w.made) :
    Tracks w'.loop.poller w'.fds w'.made := by
  apply h.touch hr.poller
  · intro fd hne
    simp [hr.fds, hne]
  · intro x hx
    rw [hr.made] at hx
    by_cases he : x = ch.id
    · simp [he] at hx
    · exact ⟨by simpa [he] using hx, he⟩
  · intro hnone
    simp [hr.fds] at hnone
  · intro x hx
    rw [hr.channels] at hx
    simpa [hr.fds] using hx

omit hfd in
theorem Registers.opens {fd : ℕ} {x : ChannelId} (h : Opens w fd x)
    (hconns : ∀ c conn, w.conns c = some conn → w'.conns c = some conn)
    (hconnectors : ∀ k connector, w.connectors k = some connector →
      connector.state = .kConnecting → w'.connectors k = some connector) : Opens w' fd x := by
  obtain ⟨conn, hc, hf⟩ | ⟨k, connector, d, hk, hs, hch, hi, hf⟩ | ho := h
  · exact .connection conn (hconns x conn hc) hf
  · exact .connector k connector d (hconnectors k connector hk hs) hs hch hi hf
  · have hne : x ≠ ch.id := by
      rintro rfl
      rw [ho] at hid
      cases hid
    exact .other (by simp [hr.made, hne, ho])

end

/-- The poller does not know a channel that is made on an unowned descriptor. -/
theorem Inv.view_new {fd : ℕ} {x : ChannelId} (h : Inv hand w) (hfd : Unowned w fd)
    (hid : w.made x = none) (l : LoopId) :
    w.loop.poller.view (.new x l fd) = EPollPoller.absent :=
  EPollPoller.View.ext (h.tracks.index x hid) hfd.channels hfd.interest

/-- The client of a connector that may yet connect is there, and has no connection. -/
theorem Inv.client_of_connector (h : Inv hand w) (hk : w.connectors k = some connector)
    (hs : connector.state ≠ .kConnected)
    (hconnect : connector.state = .kDisconnected → connector.connect = true) :
    ∃ client, w.clients k = some client ∧ client.connection = none := by
  cases hc : w.clients k with
  | none =>
    obtain hst | ⟨hst, hfalse⟩ := h.orphan k connector hc hk
    · exact absurd hst hs
    · rw [hconnect hst] at hfalse
      cases hfalse
  | some client =>
    refine ⟨client, rfl, ?_⟩
    by_contra hne
    exact hs (h.clients k client connector hc hk hne)

/-- The connector of a client without a connection may change as it likes. -/
theorem Inv.change_connector {connector' : Connector} {client : TcpClient} (h : Inv hand w)
    (hk : w.connectors k = some connector) (hclient : w.clients k = some client)
    (hnone : client.connection = none)
    (hconnectors : w'.connectors = Function.update w.connectors k (some connector'))
    (hclients : w'.clients = w.clients) :
    (∀ j client con, w'.clients j = some client → w'.connectors j = some con →
      client.connection ≠ none → con.state = .kConnected) ∧
    (∀ j con, w'.clients j = none → w'.connectors j = some con →
      con.state = .kConnected ∨ con.state = .kDisconnected ∧ con.connect = false) ∧
    ∀ j, w.nextClient ≤ j → w'.connectors j = none := by
  rw [hclients, hconnectors]
  refine ⟨?_, ?_, ?_⟩
  · intro j client' con hj hcon hne
    obtain ⟨rfl, -⟩ | ⟨-, hcon⟩ := PartialMap.of_insert hcon
    · obtain rfl : client = client' := Option.some.inj (hclient.symm.trans hj)
      exact absurd hnone hne
    · exact h.clients j client' con hj hcon hne
  · intro j con hj hcon
    obtain ⟨rfl, -⟩ | ⟨-, hcon⟩ := PartialMap.of_insert hcon
    · rw [hclient] at hj
      cases hj
    · exact h.orphan j con hj hcon
  · intro j hj
    have hjk : j ≠ k := ((h.lt_nextClient hk).trans_le hj).ne'
    rw [Function.update_of_ne hjk, h.fresh j hj]

/-- A connector has registered the channel of a new attempt. -/
theorem Inv.attempt {connector' : Connector} {client : TcpClient} (h : Inv none w)
    (hr : Registers w w' (.connector k) ch) (hfd : w.fds ch.fd = none) (hid : w.made ch.id = none)
    (hview : w'.loop.poller.view ch = EPollPoller.added ch) (hinterest : ch.isNoneEvent = false)
    (hownerLoop : ch.ownerLoop = w'.loop.id) (hconns : w'.conns = w.conns)
    (hconnectors : w'.connectors = Function.update w.connectors k (some connector'))
    (hch : connector'.channel = some ch) (hs' : connector'.state = .kConnecting)
    (hclients : w'.clients = w.clients) (hk : w.connectors k = some connector)
    (hs : connector.state = .kDisconnected) (hnochannel : connector.channel = none)
    (hclient : w.clients k = some client) (hnone : client.connection = none) : Inv none w' := by
  have hunowned : Unowned w ch.fd := h.unowned (.inr hfd)
  obtain ⟨hkeep, horphan, hfresh⟩ := h.change_connector hk hclient hnone hconnectors hclients
  have hself : w'.connectors k = some connector' := by simp [hconnectors]
  have hothers : ∀ j, j ≠ k → w'.connectors j = w.connectors j := by
    intro j hjk
    simp [hconnectors, hjk]
  exact {
    tracks := hr.tracks h.tracks
    taken := by
      intro fd hfd
      cases hfd
    fds := by
      intro fd x _ hx
      rw [hr.fds] at hx
      obtain ⟨he, hid'⟩ | ⟨he, hx⟩ := PartialMap.of_insert hx
      · exact .connector k connector' ch hself hs' hch hid'.symm he.symm
      · apply hr.opens hid (h.fds fd x (by simp) hx)
        · intro c conn hc
          rw [hconns, hc]
        · intro j con hj hcon
          have hjk : j ≠ k := by
            rintro rfl
            rw [hk] at hj
            rw [← Option.some.inj hj, hs] at hcon
            cases hcon
          rw [hothers j hjk, hj]
    conns := by
      intro c conn hc
      rw [hconns] at hc
      exact hr.connInv hunowned hid hc (h.conns c conn hc)
    connecting := by
      intro j con hj hcon
      by_cases hjk : j = k
      · subst hjk
        obtain rfl : connector' = con := Option.some.inj (hself.symm.trans hj)
        exact ⟨ch, hch, hownerLoop, hinterest, hview, by simp [hr.fds], by simp [hr.made]⟩
      · rw [hothers j hjk] at hj
        obtain ⟨d, hd, hconnecting⟩ := h.connecting j con hj hcon
        exact ⟨d, hd, hr.connecting hunowned hid hconnecting⟩
    clients := hkeep
    orphan := horphan
    fresh := by
      rw [hr.nextClient]
      exact hfresh
    resets := by
      intro j hj
      rw [hr.resets] at hj
      obtain ⟨hlt, hcon⟩ := h.resets j hj
      have hjk : j ≠ k := by
        rintro rfl
        exact (hcon connector hk).2 hnochannel
      rw [hr.nextClient, hothers j hjk]
      exact ⟨hlt, hcon⟩
    nodup := hr.resets ▸ h.nodup
    batch := hr.batch }

/-- A new attempt of a connector that is disconnected, and whose client has no connection. -/
theorem inv_connecting {a : Attempt} {client : TcpClient} (h : Inv none w) (ha : Unused w a)
    (hk : w.connectors k = some connector) (hs : connector.state = .kDisconnected)
    (hclient : w.clients k = some client) (hnone : client.connection = none) :
    Avoids .epollUpdateAbsent (w.connecting k a) fun w' =>
      Inv none w' ∧ w'.loop.pendingFunctors = w.loop.pendingFunctors := by
  have hunowned : Unowned w a.sockfd := h.unowned (.inr ha.1)
  let old : Channel := .new a.id w.loop.id a.sockfd
  let ch := old.set .enableWriting
  have hinterest : ch.isNoneEvent = false :=
    Channel.isNoneEvent_of_isWriting (Channel.isWriting_enableWriting old)
  have hsettled : w.loop.poller.Settled old :=
    .inr ⟨by simp [old, Channel.new, Channel.isNoneEvent], h.view_new hunowned ha.2 w.loop.id⟩
  have hupdate : w.loop.updateChannel ch =
      .ok { w.loop with poller := w.loop.poller.put ch (EPollPoller.registered ch) } :=
    w.loop.updateChannel_settled hsettled rfl rfl rfl (.inr hinterest)
  rw [EPollPoller.registered_of_interest hinterest] at hupdate
  unfold World.connecting
  apply (connector_avoids (by simp) w k).bind
  intro con hcon
  obtain rfl : connector = con := Option.some.inj (hk.symm.trans hcon)
  apply (avoids_assert (by simp)).bind
  intro _ hnochannel
  dsimp only
  rw [hupdate, ok_bind]
  apply avoids_ok
  have hview := @EPollPoller.view_put_self w.loop.poller ch (EPollPoller.added ch)
  have hchannels := congrArg EPollPoller.View.channels hview
  refine ⟨?_, rfl⟩
  exact h.attempt ⟨EPollPoller.sameBut_put _, hchannels, rfl, rfl, rfl, rfl, rfl, fun _ hl => hl,
    h.batch⟩ ha.1 ha.2 hview hinterest rfl rfl rfl rfl rfl rfl hk hs hnochannel hclient hnone

theorem inv_startInLoop (h : Inv none w) {a : Attempt} (ha : Unused w a) (k : ClientId) :
    Avoids .epollUpdateAbsent (w.startInLoop k a) fun w' =>
      Inv none w' ∧ w'.loop.pendingFunctors = w.loop.pendingFunctors := by
  unfold World.startInLoop
  apply (connector_avoids (by simp) w k).bind
  intro connector hk
  apply (avoids_assert (by simp)).bind
  intro _ hs
  split
  · rename_i hconnect
    -- only a client without a connection has a connector that may connect
    obtain ⟨client, hclient, hnone⟩ :=
      h.client_of_connector hk (by simp [hs]) fun _ => hconnect
    unfold World.connectSocket
    cases a.outcome with
    | connecting => exact inv_connecting h ha hk hs hclient hnone
    | retry =>
      refine (inv_retry hk ?_ (.inr ⟨rfl, ha.1⟩)).mono fun _ hr => ⟨hr.inv, hr.pending⟩
      intro connector' hs' _ hch'
      refine h.setConnector hk ?_ ?_ ?_ (.inl hch')
      · intro hc
        rw [hs, hs'] at hc
        simp at hc
      · intro client' hclient' hne
        rw [hclient] at hclient'
        exact absurd (Option.some.inj hclient' ▸ hnone) hne
      · intro hnone'
        rw [hclient] at hnone'
        cases hnone'
    | error => exact avoids_ok ⟨h.close (.inr ⟨rfl, ha.1⟩), rfl⟩
  · exact avoids_ok ⟨h, rfl⟩

/-- A connector has taken the descriptor of its channel out of the poller. -/
structure Removed (w : World) (k : ClientId) (connector : Connector) (ch : Channel)
    (r : World × ℕ) : Prop where
  fd : r.2 = ch.fd
  connector : ∃ channel, r.1.connectors k = some { connector with channel := some channel }
  clients : r.1.clients = w.clients
  made : r.1.made = w.made
  due : r.1.due = w.due
  pending : r.1.loop.pendingFunctors = w.loop.pendingFunctors
  inv : ∀ connector' : Connector, connector'.state ≠ .kConnecting → connector'.channel ≠ none →
    Inv (some ch.fd) (r.1.setConnector k connector')

/-- The poller has been told to forget the channel `ch` of the connector `k`. -/
structure Unregisters (w w' : World) (k : ClientId) (ch : Channel) : Prop where
  poller : SameBut ch w.loop.poller w'.loop.poller
  view : w'.loop.poller.view ch = EPollPoller.absent
  conns : w'.conns = w.conns
  rest : w'.loop.id = w.loop.id ∧ w'.clients = w.clients ∧ w'.made = w.made ∧ w'.fds = w.fds ∧
    w'.nextClient = w.nextClient
  resets : w'.resets = w.resets ++ [k]
  leaving : ∀ c, Leaving w c → Leaving w' c
  batch : w'.loop.position ≠ .functors → w'.loop.batch = []

/-- The channel of a connector that is connecting has been removed from the poller. -/
theorem Inv.removed {connector' : Connector} (h : Inv none w) (hr : Unregisters w w' k ch)
    (hk : w.connectors k = some connector) (hs : connector.state = .kConnecting)
    (hch : connector.channel = some ch)
    (hconnectors : w'.connectors = Function.update w.connectors k (some connector'))
    (hs' : connector'.state ≠ .kConnecting) (hkept : connector'.channel ≠ none) :
    Inv (some ch.fd) w' := by
  obtain ⟨hid, hclients, hmade, hfds, hnext⟩ := hr.rest
  obtain ⟨-, hchannels, hinterest⟩ := EPollPoller.View.mk.inj hr.view
  have hconnecting : Connecting w k ch := h.connecting_channel hk hs hch
  obtain ⟨client, hclient, hnone⟩ := h.client_of_connector hk (by simp [hs]) (by simp [hs])
  obtain ⟨hkeep, horphan, hfresh⟩ := h.change_connector hk hclient hnone hconnectors hclients
  have hothers : ∀ j, j ≠ k → w'.connectors j = w.connectors j := by
    intro j hjk
    simp [hconnectors, hjk]
  have hview : ∀ d : Channel, w.fds d.fd = some d.id → d.id ≠ ch.id →
      w'.loop.poller.view d = w.loop.poller.view d := by
    intro d hd hne
    exact hr.poller d (apart_of_fds hconnecting.fds hd hne)
  exact {
    tracks := by
      apply h.tracks.touch hr.poller
      · intro fd _
        rw [hfds]
      · intro x hx
        rw [hmade] at hx
        refine ⟨hx, ?_⟩
        rintro rfl
        rw [hconnecting.made] at hx
        cases hx
      · exact fun _ => ⟨hchannels, hinterest⟩
      · intro x hx
        rw [hchannels] at hx
        cases hx
    taken := by
      intro fd hfd
      obtain rfl : ch.fd = fd := by simpa using hfd
      refine ⟨?_, hchannels, hinterest⟩
      intro c conn hc hfd
      rw [hr.conns] at hc
      have hconn : ConnInv w c conn := h.conns c conn hc
      have hx := hconn.fds
      rw [hfd, hconnecting.fds] at hx
      exact hconnecting.id_ne hconn (Option.some.inj hx)
    fds := by
      intro fd x hne hx
      rw [hfds] at hx
      obtain ⟨conn, hc, hf⟩ | ⟨j, con, d, hj, hcon, hd, hi, hf⟩ | ho := h.fds fd x (by simp) hx
      · exact .connection conn (by rw [hr.conns, hc]) hf
      · have hjk : j ≠ k := by
          rintro rfl
          obtain rfl : connector = con := Option.some.inj (hk.symm.trans hj)
          obtain rfl : ch = d := Option.some.inj (hch.symm.trans hd)
          exact hne (by simp [hf])
        exact .connector j con d (by rw [hothers j hjk, hj]) hcon hd hi hf
      · exact .other (by rw [hmade, ho])
    conns := by
      intro c conn hc
      rw [hr.conns] at hc
      have hconn : ConnInv w c conn := h.conns c conn hc
      have hne : conn.channel.id ≠ ch.id := by
        rw [hconn.channel]
        exact fun he => hconnecting.id_ne hconn he.symm
      exact hconn.transport hid (hview _ hconn.fds_channel hne) (by rw [hfds]) (by rw [hmade])
        (hr.leaving c)
    connecting := by
      intro j con hj hcon
      have hjk : j ≠ k := by
        rintro rfl
        rw [hconnectors, Function.update_self] at hj
        exact hs' (Option.some.inj hj ▸ hcon)
      rw [hothers j hjk] at hj
      obtain ⟨d, hd, hD⟩ := h.connecting j con hj hcon
      have hne : d.id ≠ ch.id := by
        intro he
        have hm := hD.made
        rw [he, hconnecting.made] at hm
        simp only [Option.some.injEq, Prod.mk.injEq, Owner.connector.injEq] at hm
        exact hjk hm.1.symm
      exact ⟨d, hd, hD.transport hid (hview d hD.fds hne) (by rw [hfds]) (by rw [hmade])⟩
    clients := hkeep
    orphan := horphan
    fresh := by
      rw [hnext]
      exact hfresh
    resets := by
      intro j hj
      rw [hr.resets, List.mem_append, List.mem_singleton] at hj
      rw [hnext]
      by_cases hjk : j = k
      · subst hjk
        refine ⟨h.lt_nextClient hk, ?_⟩
        intro con hcon
        rw [hconnectors, Function.update_self] at hcon
        exact Option.some.inj hcon ▸ ⟨hs', hkept⟩
      · rw [hothers j hjk]
        exact h.resets j (hj.resolve_right hjk)
    nodup := by
      have hnot : k ∉ w.resets := fun hmem => ((h.resets k hmem).2 connector hk).1 hs
      rw [hr.resets]
      apply h.nodup.append (List.nodup_singleton k)
      simpa using hnot
    batch := hr.batch }

/-- What a functor of a connector does to the loop. -/
theorem queueInLoop_counter (l : EventLoop PendingFunctor) :
    ∃ n, (if l.needsWakeup true then l.wakeup else l) = { l with wakeupCounter := n } := by
  split
  · exact ⟨_, rfl⟩
  · exact ⟨l.wakeupCounter, rfl⟩

theorem inv_removeAndResetChannel {connector₀ : Connector} (h : Inv none w)
    (hk : w.connectors k = some connector) (hs : connector.state = .kConnecting)
    (hch : connector.channel = some ch) (hch₀ : connector₀.channel = some ch) :
    Avoids .epollUpdateAbsent ((w.setConnector k connector₀).removeAndResetChannel k)
      (Removed w k connector₀ ch) := by
  have hconnecting : Connecting w k ch := h.connecting_channel hk hs hch
  have hnone : (ch.set .disableAll).isNoneEvent = true := Channel.isNoneEvent_disableAll ch
  have hsettled : w.loop.poller.Settled ch :=
    .inl (hconnecting.view.trans (EPollPoller.registered_of_interest hconnecting.interest).symm)
  have hupdate : (w.setConnector k connector₀).loop.updateChannel (ch.set .disableAll) = _ :=
    w.loop.updateChannel_settled hsettled rfl rfl hconnecting.ownerLoop
      (.inl hconnecting.interest)
  rw [EPollPoller.registered_of_isNoneEvent hnone] at hupdate
  have hput := EPollPoller.removeChannel_deleted
    (@EPollPoller.view_put_self w.loop.poller _ (EPollPoller.deleted (ch.set .disableAll))) hnone
  have hremove := w.loop.removeChannel_with hnone hconnecting.ownerLoop hput
  unfold World.removeAndResetChannel
  apply (connector_avoids (by simp) _ k).bind
  intro con hcon
  obtain rfl : connector₀ = con := by simpa [World.setConnector] using hcon
  simp only [hch₀]
  rw [hupdate, ok_bind, hremove]
  split
  · rw [ok_bind]
    obtain ⟨n, hn⟩ := queueInLoop_counter ({ w.loop with
      poller := (w.loop.poller.put (ch.set .disableAll)
        (EPollPoller.deleted (ch.set .disableAll))).put
        (ch.set .disableAll) EPollPoller.absent } : EventLoop PendingFunctor)
    rw [hn]
    have hq : SameBut ch w.loop.poller ((w.loop.poller.put (ch.set .disableAll)
        (EPollPoller.deleted (ch.set .disableAll))).put (ch.set .disableAll) EPollPoller.absent) :=
      ((EPollPoller.sameBut_put _).trans (EPollPoller.sameBut_put _)).congr rfl rfl
    have hview := @EPollPoller.view_put_self (w.loop.poller.put (ch.set .disableAll)
      (EPollPoller.deleted (ch.set .disableAll))) (ch.set .disableAll) EPollPoller.absent
    apply avoids_ok
    refine ⟨rfl, ⟨ch.set .disableAll, by simp [World.setConnector]⟩, rfl, rfl, rfl, rfl, ?_⟩
    intro connector' hs' hch'
    refine h.removed ⟨hq, hview, rfl, ⟨rfl, rfl, rfl, rfl, rfl⟩, rfl, fun _ hl => hl, h.batch⟩ hk hs
      hch ?_ hs' hch'
    simp [World.setConnector]
  · exact avoids_error (by simp)

theorem setConnector_self (hk : w.connectors k = some connector) :
    w.setConnector k connector = w := by
  simp [World.setConnector, ← hk]

/-- Once its channel has been removed, an attempt is over. -/
theorem Removed.retry {r : World × ℕ} (h : Removed w k connector ch r) :
    Avoids .epollUpdateAbsent (r.1.retry k r.2) (Retried w k connector) := by
  obtain ⟨channel, hk⟩ := h.connector
  rw [h.fd]
  have hretry := inv_retry hk
    (fun connector' hs' _ hch' => h.inv connector' (by simp [hs']) (by simp [hch'])) (.inl rfl)
  apply hretry.mono
  intro w' hw'
  exact ⟨hw'.inv, hw'.connector, hw'.clients.trans h.clients, hw'.made.trans h.made,
    hw'.due.trans h.due, hw'.pending.trans h.pending⟩

theorem inv_handleError (h : Inv none w) (k : ClientId) :
    Avoids .epollUpdateAbsent (w.handleError k) fun w' =>
      Inv none w' ∧ w'.made = w.made ∧ w'.due = w.due := by
  unfold World.handleError
  apply (connector_avoids (by simp) w k).bind
  intro connector hk
  apply (avoids_assert (by simp)).bind
  intro _ hs
  obtain ⟨ch, hch, -⟩ := h.connecting k connector hk hs
  have hremove := inv_removeAndResetChannel h hk hs hch hch
  rw [setConnector_self hk] at hremove
  apply hremove.bind
  intro r hr
  exact hr.retry.mono fun w' hw' => ⟨hw'.inv, hw'.made, hw'.due⟩

/-- `stop()` of a connector ends its attempt, and leaves it so that no timer connects it. -/
theorem inv_stop (h : Inv none w) (k : ClientId) :
    Avoids .epollUpdateAbsent (w.stop k) fun w' => Inv none w' ∧ w'.clients = w.clients ∧
      ∀ connector, w'.connectors k = some connector → connector.connect = false ∧
        (connector.state = .kConnected ∨ connector.state = .kDisconnected) := by
  unfold World.stop
  apply (connector_avoids (by simp) w k).bind
  intro connector hk
  unfold World.stopInLoop
  apply (connector_avoids (by simp) _ k).bind
  intro con hcon
  obtain rfl : { connector with connect := false } = con := by
    simpa [World.setConnector] using hcon
  dsimp only
  by_cases hs : connector.state = .kConnecting
  · rw [if_pos hs]
    obtain ⟨ch, hch, -⟩ := h.connecting k connector hk hs
    let stopped : Connector := { connector with connect := false, state := .kDisconnected }
    have hremove : Avoids .epollUpdateAbsent ((w.setConnector k stopped).removeAndResetChannel k)
        (Removed w k stopped ch) := inv_removeAndResetChannel h hk hs hch hch
    have hset : (w.setConnector k { connector with connect := false }).setConnector k stopped =
        w.setConnector k stopped := by
      simp [World.setConnector]
    rw [hset]
    apply hremove.bind
    intro r hr
    apply hr.retry.mono
    intro w' hw'
    refine ⟨hw'.inv, hw'.clients, ?_⟩
    intro connector' hk'
    obtain ⟨con, hcon, hst, hconnect⟩ := hw'.connector
    obtain rfl : con = connector' := Option.some.inj (hcon.symm.trans hk')
    exact ⟨hconnect, .inr hst⟩
  · rw [if_neg hs]
    apply avoids_ok
    refine ⟨?_, rfl, ?_⟩
    · refine h.setConnector hk ?_ ?_ ?_ (.inl rfl)
      · intro _
        exact ⟨rfl, rfl⟩
      · intro client hclient hne
        exact h.clients k client connector hclient hk hne
      · intro hnone
        obtain hst | ⟨hst, -⟩ := h.orphan k connector hnone hk
        · exact .inl hst
        · exact .inr ⟨hst, rfl⟩
    · intro connector' hk'
      obtain rfl : { connector with connect := false } = connector' := by
        simpa [World.setConnector] using hk'
      refine ⟨rfl, ?_⟩
      cases hst : connector.state with
      | kDisconnected => exact .inr rfl
      | kConnecting => exact absurd hst hs
      | kConnected => exact .inl rfl

/-- A connection has been established on the descriptor that its connector has handed over. -/
theorem Inv.accepted {conn' : TcpConnection} {client' : TcpClient} (h : Inv (some ch.fd) w)
    (hr : Registers w w' .connection ch) (hid : w.made ch.id = none)
    (hst : Stands .up w'.loop conn') (hconn : conn'.id = ch.id)
    (hchannel : conn'.channel.id = ch.id) (hfd : conn'.channel.fd = ch.fd)
    (hconns : w'.conns = Function.update w.conns ch.id (some conn'))
    (hconnectors : w'.connectors = w.connectors)
    (hclients : w'.clients = Function.update w.clients k (some client'))
    (hk : ∀ connector, w.connectors k = some connector → connector.state = .kConnected) :
    Inv none w' := by
  have hunowned : Unowned w ch.fd := h.unowned (.inl rfl)
  have hothers : ∀ c conn, w.conns c = some conn → c ≠ ch.id := by
    rintro c conn hc rfl
    rw [(h.conns _ conn hc).made] at hid
    cases hid
  exact {
    tracks := hr.tracks h.tracks
    taken := by
      intro fd hfd
      cases hfd
    fds := by
      intro fd x _ hx
      rw [hr.fds] at hx
      obtain ⟨he, rfl⟩ | ⟨he, hx⟩ := PartialMap.of_insert hx
      · exact .connection conn' (by simp [hconns]) (hfd.trans he.symm)
      · have hhand : fd ∉ some ch.fd := by simpa using fun hfd => he hfd.symm
        apply hr.opens hid (h.fds fd x hhand hx)
        · intro c conn hc
          simp [hconns, hothers c conn hc, hc]
        · intro j con hj _
          rw [hconnectors, hj]
    conns := by
      intro c conn hc
      by_cases hcid : c = ch.id
      · subst hcid
        obtain rfl : conn' = conn := by simpa [hconns] using hc
        exact ⟨hconn, hchannel, by simp [hr.fds, hfd], by simp [hr.made, hfd], .up, hst, .inl rfl⟩
      · have hc' : w.conns c = some conn := by simpa [hconns, hcid] using hc
        exact hr.connInv hunowned hid hc' (h.conns c conn hc')
    connecting := by
      intro j con hj hs
      rw [hconnectors] at hj
      obtain ⟨d, hd, hconnecting⟩ := h.connecting j con hj hs
      exact ⟨d, hd, hr.connecting hunowned hid hconnecting⟩
    clients := by
      intro j client con hj hcon hne
      rw [hconnectors] at hcon
      by_cases hjk : j = k
      · exact hk con (hjk ▸ hcon)
      · exact h.clients j client con (by simpa [hclients, hjk] using hj) hcon hne
    orphan := by
      intro j con hj hcon
      rw [hconnectors] at hcon
      by_cases hjk : j = k
      · simp [hclients, hjk] at hj
      · exact h.orphan j con (by simpa [hclients, hjk] using hj) hcon
    fresh := by
      rw [hr.nextClient, hconnectors]
      exact h.fresh
    resets := by
      rw [hr.resets, hr.nextClient, hconnectors]
      exact h.resets
    nodup := hr.resets ▸ h.nodup
    batch := hr.batch }

theorem inv_newConnection {fd : ℕ} {client : TcpClient} {s : Connected} (h : Inv (some fd) w)
    (hk : ∀ connector, w.connectors k = some connector → connector.state = .kConnected)
    (hclient : w.clients k = some client) (hnone : client.connection = none)
    (hid : w.made s.id = none) (hdue : w.due = none) :
    Avoids .epollUpdateAbsent (w.newConnection k fd s) (Inv none) := by
  unfold World.newConnection
  apply (client_avoids (by simp) w k).bind
  intro client' hclient'
  obtain rfl : client = client' := Option.some.inj (hclient.symm.trans hclient')
  simp only [hnone]
  apply (conn_avoids (by simp) _ s.id).bind
  intro conn hconn
  let fresh : TcpConnection :=
    { TcpConnection.new s.id w.loop.id (client.connName s.peerAddr) fd with
      writeCompleteCallback := client.writeCompleteCallback }
  obtain rfl : fresh = conn := by simpa [World.constructed] using hconn
  have hcreated : Stands .created w.loop fresh :=
    ⟨rfl, rfl, ⟨rfl, by simp [fresh, TcpConnection.new, Channel.new, Channel.isNoneEvent]⟩,
      h.view_new (h.unowned (.inl rfl)) hid w.loop.id⟩
  apply (TcpConnection.connectEstablished_spec hcreated).avoids.bind
  rintro ⟨loop, conn'⟩ hr
  have hchannels : loop.poller.channels conn'.channel.fd = some conn'.channel.id :=
    congrArg EPollPoller.View.channels hr.stands.view
  rw [hr.same.channel_fd, hr.same.channel_id] at hchannels
  apply avoids_ok
  have hinv : Inv (some fresh.channel.fd) w := h
  refine hinv.accepted ⟨hr.frame.poller, hchannels, hr.frame.id_eq, rfl, rfl, rfl, rfl,
    fun c hl => hl.frame hr.frame (.inl hdue), h.batch_frame hr.frame⟩ hid hr.stands hr.same.id
    hr.same.channel_id hr.same.channel_fd ?_ rfl rfl hk
  simp [World.enter, World.put, World.constructed, fresh, TcpConnection.new, Channel.new]

theorem inv_handleWrite {s : Connected} (h : Inv none w) (hid : w.made s.id = none)
    (hdue : w.due = none) (k : ClientId) :
    Avoids .epollUpdateAbsent (w.handleWrite k s) (Inv none) := by
  unfold World.handleWrite
  apply (connector_avoids (by simp) w k).bind
  intro connector hk
  by_cases hs : connector.state = .kConnecting
  · simp only [if_pos hs]
    obtain ⟨ch, hch, -⟩ := h.connecting k connector hk hs
    obtain ⟨client, hclient, hnone⟩ := h.client_of_connector hk (by simp [hs]) (by simp [hs])
    have hremove := inv_removeAndResetChannel h hk hs hch hch
    rw [setConnector_self hk] at hremove
    apply hremove.bind
    intro r hr
    split
    · exact hr.retry.mono fun w' hw' => hw'.inv
    · split
      · exact hr.retry.mono fun w' hw' => hw'.inv
      · obtain ⟨channel, hk'⟩ := hr.connector
        apply (connector_avoids (by simp) r.1 k).bind
        intro con hcon
        obtain rfl := Option.some.inj (hk'.symm.trans hcon)
        have hinv : Inv (some ch.fd) (r.1.setConnector k
            { connector with channel := some channel, state := .kConnected }) :=
          hr.inv _ (by simp) (by simp)
        rw [hr.fd]
        split
        · apply inv_newConnection hinv _ (hr.clients ▸ hclient) hnone (hr.made ▸ hid)
            (hr.due.trans hdue)
          intro con' hcon'
          simp only [World.setConnector, Function.update_self, Option.some.injEq] at hcon'
          rw [← hcon']
        · exact avoids_ok (hinv.close (.inl rfl))
  · simp only [if_neg hs]
    apply (avoids_assert (by simp)).bind
    intro _ _
    exact avoids_ok h

theorem inv_handleConnector {s : Connected} (h : Inv none w) (hid : w.made s.id = none)
    (hdue : w.due = none) (k : ClientId) (x : ChannelId) :
    Avoids .epollUpdateAbsent (w.handleConnector k x s) (Inv none) := by
  unfold World.handleConnector
  apply (connector_avoids (by simp) w k).bind
  intro connector _
  apply (avoids_assert (by simp)).bind
  intro _ _
  dsimp only
  have hwrite : ∀ v : World, Inv none v ∧ v.made = w.made ∧ v.due = w.due →
      Avoids .epollUpdateAbsent
        (if v.revents x &&& POLLOUT ≠ 0 then v.handleWrite k s else .ok v) (Inv none) := by
    rintro v ⟨hv, hmade, hvdue⟩
    split
    · exact inv_handleWrite hv (hmade ▸ hid) (hvdue.trans hdue) k
    · exact avoids_ok hv
  split
  · exact (inv_handleError h k).bind hwrite
  · exact hwrite w ⟨h, rfl, rfl⟩

/-! ### The steps of a client -/

theorem Inv.setClient {client client' : TcpClient} (h : Inv hand w)
    (hk : w.clients k = some client)
    (hc : client'.connection = none ∨ client'.connection = client.connection) :
    Inv hand (w.setClient k client') := by
  refine h.relabel rfl ?_ ?_ (fun _ hk => hk) h.nodup (fun _ hl => hl) h.batch
  · intro j other con hj hcon hne
    obtain ⟨rfl, rfl⟩ | ⟨-, hj⟩ := PartialMap.of_insert hj
    · obtain hc | hc := hc
      · exact absurd hc hne
      · exact h.clients j client con hk hcon (hc ▸ hne)
    · exact h.clients j other con hj hcon hne
  · intro j con hj hcon
    by_cases hjk : j = k
    · simp [World.setClient, hjk] at hj
    · exact h.orphan j con (by simpa [World.setClient, hjk] using hj) hcon

theorem inv_start (h : Inv none w) {a : Attempt} (ha : Unused w a) {client : TcpClient}
    (hclient : w.clients k = some client) :
    Avoids .epollUpdateAbsent (w.start k a) (Inv none) := by
  unfold World.start
  apply (connector_avoids (by simp) w k).bind
  intro connector hk
  have hinv : Inv none (w.setConnector k { connector with connect := true }) := by
    refine h.setConnector hk ?_ ?_ ?_ (.inl rfl)
    · intro _
      exact ⟨rfl, rfl⟩
    · intro client' hclient' hne
      exact h.clients k client' connector hclient' hk hne
    · intro hnone
      rw [hclient] at hnone
      cases hnone
  exact (inv_startInLoop hinv ha k).mono fun w' hw' => hw'.1

theorem inv_connect (h : Inv none w) {a : Attempt} (ha : Unused w a) (k : ClientId) :
    Avoids .epollUpdateAbsent (w.connect k a) (Inv none) := by
  unfold World.connect
  apply (client_avoids (by simp) w k).bind
  intro client hclient
  have hinv : Inv none (w.setClient k { client with connect := true }) :=
    h.setClient hclient (.inr rfl)
  exact inv_start hinv ha (Function.update_self ..)

theorem inv_disconnect (h : Inv none w) (k : ClientId) :
    Avoids .epollUpdateAbsent (w.disconnect k) (Inv none) := by
  unfold World.disconnect
  apply (client_avoids (by simp) w k).bind
  intro client hclient
  have hinv : Inv none (w.setClient k { client with connect := false }) :=
    h.setClient hclient (.inr rfl)
  dsimp only
  split
  · exact avoids_ok hinv
  · rename_i c _
    exact inv_userCall hinv c .shutdown

theorem inv_stopClient (h : Inv none w) (k : ClientId) :
    Avoids .epollUpdateAbsent (w.stopClient k) (Inv none) := by
  unfold World.stopClient
  apply (client_avoids (by simp) w k).bind
  intro client hclient
  have hinv : Inv none (w.setClient k { client with connect := false }) :=
    h.setClient hclient (.inr rfl)
  exact (inv_stop hinv k).mono fun w' hw' => hw'.1

theorem inv_enableRetry (h : Inv none w) (k : ClientId) :
    Avoids .epollUpdateAbsent (w.enableRetry k) (Inv none) := by
  unfold World.enableRetry
  apply (client_avoids (by simp) w k).bind
  intro client hclient
  exact avoids_ok (h.setClient hclient (.inr rfl))

theorem inv_newClient (h : Inv none w) (name : String) (writeCompleteCallback : Bool) :
    Inv none (w.newClient name writeCompleteCallback) where
  tracks := h.tracks
  taken := h.taken
  fds fd x hfd hx := by
    obtain ⟨conn, hc, hf⟩ | ⟨j, con, ch, hj, hs, hch, hid, hf⟩ | ho := h.fds fd x hfd hx
    · exact .connection conn hc hf
    · have hne : j ≠ w.nextClient := (h.lt_nextClient hj).ne
      have hcon : (w.newClient name writeCompleteCallback).connectors j = some con := by
        simpa [World.newClient, World.setConnector, World.setClient, hne] using hj
      exact .connector j con ch hcon hs hch hid hf
    · exact .other ho
  conns c conn hc := (h.conns c conn hc).transport rfl rfl rfl rfl id
  connecting j con hj hs := by
    by_cases hjk : j = w.nextClient
    · obtain rfl : Connector.new = con := by
        simpa [World.newClient, World.setConnector, World.setClient, hjk] using hj
      cases hs
    · obtain ⟨ch, hch, hconnecting⟩ := h.connecting j con
        (by simpa [World.newClient, World.setConnector, World.setClient, hjk] using hj) hs
      exact ⟨ch, hch, hconnecting.transport rfl rfl rfl rfl⟩
  clients j client con hj hcon hne := by
    by_cases hjk : j = w.nextClient
    · obtain rfl : TcpClient.new name writeCompleteCallback = client := by
        simpa [World.newClient, World.setConnector, World.setClient, hjk] using hj
      exact absurd rfl hne
    · exact h.clients j client con
        (by simpa [World.newClient, World.setConnector, World.setClient, hjk] using hj)
        (by simpa [World.newClient, World.setConnector, World.setClient, hjk] using hcon) hne
  orphan j con hj hcon := by
    by_cases hjk : j = w.nextClient
    · simp [World.newClient, World.setConnector, World.setClient, hjk] at hj
    · exact h.orphan j con
        (by simpa [World.newClient, World.setConnector, World.setClient, hjk] using hj)
        (by simpa [World.newClient, World.setConnector, World.setClient, hjk] using hcon)
  fresh j hj := by
    have hlt : w.nextClient < j := hj
    have hne : j ≠ w.nextClient := hlt.ne'
    simpa [World.newClient, World.setConnector, World.setClient, hne] using h.fresh j hlt.le
  resets j hj := by
    obtain ⟨hlt, hcon⟩ := h.resets j hj
    have hne : j ≠ w.nextClient := hlt.ne
    refine ⟨Nat.lt_succ_of_lt hlt, ?_⟩
    simpa [World.newClient, World.setConnector, World.setClient, hne] using hcon
  nodup := h.nodup
  batch := h.batch

/-- `closeCallback_` queues `connectDestroyed`, and so keeps what `guardThis` has kept. -/
theorem Inv.queue_connectDestroyed (h : Inv hand w) (hdue : w.due = some (.closeCallback c)) :
    Inv hand { w with
      due := none
      loop := w.loop.queueInLoop true (.connectDestroyed c) } := by
  have hf : EventLoop.Frame (.new 0 0 0) (fun _ => True) w.loop
      (w.loop.queueInLoop true (.connectDestroyed c)) :=
    EventLoop.frame_queueInLoop w.loop _ _ true trivial
  apply h.same
  · simp [objects, places, TcpConnection.queueInLoop_poller, TcpConnection.queueInLoop_id]
  · intro d hl
    by_cases hdc : d = c
    · right
      right
      simp [EventLoop.queueInLoop_pendingFunctors, hdc]
    · have hqueued : Leaving { w with due := none } d := by
        obtain hl | hl | hl := hl
        · rw [hdue] at hl
          cases hl
          exact absurd rfl hdc
        · rw [hdue] at hl
          cases hl
        · exact .inr (.inr hl)
      exact hqueued.frame hf (.inl rfl)
  · exact h.batch_frame hf

/-- Only a connector that is connected is restarted. -/
theorem inv_restart (h : Inv none w) {a : Attempt} (ha : Unused w a) {client : TcpClient}
    (hclient : w.clients k = some client) (hnone : client.connection = none)
    (hs : ∀ connector, w.connectors k = some connector → connector.state ≠ .kConnecting) :
    Avoids .epollUpdateAbsent (w.restart k a) fun w' =>
      Inv none w' ∧ w'.loop.pendingFunctors = w.loop.pendingFunctors := by
  unfold World.restart
  apply (connector_avoids (by simp) w k).bind
  intro connector hk
  have hinv : Inv none (w.setConnector k { connector with
      state := .kDisconnected
      retryDelayMs := Muduo.Connector.kInitRetryDelayMs
      connect := true }) := by
    refine h.setConnector hk ?_ ?_ ?_ (.inl rfl)
    · intro hc
      obtain hc | hc := hc
      · exact absurd hc (hs connector hk)
      · cases hc
    · intro client' hclient' hne
      rw [hclient] at hclient'
      exact absurd (Option.some.inj hclient' ▸ hnone) hne
    · intro hgone
      rw [hclient] at hgone
      cases hgone
  exact inv_startInLoop hinv ha k

theorem inv_closeCallback (h : Inv none w) (hdue : w.due = some (.closeCallback c)) {a : Attempt}
    (ha : Unused w a) : Avoids .epollUpdateAbsent ({ w with due := none }.closeCallback c a)
      fun w' => Inv none w' ∧ .connectDestroyed c ∈ w'.loop.pendingFunctors := by
  have hqueued : PendingFunctor.connectDestroyed c ∈
      (w.loop.queueInLoop true (.connectDestroyed c)).pendingFunctors := by
    simp [EventLoop.queueInLoop_pendingFunctors]
  unfold World.closeCallback
  dsimp only
  split
  · rename_i k _
    unfold World.removeConnection
    apply (client_avoids (by simp) _ k).bind
    intro client hclient
    apply (conn_avoids (by simp) _ c).bind
    intro conn _
    apply (avoids_assert (by simp)).bind
    intro _ _
    apply (avoids_assert (by simp)).bind
    intro _ hconnection
    have hset : Inv none (w.setClient k { client with connection := none }) :=
      h.setClient hclient (.inl rfl)
    have hinv := hset.queue_connectDestroyed hdue
    dsimp only
    split
    · have hs : ∀ connector, w.connectors k = some connector → connector.state ≠ .kConnecting := by
        intro connector hk
        rw [h.clients k client connector hclient hk (by simp [hconnection])]
        simp
      apply (inv_restart hinv ha (Function.update_self ..) rfl hs).mono
      intro w' hw'
      exact ⟨hw'.1, hw'.2 ▸ hqueued⟩
    · exact avoids_ok ⟨hinv, hqueued⟩
  · exact avoids_ok ⟨h.queue_connectDestroyed hdue, hqueued⟩

end TcpClient
end Muduo

import Muduo.ConnectionLifecycle

/-!
# The destructor of TcpServer

`TcpServer::~TcpServer` takes its connections down without `handleClose`: it calls
`connectDestroyed` on each of them, and its acceptor takes down the listening
channel. A server whose connections are all on its own loop does so at once.
-/
namespace Muduo

/-- What the `connectionCallback_` of each connection calls when the connection goes
down: on which connections, and what. -/
abbrev DownCalls := ConnId → List (ConnId × UserCall)

namespace World

def userCalls (w : World) (l : LoopId) : List (ConnId × UserCall) → Checked World
  | [] => .ok w
  | (c, u) :: calls => do
    let w ← w.userCall l c u
    w.userCalls l calls

/-- `connectDestroyed`, called by a function in whose course its callback runs. -/
def runConnectDestroyed (s : TcpServer) (w : World) (l : LoopId) (calls : DownCalls) (c : ConnId) :
    Checked World := do
  let conn ← w.conn c
  let (loop, conn, inCallback) ← conn.connectDestroyed (w.loops l)
  let w := w.put l loop c conn
  if inCallback then
    let w ← (w.record c .down).userCalls l (calls c)
    w.runDue s l (.removeChannel c)
  else return (w.record c .destroyed).release conn

/-- The body of the loop of `~TcpServer`. -/
def destroyConnection (s : TcpServer) (w : World) (l : LoopId) (calls : DownCalls)
    (name : String) : Checked World :=
  match w.connections name with
  | none => .ok w
  | some c => do
    -- `it->second.reset()`
    let w := { w with connections := Function.update w.connections name none }
    let conn ← w.conn c
    if conn.loop = l then w.runConnectDestroyed s l calls c
    else return w.queueInLoop l conn.loop (.connectDestroyed c)

def destroyConnections (s : TcpServer) (w : World) (l : LoopId) (calls : DownCalls) :
    List String → Checked World
  | [] => .ok w
  | name :: names => do
    let w ← w.destroyConnection s l calls name
    w.destroyConnections s l calls names

/-- `Acceptor::~Acceptor` -/
def destroyAcceptor (s : TcpServer) (w : World) (l : LoopId) : Checked World := do
  let acceptChannel := s.acceptChannel.set .disableAll
  let loop ← (w.loops l).updateChannel acceptChannel
  let loop ← loop.removeChannel acceptChannel
  return { w.setLoop l loop with fds := Function.update w.fds acceptChannel.fd none }

/-- `~TcpServer`, run by the thread of `l`, with the keys of `connections_` in their order;
at its end `acceptor_` is destroyed. -/
def destructor (s : TcpServer) (w : World) (l : LoopId) (calls : DownCalls) (names : List String) :
    Checked World := do
  (w.loops l).assertInLoopThread s.loop
  let w ← w.destroyConnections s l calls names
  w.destroyAcceptor s l

/-- The connections whose `connectDestroyed` is queued in the loop `l`. -/
def pending (w : World) (l : LoopId) : List ConnId :=
  (w.queue l).filterMap fun
    | .connectDestroyed c => some c
    | _ => none

/-- The loop runs the `connectDestroyed` of `cs`. -/
def runPending (w : World) (l : LoopId) : List ConnId → Checked World
  | [] => .ok w
  | c :: cs => do
    let w ← w.connectDestroyed l c
    w.runPending l cs

def state (w : World) (c : ConnId) : Option StateE := (w.conns c).map TcpConnection.state

/-- The keys of `connections_`, in its order. -/
structure Keys (w : World) (names : List String) : Prop where
  sorted : names.Pairwise (· < ·)
  mem_iff : ∀ name, name ∈ names ↔ w.connections name ≠ none

end World

namespace TcpServer
open StepSystem

/-- None of the connections has been shut down and not closed, none that is up is shut down
by the callback of one before it, and none is active and not the current one. -/
structure OrderlyEntries (s : TcpServer) (w : World) (calls : DownCalls) (names : List String) :
    Prop where
  not_disconnecting : ∀ name ∈ names, ∀ c, w.connections name = some c →
    w.state c ≠ some .kDisconnecting
  not_shut_down : names.Pairwise fun front back => ∀ c d, w.connections front = some c →
    w.connections back = some d → w.state c = some .kConnected → w.state d = some .kConnected →
    (d, .shutdown) ∉ calls c
  removable : ∀ name ∈ names, ∀ c, w.connections name = some c → (w.loops s.loop).Removable c

/-- Nor is the listening channel active and not the current one. -/
structure Orderly (s : TcpServer) (w : World) (calls : DownCalls) (names : List String) : Prop
    extends OrderlyEntries s w calls names where
  acceptor : (w.loops s.loop).Removable s.acceptChannel.id

/-- What `~TcpServer` is to leave. -/
structure CleanedUp (s : TcpServer) (w w' : World) : Prop where
  /-- no connection is polled -/
  interest : ∀ c, w'.conns c ≠ none → ∀ fd mask,
    (w'.loops s.loop).poller.interest fd ≠ some (mask, c)
  /-- what the poller still has is about to be removed -/
  channels : ∀ c, w'.conns c ≠ none → ∀ fd, (w'.loops s.loop).poller.channels fd = some c →
    c ∈ w'.pending s.loop
  /-- and is gone when the pending `connectDestroyed` have run -/
  settles : Yields ((w'.setLoop s.loop (w'.loops s.loop).endHandling).runPending s.loop
    (w'.pending s.loop)) fun w'' => ∀ c, w''.conns c ≠ none → ∀ fd,
      (w''.loops s.loop).poller.channels fd ≠ some c
  down : ∀ c, (w'.history c).count .down =
    (w.history c).count .down + if .up ∈ w.history c ∧ .down ∉ w.history c then 1 else 0

variable {s : TcpServer} {phase phase' : ConnId → Phase} {w w' w'' : World} {c : ConnId}
  {conn conn' : TcpConnection} {p : Phase}

/-! ### The connections of a loop, each in its phase -/

structure Member (s : TcpServer) (w : World) (c : ConnId) (p : Phase) (conn : TcpConnection) :
    Prop where
  id : conn.id = c
  channelId : conn.channel.id = c
  holds : p.Holds conn
  stands : p ≠ .destroyed → TcpConnection.Stands p (w.loops s.loop) conn
  acceptor : p ≠ .destroyed → EPollPoller.Apart s.acceptChannel conn.channel

/-- The connections are all on the loop of the server, each in the phase that `phase` gives. -/
structure Held (s : TcpServer) (phase : ConnId → Phase) (w : World) : Prop where
  loop : (w.loops s.loop).id = s.loop
  member : ∀ c conn, w.conns c = some conn → Member s w c (phase c) conn
  apart : ∀ c d conn connD, w.conns c = some conn → w.conns d = some connD →
    phase c ≠ .destroyed → phase d ≠ .destroyed → conn.channel.fd = connD.channel.fd → c = d
  channels : ∀ fd c conn, (w.loops s.loop).poller.channels fd = some c → w.conns c = some conn →
    phase c ≠ .destroyed ∧ conn.channel.fd = fd
  interest : ∀ fd mask c, (w.loops s.loop).poller.interest fd = some (mask, c) →
    (w.loops s.loop).poller.channels fd = some c
  acceptor : (w.loops s.loop).poller.view s.acceptChannel = EPollPoller.registered s.acceptChannel ∨
    (w.loops s.loop).poller.view s.acceptChannel = EPollPoller.absent
  ownerLoop : s.acceptChannel.ownerLoop = s.loop

/-- The worlds agree on the connections and on the poller of the server. -/
theorem Held.congr (h : Held s phase w) (hconns : w'.conns = w.conns)
    (hid : (w'.loops s.loop).id = (w.loops s.loop).id)
    (hpoller : (w'.loops s.loop).poller = (w.loops s.loop).poller) : Held s phase w' where
  loop := hid.trans h.loop
  member c conn hc := by
    obtain ⟨hcid, hch, hholds, hstands, hacc⟩ := h.member c conn (hconns ▸ hc)
    refine ⟨hcid, hch, hholds, fun hp => ?_, hacc⟩
    obtain ⟨hl, hown, _, hview⟩ := hstands hp
    exact ⟨hl.trans hid.symm, hown.trans hid.symm, hholds, by rw [hpoller, hview]⟩
  apart c d conn connD hc hd := h.apart c d conn connD (hconns ▸ hc) (hconns ▸ hd)
  channels fd c conn hc hconn := h.channels fd c conn (hpoller ▸ hc) (hconns ▸ hconn)
  interest fd mask c hi := by
    rw [hpoller] at hi ⊢
    exact h.interest fd mask c hi
  acceptor := by
    rw [hpoller]
    exact h.acceptor
  ownerLoop := h.ownerLoop

theorem Held.apart_channel (h : Held s phase w) {d : ConnId} {connD : TcpConnection}
    (hconn : w.conns c = some conn) (hconnD : w.conns d = some connD) (hp : phase c ≠ .destroyed)
    (hpD : phase d ≠ .destroyed) (hne : d ≠ c) : EPollPoller.Apart connD.channel conn.channel := by
  refine ⟨?_, fun hfd => ?_⟩
  · rw [(h.member d connD hconnD).channelId, (h.member c conn hconn).channelId]
    exact hne
  · exact hne (h.apart d c connD conn hconnD hconn hpD hp hfd)

/-- A function of one connection takes it to the phase `p`. -/
theorem Held.put {loop : EventLoop PendingFunctor} (h : Held s phase w)
    (hconn : w.conns c = some conn) (hp : phase c ≠ .destroyed)
    (hr : TcpConnection.Reaches p (w.loops s.loop) conn loop conn') :
    Held s (Function.update phase c p) (w.put s.loop loop c conn') := by
  have hself := h.member c conn hconn
  have hid : loop.id = (w.loops s.loop).id := hr.frame.id_eq
  have hfd : conn'.channel.fd = conn.channel.fd := hr.same.channel_fd
  have hloop : (w.put s.loop loop c conn').loops s.loop = loop := by simp [World.put]
  have hsame : ∀ fd, fd ≠ conn.channel.fd →
      loop.poller.channels fd = (w.loops s.loop).poller.channels fd ∧
      loop.poller.interest fd = (w.loops s.loop).poller.interest fd := by
    intro fd hne
    exact hr.frame.poller.at_fd hne
  have hview : loop.poller.channels conn.channel.fd = (p.view conn'.channel).channels ∧
      loop.poller.interest conn.channel.fd = (p.view conn'.channel).interest := by
    rw [← hr.stands.view, ← hfd]
    exact ⟨rfl, rfl⟩
  have hcases : ∀ {d connD}, (w.put s.loop loop c conn').conns d = some connD →
      d = c ∧ connD = conn' ∨ d ≠ c ∧ w.conns d = some connD := by
    intro d connD hd
    exact PartialMap.of_insert hd
  constructor
  · rw [hloop, hid]
    exact h.loop
  · intro d connD hd
    obtain ⟨rfl, rfl⟩ | ⟨hdc, hd⟩ := hcases hd
    · rw [Function.update_self]
      refine ⟨hr.same.id.trans hself.id, hr.same.channel_id.trans hself.channelId,
        hr.stands.holds, fun _ => by rw [hloop]; exact hr.stands, fun _ => ?_⟩
      have hacc := hself.acceptor hp
      exact ⟨by rw [hr.same.channel_id]; exact hacc.1, by rw [hfd]; exact hacc.2⟩
    · rw [Function.update_of_ne hdc]
      obtain ⟨hdid, hch, hholds, hstands, hacc⟩ := h.member d connD hd
      refine ⟨hdid, hch, hholds, fun hpd => ?_, hacc⟩
      obtain ⟨hl, hown, _, hv⟩ := hstands hpd
      rw [hloop]
      refine ⟨hl.trans hid.symm, hown.trans hid.symm, hholds, ?_⟩
      rw [hr.frame.poller _ (h.apart_channel hconn hd hp hpd hdc)]
      exact hv
  · intro d e connD connE hd he hpd hpe hfde
    obtain ⟨rfl, rfl⟩ | ⟨hdc, hd⟩ := hcases hd
    · obtain ⟨rfl, rfl⟩ | ⟨hec, he⟩ := hcases he
      · rfl
      · rw [Function.update_of_ne hec] at hpe
        exact h.apart _ _ conn connE hconn he hp hpe (hfd ▸ hfde)
    · rw [Function.update_of_ne hdc] at hpd
      obtain ⟨hec, heq⟩ | ⟨hec, he⟩ := hcases he
      · rw [hec]
        exact h.apart _ _ connD conn hd hconn hpd hp (by rw [hfde, heq, hfd])
      · rw [Function.update_of_ne hec] at hpe
        exact h.apart _ _ connD connE hd he hpd hpe hfde
  · intro fd d connD hch hd
    rw [hloop] at hch
    by_cases hfdc : fd = conn.channel.fd
    · subst hfdc
      rw [hview.1] at hch
      obtain ⟨hdid, hpne⟩ := Phase.view_channels hch
      have hdc : d = c := hdid.trans (hr.same.channel_id.trans hself.channelId)
      obtain ⟨rfl, rfl⟩ | ⟨hne, _⟩ := hcases hd
      · rw [Function.update_self]
        exact ⟨hpne, hfd⟩
      · exact absurd hdc hne
    · rw [(hsame fd hfdc).1] at hch
      obtain ⟨rfl, rfl⟩ | ⟨hdc, hd⟩ := hcases hd
      · exact absurd (h.channels fd _ conn hch hconn).2.symm hfdc
      · rw [Function.update_of_ne hdc]
        exact h.channels fd d connD hch hd
  · intro fd mask d hi
    rw [hloop] at hi ⊢
    by_cases hfdc : fd = conn.channel.fd
    · subst hfdc
      rw [hview.2] at hi
      rw [hview.1]
      exact (Phase.view_interest hi).1
    · rw [(hsame fd hfdc).2] at hi
      rw [(hsame fd hfdc).1]
      exact h.interest fd mask d hi
  · rw [hloop]
    rw [hr.frame.poller _ (hself.acceptor hp)]
    exact h.acceptor
  · exact h.ownerLoop

/-- What the functions of the destructor leave alone. -/
structure Rest (s : TcpServer) (w w' : World) : Prop where
  connections : w'.connections = w.connections
  removable : ∀ x, (w'.loops s.loop).Removable x ↔ (w.loops s.loop).Removable x
  pending : w'.pending s.loop = w.pending s.loop
  conns : ∀ c, w'.conns c = none ↔ w.conns c = none

theorem Rest.refl (w : World) : Rest s w w := ⟨rfl, fun _ => .rfl, rfl, fun _ => .rfl⟩

theorem Rest.trans (h : Rest s w w') (g : Rest s w' w'') : Rest s w w'' where
  connections := g.connections.trans h.connections
  removable x := (g.removable x).trans (h.removable x)
  pending := g.pending.trans h.pending
  conns c := (g.conns c).trans (h.conns c)

theorem pending_put {loop : EventLoop PendingFunctor}
    (hf : EventLoop.Frame conn.channel (PendingFunctor.IsCallback c) (w.loops s.loop) loop) :
    (w.put s.loop loop c conn').pending s.loop = w.pending s.loop := by
  obtain ⟨new, hnew, hown⟩ : ∃ new, (w.put s.loop loop c conn').queue s.loop =
      w.queue s.loop ++ new ∧ ∀ f ∈ new, f.IsCallback c := queue_put_of_frame hf
  have hnil : new.filterMap (fun
      | .connectDestroyed c => some c
      | _ => none) = ([] : List ConnId) := by
    rw [List.filterMap_eq_nil_iff]
    intro f hmem
    have hcb := hown f hmem
    cases f <;> first | rfl | exact hcb.elim
  unfold World.pending
  rw [hnew, List.filterMap_append, hnil, List.append_nil]

theorem rest_put {loop : EventLoop PendingFunctor} (hconn : w.conns c = some conn)
    (hid : conn.id = c)
    (hf : EventLoop.Frame conn.channel (PendingFunctor.IsCallback conn.id) (w.loops s.loop) loop) :
    Rest s w (w.put s.loop loop c conn') where
  connections := rfl
  removable x := by
    have hloop : (w.put s.loop loop c conn').loops s.loop = loop := by simp [World.put]
    rw [hloop, hf.rest]
    rfl
  pending := by
    rw [hid] at hf
    exact pending_put hf
  conns d := by
    by_cases hd : d = c
    · subst hd
      simp [World.put, hconn]
    · simp [World.put, hd]

theorem state_put {loop : EventLoop PendingFunctor} (l : LoopId) (d : ConnId) :
    (w.put l loop c conn').state d = if d = c then some conn'.state else w.state d := by
  by_cases hd : d = c
  · subst hd
    simp [World.state, World.put]
  · simp [World.state, World.put, hd]

theorem World.state_eq (h : w.conns c = some conn) : w.state c = some conn.state := by
  simp [World.state, h]

/-! ### Calls from a callback -/

theorem Held.userCall (h : Held s phase w) (hconn : w.conns c = some conn) (u : UserCall) :
    Yields (w.userCall s.loop c u) fun w' => Held s phase w' ∧ Rest s w w' ∧
      w'.history = w.history ∧
      ∀ d, w'.state d = if d = c then (w.state c).map u.state else w.state d := by
  have hself := h.member c conn hconn
  simp only [World.userCall, World.conn_eq hconn, ok_bind]
  by_cases hp : phase c = .up
  · have hstands := hself.stands (by simp [hp])
    rw [hp] at hstands
    obtain ⟨⟨loop, conn'⟩, hrun, hr, hst⟩ := TcpConnection.userCall_up hstands u
    rw [hrun]
    have hheld := h.put hconn (by simp [hp]) hr
    rw [← hp, Function.update_eq_self] at hheld
    refine yields_ok ⟨hheld, rest_put hconn hself.id hr.frame, rfl, fun d => ?_⟩
    rw [state_put, World.state_eq hconn, Option.map_some]
    dsimp only at hst
    rw [hst]
  · have hs : conn.state ≠ .kConnected := by
      obtain hs | hs := Phase.holds_state hself.holds hp
      · simp [hs]
      · simp [hs]
    rw [TcpConnection.userCall_quiet hs]
    change Yields (.ok (w.put s.loop (w.loops s.loop) c conn)) _
    rw [put_self hconn]
    refine yields_ok ⟨h, .refl w, rfl, fun d => ?_⟩
    split_ifs with hd
    · rw [hd, World.state_eq hconn, Option.map_some, UserCall.state_of_ne hs]
    · rfl

/-- The calls of a callback shut down the connections that they are to. -/
theorem Held.userCalls {calls : List (ConnId × UserCall)} (h : Held s phase w)
    (hcalls : ∀ x ∈ calls, w.conns x.1 ≠ none) :
    Yields (w.userCalls s.loop calls) fun w' => Held s phase w' ∧ Rest s w w' ∧
      w'.history = w.history ∧ ∀ d, w'.state d = (w.state d).map fun state =>
        if (d, .shutdown) ∈ calls then UserCall.shutdown.state state else state := by
  induction calls generalizing w with
  | nil => exact yields_ok ⟨h, .refl w, rfl, fun d => by simp⟩
  | cons x calls ih =>
    obtain ⟨c, u⟩ := x
    obtain ⟨conn, hconn⟩ := Option.ne_none_iff_exists'.mp (hcalls (c, u) List.mem_cons_self)
    simp only [World.userCalls]
    apply (h.userCall hconn u).bind
    rintro w₁ ⟨h₁, hrest, hhistory, hstate⟩
    have hcalls₁ : ∀ x ∈ calls, w₁.conns x.1 ≠ none := fun x hx =>
      (hrest.conns x.1).not.mpr (hcalls x (List.mem_cons_of_mem _ hx))
    apply (ih h₁ hcalls₁).mono
    rintro w₂ ⟨h₂, hrest₂, hhistory₂, hstate₂⟩
    refine ⟨h₂, hrest.trans hrest₂, hhistory₂.trans hhistory, fun d => ?_⟩
    rw [hstate₂, hstate]
    by_cases hd : d = c
    · subst hd
      rw [if_pos rfl, Option.map_map]
      congr 1
      funext state
      cases u with
      | send =>
        by_cases hmem : (d, UserCall.shutdown) ∈ calls
        · cases state <;> simp [hmem, UserCall.state]
        · simp [hmem, UserCall.state]
      | shutdown =>
        simp only [Function.comp_apply, List.mem_cons, true_or, if_true]
        split_ifs
        · cases state <;> rfl
        · rfl
    · rw [if_neg hd]
      have hmem : (d, UserCall.shutdown) ∈ (c, u) :: calls ↔ (d, UserCall.shutdown) ∈ calls := by
        simp [hd]
      simp only [hmem]

/-! ### One connection is destroyed -/

/-- The connection `c` has been destroyed, with the occurrences `occurrences` and after
the calls `calls` of its callback. -/
structure Destroyed (s : TcpServer) (c : ConnId) (calls : List (ConnId × UserCall))
    (occurrences : List Occurrence) (w w' : World) : Prop where
  rest : Rest s w w'
  self : w'.history c = w.history c ++ occurrences
  history : ∀ d, d ≠ c → w'.history d = w.history d
  state : ∀ d, d ≠ c → w'.state d = (w.state d).map fun state =>
    if (d, .shutdown) ∈ calls then UserCall.shutdown.state state else state

theorem removable_channel (h : Held s phase w) (hconn : w.conns c = some conn)
    (hr : (w.loops s.loop).Removable c) : (w.loops s.loop).Removable conn.channel.id := by
  rw [(h.member c conn hconn).channelId]
  exact hr

/-- `channel_->remove()` of a connection that is down. -/
theorem Held.removeChannel (h : Held s phase w) (hconn : w.conns c = some conn)
    (hp : (phase c).Down) (hr : (w.loops s.loop).Removable c) :
    Yields (w.runDue s s.loop (.removeChannel c)) fun w' =>
      Held s (Function.update phase c .destroyed) w' ∧ Destroyed s c [] [.destroyed] w w' := by
  have hself := h.member c conn hconn
  have hne := hp.ne.1
  obtain ⟨⟨loop, conn'⟩, hrun, hreach⟩ := TcpConnection.removeChannel_spec (hself.stands hne) hp
    (removable_channel h hconn hr)
  simp only [World.runDue, World.conn_eq hconn, ok_bind, hrun, pure_eq_ok]
  apply yields_ok
  refine ⟨(h.put hconn hne hreach).congr rfl rfl rfl, ?_⟩
  have hrest : Rest s w (w.put s.loop loop c conn') := rest_put hconn hself.id hreach.frame
  refine ⟨⟨hrest.connections, hrest.removable, hrest.pending, hrest.conns⟩, ?_, fun d hd => ?_,
    fun d hd => ?_⟩
  · change (World.record _ c .destroyed).history c = _
    rw [record_history]
    rfl
  · change (World.record _ c .destroyed).history d = _
    simp [World.record, World.put, hd]
  · change (w.put s.loop loop c conn').state d = _
    rw [state_put, if_neg hd]
    simp

/-- An active channel is not removed. -/
theorem Held.removeChannel_active (h : Held s phase w) (hconn : w.conns c = some conn)
    (hp : (phase c).Down) (hr : ¬(w.loops s.loop).Removable c) :
    w.runDue s s.loop (.removeChannel c) = .error .removeActiveChannel := by
  have hself := h.member c conn hconn
  have hne := hp.ne.1
  have hstands := hself.stands hne
  obtain ⟨_, hn, _⟩ := hstands.deleted hp
  have hactive := (w.loops s.loop).removeChannel_active hn hstands.ownerLoop
    (by rw [hself.channelId]; exact hr)
  simp [World.runDue, World.conn_eq hconn, TcpConnection.removeChannel, hactive]

/-- Of a connection that is down `connectDestroyed` removes the channel and no more. -/
theorem connectDestroyed_eq (hconn : w.conns c = some conn) (hl : conn.loop = (w.loops s.loop).id)
    (hs : conn.state ≠ .kConnected) (calls : DownCalls) :
    w.connectDestroyed s.loop c = w.runDue s s.loop (.removeChannel c) ∧
      w.runConnectDestroyed s s.loop calls c = w.runDue s s.loop (.removeChannel c) := by
  simp only [World.connectDestroyed, World.runConnectDestroyed, World.runDue, World.conn_eq hconn,
    ok_bind, TcpConnection.connectDestroyed_of_ne hl hs]
  cases conn.removeChannel (w.loops s.loop) with
  | ok r => simp
  | error a => simp

/-- The calls and the occurrences of a `connectDestroyed`. -/
def downCalls (calls : DownCalls) (c : ConnId) (p : Phase) : List (ConnId × UserCall) :=
  if p = .up then calls c else []

def destroyedOccurrences (p : Phase) : List Occurrence :=
  if p = .up then [.down, .destroyed] else [.destroyed]

/-- The first part of `connectDestroyed` of an established connection, with its callback. -/
theorem Held.disconnect {calls : DownCalls} (h : Held s phase w) (hconn : w.conns c = some conn)
    (hp : phase c = .up) (hs : conn.state = .kConnected)
    (hcalls : ∀ x ∈ calls c, w.conns x.1 ≠ none) :
    ∃ w', Held s (Function.update phase c .closing) w' ∧ Destroyed s c (calls c) [.down] w w' ∧
      w.runConnectDestroyed s s.loop calls c = w'.runDue s s.loop (.removeChannel c) := by
  have hself := h.member c conn hconn
  have hstands := hself.stands (by simp [hp])
  rw [hp] at hstands
  obtain ⟨⟨loop, conn', inCallback⟩, hrun, hflag, hreach⟩ :=
    TcpConnection.connectDestroyed_connected hstands hs
  dsimp only at hflag
  subst hflag
  have hrest : Rest s w (w.put s.loop loop c conn') := rest_put hconn hself.id hreach.frame
  have hput := h.put hconn (by simp [hp]) hreach
  generalize hw : (w.put s.loop loop c conn').record c .down = w₁
  have hput₁ : Held s (Function.update phase c .closing) w₁ := by
    subst hw
    exact hput.congr rfl rfl rfl
  have hcalls₁ : ∀ x ∈ calls c, w₁.conns x.1 ≠ none := by
    subst hw
    exact fun x hx => (hrest.conns x.1).not.mpr (hcalls x hx)
  obtain ⟨w', hcall, hheld, hrest', hhistory, hstate⟩ := hput₁.userCalls hcalls₁
  refine ⟨w', hheld, ⟨?_, ?_, fun d hd => ?_, fun d hd => ?_⟩, ?_⟩
  · have hrecord : Rest s w w₁ := by
      subst hw
      exact ⟨hrest.connections, hrest.removable, hrest.pending, hrest.conns⟩
    exact hrecord.trans hrest'
  · rw [hhistory, ← hw, record_history]
    rfl
  · rw [hhistory, ← hw]
    simp [World.record, World.put, hd]
  · rw [hstate, ← hw]
    congr 1
    change (w.put s.loop loop c conn').state d = _
    rw [state_put, if_neg hd]
  · simp only [World.runConnectDestroyed, World.conn_eq hconn, ok_bind, hrun, if_true, hw, hcall]

theorem Destroyed.append {calls : List (ConnId × UserCall)} {front back : List Occurrence}
    (h : Destroyed s c calls front w w') (g : Destroyed s c [] back w' w'') :
    Destroyed s c calls (front ++ back) w w'' where
  rest := h.rest.trans g.rest
  self := by rw [g.self, h.self, List.append_assoc]
  history d hd := (g.history d hd).trans (h.history d hd)
  state d hd := by
    rw [g.state d hd, h.state d hd, Option.map_map]
    congr 1

theorem Held.connectDestroyed {calls : DownCalls} (h : Held s phase w)
    (hconn : w.conns c = some conn) (hp : phase c = .up ∨ (phase c).Down)
    (hs : conn.state ≠ .kDisconnecting) (hr : (w.loops s.loop).Removable c)
    (hcalls : ∀ x ∈ calls c, w.conns x.1 ≠ none) :
    Yields (w.runConnectDestroyed s s.loop calls c) fun w' =>
      Held s (Function.update phase c .destroyed) w' ∧
      Destroyed s c (downCalls calls c (phase c)) (destroyedOccurrences (phase c)) w w' := by
  have hself := h.member c conn hconn
  obtain hp | hp := hp
  · have hconnected : conn.state = .kConnected := by
      have hholds := hself.holds
      rw [hp] at hholds
      exact hholds.1.resolve_right hs
    obtain ⟨w₁, h₁, hd₁, hrun⟩ := h.disconnect hconn hp hconnected hcalls
    obtain ⟨conn₁, hconn₁⟩ : ∃ conn₁, w₁.conns c = some conn₁ :=
      Option.ne_none_iff_exists'.mp ((hd₁.rest.conns c).not.mpr (by simp [hconn]))
    rw [hrun]
    apply (h₁.removeChannel hconn₁ (.inl (by simp)) ((hd₁.rest.removable c).mpr hr)).mono
    rintro w₂ ⟨h₂, hd₂⟩
    rw [Function.update_idem] at h₂
    simp only [downCalls, destroyedOccurrences, hp, if_true]
    exact ⟨h₂, hd₁.append hd₂⟩
  · obtain ⟨hne, hup⟩ := hp.ne
    have hstands := hself.stands hne
    rw [(connectDestroyed_eq hconn hstands.loop (by simp [(hstands.deleted hp).1]) calls).2]
    simp only [downCalls, destroyedOccurrences, hup, if_false]
    exact h.removeChannel hconn hp hr

/-- Otherwise an assertion fails. -/
theorem Held.connectDestroyed_fails {calls : DownCalls} (h : Held s phase w)
    (hconn : w.conns c = some conn) (hp : phase c = .up ∨ (phase c).Down)
    (hbad : conn.state = .kDisconnecting ∨ ¬(w.loops s.loop).Removable c)
    (hcalls : ∀ x ∈ calls c, w.conns x.1 ≠ none) :
    ∃ a, w.runConnectDestroyed s s.loop calls c = .error a := by
  have hself := h.member c conn hconn
  obtain hp | hp := hp
  · have hstands := hself.stands (by simp [hp])
    rw [hp] at hstands
    obtain hs | hs := hstands.holds.1
    · have hr := hbad.resolve_left (by simp [hs])
      obtain ⟨w₁, h₁, hd₁, hrun⟩ := h.disconnect hconn hp hs hcalls
      obtain ⟨conn₁, hconn₁⟩ : ∃ conn₁, w₁.conns c = some conn₁ :=
        Option.ne_none_iff_exists'.mp ((hd₁.rest.conns c).not.mpr (by simp [hconn]))
      rw [hrun]
      exact ⟨_, h₁.removeChannel_active hconn₁ (.inl (by simp)) ((hd₁.rest.removable c).not.mpr hr)⟩
    · have hfail := TcpConnection.connectDestroyed_disconnecting hstands hs
      exact ⟨.channelRemoveNoneEvent, by simp [World.runConnectDestroyed, World.conn_eq hconn, hfail]⟩
  · obtain ⟨hne, hup⟩ := hp.ne
    have hstands := hself.stands hne
    have hs := (hstands.deleted hp).1
    have hr := hbad.resolve_left (by simp [hs])
    rw [(connectDestroyed_eq hconn hstands.loop (by simp [hs]) calls).2]
    exact ⟨_, h.removeChannel_active hconn hp hr⟩

/-! ### All connections are destroyed -/

/-- One of the names is that of the connection `c`. -/
def Has (w : World) (names : List String) (c : ConnId) : Prop :=
  ∃ name ∈ names, w.connections name = some c

instance (names : List String) (c : ConnId) : Decidable (Has w names c) :=
  inferInstanceAs (Decidable (∃ _ ∈ _, _))

/-- What `connections_` holds is not destroyed, and is there under one name. -/
structure Entered (phase : ConnId → Phase) (w : World) : Prop where
  conn : ∀ name c, w.connections name = some c → w.conns c ≠ none ∧ (phase c).Listed
  unique : ∀ a b c, w.connections a = some c → w.connections b = some c → a = b

/-- The connections of `names` have been destroyed. -/
structure Swept (s : TcpServer) (names : List String) (phase phase' : ConnId → Phase)
    (w w' : World) : Prop where
  connections : ∀ name, w'.connections name = if name ∈ names then none else w.connections name
  phases : ∀ c, phase' c = if Has w names c then .destroyed else phase c
  history : ∀ c, w'.history c =
    w.history c ++ if Has w names c then destroyedOccurrences (phase c) else []
  removable : ∀ x, (w'.loops s.loop).Removable x ↔ (w.loops s.loop).Removable x
  pending : w'.pending s.loop = w.pending s.loop
  conns : ∀ c, w'.conns c = none ↔ w.conns c = none

section Sweep
variable {calls : DownCalls} {name : String} {names : List String}

/-- The world after `it->second.reset()`. -/
def resetEntry (w : World) (name : String) : World :=
  { w with connections := Function.update w.connections name none }

theorem destroyConnection_eq (h : Held s phase w) (he : Entered phase w)
    (hname : w.connections name = some c) :
    w.destroyConnection s s.loop calls name =
      (resetEntry w name).runConnectDestroyed s s.loop calls c := by
  obtain ⟨hne, hp⟩ := he.conn name c hname
  obtain ⟨conn, hconn⟩ := Option.ne_none_iff_exists'.mp hne
  have hl : conn.loop = s.loop := ((h.member c conn hconn).stands hp.ne.1).loop.trans h.loop
  have hconn' : (resetEntry w name).conns c = some conn := hconn
  unfold resetEntry at hconn' ⊢
  simp [World.destroyConnection, hname, World.conn_eq hconn', hl]

/-- The connections other than `c` that are left. -/
theorem has_cons (hname : w.connections name = some c)
    (hconnections : w'.connections = Function.update w.connections name none) (d : ConnId) :
    Has w (name :: names) d ↔ d = c ∨ Has w' names d := by
  unfold Has
  rw [hconnections]
  constructor
  · rintro ⟨n, hmem, hd⟩
    by_cases hn : n = name
    · rw [hn, hname] at hd
      exact .inl (Option.some.inj hd).symm
    · obtain rfl | hmem := List.mem_cons.mp hmem
      · exact absurd rfl hn
      · exact .inr ⟨n, hmem, by simp [hn, hd]⟩
  · rintro (rfl | ⟨n, hmem, hd⟩)
    · exact ⟨name, List.mem_cons_self, hname⟩
    · by_cases hn : n = name
      · simp [hn] at hd
      · exact ⟨n, List.mem_cons_of_mem _ hmem, by simpa [hn] using hd⟩

theorem not_has_self (he : Entered phase w) (hname : w.connections name = some c)
    (hconnections : w'.connections = Function.update w.connections name none) :
    ¬Has w' names c := by
  rintro ⟨n, _, hc⟩
  rw [hconnections] at hc
  obtain ⟨hn, hc⟩ := PartialMap.of_erase hc
  exact hn (he.unique n name c hc hname)

theorem Entered.destroyed {occurrences : List Occurrence} {cs : List (ConnId × UserCall)}
    (he : Entered phase w) (hname : w.connections name = some c)
    (hd : Destroyed s c cs occurrences (resetEntry w name) w') :
    Entered (Function.update phase c .destroyed) w' := by
  have hold : ∀ n d, w'.connections n = some d → d ≠ c ∧ w.connections n = some d := by
    intro n d hn
    rw [hd.rest.connections] at hn
    change Function.update w.connections name none n = some d at hn
    obtain ⟨heq, hn⟩ := PartialMap.of_erase hn
    refine ⟨?_, hn⟩
    rintro rfl
    exact heq (he.unique n name d hn hname)
  constructor
  · intro n d hn
    obtain ⟨hdc, hn⟩ := hold n d hn
    rw [Function.update_of_ne hdc]
    obtain ⟨hconn, hp⟩ := he.conn n d hn
    exact ⟨(hd.rest.conns d).not.mpr hconn, hp⟩
  · intro a b d ha hb
    exact he.unique a b d (hold a d ha).2 (hold b d hb).2

theorem Swept.cons (he : Entered phase w) (hname : w.connections name = some c)
    {cs : List (ConnId × UserCall)}
    (hd : Destroyed s c cs (destroyedOccurrences (phase c)) (resetEntry w name) w')
    (hs : Swept s names (Function.update phase c .destroyed) phase' w' w'') :
    Swept s (name :: names) phase phase' w w'' := by
  have hconnections : w'.connections = Function.update w.connections name none :=
    hd.rest.connections
  have hhas : ∀ d, Has w (name :: names) d ↔ d = c ∨ Has w' names d :=
    has_cons hname hconnections
  have hself : ¬Has w' names c := not_has_self he hname hconnections
  refine ⟨fun n => ?_, fun d => ?_, fun d => ?_, fun x => ?_, ?_, fun d => ?_⟩
  · rw [hs.connections, hconnections]
    by_cases hn : n = name
    · simp [hn]
    · simp [hn]
  · rw [hs.phases]
    by_cases hdc : d = c
    · subst hdc
      simp [hhas, hself]
    · simp [hhas, hdc]
  · rw [hs.history]
    by_cases hdc : d = c
    · subst hdc
      rw [if_neg hself, if_pos ((hhas d).mpr (.inl rfl)), List.append_nil, hd.self]
      rfl
    · rw [hd.history d hdc]
      simp [hhas, hdc, resetEntry]
  · exact (hs.removable x).trans (hd.rest.removable x)
  · exact hs.pending.trans hd.rest.pending
  · exact (hs.conns d).trans (hd.rest.conns d)

theorem shutdown_state_eq {state : StateE} :
    UserCall.shutdown.state state ≠ .kConnected := by
  cases state <;> simp [UserCall.state]

/-- What the destruction of `c`, the first of the sweep, leaves of the connections of `names`. -/
structure Resumes (s : TcpServer) (calls : DownCalls) (c : ConnId) (names : List String)
    (w w' : World) : Prop where
  connections : ∀ n ∈ names, ∀ d, w'.connections n = some d ↔ w.connections n = some d
  state : ∀ n ∈ names, ∀ d, w.connections n = some d → w'.state d = (w.state d).map fun state =>
    if w.state c = some .kConnected ∧ (d, .shutdown) ∈ calls c then UserCall.shutdown.state state
    else state
  removable : ∀ x, (w'.loops s.loop).Removable x ↔ (w.loops s.loop).Removable x

theorem resumes_of_destroyed (he : Entered phase w) (hname : w.connections name = some c)
    (hconn : w.conns c = some conn) (hup : phase c = .up ↔ conn.state = .kConnected)
    (hnew : name ∉ names)
    (hd : Destroyed s c (downCalls calls c (phase c)) (destroyedOccurrences (phase c))
      (resetEntry w name) w') : Resumes s calls c names w w' := by
  have hother : ∀ n ∈ names, ∀ d, w.connections n = some d → d ≠ c := by
    rintro n hn d hdn rfl
    obtain rfl := he.unique n name d hdn hname
    exact hnew hn
  have hstate : ∀ d, d ≠ c → w'.state d = (w.state d).map fun state =>
    if (d, .shutdown) ∈ downCalls calls c (phase c) then UserCall.shutdown.state state
    else state := hd.state
  have hcalls : ∀ d, (d, .shutdown) ∈ downCalls calls c (phase c) ↔
      w.state c = some .kConnected ∧ (d, .shutdown) ∈ calls c := by
    intro d
    rw [World.state_eq hconn, Option.some.injEq, ← hup, downCalls]
    split_ifs with hp
    · simp [hp]
    · simp [hp]
  refine ⟨?_, ?_, hd.rest.removable⟩
  · intro n hn d
    rw [hd.rest.connections]
    change Function.update w.connections name none n = some d ↔ _
    rw [Function.update_of_ne]
    rintro rfl
    exact hnew hn
  · intro n hn d hdn
    rw [hstate d (hother n hn d hdn)]
    simp only [hcalls]

/-- A connection that is up after the destruction of `c` was up before. -/
theorem Resumes.connected (r : Resumes s calls c names w w') {n : String} {d : ConnId}
    (hn : n ∈ names) (hdn : w.connections n = some d) (hst : w'.state d = some .kConnected) :
    w.state d = some .kConnected := by
  rw [r.state n hn d hdn] at hst
  obtain ⟨state, hw, heq⟩ := Option.map_eq_some_iff.mp hst
  split_ifs at heq
  · exact absurd heq shutdown_state_eq
  · rw [hw, heq]

/-- What is orderly with `c` is orderly without it. -/
theorem OrderlyEntries.tail (h : OrderlyEntries s w calls (name :: names))
    (r : Resumes s calls c names w w') (hname : w.connections name = some c) :
    OrderlyEntries s w' calls names := by
  have hpair := List.pairwise_cons.mp h.not_shut_down
  refine ⟨?_, ?_, ?_⟩
  · intro n hn d hdn hst
    rw [r.connections n hn] at hdn
    have hne := h.not_disconnecting n (List.mem_cons_of_mem _ hn) d hdn
    rw [r.state n hn d hdn] at hst
    obtain ⟨state, hw, heq⟩ := Option.map_eq_some_iff.mp hst
    split_ifs at heq with hshut
    · have hup : state = .kConnected := by
        by_contra hup
        rw [UserCall.state_of_ne hup] at heq
        exact hne (by rw [hw, heq])
      exact hpair.1 n hn c d hname hdn hshut.1 (by rw [hw, hup]) hshut.2
    · exact hne (by rw [hw, heq])
  · refine List.Pairwise.imp_of_mem ?_ hpair.2
    intro a b ha hb hab c' d' hc' hd' hsc hsd
    rw [r.connections a ha] at hc'
    rw [r.connections b hb] at hd'
    exact hab c' d' hc' hd' (r.connected ha hc' hsc) (r.connected hb hd' hsd)
  · intro n hn d hdn
    rw [r.connections n hn] at hdn
    exact (r.removable d).mpr (h.removable n (List.mem_cons_of_mem _ hn) d hdn)

/-- A connection in front that may be destroyed, and leaves an orderly rest. -/
theorem OrderlyEntries.cons (h : OrderlyEntries s w' calls names)
    (r : Resumes s calls c names w w') (hname : w.connections name = some c)
    (hne : w.state c ≠ some .kDisconnecting) (hr : (w.loops s.loop).Removable c) :
    OrderlyEntries s w calls (name :: names) := by
  have hshut : ∀ n ∈ names, ∀ d, w.connections n = some d → w.state d = some .kConnected →
      ¬(w.state c = some .kConnected ∧ (d, .shutdown) ∈ calls c) := by
    intro n hn d hdn hst hmem
    apply h.not_disconnecting n hn d ((r.connections n hn d).mpr hdn)
    rw [r.state n hn d hdn, hst, Option.map_some, if_pos hmem]
    rfl
  have hforth : ∀ n ∈ names, ∀ d, w.connections n = some d → w.state d = some .kConnected →
      w'.state d = some .kConnected := by
    intro n hn d hdn hst
    rw [r.state n hn d hdn, hst, Option.map_some, if_neg (hshut n hn d hdn hst)]
  refine ⟨?_, List.pairwise_cons.mpr ⟨?_, ?_⟩, ?_⟩
  · intro n hn d hdn hst
    obtain rfl | hn := List.mem_cons.mp hn
    · obtain rfl : c = d := Option.some.inj (hname.symm.trans hdn)
      exact hne hst
    · apply h.not_disconnecting n hn d ((r.connections n hn d).mpr hdn)
      rw [r.state n hn d hdn, hst, Option.map_some]
      split_ifs
      · rfl
      · rfl
  · intro n hn c' d hc' hdn hsc hsd hmem
    obtain rfl : c = c' := Option.some.inj (hname.symm.trans hc')
    exact hshut n hn d hdn hsd ⟨hsc, hmem⟩
  · refine List.Pairwise.imp_of_mem ?_ h.not_shut_down
    intro a b ha hb hab c' d' hc' hd' hsc hsd
    exact hab c' d' ((r.connections a ha c').mpr hc') ((r.connections b hb d').mpr hd')
      (hforth a ha c' hc' hsc) (hforth b hb d' hd' hsd)
  · intro n hn d hdn
    obtain rfl | hn := List.mem_cons.mp hn
    · obtain rfl : c = d := Option.some.inj (hname.symm.trans hdn)
      exact hr
    · exact (r.removable d).mp (h.removable n hn d ((r.connections n hn d).mpr hdn))

/-- After the first connection, the rest of an orderly sweep is orderly. -/
theorem orderly_cons (he : Entered phase w) (hname : w.connections name = some c)
    (hconn : w.conns c = some conn) (hup : phase c = .up ↔ conn.state = .kConnected)
    (hnew : name ∉ names)
    (hd : Destroyed s c (downCalls calls c (phase c)) (destroyedOccurrences (phase c))
      (resetEntry w name) w') :
    OrderlyEntries s w calls (name :: names) ↔
      (conn.state ≠ .kDisconnecting ∧ (w.loops s.loop).Removable c) ∧
        OrderlyEntries s w' calls names := by
  have r : Resumes s calls c names w w' := resumes_of_destroyed he hname hconn hup hnew hd
  have hstate : w.state c ≠ some .kDisconnecting ↔ conn.state ≠ .kDisconnecting := by
    rw [World.state_eq hconn]
    exact (Option.some_injective _).ne_iff
  constructor
  · intro h
    have hne := h.not_disconnecting name List.mem_cons_self c hname
    exact ⟨⟨hstate.mp hne, h.removable name List.mem_cons_self c hname⟩, h.tail r hname⟩
  · rintro ⟨⟨hne, hr⟩, h⟩
    exact h.cons r hname (hstate.mpr hne) hr

/-- The sweep completes exactly when it is orderly. -/
theorem destroyConnections_spec (h : Held s phase w) (he : Entered phase w)
    (hnodup : names.Nodup) (hnames : ∀ name ∈ names, w.connections name ≠ none)
    (hcalls : ∀ c, ∀ x ∈ calls c, w.conns x.1 ≠ none) :
    (OrderlyEntries s w calls names → Yields (w.destroyConnections s s.loop calls names)
      fun w' => ∃ phase', Held s phase' w' ∧ Swept s names phase phase' w w') ∧
    (¬OrderlyEntries s w calls names →
      ∃ a, w.destroyConnections s s.loop calls names = .error a) := by
  induction names generalizing w phase with
  | nil =>
    refine ⟨fun _ => yields_ok ⟨phase, h, ?_⟩, fun hnot => absurd ?_ hnot⟩
    · exact ⟨fun _ => by simp, fun _ => by simp [Has], fun _ => by simp [Has], fun _ => .rfl, rfl,
        fun _ => .rfl⟩
    · exact ⟨by simp, List.Pairwise.nil, by simp⟩
  | cons name names ih =>
    obtain ⟨hnew, hnodup⟩ := List.nodup_cons.mp hnodup
    obtain ⟨c, hname⟩ := Option.ne_none_iff_exists'.mp (hnames name List.mem_cons_self)
    obtain ⟨hne, hlisted⟩ := he.conn name c hname
    have hp := hlisted.up_or_down
    obtain ⟨conn, hconn⟩ := Option.ne_none_iff_exists'.mp hne
    have hreset : Held s phase (resetEntry w name) := h.congr rfl rfl rfl
    simp only [World.destroyConnections, destroyConnection_eq h he hname]
    by_cases hhead : conn.state ≠ .kDisconnecting ∧ (w.loops s.loop).Removable c
    · obtain ⟨w₁, hrun, h₁, hd⟩ := hreset.connectDestroyed hconn hp hhead.1 hhead.2 (hcalls c)
      have hup : phase c = .up ↔ conn.state = .kConnected := by
        have hholds := (h.member c conn hconn).holds
        obtain hp | hp := hp
        · rw [hp] at hholds
          exact iff_of_true hp (hholds.1.resolve_right hhead.1)
        · have hs := (((h.member c conn hconn).stands hp.ne.1).deleted hp).1
          exact iff_of_false hp.ne.2 (by simp [hs])
      have hnames₁ : ∀ n ∈ names, w₁.connections n ≠ none := by
        intro n hn
        rw [hd.rest.connections]
        change Function.update w.connections name none n ≠ none
        rw [Function.update_of_ne (by rintro rfl; exact hnew hn)]
        exact hnames n (List.mem_cons_of_mem _ hn)
      have hcalls₁ : ∀ c, ∀ x ∈ calls c, w₁.conns x.1 ≠ none := fun c x hx =>
        (hd.rest.conns x.1).not.mpr (hcalls c x hx)
      obtain ⟨hok, herr⟩ := ih h₁ (he.destroyed hname hd) hnodup hnames₁ hcalls₁
      rw [orderly_cons he hname hconn hup hnew hd, hrun, ok_bind]
      refine ⟨fun ho => ?_, fun ho => herr fun h' => ho ⟨hhead, h'⟩⟩
      apply (hok ho.2).mono
      rintro w₂ ⟨phase', h₂, hs⟩
      exact ⟨phase', h₂, hs.cons he hname hd⟩
    · have hbad : conn.state = .kDisconnecting ∨ ¬(w.loops s.loop).Removable c := by
        by_cases hs : conn.state = .kDisconnecting
        · exact .inl hs
        · exact .inr fun hr => hhead ⟨hs, hr⟩
      obtain ⟨a, hrun⟩ := hreset.connectDestroyed_fails hconn hp hbad (hcalls c)
      refine ⟨fun ho => absurd ⟨?_, ?_⟩ hhead, fun _ => ⟨a, by rw [hrun]; rfl⟩⟩
      · intro hs
        exact ho.not_disconnecting name List.mem_cons_self c hname
          (by rw [World.state_eq hconn, hs])
      · exact ho.removable name List.mem_cons_self c hname

end Sweep

/-! ### The acceptor is destroyed -/

/-- `acceptChannel_.disableAll()` leaves the channel without interest, in the poller. -/
theorem update_disabled_acceptor (h : Held s phase w) :
    Yields ((w.loops s.loop).poller.updateChannel (s.acceptChannel.set .disableAll)) fun poller =>
      ∃ v, poller = (w.loops s.loop).poller.put (s.acceptChannel.set .disableAll) v ∧
        (v = EPollPoller.added (s.acceptChannel.set .disableAll) ∨
          v = EPollPoller.deleted (s.acceptChannel.set .disableAll)) := by
  generalize hch : s.acceptChannel.set .disableAll = ch
  have hview : (w.loops s.loop).poller.view ch = (w.loops s.loop).poller.view s.acceptChannel := by
    rw [← hch]
    rfl
  obtain hacc | hacc := h.acceptor
  · cases hn : s.acceptChannel.isNoneEvent with
    | true =>
      rw [EPollPoller.registered_of_isNoneEvent hn] at hacc
      have hdeleted : (w.loops s.loop).poller.view ch = EPollPoller.deleted ch := by
        rw [hview, hacc, ← hch]
        rfl
      rw [EPollPoller.updateChannel_deleted hdeleted]
      exact yields_ok ⟨_, rfl, .inl rfl⟩
    | false =>
      rw [EPollPoller.registered_of_interest hn] at hacc
      have hnone : ch.isNoneEvent = true := by
        rw [← hch]
        exact Channel.isNoneEvent_disableAll _
      rw [EPollPoller.updateChannel_added hacc (by rw [← hch]; rfl) (by rw [← hch]; rfl), if_pos hnone]
      exact yields_ok ⟨_, rfl, .inr rfl⟩
  · rw [EPollPoller.updateChannel_absent (hview.trans hacc)]
    exact yields_ok ⟨_, rfl, .inl rfl⟩

/-- The loop without the listening channel. -/
def loopWithoutAcceptor (s : TcpServer) (w : World) : EventLoop PendingFunctor :=
  { w.loops s.loop with
    poller := (w.loops s.loop).poller.put (s.acceptChannel.set .disableAll) EPollPoller.absent }

/-- The world without the acceptor. -/
def withoutAcceptor (s : TcpServer) (w : World) : World :=
  { w.setLoop s.loop (loopWithoutAcceptor s w) with
    fds := Function.update w.fds s.acceptChannel.fd none }

/-- After `acceptChannel_.disableAll()` it depends on the active channels alone whether
`acceptChannel_.remove()` succeeds. -/
theorem disableAcceptor (h : Held s phase w) :
    Yields ((w.loops s.loop).updateChannel (s.acceptChannel.set .disableAll)) fun loop =>
      loop.removeChannel (s.acceptChannel.set .disableAll) =
        if (w.loops s.loop).Removable s.acceptChannel.id then .ok (loopWithoutAcceptor s w)
        else .error .removeActiveChannel := by
  obtain ⟨_, hupdate, v, rfl, hv⟩ := update_disabled_acceptor h
  unfold loopWithoutAcceptor
  have hn := Channel.isNoneEvent_disableAll s.acceptChannel
  generalize hch : s.acceptChannel.set .disableAll = ch at hupdate hv hn ⊢
  have hown : ch.ownerLoop = (w.loops s.loop).id := by
    rw [← hch]
    exact h.ownerLoop.trans h.loop.symm
  have hid : s.acceptChannel.id = ch.id := by
    rw [← hch]
    rfl
  have hremove : ((w.loops s.loop).poller.put ch v).removeChannel ch =
      .ok ((w.loops s.loop).poller.put ch EPollPoller.absent) := by
    rw [← EPollPoller.put_put v EPollPoller.absent rfl rfl]
    obtain rfl | rfl := hv
    · exact EPollPoller.removeChannel_added (EPollPoller.view_put_self _) hn
    · exact EPollPoller.removeChannel_deleted (EPollPoller.view_put_self _) hn
  unfold EventLoop.updateChannel EventLoop.assertInLoopThread
  rw [assert_pos hown, ok_bind, hupdate]
  apply yields_ok
  rw [hid]
  exact (w.loops s.loop).removeChannel_with hn hown hremove

theorem Held.destroyAcceptor (h : Held s phase w) :
    w.destroyAcceptor s s.loop = if (w.loops s.loop).Removable s.acceptChannel.id then
      .ok (TcpServer.withoutAcceptor s w) else .error .removeActiveChannel := by
  obtain ⟨loop, hupdate, hremove⟩ := disableAcceptor h
  simp only [World.destroyAcceptor, hupdate, ok_bind, hremove]
  split_ifs
  · rfl
  · rfl

theorem Held.withoutAcceptor (h : Held s phase w) : Held s phase (withoutAcceptor s w) := by
  generalize hch : s.acceptChannel.set .disableAll = ch
  have hid : s.acceptChannel.id = ch.id := by rw [← hch]; rfl
  have hfd : s.acceptChannel.fd = ch.fd := by rw [← hch]; rfl
  have hloop : (TcpServer.withoutAcceptor s w).loops s.loop = { w.loops s.loop with
      poller := (w.loops s.loop).poller.put ch EPollPoller.absent } := by
    simp [TcpServer.withoutAcceptor, loopWithoutAcceptor, World.setLoop, hch]
  have hchannels : ∀ fd, fd ≠ ch.fd → ((w.loops s.loop).poller.put ch EPollPoller.absent).channels fd =
      (w.loops s.loop).poller.channels fd ∧
      ((w.loops s.loop).poller.put ch EPollPoller.absent).interest fd =
      (w.loops s.loop).poller.interest fd := by
    intro fd hne
    simp [EPollPoller.put, hne]
  have hself : ((w.loops s.loop).poller.put ch EPollPoller.absent).channels ch.fd = none ∧
      ((w.loops s.loop).poller.put ch EPollPoller.absent).interest ch.fd = none := by
    simp [EPollPoller.put, EPollPoller.absent]
  constructor
  · rw [hloop]
    exact h.loop
  · intro c conn hc
    obtain ⟨hcid, hchc, hholds, hstands, hacc⟩ := h.member c conn hc
    refine ⟨hcid, hchc, hholds, fun hp => ?_, hacc⟩
    obtain ⟨hl, hown, _, hview⟩ := hstands hp
    rw [hloop]
    refine ⟨hl, hown, hholds, ?_⟩
    have hapart : EPollPoller.Apart conn.channel ch :=
      ⟨fun heq => (hacc hp).1 (hid.trans heq.symm), fun heq => (hacc hp).2 (hfd.trans heq.symm)⟩
    rw [← hview]
    exact EPollPoller.view_put_apart _ hapart
  · exact h.apart
  · intro fd c conn hc hconn
    rw [hloop] at hc
    by_cases hf : fd = ch.fd
    · rw [hf, hself.1] at hc
      cases hc
    · rw [(hchannels fd hf).1] at hc
      exact h.channels fd c conn hc hconn
  · intro fd mask c hi
    rw [hloop] at hi ⊢
    by_cases hf : fd = ch.fd
    · rw [hf, hself.2] at hi
      cases hi
    · rw [(hchannels fd hf).2] at hi
      rw [(hchannels fd hf).1]
      exact h.interest fd mask c hi
  · rw [hloop]
    exact .inr (EPollPoller.view_put _ hid hfd)
  · exact h.ownerLoop

/-! ### The pending functors -/

/-- The pending `connectDestroyed` remove their channels. -/
theorem runPending_spec {cs : List ConnId} (h : Held s phase w) (hnodup : cs.Nodup)
    (hcs : ∀ c ∈ cs, w.conns c ≠ none ∧ phase c = .erased)
    (hr : ∀ x, (w.loops s.loop).Removable x) :
    Yields (w.runPending s.loop cs) fun w' => ∃ phase', Held s phase' w' ∧
      (∀ c, phase' c = if c ∈ cs then .destroyed else phase c) ∧
      ∀ c, w'.conns c = none ↔ w.conns c = none := by
  induction cs generalizing w phase with
  | nil => exact yields_ok ⟨phase, h, by simp, fun _ => .rfl⟩
  | cons c cs ih =>
    obtain ⟨hnew, hnodup⟩ := List.nodup_cons.mp hnodup
    obtain ⟨hne, hp⟩ := hcs c List.mem_cons_self
    obtain ⟨conn, hconn⟩ := Option.ne_none_iff_exists'.mp hne
    have hdown : (phase c).Down := .inr (.inr hp)
    have hstands := (h.member c conn hconn).stands hdown.ne.1
    have heq := (connectDestroyed_eq (s := s) hconn hstands.loop (by simp [(hstands.deleted hdown).1])
      fun _ => []).1
    simp only [World.runPending, heq]
    apply (h.removeChannel hconn hdown (hr c)).bind
    rintro w₁ ⟨h₁, hd⟩
    have hcs₁ : ∀ d ∈ cs, w₁.conns d ≠ none ∧ Function.update phase c .destroyed d = .erased := by
      intro d hmem
      obtain ⟨hdne, hdp⟩ := hcs d (List.mem_cons_of_mem _ hmem)
      refine ⟨(hd.rest.conns d).not.mpr hdne, ?_⟩
      rw [Function.update_of_ne (by rintro rfl; exact hnew hmem), hdp]
    apply (ih h₁ hnodup hcs₁ fun x => (hd.rest.removable x).mpr (hr x)).mono
    rintro w₂ ⟨phase', h₂, hphase, hconns⟩
    refine ⟨phase', h₂, fun d => ?_, fun d => (hconns d).trans (hd.rest.conns d)⟩
    rw [hphase]
    by_cases hdc : d = c
    · subst hdc
      simp
    · simp [hdc]

/-! ### The reachable states -/

/-- What the destructor finds: each connection in its phase, in `connections_` until it is
closed, and its `connectDestroyed` queued from then on. -/
structure Found (s : TcpServer) (phase : ConnId → Phase) (w : World) : Prop where
  held : Held s phase w
  entered : Entered phase w
  history : ∀ c conn, w.conns c = some conn → ∃ n, w.history c = (phase c).history n
  fresh : ∀ c, w.conns c = none → w.history c = []
  phases : ∀ c, w.conns c ≠ none → phase c = .destroyed ∨ phase c = .erased ∨
    (phase c).Listed ∧ ∃ name, w.connections name = some c
  pending : ∀ c, c ∈ w.pending s.loop ↔ w.conns c ≠ none ∧ phase c = .erased
  nodup : (w.pending s.loop).Nodup

theorem count_pending {l : LoopId} (c : ConnId) :
    (w.pending l).count c = (w.queue l).count (.connectDestroyed c) := by
  unfold World.pending
  induction w.queue l with
  | nil => rfl
  | cons f queue ih =>
    cases f with
    | connectDestroyed d =>
      simp only [List.filterMap_cons]
      rw [List.count_cons, List.count_cons, ih]
      by_cases hd : d = c
      · simp [hd]
      · simp [hd]
    | connectEstablished | sendInLoop | shutdownInLoop | writeCompleteCallback
    | highWaterMarkCallback | removeConnectionInLoop =>
      rw [List.filterMap_cons_none rfl, ih, List.count_cons_of_ne (by simp)]

section Sole
variable {conn : TcpConnection} {p : Phase}

/-- Without I/O loops all connections are on the loop of the server. -/
theorem At.loop_of_sole (hat : At s none w c conn p) (hs : s.ioLoops = []) :
    conn.loop = s.loop := by
  have hloops : s.nextLoops = [s.loop] := if_pos hs
  have hmem := hat.nextLoops
  rw [hloops] at hmem
  exact List.mem_singleton.mp hmem

theorem At.listed_of_kept (hat : At s none w c conn p) (hs : s.ioLoops = []) (hk : p.Kept) :
    p.Listed := by
  have hne : p ≠ .created := by
    intro hp
    exact (hat.established hp).elim (by simp) fun hne => hne (hat.loop_of_sole hs)
  cases p with
  | up | closing | closed => simp [Phase.Listed]
  | created => exact absurd rfl hne
  | erased | destroyed => simp [Phase.Kept] at hk

theorem At.functor_eq_connectDestroyed (hat : At s none w c conn p) (hs : s.ioLoops = []) :
    p.functor s conn = some (s.loop, .connectDestroyed c) ↔ p = .erased := by
  have hid := hat.id
  have hloop := hat.loop_of_sole hs
  cases p <;> simp [Phase.functor, hid, hloop]

theorem Inv.conn_of_name (h : Inv s none w) {name : String} (hname : w.connections name = some c) :
    ∃ conn, w.conns c = some conn := by
  cases hc : w.conns c with
  | none => exact absurd hname ((h.fresh c hc).connections name)
  | some conn => exact ⟨conn, rfl⟩

theorem held_of_inv (h : Inv s none w) (hs : s.ioLoops = [])
    (hat : ∀ c conn, w.conns c = some conn → At s none w c conn (phase c)) : Held s phase w := by
  constructor
  · exact (h.loop s.loop).id
  · intro c conn hc
    have hatc := hat c conn hc
    refine ⟨hatc.id, hatc.channelId, hatc.holds, fun hp => ?_, fun hp => ?_⟩
    · have hstands := hatc.stands hp h
      rwa [hatc.loop_of_sole hs] at hstands
    · obtain ⟨ho, _, hopen, _⟩ := h.acceptor
      have hne : s.acceptChannel.id ≠ c := by
        intro heq
        rw [heq, h.others c conn hc] at ho
        cases ho
      refine ⟨by rw [hatc.channelId]; exact hne, fun heq => ?_⟩
      have hfd := (hatc.fds conn.channel.fd).mpr ⟨hp, rfl⟩
      rw [← heq, hopen] at hfd
      exact hne (Option.some.inj hfd)
  · intro c d conn connD hc hd hp hpd heq
    have hcfd := ((hat c conn hc).fds conn.channel.fd).mpr ⟨hp, rfl⟩
    have hdfd := ((hat d connD hd).fds conn.channel.fd).mpr ⟨hpd, heq⟩
    exact Option.some.inj (hcfd.symm.trans hdfd)
  · intro fd c conn hch hc
    obtain ⟨hp, hfd⟩ := ((hat c conn hc).fds fd).mp (h.channels s.loop fd c hch).1
    exact ⟨hp, hfd.symm⟩
  · exact h.interest s.loop
  · obtain ⟨_, _, _, hview⟩ := h.acceptor
    exact hview.imp_right And.right
  · exact h.acceptor.ownerLoop

theorem entered_of_inv (h : Inv s none w) (hs : s.ioLoops = [])
    (hat : ∀ c conn, w.conns c = some conn → At s none w c conn (phase c)) : Entered phase w where
  conn name c hname := by
    obtain ⟨conn, hc⟩ := h.conn_of_name hname
    have hatc := hat c conn hc
    exact ⟨by simp [hc], hatc.listed_of_kept hs ((hatc.connections name).mp hname).2⟩
  unique a b c ha hb := by
    obtain ⟨conn, hc⟩ := h.conn_of_name ha
    have hatc := hat c conn hc
    exact ((hatc.connections a).mp ha).1.trans ((hatc.connections b).mp hb).1.symm

/-- The `connectDestroyed` of a connection is queued once, while it is erased. -/
theorem count_pending_of_inv (h : Inv s none w) (hs : s.ioLoops = [])
    (hat : ∀ c conn, w.conns c = some conn → At s none w c conn (phase c)) (c : ConnId) :
    (w.pending s.loop).count c = if w.conns c ≠ none ∧ phase c = .erased then 1 else 0 := by
  rw [count_pending]
  cases hc : w.conns c with
  | none =>
    rw [if_neg (by simp)]
    exact List.count_eq_zero_of_not_mem fun hmem => (h.fresh c hc).queued s.loop _ hmem rfl
  | some conn =>
    have hq := (hat c conn hc).queued s.loop (.connectDestroyed c) rfl (fun hcb => hcb)
    rw [if_neg (by simp), Nat.add_zero] at hq
    rw [hq]
    simp only [(hat c conn hc).functor_eq_connectDestroyed hs]
    simp

end Sole

theorem found_of_inv (h : Inv s none w) (hs : s.ioLoops = []) : ∃ phase, Found s phase w := by
  have hphase : ∀ c, ∃ p, ∀ conn, w.conns c = some conn → At s none w c conn p := by
    intro c
    cases hc : w.conns c with
    | none => exact ⟨.created, by simp⟩
    | some conn =>
      obtain ⟨p, hat⟩ := h.conn c conn hc
      refine ⟨p, fun conn' heq => ?_⟩
      cases heq
      exact hat
  choose phase hat using hphase
  have hcount := count_pending_of_inv h hs hat
  exact
    ⟨phase,
      { held := held_of_inv h hs hat
        entered := entered_of_inv h hs hat
        history := fun c conn hc => (hat c conn hc).history
        fresh := fun c hc => (h.fresh c hc).history
        phases := fun c hne => by
          obtain ⟨conn, hc⟩ := Option.ne_none_iff_exists'.mp hne
          by_cases hk : (phase c).Kept
          · exact .inr (.inr ⟨(hat c conn hc).listed_of_kept hs hk, conn.name,
              ((hat c conn hc).connections conn.name).mpr ⟨rfl, hk⟩⟩)
          · unfold Phase.Kept at hk
            by_cases hp : phase c = .erased
            · exact .inr (.inl hp)
            · exact .inl (by_contra fun hd => hk ⟨hp, hd⟩)
        pending := fun c => by
          rw [← List.count_pos_iff, hcount c]
          split_ifs with hc
          · exact iff_of_true Nat.one_pos hc
          · exact iff_of_false (Nat.lt_irrefl 0) hc
        nodup := by
          rw [List.nodup_iff_count_le_one]
          intro c
          rw [hcount c]
          split_ifs
          · exact le_rfl
          · exact Nat.zero_le 1 }⟩

/-! ### What the destructor leaves -/

/-- The DOWN callbacks among the occurrences of a destruction. -/
theorem count_down_destroyed {p : Phase} (n : ℕ) (hp : p.Listed) :
    (destroyedOccurrences p).count .down =
      if .up ∈ p.history n ∧ .down ∉ p.history n then 1 else 0 := by
  obtain rfl | rfl | rfl := hp
  · simp [destroyedOccurrences, Phase.history, List.mem_replicate]
  · simp [destroyedOccurrences, Phase.history]
  · simp [destroyedOccurrences, Phase.history]

theorem down_mem_history {p : Phase} (n : ℕ) (hp : p = .erased ∨ p = .destroyed) :
    Occurrence.down ∈ p.history n := by
  obtain rfl | rfl := hp
  · simp [Phase.history]
  · simp [Phase.history]

section Destructor
variable {calls : DownCalls} {names : List String}

theorem Swept.down (hf : Found s phase w) (hnames : w.Keys names)
    (hs : Swept s names phase phase' w w') (c : ConnId) : (w'.history c).count .down =
      (w.history c).count .down + if .up ∈ w.history c ∧ .down ∉ w.history c then 1 else 0 := by
  rw [hs.history, List.count_append, Nat.add_left_cancel_iff]
  cases hc : w.conns c with
  | none =>
    have hhas : ¬Has w names c := by
      rintro ⟨name, _, hname⟩
      exact (hf.entered.conn name c hname).1 hc
    simp [hhas, hf.fresh c hc]
  | some conn =>
    obtain ⟨n, hn⟩ := hf.history c conn hc
    have hlate : phase c = .destroyed ∨ phase c = .erased → ¬Has w names c →
        (if Has w names c then destroyedOccurrences (phase c) else []).count .down =
          if .up ∈ w.history c ∧ .down ∉ w.history c then 1 else 0 := by
      intro hp hhas
      have hdown := down_mem_history n hp.symm
      rw [hn]
      simp [hhas, hdown]
    have hnot : ∀ name, w.connections name = some c → phase c ≠ .destroyed ∧ phase c ≠ .erased :=
      fun name hname => (hf.entered.conn name c hname).2.ne
    obtain hp | hp | ⟨hp, name, hname⟩ := hf.phases c (by simp [hc])
    · exact hlate (.inl hp) fun ⟨name, _, hname⟩ => (hnot name hname).1 hp
    · exact hlate (.inr hp) fun ⟨name, _, hname⟩ => (hnot name hname).2 hp
    · have hhas : Has w names c := ⟨name, (hnames.mem_iff name).mpr (by simp [hname]), hname⟩
      rw [if_pos hhas, hn]
      exact count_down_destroyed n hp

/-- After the sweep a connection is destroyed, or its `connectDestroyed` is pending. -/
theorem Swept.phase_cases (hf : Found s phase w) (hnames : w.Keys names)
    (hs : Swept s names phase phase' w w') (c : ConnId) (hc : w'.conns c ≠ none) :
    phase' c = .destroyed ∨ phase' c = .erased ∧ c ∈ w.pending s.loop := by
  have hc' := (hs.conns c).not.mp hc
  rw [hs.phases]
  split_ifs with hhas
  · exact .inl rfl
  · obtain hp | hp | ⟨_, name, hname⟩ := hf.phases c hc'
    · exact .inl hp
    · exact .inr ⟨hp, (hf.pending c).mpr ⟨hc', hp⟩⟩
    · exact absurd ⟨name, (hnames.mem_iff name).mpr (by simp [hname]), hname⟩ hhas

/-- A connection that is not destroyed is out of the interest set once it is down. -/
theorem Held.not_interest (h : Held s phase w) (hconn : w.conns c = some conn)
    (hp : phase c = .destroyed ∨ phase c = .erased) (fd : ℕ) (mask : Events) :
    (w.loops s.loop).poller.interest fd ≠ some (mask, c) := by
  intro hi
  obtain ⟨hlive, rfl⟩ := h.channels fd c conn (h.interest fd mask c hi) hconn
  have herased := hp.resolve_left hlive
  have hview := ((h.member c conn hconn).stands hlive).view
  rw [herased] at hview
  have hnone : (w.loops s.loop).poller.interest conn.channel.fd = none :=
    congrArg EPollPoller.View.interest hview
  rw [hnone] at hi
  cases hi

theorem cleanedUp_of_swept (hf : Found s phase w) (hnames : w.Keys names)
    (h : Held s phase' w') (hs : Swept s names phase phase' w w') :
    CleanedUp s w (withoutAcceptor s w') := by
  have hcases := hs.phase_cases hf hnames
  have hwithout := h.withoutAcceptor
  have hpending : (withoutAcceptor s w').pending s.loop = w.pending s.loop := by
    rw [← hs.pending]
    simp [World.pending, World.queue, withoutAcceptor, loopWithoutAcceptor, World.setLoop]
  have hdown := hs.down hf hnames
  refine ⟨fun c hc fd mask => ?_, fun c hc fd hch => ?_, ?_, hdown⟩
  · obtain ⟨conn, hconn⟩ := Option.ne_none_iff_exists'.mp hc
    exact hwithout.not_interest hconn ((hcases c hc).imp_right And.left) fd mask
  · obtain ⟨conn, hconn⟩ := Option.ne_none_iff_exists'.mp hc
    rw [hpending]
    exact ((hcases c hc).resolve_left (hwithout.channels fd c conn hch hconn).1).2
  · have hheld : Held s phase' ((withoutAcceptor s w').setLoop s.loop
        ((withoutAcceptor s w').loops s.loop).endHandling) := by
      refine hwithout.congr rfl ?_ ?_
      · simp [World.setLoop, EventLoop.endHandling]
      · simp [World.setLoop, EventLoop.endHandling]
    rw [hpending]
    have hmem : ∀ c ∈ w.pending s.loop, w'.conns c ≠ none ∧ phase' c = .erased := by
      intro c hc
      obtain ⟨hne, hp⟩ := (hf.pending c).mp hc
      refine ⟨(hs.conns c).not.mpr hne, ?_⟩
      rw [hs.phases, if_neg, hp]
      rintro ⟨name, _, hname⟩
      exact (hf.entered.conn name c hname).2.ne.2 hp
    apply (runPending_spec hheld hf.nodup hmem (by simp [EventLoop.Removable, World.setLoop,
      EventLoop.endHandling])).mono
    rintro w'' ⟨phase'', h'', hphase, hconns⟩ c hc fd hch
    obtain ⟨conn, hconn⟩ := Option.ne_none_iff_exists'.mp hc
    apply (h''.channels fd c conn hch hconn).1
    rw [hphase]
    split_ifs with hmem
    · rfl
    · exact (hcases c ((hconns c).not.mp hc)).resolve_right fun hp => hmem hp.2

/-- In every reachable state of a server without I/O loops, `~TcpServer` completes and cleans up
exactly when its connections and their callbacks are orderly. -/
theorem destructor_cleans_up_iff (s : TcpServer) (hs : s.ioLoops = [])
    (hw : Reachable (system s) w) (hnames : w.Keys names)
    (hcalls : ∀ c, ∀ x ∈ calls c, OnLoop w s.loop x.1) :
    (∃ w', w.destructor s s.loop calls names = .ok w' ∧ CleanedUp s w w') ↔
      Orderly s w calls names := by
  have hinv : Inv s none w := ((totalInvariant s).invariant _).reachable _ hw
  obtain ⟨phase, hf⟩ := found_of_inv hinv hs
  have hnodup : names.Nodup := by
    refine hnames.sorted.imp ?_
    rintro a b hlt rfl
    exact String.lt_irrefl a hlt
  have hsome : ∀ c, ∀ x ∈ calls c, w.conns x.1 ≠ none := by
    intro c x hx
    obtain ⟨conn, hconn, _⟩ := onLoop_iff.mp (hcalls c x hx)
    simp [hconn]
  obtain ⟨hok, herr⟩ := destroyConnections_spec hf.held hf.entered hnodup
    (fun name hmem => (hnames.mem_iff name).mp hmem) hsome
  have hloop : (w.loops s.loop).assertInLoopThread s.loop = .ok () := assert_pos hf.held.loop.symm _
  unfold World.destructor
  rw [hloop, ok_bind]
  by_cases ho : OrderlyEntries s w calls names
  · obtain ⟨w', hrun, phase', hheld, hswept⟩ := hok ho
    rw [hrun, ok_bind, hheld.destroyAcceptor]
    constructor
    · rintro ⟨w'', hrun', _⟩
      split_ifs at hrun' with hr
      exact ⟨ho, (hswept.removable _).mp hr⟩
    · intro hall
      rw [if_pos ((hswept.removable _).mpr hall.acceptor)]
      exact ⟨_, rfl, cleanedUp_of_swept hf hnames hheld hswept⟩
  · obtain ⟨a, hrun⟩ := herr ho
    rw [hrun, error_bind]
    constructor
    · rintro ⟨w', hrun', _⟩
      cases hrun'
    · exact fun hall => absurd hall.toOrderlyEntries ho

end Destructor

/-! ### A server without I/O loops -/

def soleLoop : TcpServer := { sample with ioLoops := [] }

theorem initial_soleLoop : Initial soleLoop sampleWorld where
  id := initial_sample.id
  position := initial_sample.position
  unvisited := initial_sample.unvisited
  batch := initial_sample.batch
  pendingFunctors := initial_sample.pendingFunctors
  threads := initial_sample.threads
  conns := initial_sample.conns
  connections := initial_sample.connections
  history := initial_sample.history
  fds := initial_sample.fds
  channels := initial_sample.channels
  interest := initial_sample.interest
  index := initial_sample.index
  acceptor := initial_sample.acceptor
  acceptorLoop := initial_sample.acceptorLoop
  acceptorView := initial_sample.acceptorView

/-- A connection is accepted, and its UP callback makes the calls `calls`. -/
def acceptEvents (calls : List UserCall) : List Event :=
  [.poll 0 [(1, POLLIN)], .visit 0, .newConnection 0 "sample:1#1" 5 2] ++
    calls.map (.userCall 0 2) ++ [.userReturn 0, .endHandling 0, .swap 0, .endFunctors 0]

theorem keys_accepted (h : w.connections = Function.update (fun _ => none) "sample:1#1" (some 2)) :
    w.Keys ["sample:1#1"] where
  sorted := List.pairwise_singleton ..
  mem_iff name := by
    rw [h, List.mem_singleton]
    by_cases hname : name = "sample:1#1"
    · simp [hname]
    · simp [hname]

/-- The connection has been shut down and its peer is still there: the destructor trips over
the interest of its channel. -/
theorem destructor_of_shut_down : ∃ w, Reachable (system soleLoop) w ∧ w.Keys ["sample:1#1"] ∧
    w.destructor soleLoop soleLoop.loop (fun _ => []) ["sample:1#1"] =
      .error .channelRemoveNoneEvent := by
  obtain ⟨w, hw, hconnections, hrun⟩ : ∃ w,
      replay (system soleLoop) sampleWorld (acceptEvents [.shutdown]) = some w ∧
      w.connections = Function.update (fun _ => none) "sample:1#1" (some 2) ∧
      w.destructor soleLoop soleLoop.loop (fun _ => []) ["sample:1#1"] =
        .error .channelRemoveNoneEvent := ⟨_, rfl, rfl, rfl⟩
  exact ⟨w, ⟨_, _, initial_soleLoop, run_of_replay _ hw⟩, keys_accepted hconnections, hrun⟩

/-- The connection is up, and sends and shuts down in its DOWN callback. -/
theorem destructor_of_up : ∃ w, Reachable (system soleLoop) w ∧
    ∃ w', w.destructor soleLoop soleLoop.loop (fun _ => [(2, .send [1] (.accepts 1)), (2, .shutdown)])
      ["sample:1#1"] = .ok w' ∧ CleanedUp soleLoop w w' := by
  obtain ⟨w, hw, hconnections, hstate, hon, hev⟩ : ∃ w,
      replay (system soleLoop) sampleWorld (acceptEvents []) = some w ∧
      w.connections = Function.update (fun _ => none) "sample:1#1" (some 2) ∧
      w.state 2 = some .kConnected ∧ OnLoop w 0 2 ∧ (w.loops 0).eventHandling = false :=
    ⟨_, rfl, rfl, rfl, rfl, rfl⟩
  have hreach : Reachable (system soleLoop) w := ⟨_, _, initial_soleLoop, run_of_replay _ hw⟩
  have hremovable : ∀ x, (w.loops soleLoop.loop).Removable x := by
    intro x hx
    change (w.loops 0).eventHandling = true at hx
    rw [hev] at hx
    cases hx
  refine ⟨w, hreach, (destructor_cleans_up_iff soleLoop rfl hreach (keys_accepted hconnections) ?_).mpr
    ⟨⟨?_, List.pairwise_singleton .., fun _ _ c _ => hremovable c⟩, hremovable _⟩⟩
  · intro c x hx
    have hx2 : x.1 = 2 := by
      simp only [List.mem_cons, List.not_mem_nil, or_false] at hx
      obtain rfl | rfl := hx
      · rfl
      · rfl
    rw [hx2]
    exact hon
  · intro name hname c hc
    rw [List.mem_singleton.mp hname, hconnections, Function.update_self] at hc
    cases hc
    rw [hstate]
    simp

end TcpServer
end Muduo

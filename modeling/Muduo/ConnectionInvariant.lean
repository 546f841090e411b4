import Muduo.ConnectionPhase

/-!
# The life of a connection under its server

The invariant of a server and its loops. Each connection is in one phase, and what
will take it to the next one is at exactly one place: in one loop's queue, or due
after one thread's callback. While a step is being taken, a functor may be in
hand: taken from its queue and not yet run, or about to be queued.
-/
namespace Muduo

/-- The connection a functor is bound to. -/
def PendingFunctor.conn : PendingFunctor → ConnId
  | .connectEstablished c | .connectDestroyed c | .sendInLoop c _ | .shutdownInLoop c
  | .writeCompleteCallback c | .highWaterMarkCallback c _ | .removeConnectionInLoop c => c

theorem PendingFunctor.IsCallback.conn_eq {c : ConnId} {f : PendingFunctor}
    (h : f.IsCallback c) : f.conn = c := by
  cases f <;> first | exact h | exact h.elim

instance (c : ConnId) : (f : PendingFunctor) → Decidable (f.IsCallback c)
  | .writeCompleteCallback d | .highWaterMarkCallback d _ => inferInstanceAs (Decidable (d = c))
  | .connectEstablished _ | .connectDestroyed _ | .sendInLoop .. | .shutdownInLoop _
  | .removeConnectionInLoop _ => inferInstanceAs (Decidable False)

def Due.conn : Due → ConnId
  | .closeCallback c | .removeChannel c => c

/-- The functors that a loop has yet to run. -/
def World.queue (w : World) (l : LoopId) : List PendingFunctor :=
  (w.loops l).batch ++ (w.loops l).pendingFunctors

/-- A functor taken from the queue of a loop, or about to be put there. -/
abbrev Hand := Option (LoopId × PendingFunctor)

/-- The functor that ends the phase. -/
def Phase.functor (s : TcpServer) (conn : TcpConnection) : Phase → Hand
  | created => some (conn.loop, .connectEstablished conn.id)
  | closed => some (s.loop, .removeConnectionInLoop conn.id)
  | erased => some (conn.loop, .connectDestroyed conn.id)
  | up | closing | destroyed => none

/-- The line after a callback that ends the phase. -/
def Phase.due (conn : TcpConnection) : Phase → Option (LoopId × Due)
  | closing => some (conn.loop, .closeCallback conn.id)
  | created | up | closed | erased | destroyed => none

/-- The phase until which the server has the connection in `connections_`. -/
def Phase.Kept (p : Phase) : Prop := p ≠ erased ∧ p ≠ destroyed

/-- What the handler of a connection needs for the rest of its tests. -/
def Test.NeedsUp (revents : Events) : Test → Prop
  | close => True
  | error | read => revents &&& POLLIN ≠ 0
  | write => False

namespace TcpServer
variable (s : TcpServer)

/-- The connection `c` is in phase `p`. -/
structure At (hand : Hand) (w : World) (c : ConnId) (conn : TcpConnection) (p : Phase) : Prop where
  id : conn.id = c
  channelId : conn.channel.id = c
  ownerLoop : conn.channel.ownerLoop = conn.loop
  history : ∃ n, w.history c = p.history n
  holds : p.Holds conn
  view : p ≠ .destroyed → (w.loops conn.loop).poller.view conn.channel = p.view conn.channel
  fds : ∀ fd, w.fds fd = some c ↔ p ≠ .destroyed ∧ fd = conn.channel.fd
  queued : ∀ l f, f.conn = c → ¬f.IsCallback c →
    (w.queue l).count f + (if hand = some (l, f) then 1 else 0) =
      if p.functor s conn = some (l, f) then 1 else 0
  due : ∀ l d, d.conn = c → ((w.threads l).due = some d ↔ p.due conn = some (l, d))
  connections : ∀ name, w.connections name = some c ↔ name = conn.name ∧ p.Kept
  nextLoops : conn.loop ∈ s.nextLoops
  /-- in the thread of its loop a connection is established at once -/
  established : p = .created → hand = some (conn.loop, .connectEstablished c) ∨ conn.loop ≠ s.loop

/-- No connection has been constructed at `c`. -/
structure Fresh (w : World) (c : ConnId) : Prop where
  history : w.history c = []
  queued : ∀ l, ∀ f ∈ w.queue l, f.conn ≠ c
  due : ∀ l d, (w.threads l).due = some d → d.conn ≠ c
  connections : ∀ name, w.connections name ≠ some c
  index : s.others c = none → ∀ l, (w.loops l).poller.index c = kNew

/-- The connection `c` of the loop `l` is up. -/
def Up (w : World) (l : LoopId) (c : ConnId) : Prop :=
  ∃ conn n, w.conns c = some conn ∧ conn.loop = l ∧ w.history c = Phase.up.history n

/-- The events that the handlers of a connection know. -/
def Known (revents : Events) : Prop :=
  revents &&& ~~~(POLLIN ||| POLLOUT ||| POLLERR ||| POLLHUP) = 0

/-- The running `handleEventWithGuard` of the loop `l`. -/
structure Testing (w : World) (l : LoopId) (c : ConnId) (t : Test) : Prop where
  visited : c ∉ (w.loops l).unvisited
  known : Known ((w.threads l).revents c)
  onLoop : ∃ conn, w.conns c = some conn ∧ conn.loop = l
  up : t.NeedsUp ((w.threads l).revents c) → Up w l c

/-- The acceptor is open, and its poller knows its channel. -/
structure Accepting (w : World) : Prop where
  other : s.others s.acceptChannel.id = some (s.loop, s.acceptChannel.fd)
  ownerLoop : s.acceptChannel.ownerLoop = s.loop
  fds : w.fds s.acceptChannel.fd = some s.acceptChannel.id
  view : (w.loops s.loop).poller.Settled s.acceptChannel

structure LoopInv (w : World) (l : LoopId) : Prop where
  id : (w.loops l).id = l
  batch : (w.loops l).position ≠ .functors → (w.loops l).batch = []
  eventHandling : (w.loops l).position = .swapping ∨ (w.loops l).position = .functors →
    (w.loops l).eventHandling = false
  nodup : (w.loops l).unvisited.Nodup
  unvisited : ∀ x ∈ (w.loops l).unvisited, Known ((w.threads l).revents x) ∧
    (s.others x ≠ none ∨ Up w l x)
  tests : ∀ c t, (w.threads l).tests = some (c, t) → Testing w l c t

structure Inv (hand : Hand) (w : World) : Prop where
  conn : ∀ c conn, w.conns c = some conn → ∃ p, At s hand w c conn p
  others : ∀ c conn, w.conns c = some conn → s.others c = none
  fresh : ∀ c, w.conns c = none → Fresh s w c
  fds : ∀ fd x, w.fds fd = some x → w.conns x = none → ∃ l, s.others x = some (l, fd)
  channels : ∀ l fd x, (w.loops l).poller.channels fd = some x →
    w.fds fd = some x ∧ ∀ conn, w.conns x = some conn → conn.loop = l
  interest : ∀ l fd mask x, (w.loops l).poller.interest fd = some (mask, x) →
    (w.loops l).poller.channels fd = some x
  loop : ∀ l, LoopInv s w l
  acceptor : Accepting s w

variable {s : TcpServer} {w w' w'' : World} {hand hand' : Hand} {l : LoopId} {c : ConnId}
  {conn conn' : TcpConnection} {p p' : Phase} {ch : Channel}

/-! ### What a step leaves alone -/

/-- The worlds differ at most in the connection `c`, its channel `ch` in the poller of
its loop `l`, its functors, and in where the threads stand. -/
structure Touches (c : ConnId) (ch : Channel) (l : LoopId) (w w' : World) : Prop where
  conns : ∀ d, d ≠ c → w'.conns d = w.conns d
  history : ∀ d, d ≠ c → w'.history d = w.history d
  connections : ∀ name d, d ≠ c → (w'.connections name = some d ↔ w.connections name = some d)
  fds : ∀ fd d, d ≠ c → (w'.fds fd = some d ↔ w.fds fd = some d)
  poller : EPollPoller.SameBut ch (w.loops l).poller (w'.loops l).poller
  pollers : ∀ k, k ≠ l → (w'.loops k).poller = (w.loops k).poller
  mem : ∀ k, ∀ f ∈ w'.queue k, f ∈ w.queue k ∨ f.conn = c
  count : ∀ k f, f.conn ≠ c → ¬f.IsCallback f.conn → (w'.queue k).count f = (w.queue k).count f
  due : ∀ k d, d.conn ≠ c → ((w'.threads k).due = some d ↔ (w.threads k).due = some d)

theorem Touches.refl (c : ConnId) (ch : Channel) (l : LoopId) (w : World) : Touches c ch l w w where
  conns _ _ := rfl
  history _ _ := rfl
  connections _ _ _ := .rfl
  fds _ _ _ := .rfl
  poller := .refl ch _
  pollers _ _ := rfl
  mem _ _ hf := .inl hf
  count _ _ _ _ := rfl
  due _ _ _ := .rfl

theorem Touches.trans (h : Touches c ch l w w') (g : Touches c ch l w' w'') :
    Touches c ch l w w'' where
  conns d hd := (g.conns d hd).trans (h.conns d hd)
  history d hd := (g.history d hd).trans (h.history d hd)
  connections name d hd := (g.connections name d hd).trans (h.connections name d hd)
  fds fd d hd := (g.fds fd d hd).trans (h.fds fd d hd)
  poller := h.poller.trans g.poller
  pollers k hk := (g.pollers k hk).trans (h.pollers k hk)
  mem k f hf := by
    obtain hf | hf := g.mem k f hf
    · exact h.mem k f hf
    · exact .inr hf
  count k f hc hf := (g.count k f hc hf).trans (h.count k f hc hf)
  due k d hd := (g.due k d hd).trans (h.due k d hd)

/-- The poller of any loop is unchanged for channels other than `ch`. -/
theorem Touches.view (h : Touches c ch l w w') {d : Channel} (hd : EPollPoller.Apart d ch)
    (k : LoopId) : (w'.loops k).poller.view d = (w.loops k).poller.view d := by
  by_cases hk : k = l
  · rw [hk]
    exact h.poller d hd
  · rw [h.pollers k hk]

/-- What the pollers have for a descriptor is unchanged, apart from that of `ch` in its loop. -/
theorem Touches.entries (h : Touches c ch l w w') {fd : ℕ} {k : LoopId}
    (hother : ¬(k = l ∧ fd = ch.fd)) :
    (w'.loops k).poller.channels fd = (w.loops k).poller.channels fd ∧
      (w'.loops k).poller.interest fd = (w.loops k).poller.interest fd := by
  by_cases hk : k = l
  · have hne : fd ≠ ch.fd := fun hf => hother ⟨hk, hf⟩
    rw [hk]
    exact h.poller.at_fd hne
  · rw [h.pollers k hk]
    exact ⟨rfl, rfl⟩

/-- Where the threads and loops stand, apart from the batch and the queue. -/
structure Calm (w w' : World) : Prop where
  id : ∀ l, (w'.loops l).id = (w.loops l).id
  position : ∀ l, (w'.loops l).position = (w.loops l).position
  eventHandling : ∀ l, (w'.loops l).eventHandling = (w.loops l).eventHandling
  unvisited : ∀ l, (w'.loops l).unvisited = (w.loops l).unvisited
  batch : ∀ l, (w.loops l).batch = [] → (w'.loops l).batch = []
  tests : ∀ l, (w'.threads l).tests = (w.threads l).tests
  revents : ∀ l, (w'.threads l).revents = (w.threads l).revents

theorem Calm.refl (w : World) : Calm w w :=
  ⟨fun _ => rfl, fun _ => rfl, fun _ => rfl, fun _ => rfl, fun _ h => h, fun _ => rfl, fun _ => rfl⟩

theorem Calm.trans (h : Calm w w') (g : Calm w' w'') : Calm w w'' where
  id l := (g.id l).trans (h.id l)
  position l := (g.position l).trans (h.position l)
  eventHandling l := (g.eventHandling l).trans (h.eventHandling l)
  unvisited l := (g.unvisited l).trans (h.unvisited l)
  batch l hb := g.batch l (h.batch l hb)
  tests l := (g.tests l).trans (h.tests l)
  revents l := (g.revents l).trans (h.revents l)

theorem Calm.of_loops
    (hloop : ∀ l, ∃ poller pendingFunctors wakeupCounter,
      w'.loops l = { w.loops l with poller, pendingFunctors, wakeupCounter })
    (htests : ∀ l, (w'.threads l).tests = (w.threads l).tests)
    (hrevents : ∀ l, (w'.threads l).revents = (w.threads l).revents) : Calm w w' where
  id l := by
    obtain ⟨_, _, _, h⟩ := hloop l
    rw [h]
  position l := by
    obtain ⟨_, _, _, h⟩ := hloop l
    rw [h]
  eventHandling l := by
    obtain ⟨_, _, _, h⟩ := hloop l
    rw [h]
  unvisited l := by
    obtain ⟨_, _, _, h⟩ := hloop l
    rw [h]
  batch l hb := by
    obtain ⟨_, _, _, h⟩ := hloop l
    rw [h]
    exact hb
  tests := htests
  revents := hrevents

/-- The connections that the handling in `l` relies on being up. -/
def Needed (w : World) (l : LoopId) (c : ConnId) : Prop :=
  c ∈ (w.loops l).unvisited ∨
    ∃ t, (w.threads l).tests = some (c, t) ∧ t.NeedsUp ((w.threads l).revents c)

theorem LoopInv.calm (h : LoopInv s w l) (hc : Calm w w')
    (hup : ∀ x, Needed w l x → Up w l x → Up w' l x)
    (hon : ∀ x conn, w.conns x = some conn → ∃ conn', w'.conns x = some conn' ∧
      conn'.loop = conn.loop) : LoopInv s w' l where
  id := (hc.id l).trans h.id
  batch hp := hc.batch l (h.batch (hc.position l ▸ hp))
  eventHandling hp := (hc.eventHandling l).trans (h.eventHandling (hc.position l ▸ hp))
  nodup := hc.unvisited l ▸ h.nodup
  unvisited x hx := by
    rw [hc.unvisited] at hx
    rw [hc.revents]
    obtain ⟨hk, hu⟩ := h.unvisited x hx
    exact ⟨hk, hu.imp_right (hup x (.inl hx))⟩
  tests c t ht := by
    rw [hc.tests] at ht
    obtain ⟨hv, hk, ⟨conn, hconn, hl⟩, hu⟩ := h.tests c t ht
    obtain ⟨conn', hconn', hl'⟩ := hon c conn hconn
    refine ⟨by rwa [hc.unvisited], by rwa [hc.revents], ⟨conn', hconn', hl'.trans hl⟩, ?_⟩
    intro hn
    rw [hc.revents] at hn
    exact hup c (.inr ⟨t, ht, hn⟩) (hu hn)

/-- Another connection stays where it is. -/
theorem At.touched {d : ConnId} (h : At s hand w d conn p) (ht : Touches c ch l w w') (hd : d ≠ c)
    (hid : ch.id = c) (hfd : w.fds ch.fd ≠ some d)
    (hhand : ∀ k f, hand = some (k, f) → f.conn = c)
    (hhand' : ∀ k f, hand' = some (k, f) → f.conn = c) : At s hand' w' d conn p where
  id := h.id
  channelId := h.channelId
  ownerLoop := h.ownerLoop
  history := by
    rw [ht.history d hd]
    exact h.history
  holds := h.holds
  view hp := by
    have hapart : EPollPoller.Apart conn.channel ch := by
      refine ⟨by rw [h.channelId, hid]; exact hd, ?_⟩
      intro heq
      exact hfd ((h.fds ch.fd).mpr ⟨hp, heq.symm⟩)
    rw [ht.view hapart]
    exact h.view hp
  fds fd := (ht.fds fd d hd).trans (h.fds fd)
  queued k f hf hcb := by
    have hne : f.conn ≠ c := hf ▸ hd
    have hno : ¬hand = some (k, f) := fun heq => hne (hhand k f heq)
    have hno' : ¬hand' = some (k, f) := fun heq => hne (hhand' k f heq)
    have hq := h.queued k f hf hcb
    rw [if_neg hno] at hq
    rw [ht.count k f hne (hf ▸ hcb), if_neg hno', hq]
  due k x hx := (ht.due k x (hx ▸ hd)).trans (h.due k x hx)
  connections name := (ht.connections name d hd).trans (h.connections name)
  nextLoops := h.nextLoops
  established hp := .inr ((h.established hp).resolve_left fun heq => hd (hhand _ _ heq))

theorem Fresh.touched {d : ConnId} (h : Fresh s w d) (ht : Touches c ch l w w') (hd : d ≠ c)
    (hid : ch.id = c) : Fresh s w' d where
  history := (ht.history d hd).trans h.history
  queued k f hf := by
    obtain hf | hf := ht.mem k f hf
    · exact h.queued k f hf
    · rw [hf]
      exact hd.symm
  due k x hx heq := by
    have hx' := (ht.due k x (heq ▸ hd)).mp hx
    exact h.due k x hx' heq
  connections name hn := h.connections name ((ht.connections name d hd).mp hn)
  index ho k := by
    have hapart : EPollPoller.Apart ⟨d, 0, ch.fd + 1, 0⟩ ch := ⟨hid ▸ hd, by simp⟩
    exact (congrArg EPollPoller.View.index (ht.view hapart k)).trans (h.index ho k)

/-- A step for the connection `c` keeps the invariant if it leaves the others alone, leaves
`c` in some phase, and registers nothing but `c` for its descriptor. -/
theorem Inv.touched (h : Inv s hand w) (ht : Touches c ch l w w') (hid : ch.id = c)
    (hfd : ∀ d, w.fds ch.fd = some d → d = c)
    (hhand : ∀ k f, hand = some (k, f) → f.conn = c)
    (hhand' : ∀ k f, hand' = some (k, f) → f.conn = c)
    (hold : ∀ conn, w.conns c = some conn → conn.loop = l ∧ conn.channel.fd = ch.fd)
    (hother : s.others c = none) (hconn : w'.conns c = some conn') (hl : conn'.loop = l)
    (hat : ∃ p, At s hand' w' c conn' p)
    (hchannels : ∀ x, (w'.loops l).poller.channels ch.fd = some x → x = c ∧ w'.fds ch.fd = some c)
    (hinterest : ∀ mask x, (w'.loops l).poller.interest ch.fd = some (mask, x) →
      (w'.loops l).poller.channels ch.fd = some x)
    (hloop : ∀ l, LoopInv s w' l) : Inv s hand' w' where
  conn d connD hd := by
    by_cases hdc : d = c
    · subst hdc
      rw [hconn] at hd
      cases hd
      exact hat
    · rw [ht.conns d hdc] at hd
      obtain ⟨p, hp⟩ := h.conn d connD hd
      exact ⟨p, hp.touched ht hdc hid (fun hf => hdc (hfd d hf)) hhand hhand'⟩
  others d connD hd := by
    by_cases hdc : d = c
    · exact hdc ▸ hother
    · exact h.others d connD (ht.conns d hdc ▸ hd)
  fresh d hd := by
    have hdc : d ≠ c := by
      rintro rfl
      rw [hconn] at hd
      cases hd
    exact (h.fresh d (ht.conns d hdc ▸ hd)).touched ht hdc hid
  fds fd x hx hnone := by
    have hxc : x ≠ c := by
      rintro rfl
      rw [hconn] at hnone
      cases hnone
    exact h.fds fd x ((ht.fds fd x hxc).mp hx) (ht.conns x hxc ▸ hnone)
  channels k fd x hx := by
    by_cases hself : k = l ∧ fd = ch.fd
    · obtain ⟨rfl, rfl⟩ := hself
      obtain ⟨rfl, hf⟩ := hchannels x hx
      refine ⟨hf, fun connX hconnX => ?_⟩
      rw [hconn] at hconnX
      cases hconnX
      exact hl
    · rw [(ht.entries hself).1] at hx
      obtain ⟨hf, hk⟩ := h.channels k fd x hx
      have hxc : x ≠ c := by
        rintro rfl
        cases hcx : w.conns x with
        | none =>
          obtain ⟨_, ho⟩ := h.fds fd x hf hcx
          rw [hother] at ho
          cases ho
        | some connX =>
          obtain ⟨p, hp⟩ := h.conn x connX hcx
          obtain ⟨hl', hfd'⟩ := hold connX hcx
          have heq := ((hp.fds fd).mp hf).2
          exact hself ⟨(hk connX hcx).symm.trans hl', heq.trans hfd'⟩
      exact ⟨(ht.fds fd x hxc).mpr hf, fun connX hconnX => hk connX (ht.conns x hxc ▸ hconnX)⟩
  interest k fd mask x hx := by
    by_cases hself : k = l ∧ fd = ch.fd
    · obtain ⟨rfl, rfl⟩ := hself
      exact hinterest mask x hx
    · obtain ⟨hchannel, hmask⟩ := ht.entries hself
      rw [hmask] at hx
      rw [hchannel]
      exact h.interest k fd mask x hx
  loop := hloop
  acceptor := by
    obtain ⟨ho, hown, hopen, hview⟩ := h.acceptor
    have hne : s.acceptChannel.id ≠ c := by
      intro heq
      rw [heq, hother] at ho
      cases ho
    have hapart : EPollPoller.Apart s.acceptChannel ch := by
      refine ⟨by rw [hid]; exact hne, fun heq => ?_⟩
      rw [heq] at hopen
      exact hne (hfd _ hopen)
    refine ⟨ho, hown, (ht.fds _ _ hne).mpr hopen, ?_⟩
    unfold EPollPoller.Settled
    rw [ht.view hapart]
    exact hview

/-! ### Steps that concern no connection -/

/-- The worlds differ at most in where the threads stand. -/
structure Same (w w' : World) : Prop where
  conns : w'.conns = w.conns
  history : w'.history = w.history
  connections : w'.connections = w.connections
  fds : w'.fds = w.fds
  index : ∀ l, (w'.loops l).poller.index = (w.loops l).poller.index
  channels : ∀ l, (w'.loops l).poller.channels = (w.loops l).poller.channels
  interest : ∀ l, (w'.loops l).poller.interest = (w.loops l).poller.interest
  mem : ∀ l, ∀ f ∈ w'.queue l, f ∈ w.queue l
  count : ∀ l f, ¬f.IsCallback f.conn → (w'.queue l).count f = (w.queue l).count f
  due : ∀ l, (w'.threads l).due = (w.threads l).due

theorem Inv.same (h : Inv s hand w) (hs : Same w w') (hloop : ∀ l, LoopInv s w' l) :
    Inv s hand w' where
  conn c conn hc := by
    rw [hs.conns] at hc
    obtain ⟨p, hp⟩ := h.conn c conn hc
    refine ⟨p, hp.id, hp.channelId, hp.ownerLoop, hs.history ▸ hp.history, hp.holds, ?_,
      hs.fds ▸ hp.fds, ?_, ?_, hs.connections ▸ hp.connections, hp.nextLoops, hp.established⟩
    · intro hne
      rw [← hp.view hne]
      simp only [EPollPoller.view, hs.index, hs.channels, hs.interest]
    · intro l f hf hcb
      rw [hs.count l f (hf ▸ hcb)]
      exact hp.queued l f hf hcb
    · intro l d hd
      rw [hs.due]
      exact hp.due l d hd
  others c conn hc := h.others c conn (hs.conns ▸ hc)
  fresh c hc := by
    obtain ⟨hhist, hq, hd, hn, hi⟩ := h.fresh c (hs.conns ▸ hc)
    refine ⟨hs.history ▸ hhist, fun l f hf => hq l f (hs.mem l f hf), ?_, hs.connections ▸ hn, ?_⟩
    · intro l d hdue
      exact hd l d (hs.due l ▸ hdue)
    · intro ho l
      rw [hs.index]
      exact hi ho l
  fds fd x hx hc := h.fds fd x (hs.fds ▸ hx) (hs.conns ▸ hc)
  channels l fd x hx := by
    rw [hs.channels] at hx
    rw [hs.fds, hs.conns]
    exact h.channels l fd x hx
  interest l fd mask x hx := by
    rw [hs.interest] at hx
    rw [hs.channels]
    exact h.interest l fd mask x hx
  loop := hloop
  acceptor := by
    obtain ⟨ho, hown, hopen, hview⟩ := h.acceptor
    refine ⟨ho, hown, hs.fds ▸ hopen, ?_⟩
    unfold EPollPoller.Settled at hview ⊢
    simpa only [EPollPoller.view, hs.index, hs.channels, hs.interest] using hview

/-! ### The parts of a step -/

section Parts
variable {loop : EventLoop PendingFunctor}

theorem queue_put_of_frame (hf : EventLoop.Frame ch (PendingFunctor.IsCallback c) (w.loops l) loop) :
    ∃ new, (w.put l loop c conn').queue l = w.queue l ++ new ∧ ∀ f ∈ new, f.IsCallback c := by
  obtain ⟨new, hnew, hown⟩ := hf.pending
  have hbatch : loop.batch = (w.loops l).batch := by rw [hf.rest]
  refine ⟨new, ?_, hown⟩
  simp [World.queue, World.put, hbatch, hnew]

theorem count_put (hf : EventLoop.Frame ch (PendingFunctor.IsCallback c) (w.loops l) loop)
    (k : LoopId) (f : PendingFunctor) (hcb : ¬f.IsCallback c) :
    ((w.put l loop c conn').queue k).count f = (w.queue k).count f := by
  by_cases hk : k = l
  · subst hk
    obtain ⟨new, hnew, hown⟩ : ∃ new, (w.put k loop c conn').queue k = w.queue k ++ new ∧
        ∀ f ∈ new, f.IsCallback c := queue_put_of_frame hf
    have hnot : f ∉ new := fun hmem => hcb (hown f hmem)
    rw [hnew, List.count_append, List.count_eq_zero_of_not_mem hnot, Nat.add_zero]
  · simp [World.queue, World.put, hk]

theorem touches_put (hf : EventLoop.Frame ch (PendingFunctor.IsCallback c) (w.loops l) loop) :
    Touches c ch l w (w.put l loop c conn') where
  conns d hd := by simp [World.put, hd]
  history _ _ := rfl
  connections _ _ _ := .rfl
  fds _ _ _ := .rfl
  poller := by
    have hpoller := hf.poller
    simpa [World.put] using hpoller
  pollers k hk := by simp [World.put, hk]
  mem k f hmem := by
    by_cases hk : k = l
    · subst hk
      obtain ⟨new, hnew, hown⟩ : ∃ new, (w.put k loop c conn').queue k = w.queue k ++ new ∧
          ∀ f ∈ new, f.IsCallback c := queue_put_of_frame hf
      rw [hnew, List.mem_append] at hmem
      exact hmem.imp_right fun hn => (hown f hn).conn_eq
    · left
      simpa [World.queue, World.put, hk] using hmem
  count k f hc hcb := count_put hf k f fun hown => hc hown.conn_eq
  due _ _ _ := .rfl

theorem calm_put (hf : EventLoop.Frame ch (PendingFunctor.IsCallback c) (w.loops l) loop) :
    Calm w (w.put l loop c conn') := by
  refine .of_loops (fun k => ?_) (fun _ => rfl) (fun _ => rfl)
  by_cases hk : k = l
  · subst hk
    have hself : (w.put k loop c conn').loops k = loop := by simp [World.put]
    rw [hself]
    exact ⟨_, _, _, hf.rest⟩
  · exact ⟨_, _, _, by simp [World.put, hk]; rfl⟩

theorem touches_record (o : Occurrence) : Touches c ch l w (w.record c o) :=
  { Touches.refl c ch l w with history := fun d hd => by simp [World.record, hd] }

theorem calm_record (o : Occurrence) : Calm w (w.record c o) :=
  .of_loops (fun _ => ⟨_, _, _, rfl⟩) (fun _ => rfl) (fun _ => rfl)

theorem due_enter (due : Option Due) (k : LoopId) :
    ((w.enter l due).threads k).due = if k = l then due else (w.threads k).due := by
  by_cases hk : k = l
  · subst hk
    simp [World.enter]
  · simp [World.enter, hk]

theorem touches_enter {due : Option Due} (hold : ∀ d, (w.threads l).due = some d → d.conn = c)
    (hnew : ∀ d, due = some d → d.conn = c) : Touches c ch l w (w.enter l due) :=
  { Touches.refl c ch l w with
    due := by
      intro k d hd
      rw [due_enter]
      split_ifs with hk
      · subst hk
        exact ⟨fun h => absurd (hnew d h) hd, fun h => absurd (hold d h) hd⟩
      · rfl }

theorem calm_enter (due : Option Due) : Calm w (w.enter l due) :=
  { Calm.refl w with
    tests := fun k => by
      by_cases hk : k = l
      · subst hk
        simp [World.enter]
      · simp [World.enter, hk]
    revents := fun k => by
      by_cases hk : k = l
      · subst hk
        simp [World.enter]
      · simp [World.enter, hk] }

theorem queue_queueInLoop (caller owner : LoopId) (cb : PendingFunctor) (k : LoopId) :
    (w.queueInLoop caller owner cb).queue k =
      w.queue k ++ if k = owner then [cb] else [] := by
  by_cases hk : k = owner
  · subst hk
    have hq : ∀ b, ((w.loops k).queueInLoop b cb).batch ++
        ((w.loops k).queueInLoop b cb).pendingFunctors = w.queue k ++ [cb] := by
      intro b
      simp only [EventLoop.queueInLoop, World.queue]
      split <;> simp [EventLoop.push, EventLoop.wakeup]
    simpa [World.queueInLoop, World.setLoop, World.queue] using hq _
  · simp [World.queueInLoop, World.setLoop, World.queue, hk]

/-- A push changes nothing of a loop but its queue and its wakeup counter. -/
theorem loops_queueInLoop (caller owner : LoopId) (cb : PendingFunctor) (k : LoopId) :
    (w.queueInLoop caller owner cb).loops k = { w.loops k with
      pendingFunctors := ((w.queueInLoop caller owner cb).loops k).pendingFunctors
      wakeupCounter := ((w.queueInLoop caller owner cb).loops k).wakeupCounter } := by
  by_cases hk : k = owner
  · subst hk
    simp only [World.queueInLoop, World.setLoop, Function.update_self, EventLoop.queueInLoop]
    split <;> rfl
  · simp [World.queueInLoop, World.setLoop, hk]

theorem touches_queueInLoop (caller owner : LoopId) {cb : PendingFunctor} (hcb : cb.conn = c) :
    Touches c ch l w (w.queueInLoop caller owner cb) where
  conns _ _ := rfl
  history _ _ := rfl
  connections _ _ _ := .rfl
  fds _ _ _ := .rfl
  poller := by
    rw [loops_queueInLoop]
    exact .refl ch _
  pollers k _ := by rw [loops_queueInLoop]
  mem k f hf := by
    rw [queue_queueInLoop, List.mem_append] at hf
    obtain hf | hf := hf
    · exact .inl hf
    · right
      split_ifs at hf with hk
      · rw [List.mem_singleton.mp hf, hcb]
      · simp at hf
  count k f hc _ := by
    have hne : cb ≠ f := fun h => hc (h ▸ hcb)
    rw [queue_queueInLoop, List.count_append]
    split_ifs
    · simp [hne]
    · simp
  due _ _ _ := .rfl

theorem calm_queueInLoop (caller owner : LoopId) (cb : PendingFunctor) :
    Calm w (w.queueInLoop caller owner cb) :=
  .of_loops (fun k => ⟨_, _, _, loops_queueInLoop caller owner cb k⟩) (fun _ => rfl)
    (fun _ => rfl)

end Parts

/-! ### A connection moves from one phase to another -/

theorem Phase.view_channels {x : ChannelId} (h : (p.view ch).channels = some x) :
    x = ch.id ∧ p ≠ .destroyed := by
  cases p with
  | created | destroyed => cases h
  | up | closing | closed | erased =>
    cases h
    exact ⟨rfl, by simp⟩

theorem Phase.view_interest {mask : Events} {x : ChannelId}
    (h : (p.view ch).interest = some (mask, x)) : (p.view ch).channels = some x ∧ p = .up := by
  cases p with
  | created | closing | closed | erased | destroyed => cases h
  | up =>
    cases h
    exact ⟨rfl, rfl⟩

/-- A step for the connection `c`, which is not destroyed, keeps the invariant if it takes `c`
to a phase. A connection that the handling relies on stays up. -/
theorem Inv.moved (h : Inv s hand w) (hconn : w.conns c = some conn)
    (hat : At s hand w c conn p) (hp : p ≠ .destroyed)
    (ht : Touches c conn.channel conn.loop w w') (hcalm : Calm w w')
    (hsame : TcpConnection.SameObject conn conn') (hconn' : w'.conns c = some conn')
    (hhand : ∀ k f, hand = some (k, f) → f.conn = c)
    (hhand' : ∀ k f, hand' = some (k, f) → f.conn = c)
    (hat' : At s hand' w' c conn' p')
    (hview : (w'.loops conn.loop).poller.view conn'.channel = p'.view conn'.channel)
    (hup : p' = .up ∨ ∀ l, ¬Needed w l c) : Inv s hand' w' := by
  have hfdEq := hsame.channel_fd
  have hchannels : (w'.loops conn.loop).poller.channels conn.channel.fd =
      (p'.view conn'.channel).channels := by
    rw [← hview, ← hfdEq]
    rfl
  have hinterest : (w'.loops conn.loop).poller.interest conn.channel.fd =
      (p'.view conn'.channel).interest := by
    rw [← hview, ← hfdEq]
    rfl
  refine h.touched ht hat.channelId ?_ hhand hhand' ?_ (h.others c conn hconn) hconn' hsame.loop
    ⟨p', hat'⟩ ?_ ?_ ?_
  · intro d hd
    have hself := (hat.fds conn.channel.fd).mpr ⟨hp, rfl⟩
    rw [hself] at hd
    exact (Option.some.inj hd).symm
  · intro connC hc
    rw [hconn] at hc
    cases hc
    exact ⟨rfl, rfl⟩
  · intro x hx
    rw [hchannels] at hx
    obtain ⟨hxc, hlive⟩ := Phase.view_channels hx
    exact ⟨hxc.trans hat'.channelId, (hat'.fds _).mpr ⟨hlive, hfdEq.symm⟩⟩
  · intro mask x hx
    rw [hinterest] at hx
    rw [hchannels]
    exact (Phase.view_interest hx).1
  · intro l
    refine (h.loop l).calm hcalm ?_ ?_
    · rintro x hneed ⟨connX, n, hx, hl, hhist⟩
      by_cases hxc : x = c
      · subst hxc
        rw [hconn] at hx
        cases hx
        obtain hup | hup := hup
        · subst hup
          obtain ⟨m, hm⟩ := hat'.history
          exact ⟨conn', m, hconn', hsame.loop.trans hl, hm⟩
        · exact absurd hneed (hup l)
      · exact ⟨connX, n, (ht.conns x hxc).trans hx, hl, (ht.history x hxc).trans hhist⟩
    · intro x connX hx
      by_cases hxc : x = c
      · subst hxc
        rw [hconn] at hx
        cases hx
        exact ⟨conn', hconn', hsame.loop⟩
      · exact ⟨connX, (ht.conns x hxc).trans hx, rfl⟩

/-- The phase that a functor in hand ends. -/
theorem At.functor_eq {f : PendingFunctor} {k : LoopId} (hat : At s (some (k, f)) w c conn p)
    (hf : f.conn = c) (hcb : ¬f.IsCallback c) : p.functor s conn = some (k, f) := by
  have hq := hat.queued k f hf hcb
  rw [if_pos rfl] at hq
  by_contra hne
  rw [if_neg hne] at hq
  omega

theorem Phase.functor_eq_some {f : PendingFunctor} {k : LoopId}
    (h : p.functor s conn = some (k, f)) : p ≠ .destroyed ∧ p ≠ .up ∧ ∀ d, ¬f.IsCallback d := by
  cases p with
  | up | closing | destroyed => cases h
  | created | closed | erased =>
    cases h
    exact ⟨by simp, by simp, fun d hd => hd⟩

/-- The handling relies on no connection that is not up. -/
theorem At.not_needed (hat : At s hand w c conn p) (hp : p ≠ .up) (hinv : Inv s hand w)
    (hconn : w.conns c = some conn) (l : LoopId) : ¬Needed w l c := by
  have hnot : ¬Up w l c := by
    rintro ⟨_, n, _, _, hn⟩
    obtain ⟨m, hm⟩ := hat.history
    exact hp (Phase.history_injective (hm.symm.trans hn))
  rintro (hmem | ⟨t, ht, hneed⟩)
  · obtain ⟨_, ho | hu⟩ := (hinv.loop l).unvisited c hmem
    · exact ho (hinv.others c conn hconn)
    · exact hnot hu
  · exact hnot (((hinv.loop l).tests c t ht).up hneed)

/-- A functor in hand is put into a queue. -/
theorem Inv.queueInLoop {cb : PendingFunctor} {owner : LoopId} (caller : LoopId)
    (h : Inv s (some (owner, cb)) w) (hconn : w.conns cb.conn = some conn)
    (hcb : ¬cb.IsCallback cb.conn) (howner : cb = .connectEstablished cb.conn → owner ≠ s.loop) :
    Inv s none (w.queueInLoop caller owner cb) := by
  obtain ⟨p, hat⟩ := h.conn _ _ hconn
  obtain ⟨hp, hup, _⟩ := Phase.functor_eq_some (hat.functor_eq rfl hcb)
  have hpoller : ∀ l, ((w.queueInLoop caller owner cb).loops l).poller = (w.loops l).poller := by
    intro l
    rw [loops_queueInLoop]
  have hat' : At s none (w.queueInLoop caller owner cb) cb.conn conn p :=
    { hat with
      view := fun hne => by
        rw [hpoller]
        exact hat.view hne
      queued := by
        intro l f hf hcb'
        rw [← hat.queued l f hf hcb', queue_queueInLoop, List.count_append]
        by_cases hl : l = owner
        · subst hl
          by_cases hf' : cb = f
          · simp [hf']
          · simp [hf']
        · have hl' : ¬owner = l := fun heq => hl heq.symm
          simp [hl, hl']
      established := fun hp => by
        refine .inr ((hat.established hp).elim (fun heq => ?_) id)
        obtain ⟨hl, hcb⟩ := Prod.mk.inj (Option.some.inj heq)
        exact hl ▸ howner hcb }
  refine h.moved hconn hat hp (touches_queueInLoop caller owner rfl)
    (calm_queueInLoop caller owner cb) (.refl conn) hconn ?_ ?_ hat' (hat'.view hp)
    (.inr (hat.not_needed hup h hconn))
  · intro k f hf
    cases hf
    rfl
  · intro k f hf
    cases hf

/-! ### Functors leave the queue -/

theorem queue_take {cb : PendingFunctor} {rest : List PendingFunctor}
    (hb : (w.loops l).batch = cb :: rest) (k : LoopId) :
    w.queue k = (if k = l then [cb] else []) ++ (w.setLoop l ((w.loops l).take rest)).queue k := by
  by_cases hk : k = l
  · subst hk
    simp [World.queue, World.setLoop, EventLoop.take, hb]
  · simp [World.queue, World.setLoop, hk]

theorem poller_take (rest : List PendingFunctor) (k : LoopId) :
    ((w.setLoop l ((w.loops l).take rest)).loops k).poller = (w.loops k).poller := by
  by_cases hk : k = l
  · subst hk
    simp [World.setLoop, EventLoop.take]
  · simp [World.setLoop, hk]

theorem calm_take {cb : PendingFunctor} {rest : List PendingFunctor}
    (hb : (w.loops l).batch = cb :: rest) : Calm w (w.setLoop l ((w.loops l).take rest)) := by
  have hloop : ∀ k, k ≠ l → (w.setLoop l ((w.loops l).take rest)).loops k = w.loops k := by
    intro k hk
    simp [World.setLoop, hk]
  have hself : (w.setLoop l ((w.loops l).take rest)).loops l = (w.loops l).take rest := by
    simp [World.setLoop]
  constructor <;> intro k <;> try rfl
  all_goals
    by_cases hk : k = l
    · subst hk
      rw [hself]
      first | rfl | simp [hb]
    · rw [hloop k hk]
      try exact id

/-- The next functor of the batch is taken in hand. -/
theorem Inv.take {cb : PendingFunctor} {rest : List PendingFunctor} (h : Inv s none w)
    (hb : (w.loops l).batch = cb :: rest) (hcb : ¬cb.IsCallback cb.conn) :
    (∃ conn, w.conns cb.conn = some conn) ∧
      Inv s (some (l, cb)) (w.setLoop l ((w.loops l).take rest)) := by
  have hmem : cb ∈ w.queue l := by
    rw [queue_take hb]
    simp
  cases hconn : w.conns cb.conn with
  | none => exact absurd rfl ((h.fresh _ hconn).queued l cb hmem)
  | some conn =>
    refine ⟨⟨conn, rfl⟩, ?_⟩
    obtain ⟨p, hat⟩ := h.conn _ _ hconn
    have hfun : p.functor s conn = some (l, cb) := by
      have hq := hat.queued l cb rfl hcb
      have hpos := List.count_pos_iff.mpr hmem
      by_contra hne
      rw [if_neg hne] at hq
      omega
    obtain ⟨hp, hup, _⟩ := Phase.functor_eq_some hfun
    have hat' : At s (some (l, cb)) (w.setLoop l ((w.loops l).take rest)) cb.conn conn p :=
      { hat with
        view := fun hne => by
          rw [poller_take]
          exact hat.view hne
        queued := by
          intro k f hf hcb'
          rw [← hat.queued k f hf hcb', queue_take hb k, List.count_append]
          by_cases hk : k = l
          · subst hk
            by_cases hf' : cb = f
            · simp [hf', Nat.add_comm]
            · simp [hf']
          · have hk' : ¬l = k := fun heq => hk heq.symm
            simp [hk, hk']
        established := fun hp => .inr ((hat.established hp).resolve_left (by simp)) }
    have htouch : Touches cb.conn conn.channel conn.loop w
        (w.setLoop l ((w.loops l).take rest)) :=
      { Touches.refl cb.conn conn.channel conn.loop w with
        poller := by
          rw [poller_take]
          exact .refl _ _
        pollers := fun k _ => poller_take rest k
        mem := fun k f hf => by
          left
          rw [queue_take hb]
          exact List.mem_append_right _ hf
        count := fun k f hc _ => by
          have hne : cb ≠ f := fun heq => hc (heq ▸ rfl)
          rw [queue_take hb k, List.count_append]
          split_ifs
          · simp [hne]
          · simp }
    refine h.moved hconn hat hp htouch (calm_take hb) (.refl conn) hconn ?_ ?_ hat'
      (hat'.view hp) (.inr (hat.not_needed hup h hconn))
    · intro k f hf
      cases hf
    · intro k f hf
      cases hf
      rfl

/-- A callback is taken from the batch. -/
theorem Inv.take_callback {cb : PendingFunctor} {rest : List PendingFunctor} (h : Inv s none w)
    (hb : (w.loops l).batch = cb :: rest) (hcb : cb.IsCallback cb.conn) :
    Inv s none (w.setLoop l ((w.loops l).take rest)) := by
  have hcalm := calm_take hb
  refine h.same ?_ fun k => (h.loop k).calm hcalm (fun _ _ hu => hu) fun x conn hx => ⟨conn, hx, rfl⟩
  exact {
    conns := rfl
    history := rfl
    connections := rfl
    fds := rfl
    index := fun k => by rw [poller_take]
    channels := fun k => by rw [poller_take]
    interest := fun k => by rw [poller_take]
    mem := fun k f hf => by
      rw [queue_take hb]
      exact List.mem_append_right _ hf
    count := fun k f hf => by
      have hne : cb ≠ f := fun heq => hf (heq ▸ hcb)
      rw [queue_take hb k, List.count_append]
      split_ifs
      · simp [hne]
      · simp
    due := fun _ => rfl }

/-! ### The functions of a connection -/

theorem At.stands (hat : At s hand w c conn p) (hp : p ≠ .destroyed) (h : Inv s hand w) :
    TcpConnection.Stands p (w.loops conn.loop) conn where
  loop := (h.loop conn.loop).id.symm
  ownerLoop := hat.ownerLoop.trans (h.loop conn.loop).id.symm
  holds := hat.holds
  view := hat.view hp

/-- A function of the connection `c` has run in its loop, and has led `c` to the phase
`p'`, in which no functor is due. -/
theorem Inv.reaches {loop : EventLoop PendingFunctor} (h : Inv s hand w)
    (hconn : w.conns c = some conn) (hat : At s hand w c conn p) (hp : p ≠ .destroyed)
    (hhand : p.functor s conn = hand)
    (hr : TcpConnection.Reaches p' (w.loops conn.loop) conn loop conn')
    (hfun : p'.functor s conn' = none) (hkept : p'.Kept ↔ p.Kept)
    (ht : Touches c conn.channel conn.loop (w.put conn.loop loop c conn') w')
    (hcalm : Calm (w.put conn.loop loop c conn') w')
    (hloops : w'.loops = (w.put conn.loop loop c conn').loops)
    (hconns : w'.conns = (w.put conn.loop loop c conn').conns)
    (hconnections : w'.connections = w.connections)
    (hhistory : ∃ n, w'.history c = p'.history n)
    (hfds : ∀ fd, w'.fds fd = some c ↔ p' ≠ .destroyed ∧ fd = conn.channel.fd)
    (hdue : ∀ l d, d.conn = c → ((w'.threads l).due = some d ↔ p'.due conn' = some (l, d)))
    (hup : p' = .up ∨ ∀ l, ¬Needed w l c) : Inv s none w' := by
  have hframe : EventLoop.Frame conn.channel (PendingFunctor.IsCallback c) (w.loops conn.loop) loop := by
    have hframe := hr.frame
    rwa [hat.id] at hframe
  have hloop : w'.loops conn.loop = loop := by simp [hloops, World.put]
  have hself : w'.conns c = some conn' := by simp [hconns, World.put]
  have hview : (w'.loops conn.loop).poller.view conn'.channel = p'.view conn'.channel := by
    rw [hloop]
    exact hr.stands.view
  have hqueue : ∀ k, w'.queue k = (w.put conn.loop loop c conn').queue k := by
    intro k
    simp only [World.queue, hloops]
  have hat' : At s none w' c conn' p' := {
    id := hr.same.id.trans hat.id
    channelId := hr.same.channel_id.trans hat.channelId
    ownerLoop := by
      rw [hr.same.channel, hr.same.loop]
      exact hat.ownerLoop
    history := hhistory
    holds := hr.stands.holds
    view := fun _ => by
      rw [hr.same.loop]
      exact hview
    fds := fun fd => by
      rw [hfds, hr.same.channel_fd]
    queued := by
      intro k f hf hcb
      have hq := hat.queued k f hf hcb
      rw [hhand] at hq
      rw [hqueue, count_put hframe k f hcb, hfun]
      simp only [reduceCtorEq, if_false]
      omega
    due := hdue
    connections := fun name => by
      rw [hconnections, hat.connections, hr.same.name, hkept]
    nextLoops := by
      rw [hr.same.loop]
      exact hat.nextLoops
    established := fun hp => by
      rw [hp] at hfun
      cases hfun }
  refine h.moved hconn hat hp ((touches_put hframe).trans ht) ((calm_put hframe).trans hcalm)
    hr.same hself ?_ ?_ hat' hview hup
  · intro k f hf
    rw [← hhand] at hf
    cases p with
    | up | closing | destroyed => cases hf
    | created | closed | erased =>
      cases hf
      exact hat.id
  · intro k f hf
    cases hf

theorem Inv.at_of_up (h : Inv s hand w) (hup : Up w l c) :
    ∃ conn, w.conns c = some conn ∧ conn.loop = l ∧ At s hand w c conn .up := by
  obtain ⟨conn, n, hconn, hl, hn⟩ := hup
  obtain ⟨p, hat⟩ := h.conn c conn hconn
  obtain ⟨m, hm⟩ := hat.history
  rw [Phase.history_injective (hm.symm.trans hn)] at hat
  exact ⟨conn, hconn, hl, hat⟩

theorem World.conn_eq (h : w.conns c = some conn) : w.conn c = .ok conn := by
  simp [World.conn, h]

/-- The history after one more occurrence. -/
theorem record_history (o : Occurrence) : (w.record c o).history c = w.history c ++ [o] := by
  simp [World.record]

/-- A function of the connection has run, and user code is entered. -/
theorem Inv.occurs {loop : EventLoop PendingFunctor} (o : Occurrence) (h : Inv s hand w)
    (hconn : w.conns c = some conn) (hat : At s hand w c conn p) (hp : p ≠ .destroyed)
    (hhand : p.functor s conn = hand) (hpdue : p.due conn = none)
    (hr : TcpConnection.Reaches p' (w.loops conn.loop) conn loop conn')
    (hp' : p' = .up ∨ p' = .closing) (hkept : p.Kept)
    (hhistory : ∀ n, ∃ m, p.history n ++ [o] = p'.history m)
    (hdue : (w.threads conn.loop).due = none) (hup : p' = .up ∨ ∀ l, ¬Needed w l c) :
    Inv s none (((w.put conn.loop loop c conn').record c o).enter conn.loop
      ((p'.due conn').map Prod.snd)) := by
  have hid : conn'.id = c := hr.same.id.trans hat.id
  have hfun : p'.functor s conn' = none := by
    obtain rfl | rfl := hp'
    · rfl
    · rfl
  have hnew : ∀ d, (p'.due conn').map Prod.snd = some d → d.conn = c := by
    intro d hd
    obtain rfl | rfl := hp'
    · cases hd
    · cases hd
      exact hid
  refine h.reaches hconn hat hp hhand hr hfun (iff_of_true ?_ hkept)
    ((touches_record o).trans (touches_enter ?_ hnew)) ((calm_record o).trans (calm_enter _))
    rfl rfl rfl ?_ ?_ ?_ hup
  · obtain rfl | rfl := hp'
    · simp [Phase.Kept]
    · simp [Phase.Kept]
  · intro d hd
    change (w.threads conn.loop).due = some d at hd
    rw [hdue] at hd
    cases hd
  · obtain ⟨n, hn⟩ := hat.history
    obtain ⟨m, hm⟩ := hhistory n
    refine ⟨m, ?_⟩
    rw [← hm, ← hn]
    exact record_history o
  · intro fd
    have hne : p' ≠ .destroyed := by
      obtain rfl | rfl := hp'
      · simp
      · simp
    change w.fds fd = some c ↔ _
    rw [hat.fds]
    simp [hp, hne]
  · intro k d hd
    have hold := (hat.due k d hd).not.mpr (by simp [hpdue])
    rw [due_enter]
    change (if k = conn.loop then _ else (w.threads k).due) = some d ↔ _
    obtain rfl | rfl := hp'
    · split_ifs
      · simp [Phase.due]
      · simpa [Phase.due] using hold
    · simp only [Phase.due, Option.map_some, hr.same.loop]
      split_ifs with hk
      · simp [hk]
      · have hk' : ¬conn.loop = k := fun heq => hk heq.symm
        simpa [hk'] using hold

theorem inv_connectEstablished (h : Inv s (some (l, .connectEstablished c)) w)
    (hconn : w.conns c = some conn) (hdue : (w.threads l).due = none) :
    Yields (w.connectEstablished l c) (Inv s none) := by
  obtain ⟨p, hat⟩ := h.conn c conn hconn
  have hfun := hat.functor_eq rfl (fun hcb => hcb)
  cases p with
  | up | closing | closed | erased | destroyed => cases hfun
  | created =>
    obtain rfl : conn.loop = l := by
      cases hfun
      rfl
    obtain ⟨⟨loop, conn'⟩, hrun, hr⟩ :=
      TcpConnection.connectEstablished_spec (hat.stands (by simp) h)
    simp only [World.connectEstablished, World.conn_eq hconn, ok_bind, hrun, pure_eq_ok]
    apply yields_ok
    refine h.occurs .up hconn hat (by simp) hfun rfl hr (.inl rfl) (by simp [Phase.Kept]) ?_ hdue
      (.inl rfl)
    exact fun _ => ⟨0, rfl⟩

theorem history_closing (n : ℕ) : ∃ m, Phase.up.history n ++ [.down] = Phase.closing.history m :=
  ⟨n, rfl⟩

theorem inv_handleClose (h : Inv s none w) (hup : Up w l c) (hdue : (w.threads l).due = none)
    (hneed : ∀ k, ¬Needed w k c) : Yields (w.handleClose l c) (Inv s none) := by
  obtain ⟨conn, hconn, rfl, hat⟩ := h.at_of_up hup
  obtain ⟨⟨loop, conn'⟩, hrun, hr⟩ := TcpConnection.handleClose_spec (hat.stands (by simp) h)
  have hid : conn'.id = c := hr.same.id.trans hat.id
  simp only [World.handleClose, World.conn_eq hconn, ok_bind, hrun, pure_eq_ok]
  apply yields_ok
  have hinv := h.occurs .down hconn hat (by simp) rfl rfl hr (.inr rfl) (by simp [Phase.Kept])
    history_closing hdue (.inr hneed)
  simpa [Phase.due, hid] using hinv

/-- Work of an established connection that its user does not see. -/
theorem Inv.silent {loop : EventLoop PendingFunctor} (h : Inv s none w)
    (hconn : w.conns c = some conn) (hat : At s none w c conn .up)
    (hr : TcpConnection.Reaches .up (w.loops conn.loop) conn loop conn') :
    Inv s none (w.put conn.loop loop c conn') := by
  refine h.reaches hconn hat (by simp) rfl hr rfl .rfl (.refl ..) (.refl _) rfl rfl rfl
    hat.history ?_ hat.due (.inl rfl)
  intro fd
  exact hat.fds fd

theorem inv_handleRead (h : Inv s none w) (hup : Up w l c) (hdue : (w.threads l).due = none)
    (hneed : ∀ k, ¬Needed w k c) (r : ReadResult) : Yields (w.handleRead l c r) (Inv s none) := by
  obtain ⟨conn, hconn, rfl, hat⟩ := h.at_of_up hup
  obtain ⟨⟨loop, conn', outcome⟩, hrun, hr⟩ :=
    TcpConnection.handleRead_spec (hat.stands (by simp) h) r
  have hid : conn'.id = c := hr.same.id.trans hat.id
  simp only [World.handleRead, World.conn_eq hconn, ok_bind, hrun]
  cases outcome with
  | message =>
    refine yields_ok (h.occurs .message hconn hat (by simp) rfl rfl hr (.inl rfl)
      (by simp [Phase.Kept]) ?_ hdue (.inl rfl))
    intro n
    refine ⟨n + 1, ?_⟩
    simp [Phase.history, TcpConnection.ReadOutcome.phase, List.replicate_succ']
  | closed =>
    have hinv := h.occurs .down hconn hat (by simp) rfl rfl hr (.inr rfl) (by simp [Phase.Kept])
      history_closing hdue (.inr hneed)
    exact yields_ok (by simpa [Phase.due, hid, TcpConnection.ReadOutcome.phase] using hinv)
  | error => exact yields_ok (h.silent hconn hat hr)

theorem put_self (hconn : w.conns c = some conn) : w.put l (w.loops l) c conn = w := by
  simp [World.put, Function.update_eq_self, ← hconn]

theorem inv_handleWrite (h : Inv s none w) (hconn : w.conns c = some conn) (r : WriteResult) :
    Yields (w.handleWrite conn.loop c r) (Inv s none) := by
  obtain ⟨p, hat⟩ := h.conn c conn hconn
  simp only [World.handleWrite, World.conn_eq hconn, ok_bind]
  by_cases hp : p = .up
  · subst hp
    obtain ⟨⟨loop, conn'⟩, hrun, hr⟩ := TcpConnection.handleWrite_up (hat.stands (by simp) h) r
    rw [hrun]
    exact yields_ok (h.silent hconn hat hr)
  · have hl : conn.loop = (w.loops conn.loop).id := (h.loop conn.loop).id.symm
    rw [TcpConnection.handleWrite_quiet hl (Phase.holds_isWriting hat.holds hp)]
    exact yields_ok (by simpa only [put_self hconn] using h)

theorem inv_userCall (h : Inv s none w) (hconn : w.conns c = some conn) (u : UserCall) :
    Yields (step s w (.userCall conn.loop c u)) (Inv s none) := by
  obtain ⟨p, hat⟩ := h.conn c conn hconn
  simp only [step, World.userCall, World.conn_eq hconn, ok_bind]
  by_cases hp : p = .up
  · subst hp
    obtain ⟨⟨loop, conn'⟩, hrun, hr, _⟩ := TcpConnection.userCall_up (hat.stands (by simp) h) u
    rw [hrun]
    exact yields_ok (h.silent hconn hat hr)
  · have hs : conn.state ≠ .kConnected := by
      obtain hs | hs := Phase.holds_state hat.holds hp
      · simp [hs]
      · simp [hs]
    rw [TcpConnection.userCall_quiet hs]
    exact yields_ok (by simpa only [put_self hconn] using h)

/-! ### The way out -/

/-- The line after a callback is the `closeCallback_` of a closing connection of the loop. -/
theorem Inv.due_eq {d : Due} (h : Inv s hand w) (hdue : (w.threads l).due = some d) :
    ∃ c conn, d = .closeCallback c ∧ w.conns c = some conn ∧ conn.loop = l ∧
      At s hand w c conn .closing := by
  cases hconn : w.conns d.conn with
  | none => exact absurd rfl ((h.fresh _ hconn).due l d hdue)
  | some conn =>
    obtain ⟨p, hat⟩ := h.conn _ conn hconn
    have hp := (hat.due l d rfl).mp hdue
    cases p with
    | created | up | closed | erased | destroyed => cases hp
    | closing =>
      cases hp
      have hid := hat.id
      exact ⟨conn.id, conn, rfl, hconn, rfl, hat⟩

/-- The thread of `l` is past the line after its callback. -/
def clearDue (w : World) (l : LoopId) : World :=
  { w with threads := Function.update w.threads l { w.threads l with due := none } }

theorem due_clearDue (k : LoopId) :
    ((clearDue w l).threads k).due = if k = l then none else (w.threads k).due := by
  by_cases hk : k = l
  · subst hk
    simp [clearDue]
  · simp [clearDue, hk]

theorem calm_clearDue : Calm w (clearDue w l) :=
  { Calm.refl w with
    tests := fun k => by
      by_cases hk : k = l
      · subst hk
        simp [clearDue]
      · simp [clearDue, hk]
    revents := fun k => by
      by_cases hk : k = l
      · subst hk
        simp [clearDue]
      · simp [clearDue, hk] }

theorem touches_clearDue (hold : ∀ d, (w.threads l).due = some d → d.conn = c) :
    Touches c ch l w (clearDue w l) :=
  { Touches.refl c ch l w with
    due := by
      intro k d hd
      rw [due_clearDue]
      split_ifs with hk
      · subst hk
        exact iff_of_false (by simp) fun hdue => hd (hold d hdue)
      · rfl }

/-- `closeCallback_` puts the removal in hand. -/
theorem inv_closeCallback (h : Inv s none w) (hdue : (w.threads l).due = some (.closeCallback c)) :
    (∃ conn, w.conns c = some conn) ∧
      Inv s (some (s.loop, .removeConnectionInLoop c)) ((clearDue w l).record c .closeCallback) := by
  obtain ⟨c, conn, heq, hconn, rfl, hat⟩ := h.due_eq hdue
  cases heq
  have hown : ∀ d, (w.threads conn.loop).due = some d → d.conn = c := by
    intro d hd
    rw [hdue] at hd
    cases hd
    rfl
  have hat' : At s (some (s.loop, .removeConnectionInLoop c))
      ((clearDue w conn.loop).record c .closeCallback) c conn .closed :=
    { hat with
      history := by
        obtain ⟨n, hn⟩ := hat.history
        refine ⟨n, ?_⟩
        rw [record_history]
        change w.history c ++ _ = _
        rw [hn]
        simp [Phase.history]
      view := fun _ => hat.view (by simp)
      fds := fun fd => by
        change w.fds fd = some c ↔ _
        rw [hat.fds]
        simp
      queued := by
        intro k f hf hcb
        have hq := hat.queued k f hf hcb
        simp only [Phase.functor, reduceCtorEq, if_false, Nat.add_zero] at hq
        change (w.queue k).count f + _ = _
        rw [hq, Nat.zero_add]
        simp [Phase.functor, hat.id]
      due := by
        intro k d hd
        change ((clearDue w conn.loop).threads k).due = some d ↔ _
        rw [due_clearDue]
        have hold := hat.due k d hd
        split_ifs with hk
        · simp [Phase.due]
        · rw [hold]
          have hk' : ¬conn.loop = k := fun heq => hk heq.symm
          simp [Phase.due, hk']
      connections := fun name => by
        change w.connections name = some c ↔ _
        rw [hat.connections]
        simp [Phase.Kept]
      established := by simp }
  refine ⟨⟨conn, hconn⟩, ?_⟩
  refine h.moved hconn hat (by simp) ((touches_clearDue hown).trans (touches_record _))
    (calm_clearDue.trans (calm_record _)) (.refl conn) hconn ?_ ?_ hat' (hat'.view (by simp))
    (.inr (hat.not_needed (by simp) h hconn))
  · intro k f hf
    cases hf
  · intro k f hf
    cases hf
    rfl

/-- The removal erases one entry, and queues `connectDestroyed`. -/
theorem inv_removeConnectionInLoop (h : Inv s (some (s.loop, .removeConnectionInLoop c)) w)
    (hconn : w.conns c = some conn) :
    Yields (w.removeConnectionInLoop s s.loop c) (Inv s none) := by
  obtain ⟨p, hat⟩ := h.conn c conn hconn
  have hfun := hat.functor_eq rfl (fun hcb => hcb)
  cases p with
  | created | up | closing | erased | destroyed => simp [Phase.functor] at hfun
  | closed =>
    have hkept : w.connections conn.name = some c :=
      (hat.connections conn.name).mpr ⟨rfl, by simp [Phase.Kept]⟩
    generalize hw : ({ w with
      connections := Function.update w.connections conn.name none } : World).record c (.erase 1) = w'
    have hrun : w.removeConnectionInLoop s s.loop c =
        .ok (w'.queueInLoop s.loop conn.loop (.connectDestroyed c)) := by
      simp [World.removeConnectionInLoop, EventLoop.assertInLoopThread, (h.loop s.loop).id,
        World.conn_eq hconn, hkept, assert, ← hw]
    have hat' : At s (some (conn.loop, .connectDestroyed c)) w' c conn .erased := by
      subst hw
      exact { hat with
        history := by
          obtain ⟨n, hn⟩ := hat.history
          refine ⟨n, ?_⟩
          rw [record_history]
          change w.history c ++ _ = _
          rw [hn]
          simp [Phase.history]
        view := fun _ => hat.view (by simp)
        fds := fun fd => by
          change w.fds fd = some c ↔ _
          rw [hat.fds]
          simp
        queued := by
          intro k f hf hcb
          have hq := hat.queued k f hf hcb
          change (w.queue k).count f + _ = _
          have hzero : (w.queue k).count f = 0 := by
            simp only [Phase.functor, hat.id] at hq
            omega
          rw [hzero, Nat.zero_add]
          simp [Phase.functor, hat.id]
        due := hat.due
        connections := by
          intro name
          change Function.update w.connections conn.name none name = some c ↔ _
          have hold := hat.connections name
          by_cases hname : name = conn.name
          · simp [hname, Phase.Kept]
          · simp [hname, hold]
        established := by simp }
    have htouch : Touches c conn.channel conn.loop w w' := by
      subst hw
      refine Touches.trans ?_ (touches_record _)
      exact { Touches.refl c conn.channel conn.loop w with
        connections := fun name d hd => by
          by_cases hname : name = conn.name
          · simp [hname, hkept, hd.symm]
          · simp [hname] }
    have hcalm : Calm w w' := by
      subst hw
      exact .of_loops (fun _ => ⟨_, _, _, rfl⟩) (fun _ => rfl) (fun _ => rfl)
    have hconn' : w'.conns c = some conn := by
      subst hw
      exact hconn
    rw [hrun]
    apply yields_ok
    have hinv : Inv s (some (conn.loop, .connectDestroyed c)) w' := by
      refine h.moved hconn hat (by simp) htouch hcalm (.refl conn) hconn' ?_ ?_ hat'
        (hat'.view (by simp)) (.inr (hat.not_needed (by simp) h hconn))
      · intro k f hf
        cases hf
        rfl
      · intro k f hf
        cases hf
        rfl
    exact hinv.queueInLoop s.loop hconn' (fun hcb => hcb) (by simp)

theorem inv_removeConnection (h : Inv s (some (s.loop, .removeConnectionInLoop c)) w)
    (hconn : w.conns c = some conn) (l : LoopId) :
    Yields (w.removeConnection s l c) (Inv s none) := by
  simp only [World.removeConnection]
  split_ifs with hl
  · rw [hl]
    exact inv_removeConnectionInLoop h hconn
  · exact yields_ok (h.queueInLoop l hconn (fun hcb => hcb) (by simp))

/-- `connectDestroyed` removes the channel. -/
theorem inv_connectDestroyed (h : Inv s (some (l, .connectDestroyed c)) w)
    (hconn : w.conns c = some conn) (hev : (w.loops l).eventHandling = false) :
    Yields (w.connectDestroyed l c) (Inv s none) := by
  obtain ⟨p, hat⟩ := h.conn c conn hconn
  have hfun := hat.functor_eq rfl (fun hcb => hcb)
  cases p with
  | created | up | closing | closed | destroyed => cases hfun
  | erased =>
    obtain rfl : conn.loop = l := by
      cases hfun
      rfl
    obtain ⟨⟨loop, conn', inCallback⟩, hrun, hflag, hr⟩ :=
      TcpConnection.connectDestroyed_spec (hat.stands (by simp) h) (.inr (.inr rfl)) (by simp [EventLoop.Removable, hev])
    simp only at hflag
    subst hflag
    simp only [World.connectDestroyed, World.conn_eq hconn, ok_bind, hrun]
    apply yields_ok
    have hfdEq := hr.same.channel_fd
    have hself := (hat.fds conn.channel.fd).mpr ⟨by simp, rfl⟩
    refine h.reaches hconn hat (by simp) hfun hr rfl (by simp [Phase.Kept])
      ((touches_record .destroyed).trans ?_)
      (.of_loops (fun _ => ⟨_, _, _, rfl⟩) (fun _ => rfl) (fun _ => rfl)) rfl rfl rfl ?_ ?_
      ?_ (.inr (hat.not_needed (by simp) h hconn))
    · exact { Touches.refl c _ _ _ with
        fds := fun fd d hd => by
          change Function.update w.fds conn'.channel.fd none fd = some d ↔ w.fds fd = some d
          by_cases hfd : fd = conn'.channel.fd
          · rw [hfd, hfdEq, hself]
            simp [hd.symm]
          · simp [hfd] }
    · obtain ⟨n, hn⟩ := hat.history
      refine ⟨n, ?_⟩
      change (World.record _ c .destroyed).history c = _
      rw [record_history]
      change w.history c ++ _ = _
      rw [hn]
      simp [Phase.history]
    · intro fd
      change Function.update w.fds conn'.channel.fd none fd = some c ↔ _
      by_cases hfd : fd = conn'.channel.fd
      · simp [hfd]
      · have hnot := (hat.fds fd).not.mpr (by rw [hfdEq] at hfd; simp [hfd])
        simpa [hfd] using hnot
    · exact hat.due

/-! ### The way in -/

/-- The world after `newConnection` has constructed its object. -/
def constructed (s : TcpServer) (w : World) (ioLoop : LoopId) (connName : String) (sockfd : ℕ)
    (id : ConnId) : World :=
  { w with
    conns := Function.update w.conns id (some
      { TcpConnection.new id ioLoop connName sockfd with
        writeCompleteCallback := s.writeCompleteCallback })
    connections := Function.update w.connections connName (some id)
    fds := Function.update w.fds sockfd (some id) }

section Create
variable {ioLoop : LoopId} {connName : String} {sockfd : ℕ} {id : ConnId}

/-- A descriptor that is not open is in no poller. -/
theorem Inv.closed_fd (h : Inv s hand w) (hfd : w.fds sockfd = none) (l : LoopId) :
    (w.loops l).poller.channels sockfd = none ∧ (w.loops l).poller.interest sockfd = none := by
  have hchannels : (w.loops l).poller.channels sockfd = none := by
    cases hc : (w.loops l).poller.channels sockfd with
    | none => rfl
    | some x =>
      have hx := (h.channels l sockfd x hc).1
      rw [hfd] at hx
      cases hx
  refine ⟨hchannels, ?_⟩
  cases hi : (w.loops l).poller.interest sockfd with
  | none => rfl
  | some x =>
    have hx := h.interest l sockfd x.1 x.2 hi
    rw [hchannels] at hx
    cases hx

theorem at_constructed (h : Inv s none w) (hid : w.conns id = none) (hother : s.others id = none)
    (hfd : w.fds sockfd = none) (hloop : ioLoop ∈ s.nextLoops) :
    At s (some (ioLoop, .connectEstablished id)) (constructed s w ioLoop connName sockfd id) id
      { TcpConnection.new id ioLoop connName sockfd with
        writeCompleteCallback := s.writeCompleteCallback } .created := by
  have hfresh := h.fresh id hid
  exact {
    id := rfl
    channelId := rfl
    ownerLoop := rfl
    history := ⟨0, hfresh.history⟩
    holds := ⟨rfl, by simp [TcpConnection.new, Channel.new, Channel.isNoneEvent]⟩
    view := fun _ => by
      obtain ⟨hchannels, hinterest⟩ := h.closed_fd hfd ioLoop
      exact EPollPoller.View.ext (hfresh.index hother ioLoop) hchannels hinterest
    fds := fun fd => by
      by_cases hf : fd = sockfd
      · simp [constructed, hf, TcpConnection.new, Channel.new]
      · have hnot : w.fds fd ≠ some id := by
          intro hx
          obtain ⟨_, ho⟩ := h.fds fd id hx hid
          rw [hother] at ho
          cases ho
        simp [constructed, hf, TcpConnection.new, Channel.new, hnot]
    queued := by
      intro l f hf _
      have hzero : (w.queue l).count f = 0 :=
        List.count_eq_zero_of_not_mem fun hmem => hfresh.queued l f hmem hf
      change (w.queue l).count f + _ = _
      rw [hzero, Nat.zero_add]
      rfl
    due := by
      intro l d hd
      exact iff_of_false (fun hdue => hfresh.due l d hdue hd) (by simp [Phase.due])
    connections := by
      intro name
      by_cases hname : name = connName
      · simp [constructed, hname, TcpConnection.new, Phase.Kept]
      · simp [constructed, hname, TcpConnection.new, hfresh.connections name]
    nextLoops := hloop
    established := fun _ => .inl rfl }

theorem inv_constructed (h : Inv s none w) (hid : w.conns id = none) (hother : s.others id = none)
    (hname : w.connections connName = none) (hfd : w.fds sockfd = none)
    (hloop : ioLoop ∈ s.nextLoops) : Inv s (some (ioLoop, .connectEstablished id)) (constructed s w ioLoop connName sockfd id) := by
  have htouch : Touches id (.new id ioLoop sockfd) ioLoop w
      (constructed s w ioLoop connName sockfd id) :=
    { Touches.refl id (.new id ioLoop sockfd) ioLoop w with
      conns := fun d hd => by simp [constructed, hd]
      connections := fun name d hd => by
        by_cases hn : name = connName
        · simp [constructed, hn, hname, hd.symm]
        · simp [constructed, hn]
      fds := fun fd d hd => by
        by_cases hf : fd = sockfd
        · simp [constructed, hf, hfd, hd.symm]
        · simp [constructed, hf] }
  have hcalm : Calm w (constructed s w ioLoop connName sockfd id) :=
    .of_loops (fun _ => ⟨_, _, _, rfl⟩) (fun _ => rfl) (fun _ => rfl)
  obtain ⟨hchannels, hinterest⟩ := h.closed_fd hfd ioLoop
  refine h.touched htouch rfl ?_ ?_ ?_ ?_ hother (by simp [constructed]) rfl
    ⟨_, at_constructed h hid hother hfd hloop⟩ ?_ ?_ ?_
  · intro d hd
    change w.fds sockfd = some d at hd
    rw [hfd] at hd
    cases hd
  · intro k f hf
    cases hf
  · intro k f hf
    cases hf
    rfl
  · intro conn hconn
    rw [hid] at hconn
    cases hconn
  · intro x hx
    change (w.loops ioLoop).poller.channels sockfd = some x at hx
    rw [hchannels] at hx
    cases hx
  · intro mask x hx
    change (w.loops ioLoop).poller.interest sockfd = some (mask, x) at hx
    rw [hinterest] at hx
    cases hx
  · intro k
    have hne : ∀ x conn, w.conns x = some conn → x ≠ id := by
      rintro x conn hx rfl
      rw [hid] at hx
      cases hx
    refine (h.loop k).calm hcalm ?_ ?_
    · rintro x _ ⟨conn, n, hx, hl, hhist⟩
      exact ⟨conn, n, (htouch.conns x (hne x conn hx)).trans hx, hl, hhist⟩
    · intro x conn hx
      exact ⟨conn, (htouch.conns x (hne x conn hx)).trans hx, rfl⟩

theorem inv_newConnection (h : Inv s none w) (hid : w.conns id = none)
    (hother : s.others id = none) (hname : w.connections connName = none)
    (hfd : w.fds sockfd = none) (hnext : ioLoop ∈ s.nextLoops)
    (hdue : (w.threads s.loop).due = none) :
    Yields (w.newConnection s s.loop ioLoop connName sockfd id) (Inv s none) := by
  have hinv : Inv s (some (ioLoop, .connectEstablished id))
      (constructed s w ioLoop connName sockfd id) := inv_constructed h hid hother hname hfd hnext
  have hconn : (constructed s w ioLoop connName sockfd id).conns id = some
      { TcpConnection.new id ioLoop connName sockfd with
        writeCompleteCallback := s.writeCompleteCallback } := by
    simp [constructed]
  have hloop : s.loop = (w.loops s.loop).id := (h.loop s.loop).id.symm
  unfold World.newConnection
  rw [EventLoop.assertInLoopThread, assert_pos hloop, ok_bind]
  change Yields (if ioLoop = s.loop then
    (constructed s w ioLoop connName sockfd id).connectEstablished s.loop id else _) _
  split_ifs with hl
  · rw [hl] at hinv hconn ⊢
    exact inv_connectEstablished hinv hconn hdue
  · exact yields_ok (hinv.queueInLoop s.loop hconn (fun hcb => hcb) (fun _ => hl))

end Create

end TcpServer
end Muduo

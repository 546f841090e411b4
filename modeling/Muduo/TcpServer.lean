import Muduo.Library.StepSystem
import Muduo.TcpConnection

/-!
# TcpServer

`net/TcpServer.cc`, with the threads of its loops. A loop thread advances by the
steps of `EventLoop::loop`, by the tests of `Channel::handleEventWithGuard`, and by
the parts of a handler before and after a user callback; the loops' steps
interleave freely. The history of a connection is not part of the program.
-/
namespace Muduo

/-- What happens to a connection, in the order in which it happens. -/
inductive Occurrence
  /-- `connectionCallback_` from `connectEstablished` -/
  | up
  /-- `messageCallback_` -/
  | message
  /-- `connectionCallback_` from `handleClose` or `connectDestroyed` -/
  | down
  | closeCallback
  /-- `connections_.erase` in `removeConnectionInLoop`, with its result -/
  | erase (n : ℕ)
  /-- the end of `connectDestroyed` -/
  | destroyed
  deriving DecidableEq, Repr

/-- The tests of `handleEventWithGuard`, in their order. -/
inductive Test
  | close
  | error
  | read
  | write
  deriving DecidableEq, Repr

def Test.next : Test → Option Test
  | close => some error
  | error => some read
  | read => some write
  | write => none

/-- The line that follows a user callback. -/
inductive Due
  /-- `closeCallback_(guardThis)` in `handleClose` -/
  | closeCallback (conn : ConnId)
  /-- `channel_->remove()` in `connectDestroyed` -/
  | removeChannel (conn : ConnId)
  deriving DecidableEq, Repr

/-- What a loop thread has left to do inside a handler or a functor. -/
structure Thread where
  /-- `revents_` of the channels of the loop -/
  revents : ChannelId → Events
  /-- the connection whose `handleEventWithGuard` is running, and its next test -/
  tests : Option (ConnId × Test)
  inCallback : Bool
  due : Option Due

/-- The thread is between two handlers or functors. -/
def Thread.Idle (t : Thread) : Prop := t.inCallback = false ∧ t.due = none ∧ t.tests = none

instance (t : Thread) : Decidable t.Idle := inferInstanceAs (Decidable (_ ∧ _ ∧ _))

/-- The members of a server that do not change, and what else is in its process. -/
structure TcpServer where
  loop : LoopId
  /-- `loops_` of `threadPool_` -/
  ioLoops : List LoopId
  /-- `acceptor_->acceptChannel_` -/
  acceptChannel : Channel
  /-- `writeCompleteCallback_` is set -/
  writeCompleteCallback : Bool
  /-- the channels that are not those of connections, with their loops and descriptors -/
  others : ChannelId → Option (LoopId × ℕ)

/-- The loops from which `EventLoopThreadPool::getNextLoop` takes its turns. -/
def TcpServer.nextLoops (s : TcpServer) : List LoopId :=
  if s.ioLoops = [] then [s.loop] else s.ioLoops

structure World where
  loops : LoopId → EventLoop PendingFunctor
  threads : LoopId → Thread
  conns : ConnId → Option TcpConnection
  /-- `connections_` -/
  connections : String → Option ConnId
  /-- the open descriptors, each with its channel -/
  fds : ℕ → Option ChannelId
  history : ConnId → List Occurrence

namespace World

def conn (w : World) (c : ConnId) : Checked TcpConnection :=
  match w.conns c with
  | some conn => .ok conn
  | none => .error .noConnection

/-- The loop `l` and the connection `c` after a function of `c` has run. -/
def put (w : World) (l : LoopId) (loop : EventLoop PendingFunctor) (c : ConnId)
    (conn : TcpConnection) : World :=
  { w with
    loops := Function.update w.loops l loop
    conns := Function.update w.conns c (some conn) }

def record (w : World) (c : ConnId) (o : Occurrence) : World :=
  { w with history := Function.update w.history c (w.history c ++ [o]) }

/-- The thread of `l` enters a user callback, with the line after it. -/
def enter (w : World) (l : LoopId) (due : Option Due) : World :=
  { w with threads := Function.update w.threads l { w.threads l with inCallback := true, due } }

def setTests (w : World) (l : LoopId) (tests : Option (ConnId × Test)) : World :=
  { w with threads := Function.update w.threads l { w.threads l with tests } }

def setLoop (w : World) (l : LoopId) (loop : EventLoop PendingFunctor) : World :=
  { w with loops := Function.update w.loops l loop }

/-- `owner->queueInLoop(cb)`, called by the thread of `caller`. -/
def queueInLoop (w : World) (caller owner : LoopId) (cb : PendingFunctor) : World :=
  w.setLoop owner ((w.loops owner).queueInLoop (caller = owner) cb)

/-- From here on the descriptor of `c` may be closed. -/
def release (w : World) (conn : TcpConnection) : World :=
  { w with fds := Function.update w.fds conn.channel.fd none }

/-! ### The callbacks of a channel -/

def connectEstablished (w : World) (l : LoopId) (c : ConnId) : Checked World := do
  let conn ← w.conn c
  let (loop, conn) ← conn.connectEstablished (w.loops l)
  return ((w.put l loop c conn).record c .up).enter l none

def handleRead (w : World) (l : LoopId) (c : ConnId) (r : ReadResult) : Checked World := do
  let conn ← w.conn c
  let (loop, conn, outcome) ← conn.handleRead (w.loops l) r
  let w := w.put l loop c conn
  match outcome with
  | .message => return (w.record c .message).enter l none
  | .closed => return (w.record c .down).enter l (some (.closeCallback c))
  | .error => return w

def handleWrite (w : World) (l : LoopId) (c : ConnId) (r : WriteResult) : Checked World := do
  let conn ← w.conn c
  let (loop, conn) ← conn.handleWrite (w.loops l) r
  return w.put l loop c conn

def handleClose (w : World) (l : LoopId) (c : ConnId) : Checked World := do
  let conn ← w.conn c
  let (loop, conn) ← conn.handleClose (w.loops l)
  return ((w.put l loop c conn).record c .down).enter l (some (.closeCallback c))

/-- A call of the user on the connection `c`, in the thread of its loop. -/
def userCall (w : World) (l : LoopId) (c : ConnId) (u : UserCall) : Checked World := do
  let conn ← w.conn c
  let (loop, conn) ← conn.userCall (w.loops l) u
  return w.put l loop c conn

/-- One test of `handleEventWithGuard`. `handleError` only logs. -/
def runTest (w : World) (l : LoopId) (c : ConnId) (t : Test) (r : ReadResult) (wr : WriteResult) :
    Checked World :=
  let revents := (w.threads l).revents c
  match t with
  | .close =>
    if revents &&& POLLHUP ≠ 0 ∧ revents &&& POLLIN = 0 then w.handleClose l c else .ok w
  | .error => .ok w
  | .read =>
    if revents &&& (POLLIN ||| POLLPRI ||| POLLRDHUP) ≠ 0 then w.handleRead l c r else .ok w
  | .write => if revents &&& POLLOUT ≠ 0 then w.handleWrite l c wr else .ok w

/-- `handleEvent` of the next active channel begins. -/
def visit (s : TcpServer) (w : World) (l : LoopId) (x : ChannelId) (rest : List ChannelId) :
    World :=
  let loop := (w.loops l).visit x rest
  match w.conns x with
  | some _ => (w.setLoop l loop).setTests l (some (x, .close))
  | none =>
    if x = loop.wakeupChannel then w.setLoop l loop.handleRead
    else if x = s.acceptChannel.id then w.setLoop l loop
    else (w.setLoop l loop).enter l none

/-! ### The functions of the server -/

def removeConnectionInLoop (s : TcpServer) (w : World) (l : LoopId) (c : ConnId) :
    Checked World := do
  (w.loops l).assertInLoopThread s.loop
  let conn ← w.conn c
  let n := if w.connections conn.name = none then 0 else 1
  assert (n = 1) .removeConnectionErase
  let w := { w with connections := Function.update w.connections conn.name none }
  return (w.record c (.erase n)).queueInLoop l conn.loop (.connectDestroyed c)

def removeConnection (s : TcpServer) (w : World) (l : LoopId) (c : ConnId) : Checked World :=
  if l = s.loop then w.removeConnectionInLoop s l c
  else .ok (w.queueInLoop l s.loop (.removeConnectionInLoop c))

/-- The line after a user callback. -/
def runDue (s : TcpServer) (w : World) (l : LoopId) : Due → Checked World
  | .closeCallback c => (w.record c .closeCallback).removeConnection s l c
  | .removeChannel c => do
    let conn ← w.conn c
    let (loop, conn) ← conn.removeChannel (w.loops l)
    return ((w.put l loop c conn).record c .destroyed).release conn

def connectDestroyed (w : World) (l : LoopId) (c : ConnId) : Checked World := do
  let conn ← w.conn c
  let (loop, conn, inCallback) ← conn.connectDestroyed (w.loops l)
  let w := w.put l loop c conn
  if inCallback then return (w.record c .down).enter l (some (.removeChannel c))
  else return (w.record c .destroyed).release conn

/-- `newConnection` for the object at `id`, on the loop that `getNextLoop` has chosen. -/
def newConnection (s : TcpServer) (w : World) (l ioLoop : LoopId) (connName : String)
    (sockfd : ℕ) (id : ConnId) : Checked World := do
  (w.loops l).assertInLoopThread s.loop
  let conn := { TcpConnection.new id ioLoop connName sockfd with
    writeCompleteCallback := s.writeCompleteCallback }
  let w := { w with
    conns := Function.update w.conns id (some conn)
    connections := Function.update w.connections connName (some id)
    fds := Function.update w.fds sockfd (some id) }
  if ioLoop = l then w.connectEstablished l id
  else return w.queueInLoop l ioLoop (.connectEstablished id)

def runFunctor (s : TcpServer) (w : World) (l : LoopId) (r : WriteResult) :
    PendingFunctor → Checked World
  | .connectEstablished c => w.connectEstablished l c
  | .connectDestroyed c => w.connectDestroyed l c
  | .sendInLoop c message => do
    let conn ← w.conn c
    let (loop, conn) ← conn.sendInLoop (w.loops l) message r
    return w.put l loop c conn
  | .shutdownInLoop c => do
    let conn ← w.conn c
    let (loop, conn) ← conn.shutdownInLoop (w.loops l)
    return w.put l loop c conn
  | .writeCompleteCallback _ | .highWaterMarkCallback .. => .ok (w.enter l none)
  | .removeConnectionInLoop c => w.removeConnectionInLoop s l c

/-- `Channel::fd()` -/
def fd (s : TcpServer) (w : World) (x : ChannelId) : ℕ :=
  match w.conns x with
  | some conn => conn.channel.fd
  | none => ((s.others x).map Prod.snd).getD 0

end World

namespace TcpServer

inductive Event
  /-- `poll` returns these channels with their `revents_` -/
  | poll (l : LoopId) (active : List (ChannelId × Events))
  /-- the next active channel is handled -/
  | visit (l : LoopId)
  /-- the next test of `handleEventWithGuard`, with what its `read` or `write` returns -/
  | test (l : LoopId) (r : ReadResult) (w : WriteResult)
  | userCall (l : LoopId) (c : ConnId) (u : UserCall)
  | userReturn (l : LoopId)
  /-- the line after a user callback -/
  | due (l : LoopId)
  /-- `Acceptor::handleRead` has accepted `sockfd`, and `getNextLoop` chooses `ioLoop` -/
  | newConnection (ioLoop : LoopId) (connName : String) (sockfd : ℕ) (id : ConnId)
  | endHandling (l : LoopId)
  | swap (l : LoopId)
  /-- the next functor is run, with what its `write` returns -/
  | execute (l : LoopId) (w : WriteResult)
  | endFunctors (l : LoopId)
  deriving DecidableEq, Repr

/-- A set of reported events that is within the registered interest, and within what the
handlers of a connection know. -/
def Reported (mask revents : Events) : Prop :=
  revents ≠ 0 ∧ revents &&& ~~~(mask ||| POLLERR ||| POLLHUP) = 0 ∧
    revents &&& ~~~(POLLIN ||| POLLOUT ||| POLLERR ||| POLLHUP) = 0

instance (mask revents : Events) : Decidable (Reported mask revents) :=
  inferInstanceAs (Decidable (_ ∧ _ ∧ _))

/-- `epoll_wait(2)` of the loop `l` may report `revents` of the channel `x`. -/
def MayReport (s : TcpServer) (w : World) (l : LoopId) (x : ChannelId) (revents : Events) : Prop :=
  match (w.loops l).poller.interest (w.fd s x) with
  | some (mask, y) => y = x ∧ Reported mask revents
  | none => False

instance decidableMayReport (s : TcpServer) (w : World) (l : LoopId) (x : ChannelId)
    (revents : Events) : Decidable (MayReport s w l x revents) := by
  unfold MayReport
  split
  · infer_instance
  · infer_instance

/-- The connection `c` belongs to the loop `l`. -/
def OnLoop (w : World) (l : LoopId) (c : ConnId) : Prop :=
  (w.conns c).any (fun conn => conn.loop = l) = true

instance (w : World) (l : LoopId) (c : ConnId) : Decidable (OnLoop w l c) :=
  inferInstanceAs (Decidable (_ = true))

/-- What may happen next. The object of a new connection, its name and its descriptor are
not in use. -/
def enabled (s : TcpServer) (w : World) : Event → Prop
  | .poll l active => (w.threads l).Idle ∧ (w.loops l).position = .poll ∧
      (∀ x ∈ active, MayReport s w l x.1 x.2) ∧ (active.map Prod.fst).Nodup ∧
      active.length ≤ (w.loops l).poller.eventsSize
  | .visit l => (w.threads l).Idle ∧ (w.loops l).position = .handling ∧
      (w.loops l).unvisited ≠ []
  | .test l _ _ => (w.threads l).inCallback = false ∧ (w.threads l).due = none ∧
      (w.threads l).tests ≠ none
  | .userCall l c _ => (w.threads l).inCallback = true ∧ OnLoop w l c
  | .userReturn l => (w.threads l).inCallback = true
  | .due l => (w.threads l).inCallback = false ∧ (w.threads l).due ≠ none
  | .newConnection ioLoop connName sockfd id => (w.threads s.loop).Idle ∧ ioLoop ∈ s.nextLoops ∧
      (w.loops s.loop).position = .handling ∧
      (w.loops s.loop).currentActiveChannel = some s.acceptChannel.id ∧
      w.connections connName = none ∧ w.fds sockfd = none ∧ w.conns id = none ∧ s.others id = none
  | .endHandling l => (w.threads l).Idle ∧ (w.loops l).position = .handling ∧
      (w.loops l).unvisited = []
  | .swap l => (w.threads l).Idle ∧ (w.loops l).position = .swapping
  | .execute l _ => (w.threads l).Idle ∧ (w.loops l).position = .functors ∧
      (w.loops l).batch ≠ []
  | .endFunctors l => (w.threads l).Idle ∧ (w.loops l).position = .functors ∧
      (w.loops l).batch = []

instance decidableEnabled (s : TcpServer) (w : World) : (e : Event) → Decidable (enabled s w e)
  | .poll .. => inferInstanceAs (Decidable (_ ∧ _ ∧ _ ∧ _ ∧ _))
  | .visit _ | .test .. | .endHandling _ | .execute .. | .endFunctors _ =>
    inferInstanceAs (Decidable (_ ∧ _ ∧ _))
  | .userCall .. | .due _ | .swap _ => inferInstanceAs (Decidable (_ ∧ _))
  | .userReturn _ => inferInstanceAs (Decidable (_ = _))
  | .newConnection .. => inferInstanceAs (Decidable (_ ∧ _ ∧ _ ∧ _ ∧ _ ∧ _ ∧ _ ∧ _))

def step (s : TcpServer) (w : World) : Event → Checked World
  | .poll l active => do
    let (activeChannels, poller) ← (w.loops l).poller.poll (w.fd s) active
    let loop := { w.loops l with poller }.pollReturn (activeChannels.map Prod.fst)
    let revents x := ((activeChannels.lookup x).getD 0)
    return { w.setLoop l loop with
      threads := Function.update w.threads l { w.threads l with revents } }
  | .visit l => match (w.loops l).unvisited with
    | [] => .ok w
    | x :: rest => .ok (w.visit s l x rest)
  | .test l r wr => match (w.threads l).tests with
    | none => .ok w
    | some (c, t) => (w.setTests l (t.next.map fun t => (c, t))).runTest l c t r wr
  | .userCall l c u => w.userCall l c u
  | .userReturn l => .ok
    { w with threads := Function.update w.threads l { w.threads l with inCallback := false } }
  | .due l => match (w.threads l).due with
    | none => .ok w
    | some due =>
      { w with threads := Function.update w.threads l { w.threads l with due := none } }.runDue s l
        due
  | .newConnection ioLoop connName sockfd id => w.newConnection s s.loop ioLoop connName sockfd id
  | .endHandling l => .ok (w.setLoop l (w.loops l).endHandling)
  | .swap l => .ok (w.setLoop l (w.loops l).swap)
  | .execute l r => match (w.loops l).batch with
    | [] => .ok w
    | cb :: rest => (w.setLoop l ((w.loops l).take rest)).runFunctor s l r cb
  | .endFunctors l => .ok (w.setLoop l (w.loops l).endFunctors)

/-- The loops have been entered, and hold their own channels only. -/
structure Initial (s : TcpServer) (w : World) : Prop where
  id : ∀ l, (w.loops l).id = l
  position : ∀ l, (w.loops l).position = .poll
  unvisited : ∀ l, (w.loops l).unvisited = []
  batch : ∀ l, (w.loops l).batch = []
  pendingFunctors : ∀ l, (w.loops l).pendingFunctors = []
  threads : ∀ l, (w.threads l).Idle
  conns : ∀ c, w.conns c = none
  connections : ∀ name, w.connections name = none
  history : ∀ c, w.history c = []
  fds : ∀ fd x, w.fds fd = some x ↔ ∃ l, s.others x = some (l, fd)
  channels : ∀ l fd x, (w.loops l).poller.channels fd = some x → s.others x = some (l, fd)
  interest : ∀ l fd mask x, (w.loops l).poller.interest fd = some (mask, x) →
    (w.loops l).poller.channels fd = some x
  index : ∀ l x, s.others x = none → (w.loops l).poller.index x = kNew
  acceptor : s.others s.acceptChannel.id = some (s.loop, s.acceptChannel.fd)
  acceptorLoop : s.acceptChannel.ownerLoop = s.loop
  acceptorView : (w.loops s.loop).poller.Settled s.acceptChannel

def system (s : TcpServer) : StepSystem.System World Event Assertion where
  init := Initial s
  enabled := enabled s
  step := step s

instance (s : TcpServer) (w : World) (e : Event) : Decidable ((system s).enabled w e) :=
  decidableEnabled s w e

end TcpServer
end Muduo

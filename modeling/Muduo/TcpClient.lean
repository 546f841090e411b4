import Muduo.Connector
import Muduo.ServerSteps

/-!
# TcpClient

`net/TcpClient.cc` and `net/Connector.cc` in one loop thread, with the poller, the
descriptors and the pointers that keep the objects alive. A `TcpConnection` goes with its
last `TcpConnectionPtr`, a `Connector` with its last `ConnectorPtr`; the kernel gives a new
socket any descriptor that is closed. The user acts where the thread runs its code: in a
callback, or between two handlers or functors.
-/
namespace Muduo
open Connector (States Outcome kMaxRetryDelayMs kInitRetryDelayMs)

abbrev ClientId := ℕ

/-- The members of a client. Its connector bears its number. -/
structure TcpClient where
  name : String
  /-- `writeCompleteCallback_` is set -/
  writeCompleteCallback : Bool
  retry : Bool
  connect : Bool
  nextConnId : ℕ
  connection : Option ConnId
  deriving DecidableEq, Repr

namespace TcpClient

/-- `TcpClient::TcpClient(loop, serverAddr, name)` -/
def new (name : String) (writeCompleteCallback : Bool) : TcpClient where
  name := name
  writeCompleteCallback := writeCompleteCallback
  retry := false
  connect := true
  nextConnId := 1
  connection := none

/-- `char buf[32]` and `name_ + buf` of `newConnection` -/
def connName (client : TcpClient) (peerAddr : String) : String :=
  client.name ++ ((":" ++ peerAddr ++ "#" ++ toString client.nextConnId).take 31).toString

structure Connector where
  connect : Bool
  state : States
  channel : Option Channel
  retryDelayMs : ℕ
  deriving DecidableEq

/-- `Connector::Connector(loop, serverAddr)` -/
def Connector.new : Connector := ⟨false, .kDisconnected, none, kInitRetryDelayMs⟩

/-- What `runAfter` is given; both callbacks are bound to a `ConnectorPtr`. -/
inductive Timer
  | startInLoop (connector : ClientId) (delayMs : ℕ)
  | removeConnector (connector : ClientId)
  deriving DecidableEq, Repr

def Timer.connector : Timer → ClientId
  | startInLoop k _ | removeConnector k => k

/-- `closeCallback_` of a connection: that of its client, or `detail::removeConnection`. -/
inductive CloseCallback
  | removeConnection (client : ClientId)
  | detail
  deriving DecidableEq, Repr

/-- What a channel is a member of. -/
inductive Owner
  | connection
  | connector (connector : ClientId)
  /-- the loop, or user code -/
  | other
  deriving DecidableEq, Repr

/-- What follows a user callback, with the pointer that the function holds. -/
inductive Due
  /-- `closeCallback_(guardThis)` in `handleClose` -/
  | closeCallback (conn : ConnId)
  /-- `channel_->remove()` in `connectDestroyed` -/
  | removeChannel (conn : ConnId)
  /-- the end of `newConnection` -/
  | newConnection (conn : ConnId)
  deriving DecidableEq, Repr

def Due.conn : Due → ConnId
  | closeCallback c | removeChannel c | newConnection c => c

structure World where
  loop : EventLoop PendingFunctor
  clients : ClientId → Option TcpClient
  connectors : ClientId → Option Connector
  conns : ConnId → Option TcpConnection
  closeCallbacks : ConnId → CloseCallback
  /-- the channels ever made, each with its owner and its descriptor -/
  made : ChannelId → Option (Owner × ℕ)
  /-- the open descriptors, each with its channel -/
  fds : ℕ → Option ChannelId
  nextClient : ClientId
  timers : List Timer
  /-- the timers that have been run and not yet deleted -/
  expired : List Timer
  /-- the functors `Connector::resetChannel`, which have a queue of their own here -/
  resets : List ClientId
  /-- the copies of `TcpConnectionPtr` in user code -/
  kept : List ConnId
  /-- the functors of the batch that have been started; `doPendingFunctors` holds them to its end -/
  ran : List PendingFunctor
  /-- `revents_` -/
  revents : ChannelId → Events
  /-- the connection whose `handleEvent` is running, which holds a pointer, and its next test -/
  tests : Option (ConnId × Option Test)
  inCallback : Bool
  due : Option Due

/-- What `socket(2)` and `connect(2)` give, and where the channel is allocated. -/
structure Attempt where
  outcome : Outcome
  sockfd : ℕ
  id : ChannelId
  deriving DecidableEq, Repr

/-- What there is to know of a socket that `connect(2)` has connected, and where the
connection is allocated. -/
structure Connected where
  soError : Bool
  isSelfConnect : Bool
  peerAddr : String
  id : ConnId
  deriving DecidableEq, Repr

namespace World
variable (w : World)

def functors : List PendingFunctor := w.ran ++ w.loop.batch ++ w.loop.pendingFunctors

/-- Somebody has a `TcpConnectionPtr` to `c`: a client, user code, a functor, or the
function that is running. -/
def Held (c : ConnId) : Prop :=
  (∃ k < w.nextClient, (w.clients k).any (fun client => client.connection = some c) = true) ∨
    c ∈ w.kept ∨ (∃ f ∈ w.functors, f.Owns c) ∨ w.tests.map Prod.fst = some c ∨
    w.due.map Due.conn = some c

instance (c : ConnId) : Decidable (w.Held c) := inferInstanceAs (Decidable (_ ∨ _ ∨ _ ∨ _ ∨ _))

/-- A client or a timer has a `ConnectorPtr` to `k`. -/
def HeldConnector (k : ClientId) : Prop :=
  (w.clients k).isSome = true ∨ ∃ t ∈ w.timers ++ w.expired, t.connector = k

instance (k : ClientId) : Decidable (w.HeldConnector k) := inferInstanceAs (Decidable (_ ∨ _))

def client (k : ClientId) : Checked TcpClient :=
  match w.clients k with
  | some client => .ok client
  | none => .error .noClient

def connector (k : ClientId) : Checked Connector :=
  match w.connectors k with
  | some connector => .ok connector
  | none => .error .noConnector

def conn (c : ConnId) : Checked TcpConnection :=
  match w.conns c with
  | some conn => .ok conn
  | none => .error .noConnection

def setClient (k : ClientId) (client : TcpClient) : World :=
  { w with clients := Function.update w.clients k (some client) }

def setConnector (k : ClientId) (connector : Connector) : World :=
  { w with connectors := Function.update w.connectors k (some connector) }

/-- The loop and the connection `c` after a function of `c` has run. -/
def put (loop : EventLoop PendingFunctor) (c : ConnId) (conn : TcpConnection) : World :=
  { w with loop, conns := Function.update w.conns c (some conn) }

/-- The thread enters a user callback, with what follows it. -/
def enter (due : Option Due) : World := { w with inCallback := true, due }

/-- `sockets::close(sockfd)`; the kernel takes the descriptor out of the interest set. -/
def close (sockfd : ℕ) : World :=
  { w with
    fds := Function.update w.fds sockfd none
    loop := { w.loop with
      poller := { w.loop.poller with
        interest := Function.update w.loop.poller.interest sockfd none } } }

/-- `~TcpConnection`; the descriptor that `~Socket` closes is that of the channel. -/
def destroy (c : ConnId) : World :=
  match w.conns c with
  | some conn => { w with conns := Function.update w.conns c none }.close conn.channel.fd
  | none => w

/-- A `TcpConnectionPtr` to `c` has gone. -/
def release (c : ConnId) : World := if w.Held c then w else w.destroy c

/-- A `ConnectorPtr` to `k` has gone; with the last one goes the connector. -/
def releaseConnector (k : ClientId) : Checked World :=
  if w.HeldConnector k then .ok w
  else do
    let connector ← w.connector k
    assert (connector.channel = none) .connectorChannel
    return { w with connectors := Function.update w.connectors k none }

/-! ### The functions of a connector -/

def retry (k : ClientId) (sockfd : ℕ) : Checked World := do
  let w := w.close sockfd
  let connector ← w.connector k
  let connector := { connector with state := .kDisconnected }
  if connector.connect then
    return { w.setConnector k { connector with
        retryDelayMs := min (connector.retryDelayMs * 2) kMaxRetryDelayMs } with
      timers := w.timers ++ [.startInLoop k connector.retryDelayMs] }
  else return w.setConnector k connector

def connecting (k : ClientId) (a : Attempt) : Checked World := do
  let connector ← w.connector k
  assert (connector.channel = none) .connectingChannel
  let channel := (Channel.new a.id w.loop.id a.sockfd).set .enableWriting
  let loop ← w.loop.updateChannel channel
  return { w.setConnector k { connector with state := .kConnecting, channel := some channel } with
    loop
    made := Function.update w.made a.id (some (.connector k, a.sockfd))
    fds := Function.update w.fds a.sockfd (some a.id) }

/-- `Connector::connect()` -/
def connectSocket (k : ClientId) (a : Attempt) : Checked World :=
  match a.outcome with
  | .connecting => w.connecting k a
  | .retry => w.retry k a.sockfd
  | .error => .ok (w.close a.sockfd)

def startInLoop (k : ClientId) (a : Attempt) : Checked World := do
  let connector ← w.connector k
  assert (connector.state = .kDisconnected) .startInLoopState
  if connector.connect then w.connectSocket k a else return w

/-- `Connector::start()` -/
def start (k : ClientId) (a : Attempt) : Checked World := do
  let connector ← w.connector k
  (w.setConnector k { connector with connect := true }).startInLoop k a

def restart (k : ClientId) (a : Attempt) : Checked World := do
  let connector ← w.connector k
  (w.setConnector k { connector with
    state := .kDisconnected
    retryDelayMs := kInitRetryDelayMs
    connect := true }).startInLoop k a

/-- The value is the descriptor of the channel. -/
def removeAndResetChannel (k : ClientId) : Checked (World × ℕ) := do
  let connector ← w.connector k
  match connector.channel with
  | none => .error .noChannel
  | some channel => do
    let channel := channel.set .disableAll
    let loop ← w.loop.updateChannel channel
    let loop ← loop.removeChannel channel
    let loop := if loop.needsWakeup true then loop.wakeup else loop
    return ({ w.setConnector k { connector with channel := some channel } with
      loop
      resets := w.resets ++ [k] }, channel.fd)

def stopInLoop (k : ClientId) : Checked World := do
  let connector ← w.connector k
  if connector.state = .kConnecting then
    let (w, sockfd) ← (w.setConnector k { connector with
      state := .kDisconnected }).removeAndResetChannel k
    w.retry k sockfd
  else return w

/-- `Connector::stop()` -/
def stop (k : ClientId) : Checked World := do
  let connector ← w.connector k
  (w.setConnector k { connector with connect := false }).stopInLoop k

/-- `Connector::handleError()` -/
def handleError (k : ClientId) : Checked World := do
  let connector ← w.connector k
  assert (connector.state = .kConnecting) .handleErrorState
  let (w, sockfd) ← w.removeAndResetChannel k
  w.retry k sockfd

/-! ### The functions of a client -/

/-- `connection_ = conn`, up to the call of `connectEstablished` -/
def constructed (k : ClientId) (client : TcpClient) (sockfd : ℕ) (s : Connected) : World :=
  let conn := { TcpConnection.new s.id w.loop.id (client.connName s.peerAddr) sockfd with
    writeCompleteCallback := client.writeCompleteCallback }
  { w.setClient k { client with
      nextConnId := client.nextConnId + 1
      connection := some s.id } with
    conns := Function.update w.conns s.id (some conn)
    closeCallbacks := Function.update w.closeCallbacks s.id (.removeConnection k)
    made := Function.update w.made s.id (some (.connection, sockfd))
    fds := Function.update w.fds sockfd (some s.id) }

/-- `newConnection`, up to the call of `connectionCallback_` at its end -/
def newConnection (k : ClientId) (sockfd : ℕ) (s : Connected) : Checked World := do
  let client ← w.client k
  let w := w.constructed k client sockfd s
  let w := match client.connection with
    | some old => w.release old
    | none => w
  let conn ← w.conn s.id
  let (loop, conn) ← conn.connectEstablished w.loop
  return (w.put loop s.id conn).enter (some (.newConnection s.id))

/-- `Connector::handleWrite()` -/
def handleWrite (k : ClientId) (s : Connected) : Checked World := do
  let connector ← w.connector k
  if connector.state = .kConnecting then
    let (w, sockfd) ← w.removeAndResetChannel k
    if s.soError then w.retry k sockfd
    else if s.isSelfConnect then w.retry k sockfd
    else
      let connector ← w.connector k
      let w := w.setConnector k { connector with state := .kConnected }
      if connector.connect then w.newConnection k sockfd s else return w.close sockfd
  else
    assert (connector.state = .kDisconnected) .handleWriteState
    return w

/-- `Channel::handleEvent` of the channel `x` of a connector, which is not tied -/
def handleConnector (k : ClientId) (x : ChannelId) (s : Connected) : Checked World := do
  let connector ← w.connector k
  assert (connector.channel.map Channel.id = some x) .noChannel
  let w ← if w.revents x &&& (POLLERR ||| POLLNVAL) ≠ 0 then w.handleError k else .ok w
  if w.revents x &&& POLLOUT ≠ 0 then w.handleWrite k s else return w

/-- `TcpClient::removeConnection` -/
def removeConnection (k : ClientId) (c : ConnId) (a : Attempt) : Checked World := do
  let client ← w.client k
  let conn ← w.conn c
  assert (conn.loop = w.loop.id) .removeConnectionLoop
  assert (client.connection = some c) .removeConnectionSame
  let w := w.setClient k { client with connection := none }
  let w := { w with loop := w.loop.queueInLoop true (.connectDestroyed c) }
  if client.retry ∧ client.connect then w.restart k a else return w

/-- `closeCallback_(guardThis)` -/
def closeCallback (c : ConnId) (a : Attempt) : Checked World :=
  match w.closeCallbacks c with
  | .removeConnection k => w.removeConnection k c a
  | .detail => .ok { w with loop := w.loop.queueInLoop true (.connectDestroyed c) }

/-- `TcpClient::TcpClient` -/
def newClient (name : String) (writeCompleteCallback : Bool) : World :=
  let w := w.setClient w.nextClient (.new name writeCompleteCallback)
  { w.setConnector w.nextClient .new with nextClient := w.nextClient + 1 }

/-- `TcpClient::connect()` -/
def connect (k : ClientId) (a : Attempt) : Checked World := do
  let client ← w.client k
  (w.setClient k { client with connect := true }).start k a

def disconnect (k : ClientId) : Checked World := do
  let client ← w.client k
  let w := w.setClient k { client with connect := false }
  match client.connection with
  | none => return w
  | some c => do
    let conn ← w.conn c
    let (loop, conn) ← conn.shutdown w.loop true
    return w.put loop c conn

/-- `TcpClient::stop()` -/
def stopClient (k : ClientId) : Checked World := do
  let client ← w.client k
  (w.setClient k { client with connect := false }).stop k

def enableRetry (k : ClientId) : Checked World := do
  let client ← w.client k
  return w.setClient k { client with retry := true }

/-- `~TcpClient`, and the end of `connection_` and `connector_` after it -/
def destroyClient (k : ClientId) : Checked World := do
  let client ← w.client k
  match client.connection with
  | some c =>
    let w := { w with
      closeCallbacks := Function.update w.closeCallbacks c .detail
      clients := Function.update w.clients k none }
    (w.release c).releaseConnector k
  | none =>
    let w ← w.stop k
    let w := { w with
      timers := w.timers ++ [Timer.removeConnector k]
      clients := Function.update w.clients k none }
    w.releaseConnector k

/-! ### The callbacks of a connection -/

def handleClose (c : ConnId) : Checked World := do
  let conn ← w.conn c
  let (loop, conn) ← conn.handleClose w.loop
  return (w.put loop c conn).enter (some (.closeCallback c))

def handleRead (c : ConnId) (r : ReadResult) : Checked World := do
  let conn ← w.conn c
  let (loop, conn, outcome) ← conn.handleRead w.loop r
  let w := w.put loop c conn
  match outcome with
  | .message => return w.enter none
  | .closed => return w.enter (some (.closeCallback c))
  | .error => return w

def handleWriteConnection (c : ConnId) (r : WriteResult) : Checked World := do
  let conn ← w.conn c
  let (loop, conn) ← conn.handleWrite w.loop r
  return w.put loop c conn

/-- A call of the user on the connection `c`. -/
def userCall (c : ConnId) (u : UserCall) : Checked World := do
  let conn ← w.conn c
  let (loop, conn) ← conn.userCall w.loop u
  return w.put loop c conn

/-- One test of `handleEventWithGuard`. `handleError` only logs. -/
def runTest (c : ConnId) (t : Test) (r : ReadResult) (wr : WriteResult) : Checked World :=
  match t with
  | .close =>
    if w.revents c &&& POLLHUP ≠ 0 ∧ w.revents c &&& POLLIN = 0 then w.handleClose c else .ok w
  | .error => .ok w
  | .read =>
    if w.revents c &&& (POLLIN ||| POLLPRI ||| POLLRDHUP) ≠ 0 then w.handleRead c r else .ok w
  | .write => if w.revents c &&& POLLOUT ≠ 0 then w.handleWriteConnection c wr else .ok w

def connectDestroyed (c : ConnId) : Checked World := do
  let conn ← w.conn c
  let (loop, conn, inCallback) ← conn.connectDestroyed w.loop
  let w := w.put loop c conn
  return if inCallback then w.enter (some (.removeChannel c)) else w

/-- `channel_->remove()`, the last line of `connectDestroyed` -/
def removeChannel (c : ConnId) : Checked World := do
  let conn ← w.conn c
  let (loop, conn) ← conn.removeChannel w.loop
  return w.put loop c conn

/-! ### The steps of the loop -/

/-- `Channel::fd()` -/
def fd (x : ChannelId) : ℕ := ((w.made x).map Prod.snd).getD 0

/-- `poll` returns; each channel has its `revents_`. -/
def poll (active : List (ChannelId × Events)) : Checked World := do
  let (activeChannels, poller) ← w.loop.poller.poll w.fd active
  return { w with
    loop := { w.loop with poller }.pollReturn (activeChannels.map Prod.fst)
    revents := fun x => (activeChannels.lookup x).getD 0 }

/-- `handleEvent` of the next active channel begins; a connection is tied. -/
def visit (x : ChannelId) (rest : List ChannelId) (s : Connected) : Checked World :=
  let w := { w with loop := w.loop.visit x rest }
  match w.made x with
  | some (.connection, _) => do
    let _ ← w.conn x
    return { w with tests := some (x, some .close) }
  | some (.connector k, _) => w.handleConnector k x s
  | some (.other, _) =>
    .ok (if x = w.loop.wakeupChannel then { w with loop := w.loop.handleRead } else w.enter none)
  | none => .error .noChannel

/-- Of the functors of a connection, those that the thread of its loop queues. -/
def runFunctor : PendingFunctor → Checked World
  | .connectDestroyed c => w.connectDestroyed c
  | .writeCompleteCallback _ | .highWaterMarkCallback .. => .ok (w.enter none)
  | .connectEstablished _ | .sendInLoop .. | .shutdownInLoop _ | .removeConnectionInLoop _ => .ok w

/-- The line after a user callback, and the end of the function. -/
def runDue (a : Attempt) : Due → Checked World
  | .closeCallback c => do
    let w ← w.closeCallback c a
    return w.release c
  | .removeChannel c => w.removeChannel c
  | .newConnection c => .ok (w.release c)

/-- A timer is run, and is left to be deleted. -/
def runTimer (t : Timer) (a : Attempt) : Checked World :=
  let w := { w with timers := w.timers.erase t, expired := w.expired ++ [t] }
  match t with
  | .startInLoop k _ => w.startInLoop k a
  | .removeConnector _ => .ok w

/-- The functor `Connector::resetChannel` of `k`, bound to its plain `this` -/
def resetChannel (k : ClientId) (rest : List ClientId) : Checked World := do
  let connector ← w.connector k
  return { w.setConnector k { connector with channel := none } with resets := rest }

/-- The end of `doPendingFunctors`, where the batch is destroyed. -/
def endFunctors : World :=
  w.ran.foldl (fun w f => w.release f.conn) { w with loop := w.loop.endFunctors, ran := [] }

end World

inductive Event
  /-- `poll` returns these channels with their `revents_` -/
  | poll (active : List (ChannelId × Events))
  /-- the next active channel is handled -/
  | visit (s : Connected)
  /-- the next test of `handleEventWithGuard`, with what its `read` or `write` returns -/
  | test (r : ReadResult) (w : WriteResult)
  /-- the end of `handleEvent` of a connection -/
  | endEvent
  | userReturn
  /-- the line after a user callback, with what a `restart()` in it meets -/
  | due (a : Attempt)
  | timer (t : Timer) (a : Attempt)
  /-- the next expired timer is deleted -/
  | deleteTimer
  | endHandling
  | swap
  | execute
  | resetChannel
  | endFunctors
  | newClient (name : String) (writeCompleteCallback : Bool)
  | connect (k : ClientId) (a : Attempt)
  | disconnect (k : ClientId)
  | stop (k : ClientId)
  | enableRetry (k : ClientId)
  | destroy (k : ClientId)
  | userCall (c : ConnId) (u : UserCall)
  /-- the user copies a `TcpConnectionPtr` -/
  | keep (c : ConnId)
  /-- the user drops a `TcpConnectionPtr` -/
  | drop (c : ConnId)
  deriving DecidableEq, Repr

/-- The thread is between two handlers or functors. -/
def Idle (w : World) : Prop := w.inCallback = false ∧ w.due = none ∧ w.tests = none

instance (w : World) : Decidable (Idle w) := inferInstanceAs (Decidable (_ ∧ _ ∧ _))

/-- The thread runs code of the user. -/
def UserCode (w : World) : Prop := w.inCallback = true ∨ Idle w

instance (w : World) : Decidable (UserCode w) := inferInstanceAs (Decidable (_ ∨ _))

/-- The kernel gives a descriptor that is closed, and the allocator an object of its own. -/
def Unused (w : World) (a : Attempt) : Prop := w.fds a.sockfd = none ∧ w.made a.id = none

instance (w : World) (a : Attempt) : Decidable (Unused w a) :=
  inferInstanceAs (Decidable (_ ∧ _))

/-- `epoll_wait(2)` may report `revents` of the channel `x`. -/
def MayReport (w : World) (x : ChannelId) (revents : Events) : Prop :=
  (w.loop.poller.interest (w.fd x)).any (fun (mask, y) =>
    y = x ∧ revents ≠ 0 ∧ revents &&& ~~~(mask ||| POLLERR ||| POLLHUP) = 0) = true

instance (w : World) (x : ChannelId) (revents : Events) : Decidable (MayReport w x revents) :=
  inferInstanceAs (Decidable (_ = true))

def enabled (w : World) : Event → Prop
  | .poll active => Idle w ∧ w.loop.position = .poll ∧ (∀ x ∈ active, MayReport w x.1 x.2) ∧
      (active.map Prod.fst).Nodup ∧ active.length ≤ w.loop.poller.eventsSize
  | .visit s => Idle w ∧ w.loop.position = .handling ∧ w.loop.unvisited ≠ [] ∧ w.made s.id = none
  | .test _ _ => w.inCallback = false ∧ w.due = none ∧ (w.tests.bind Prod.snd).isSome = true
  | .endEvent => w.inCallback = false ∧ w.due = none ∧ w.tests.map Prod.snd = some none
  | .userReturn => w.inCallback = true
  | .due a => w.inCallback = false ∧ w.due.isSome = true ∧ Unused w a
  | .timer t a => Idle w ∧ w.loop.position = .handling ∧ t ∈ w.timers ∧ Unused w a
  | .deleteTimer => Idle w ∧ w.loop.position = .handling ∧ w.expired ≠ []
  | .endHandling => Idle w ∧ w.loop.position = .handling ∧ w.loop.unvisited = []
  | .swap => Idle w ∧ w.loop.position = .swapping
  | .execute => Idle w ∧ w.loop.position = .functors ∧ w.loop.batch ≠ []
  | .resetChannel => Idle w ∧ w.loop.position = .functors ∧ w.resets ≠ []
  | .endFunctors => Idle w ∧ w.loop.position = .functors ∧ w.loop.batch = []
  | .newClient _ _ => UserCode w
  | .connect k a => UserCode w ∧ (w.clients k).isSome = true ∧ Unused w a
  | .disconnect k | .stop k | .enableRetry k | .destroy k =>
    UserCode w ∧ (w.clients k).isSome = true
  | .userCall c _ | .keep c => UserCode w ∧ (w.conns c).isSome = true
  | .drop c => UserCode w ∧ c ∈ w.kept

instance decidableEnabled (w : World) : (e : Event) → Decidable (enabled w e)
  | .poll _ => inferInstanceAs (Decidable (_ ∧ _ ∧ _ ∧ _ ∧ _))
  | .visit _ | .timer _ _ => inferInstanceAs (Decidable (_ ∧ _ ∧ _ ∧ _))
  | .test _ _ | .endEvent | .due _ | .deleteTimer | .endHandling | .execute | .resetChannel
  | .endFunctors | .connect _ _ => inferInstanceAs (Decidable (_ ∧ _ ∧ _))
  | .swap | .disconnect _ | .stop _ | .enableRetry _ | .destroy _ | .userCall _ _ | .keep _
  | .drop _ => inferInstanceAs (Decidable (_ ∧ _))
  | .userReturn => inferInstanceAs (Decidable (_ = _))
  | .newClient _ _ => inferInstanceAs (Decidable (UserCode w))

def step (w : World) : Event → Checked World
  | .poll active => w.poll active
  | .visit s => match w.loop.unvisited with
    | [] => .ok w
    | x :: rest => w.visit x rest s
  | .test r wr => match w.tests with
    | some (c, some t) => { w with tests := some (c, t.next) }.runTest c t r wr
    | some (_, none) | none => .ok w
  | .endEvent => match w.tests with
    | some (c, _) => .ok ({ w with tests := none }.release c)
    | none => .ok w
  | .userReturn => .ok { w with inCallback := false }
  | .due a => match w.due with
    | some due => { w with due := none }.runDue a due
    | none => .ok w
  | .timer t a => w.runTimer t a
  | .deleteTimer => match w.expired with
    | t :: expired => { w with expired }.releaseConnector t.connector
    | [] => .ok w
  | .endHandling => .ok { w with loop := w.loop.endHandling }
  | .swap => .ok { w with loop := w.loop.swap }
  | .execute => match w.loop.batch with
    | f :: rest => { w with loop := w.loop.take rest, ran := w.ran ++ [f] }.runFunctor f
    | [] => .ok w
  | .resetChannel => match w.resets with
    | k :: rest => w.resetChannel k rest
    | [] => .ok w
  | .endFunctors => .ok w.endFunctors
  | .newClient name writeCompleteCallback => .ok (w.newClient name writeCompleteCallback)
  | .connect k a => w.connect k a
  | .disconnect k => w.disconnect k
  | .stop k => w.stopClient k
  | .enableRetry k => w.enableRetry k
  | .destroy k => w.destroyClient k
  | .userCall c u => w.userCall c u
  | .keep c => .ok { w with kept := w.kept ++ [c] }
  | .drop c => .ok ({ w with kept := w.kept.erase c }.release c)

/-- There is no client yet; the loop and the user may have channels of their own. -/
structure Initial (w : World) : Prop where
  idle : Idle w
  position : w.loop.position = .poll
  batch : w.loop.batch = []
  pendingFunctors : w.loop.pendingFunctors = []
  clients : ∀ k, w.clients k = none
  connectors : ∀ k, w.connectors k = none
  conns : ∀ c, w.conns c = none
  made : ∀ x owner fd, w.made x = some (owner, fd) → owner = .other
  fds : ∀ fd x, w.fds fd = some x → w.made x = some (.other, fd)
  channels : ∀ fd x, w.loop.poller.channels fd = some x → w.fds fd = some x
  interest : ∀ fd, w.fds fd = none → w.loop.poller.interest fd = none
  index : ∀ x, w.made x = none → w.loop.poller.index x = kNew
  ran : w.ran = []
  resets : w.resets = []

def system : StepSystem.System World Event Assertion where
  init := Initial
  enabled := enabled
  step := step

instance (w : World) (e : Event) : Decidable (system.enabled w e) := decidableEnabled w e

end TcpClient
end Muduo

import Muduo.Buffer
import Muduo.EventLoop

/-!
# TcpConnection

`net/TcpConnection.h` and `net/TcpConnection.cc`. A function of a connection acts
on the loop whose thread runs it and on the connection. Each system call takes its
result as an argument. `connectionCallback_`, `messageCallback_` and
`closeCallback_`, which belong to others, are left to the caller.
-/
namespace Muduo

abbrev ConnId := ℕ

abbrev Errno := ℕ

def EWOULDBLOCK : Errno := 11

def EPIPE : Errno := 32

/-- The answer of `write(2)`. -/
inductive WriteResult
  /-- room for `n` more bytes -/
  | accepts (n : ℕ)
  | fails (errno : Errno)
  deriving DecidableEq, Repr

/-- The answer of `readv(2)`; no bytes is the end of the stream. -/
inductive ReadResult
  | delivers (data : List UInt8)
  | fails (errno : Errno)
  deriving DecidableEq, Repr

structure Socket where
  fd : ℕ
  /-- all bytes the kernel has accepted -/
  written : List UInt8
  /-- `shutdown(fd, SHUT_WR)` has been called -/
  writeShutdown : Bool
  deriving DecidableEq, Repr

namespace Socket

def new (fd : ℕ) : Socket := ⟨fd, [], false⟩

/-- `sockets::write`: its value or `errno`, and the socket after it. -/
def write (s : Socket) (data : List UInt8) : WriteResult → Except Errno ℕ × Socket
  | .accepts n => (.ok (min n data.length), { s with written := s.written ++ data.take n })
  | .fails errno => (.error errno, s)

def shutdownWrite (s : Socket) : Socket := { s with writeShutdown := true }

end Socket

/-- The functors that connections and their owners queue. -/
inductive PendingFunctor
  | connectEstablished (conn : ConnId)
  | connectDestroyed (conn : ConnId)
  | sendInLoop (conn : ConnId) (message : List UInt8)
  | shutdownInLoop (conn : ConnId)
  | writeCompleteCallback (conn : ConnId)
  | highWaterMarkCallback (conn : ConnId) (len : ℕ)
  | removeConnectionInLoop (conn : ConnId)
  deriving DecidableEq, Repr

/-- One of the two callbacks that a connection queues for its user. -/
def PendingFunctor.IsCallback (conn : ConnId) : PendingFunctor → Prop
  | .writeCompleteCallback d => d = conn
  | .highWaterMarkCallback d _ => d = conn
  | _ => False

inductive StateE
  | kDisconnected
  | kConnecting
  | kConnected
  | kDisconnecting
  deriving DecidableEq, Repr

structure TcpConnection where
  id : ConnId
  loop : LoopId
  name : String
  state : StateE
  socket : Socket
  channel : Channel
  /-- `writeCompleteCallback_` is set -/
  writeCompleteCallback : Bool
  /-- `highWaterMarkCallback_` is set -/
  highWaterMarkCallback : Bool
  highWaterMark : ℕ
  inputBuffer : Buffer
  outputBuffer : Buffer

/-- What a user may call on a connection in the thread of its loop. -/
inductive UserCall
  | send (message : List UInt8) (w : WriteResult)
  | shutdown
  deriving DecidableEq, Repr

namespace TcpConnection

/-- `TcpConnection::TcpConnection(loop, nameArg, sockfd, ..)`; the channel is allocated at `id`. -/
def new (id : ConnId) (loop : LoopId) (nameArg : String) (sockfd : ℕ) : TcpConnection where
  id := id
  loop := loop
  name := nameArg
  state := .kConnecting
  socket := .new sockfd
  channel := .new id loop sockfd
  writeCompleteCallback := false
  highWaterMarkCallback := false
  highWaterMark := 64 * 1024 * 1024
  inputBuffer := .new
  outputBuffer := .new

variable (l : EventLoop PendingFunctor) (c : TcpConnection)

def connected : Bool := c.state == .kConnected

/-- `channel_->enableReading()` and its like. -/
def setInterest (i : Channel.Interest) : Checked (EventLoop PendingFunctor × TcpConnection) := do
  let channel := c.channel.set i
  let l ← l.updateChannel channel
  return (l, { c with channel })

/-- `loop_->queueInLoop(boost::bind(writeCompleteCallback_, shared_from_this()))`, if it is set. -/
def queueWriteComplete : EventLoop PendingFunctor :=
  if c.writeCompleteCallback then l.queueInLoop true (.writeCompleteCallback c.id) else l

/-- The locals of `sendInLoop` after the direct write. -/
structure DirectWrite where
  loop : EventLoop PendingFunctor
  conn : TcpConnection
  nwrote : ℕ
  remaining : ℕ
  error : Bool

/-- `sendInLoop`: write directly when nothing is queued. -/
def directWrite (data : List UInt8) (w : WriteResult) : DirectWrite :=
  if c.channel.isWriting = false ∧ c.outputBuffer.readableBytes = 0 then
    match c.socket.write data w with
    | (.ok nwrote, socket) =>
      let c := { c with socket }
      let remaining := data.length - nwrote
      ⟨if remaining = 0 then c.queueWriteComplete l else l, c, nwrote, remaining, false⟩
    | (.error errno, socket) =>
      ⟨l, { c with socket }, 0, data.length, errno != EWOULDBLOCK && errno == EPIPE⟩
  else ⟨l, c, 0, data.length, false⟩

/-- `sendInLoop`: the mark is crossed by `remaining` more bytes. -/
def queueHighWaterMark (remaining : ℕ) : EventLoop PendingFunctor :=
  let oldLen := c.outputBuffer.readableBytes
  if oldLen + remaining ≥ c.highWaterMark ∧ oldLen < c.highWaterMark ∧
      c.highWaterMarkCallback then
    l.queueInLoop true (.highWaterMarkCallback c.id (oldLen + remaining))
  else l

/-- `sendInLoop`: queue what is left. -/
def queueRemaining (rest : List UInt8) :
    Checked (EventLoop PendingFunctor × TcpConnection) := do
  let l := c.queueHighWaterMark l rest.length
  let outputBuffer ← c.outputBuffer.append rest
  let c := { c with outputBuffer }
  if c.channel.isWriting then return (l, c) else c.setInterest l .enableWriting

def sendInLoop (data : List UInt8) (w : WriteResult) :
    Checked (EventLoop PendingFunctor × TcpConnection) := do
  l.assertInLoopThread c.loop
  if c.state = .kDisconnected then return (l, c)
  let d := c.directWrite l data w
  assert (d.remaining ≤ data.length) .sendInLoopRemaining
  if !d.error ∧ d.remaining > 0 then
    d.conn.queueRemaining d.loop ((data.drop d.nwrote).take d.remaining)
  else return (d.loop, d.conn)

/-- `send`; `l` is the loop of the connection, and its thread is the caller's or not. -/
def send (isInLoopThread : Bool) (message : List UInt8) (w : WriteResult) :
    Checked (EventLoop PendingFunctor × TcpConnection) :=
  if c.state = .kConnected then
    if isInLoopThread then c.sendInLoop l message w
    else .ok (l.queueInLoop false (.sendInLoop c.id message), c)
  else .ok (l, c)

def shutdownInLoop : Checked (EventLoop PendingFunctor × TcpConnection) := do
  l.assertInLoopThread c.loop
  if c.channel.isWriting then return (l, c)
  else return (l, { c with socket := c.socket.shutdownWrite })

/-- `shutdown`; `l` is the loop of the connection, and its thread is the caller's or not. -/
def shutdown (isInLoopThread : Bool) : Checked (EventLoop PendingFunctor × TcpConnection) :=
  if c.state = .kConnected then
    let c := { c with state := .kDisconnecting }
    if isInLoopThread then c.shutdownInLoop l
    else .ok (l.queueInLoop false (.shutdownInLoop c.id), c)
  else .ok (l, c)

def userCall : UserCall → Checked (EventLoop PendingFunctor × TcpConnection)
  | .send message w => c.send l true message w
  | .shutdown => c.shutdown l true

/-- `connectEstablished`, up to the call of `connectionCallback_` in its last line. -/
def connectEstablished : Checked (EventLoop PendingFunctor × TcpConnection) := do
  l.assertInLoopThread c.loop
  assert (c.state = .kConnecting) .connectEstablishedState
  { c with state := .kConnected }.setInterest l .enableReading

/-- `channel_->remove()` -/
def removeChannel : Checked (EventLoop PendingFunctor × TcpConnection) := do
  let l ← l.removeChannel c.channel
  return (l, c)

/-- `connectDestroyed`. The flag says that it has stopped at the call of
`connectionCallback_`, after which `channel_->remove()` is due. -/
def connectDestroyed : Checked (EventLoop PendingFunctor × TcpConnection × Bool) := do
  l.assertInLoopThread c.loop
  if c.state = .kConnected then
    let (l, c) ← { c with state := .kDisconnected }.setInterest l .disableAll
    return (l, c, true)
  else
    let (l, c) ← c.removeChannel l
    return (l, c, false)

/-- `handleClose`, up to the call of `connectionCallback_`; `closeCallback_` comes after it. -/
def handleClose : Checked (EventLoop PendingFunctor × TcpConnection) := do
  l.assertInLoopThread c.loop
  assert (c.state = .kConnected ∨ c.state = .kDisconnecting) .handleCloseState
  { c with state := .kDisconnected }.setInterest l .disableAll

/-- Where `handleRead` stops: at the call of `messageCallback_`, inside `handleClose`, or
after `handleError`. -/
inductive ReadOutcome
  | message
  | closed
  | error
  deriving DecidableEq, Repr

def handleRead (r : ReadResult) :
    Checked (EventLoop PendingFunctor × TcpConnection × ReadOutcome) := do
  l.assertInLoopThread c.loop
  match r with
  | .delivers data =>
    if data.length > 0 then
      let inputBuffer ← c.inputBuffer.readFd data
      return (l, { c with inputBuffer }, .message)
    else
      let (l, c) ← c.handleClose l
      return (l, c, .closed)
  | .fails _ => return (l, c, .error)

def handleWrite (w : WriteResult) : Checked (EventLoop PendingFunctor × TcpConnection) := do
  l.assertInLoopThread c.loop
  if c.channel.isWriting then
    match c.socket.write c.outputBuffer.readable w with
    | (.ok n, socket) =>
      let c := { c with socket }
      if n > 0 then
        let outputBuffer ← c.outputBuffer.retrieve n
        let c := { c with outputBuffer }
        if c.outputBuffer.readableBytes = 0 then
          let (l, c) ← c.setInterest l .disableWriting
          let l := c.queueWriteComplete l
          if c.state = .kDisconnecting then c.shutdownInLoop l else return (l, c)
        else return (l, c)
      else return (l, c)
    | (.error _, socket) => return (l, { c with socket })
  else return (l, c)

/-- The mask of a connection that has been established and not closed. -/
def Reading : Prop :=
  c.channel.events = kReadEvent ∨ c.channel.events = kReadEvent ||| kWriteEvent

/-- The connection is driven by the thread of `l`, whose poller knows its channel. -/
structure Served : Prop where
  loop : c.loop = l.id
  ownerLoop : c.channel.ownerLoop = l.id
  settled : l.poller.Settled c.channel

/-- What user calls and writes leave of a connection. -/
structure Frame (c c' : TcpConnection) : Prop where
  rest : c' = { c with
    state := c'.state
    socket := c'.socket
    channel := c'.channel
    inputBuffer := c'.inputBuffer
    outputBuffer := c'.outputBuffer }
  fd : c'.socket.fd = c.socket.fd
  written : c.socket.written <+: c'.socket.written
  channel : c'.channel = { c.channel with events := c'.channel.events }
  state : c'.state = c.state ∨ c.state = .kConnected ∧ c'.state = .kDisconnecting
  reading : c.Reading → c'.Reading

/-- What the work on `c` in the loop `l` keeps. -/
structure Keeps (l : EventLoop PendingFunctor) (c : TcpConnection)
    (l' : EventLoop PendingFunctor) (c' : TcpConnection) : Prop where
  loop : EventLoop.Frame c.channel (PendingFunctor.IsCallback c.id) l l'
  conn : Frame c c'
  served : Served l' c'

variable {l c}

theorem Frame.refl (c : TcpConnection) : Frame c c := 
  ⟨rfl, rfl, List.prefix_refl _, rfl, .inl rfl, fun h => h⟩

theorem Frame.trans {c' c'' : TcpConnection} (h : Frame c c') (g : Frame c' c'') :
    Frame c c'' where
  rest := by
    rw [g.rest, h.rest]
  fd := g.fd.trans h.fd
  written := h.written.trans g.written
  channel := by
    rw [g.channel, h.channel]
  state := by
    rcases g.state with hg | ⟨hg, hg'⟩
    · rw [hg]
      exact h.state
    · rcases h.state with hh | ⟨_, hh⟩
      · exact .inr ⟨hh ▸ hg, hg'⟩
      · rw [hh] at hg
        cases hg
  reading hr := g.reading (h.reading hr)

theorem Frame.id_eq {c' : TcpConnection} (h : Frame c c') : c'.id = c.id := by rw [h.rest]

theorem Frame.loop_eq {c' : TcpConnection} (h : Frame c c') : c'.loop = c.loop := by rw [h.rest]

theorem Frame.channel_id {c' : TcpConnection} (h : Frame c c') :
    c'.channel.id = c.channel.id := by rw [h.channel]

theorem Frame.channel_fd {c' : TcpConnection} (h : Frame c c') :
    c'.channel.fd = c.channel.fd := by rw [h.channel]

theorem Keeps.refl (h : Served l c) : Keeps l c l c := ⟨.refl _ _ l, .refl c, h⟩

theorem Keeps.trans {l' l'' : EventLoop PendingFunctor} {c' c'' : TcpConnection}
    (h : Keeps l c l' c') (g : Keeps l' c' l'' c'') : Keeps l c l'' c'' where
  loop := by
    have hg := g.loop.congr h.conn.channel_id h.conn.channel_fd
    rw [h.conn.id_eq] at hg
    exact h.loop.trans hg
  conn := h.conn.trans g.conn
  served := g.served

/-- The parts of a connection that no assertion depends on may change freely. -/
theorem Keeps.of_same (h : Served l c) {c' : TcpConnection} (hf : Frame c c')
    (hch : c'.channel = c.channel) : Keeps l c l c' where
  loop := .refl _ _ l
  conn := hf
  served := by
    refine ⟨hf.loop_eq.trans h.loop, ?_, ?_⟩
    · rw [hch]
      exact h.ownerLoop
    · rw [hch]
      exact h.settled

theorem Served.frame {l' : EventLoop PendingFunctor} (h : Served l c)
    (hid : l'.id = l.id) (hp : l'.poller = l.poller) : Served l' c where
  loop := h.loop.trans hid.symm
  ownerLoop := h.ownerLoop.trans hid.symm
  settled := hp ▸ h.settled

theorem Served.assertInLoopThread (h : Served l c) : l.assertInLoopThread c.loop = .ok () :=
  assert_pos h.loop _

theorem queueInLoop_poller (b : Bool) (cb : PendingFunctor) :
    (l.queueInLoop b cb).poller = l.poller := by
  unfold EventLoop.queueInLoop
  dsimp only
  split <;> rfl

theorem queueInLoop_id (b : Bool) (cb : PendingFunctor) : (l.queueInLoop b cb).id = l.id :=
  (EventLoop.frame_queueInLoop l (.new 0 0 0) (fun _ => True) b trivial).id_eq

theorem keeps_queueInLoop (h : Served l c) {cb : PendingFunctor} (b : Bool)
    (hcb : cb.IsCallback c.id) : Keeps l c (l.queueInLoop b cb) c where
  loop := EventLoop.frame_queueInLoop l _ _ b hcb
  conn := .refl c
  served := h.frame (queueInLoop_id b cb) (queueInLoop_poller b cb)

theorem keeps_queueWriteComplete (h : Served l c) : Keeps l c (c.queueWriteComplete l) c := by
  unfold queueWriteComplete
  split
  · exact keeps_queueInLoop h true rfl
  · exact .refl h

theorem keeps_queueHighWaterMark (h : Served l c) (n : ℕ) :
    Keeps l c (c.queueHighWaterMark l n) c := by
  unfold queueHighWaterMark
  dsimp only
  split
  · exact keeps_queueInLoop h true rfl
  · exact .refl h

/-- A change of interest that does not take no interest to no interest. -/
theorem setInterest_ok (h : Served l c) {i : Channel.Interest}
    (hne : c.channel.isNoneEvent = false ∨ (c.channel.set i).isNoneEvent = false) :
    c.setInterest l i = .ok
      ({ l with poller := l.poller.put (c.channel.set i) (EPollPoller.registered (c.channel.set i)) },
        { c with channel := c.channel.set i }) := by
  have hup : l.updateChannel (c.channel.set i) = _ :=
    l.updateChannel_settled h.settled rfl rfl h.ownerLoop hne
  unfold setInterest
  dsimp only
  rw [hup]
  rfl

theorem Reading.enableWriting (h : c.Reading) :
    ({ c with channel := c.channel.set .enableWriting } : TcpConnection).Reading := by
  unfold Reading at h ⊢
  rcases h with h | h
  · right
    simp [Channel.Interest.apply, h]
  · right
    simp only [Channel.set_events, Channel.Interest.apply, h]
    decide

theorem Reading.disableWriting (h : c.Reading) :
    ({ c with channel := c.channel.set .disableWriting } : TcpConnection).Reading := by
  unfold Reading at h ⊢
  left
  rcases h with h | h
  · simp only [Channel.set_events, Channel.Interest.apply, h]
    decide
  · simp only [Channel.set_events, Channel.Interest.apply, h]
    decide

theorem Reading.isNoneEvent (h : c.Reading) : c.channel.isNoneEvent = false := by
  unfold Reading at h
  unfold Channel.isNoneEvent
  rcases h with h | h
  · rw [h]
    decide
  · rw [h]
    decide

/-- `enableWriting()` and `disableWriting()`, as the connection uses them. -/
theorem setInterest_writing (h : Served l c) {i : Channel.Interest}
    (hi : i = .enableWriting ∨ i = .disableWriting ∧ c.channel.isWriting = true) :
    Yields (c.setInterest l i) fun r =>
      Keeps l c r.1 r.2 ∧ r.2 = { c with channel := c.channel.set i } := by
  have hne : c.channel.isNoneEvent = false ∨ (c.channel.set i).isNoneEvent = false := by
    rcases hi with rfl | ⟨rfl, hw⟩
    · right
      exact Channel.isNoneEvent_of_isWriting (Channel.isWriting_enableWriting c.channel)
    · left
      exact Channel.isNoneEvent_of_isWriting hw
  rw [setInterest_ok h hne]
  refine yields_ok ⟨⟨?_, ?_, ?_⟩, rfl⟩
  · exact (EventLoop.frame_put l (c.channel.set i) _).congr rfl rfl
  · refine ⟨rfl, rfl, List.prefix_refl _, rfl, .inl rfl, ?_⟩
    rcases hi with rfl | ⟨rfl, _⟩
    · exact Reading.enableWriting
    · exact Reading.disableWriting
  · refine ⟨h.loop, h.ownerLoop, .inl ?_⟩
    exact EPollPoller.view_put_self _

/-- Everything the connection has taken: what the kernel has accepted and what is queued. -/
def stream (c : TcpConnection) : List UInt8 := c.socket.written ++ c.outputBuffer.readable

/-- `POLLOUT` is asked for exactly while bytes are queued. -/
def Buffered (c : TcpConnection) : Prop :=
  c.channel.isWriting = true ↔ c.outputBuffer.readable ≠ []

/-- The direct write of `sendInLoop` is made and fails with `EPIPE`. -/
def Refused (c : TcpConnection) (w : WriteResult) : Prop :=
  c.channel.isWriting = false ∧ c.outputBuffer.readableBytes = 0 ∧ w = .fails EPIPE

instance (c : TcpConnection) (w : WriteResult) : Decidable (c.Refused w) :=
  inferInstanceAs (Decidable (_ ∧ _ ∧ _))

/-- The parts of a connection that writing and queueing leave alone. -/
structure SameRest (c c' : TcpConnection) : Prop where
  state : c'.state = c.state
  writeShutdown : c'.socket.writeShutdown = c.socket.writeShutdown

theorem SameRest.trans {c' c'' : TcpConnection} (h : SameRest c c') (g : SameRest c' c'') :
    SameRest c c'' := ⟨g.state.trans h.state, g.writeShutdown.trans h.writeShutdown⟩

/-- The rest of the data, beyond what was written directly. -/
def DirectWrite.rest (d : DirectWrite) (data : List UInt8) : List UInt8 :=
  (data.drop d.nwrote).take d.remaining

/-- What the direct write establishes for the rest of `sendInLoop`. -/
structure DirectWrite.Spec (l : EventLoop PendingFunctor) (c : TcpConnection)
    (data : List UInt8) (w : WriteResult) (d : DirectWrite) : Prop where
  keeps : Keeps l c d.loop d.conn
  rest : SameRest c d.conn
  channel : d.conn.channel = c.channel
  outputBuffer : d.conn.outputBuffer = c.outputBuffer
  remaining_le : d.remaining ≤ data.length
  error : d.error = true ↔ c.Refused w
  refused : c.Refused w → d.conn.socket = c.socket
  stream : ¬c.Refused w → d.conn.stream ++ d.rest data = c.stream ++ data
  length_rest : (d.rest data).length = d.remaining

theorem Frame.of_write (data : List UInt8) (w : WriteResult) :
    Frame c { c with socket := (c.socket.write data w).2 } where
  rest := rfl
  fd := by cases w <;> rfl
  written := by
    cases w with
    | accepts n => exact List.prefix_append ..
    | fails errno => exact List.prefix_refl _
  channel := rfl
  state := .inl rfl
  reading h := h

theorem Frame.of_shutdownWrite : Frame c { c with socket := c.socket.shutdownWrite } :=
  ⟨rfl, rfl, List.prefix_refl _, rfl, .inl rfl, fun h => h⟩

theorem Frame.of_outputBuffer (outputBuffer : Buffer) : Frame c { c with outputBuffer } :=
  ⟨rfl, rfl, List.prefix_refl _, rfl, .inl rfl, fun h => h⟩

theorem Frame.of_inputBuffer (inputBuffer : Buffer) : Frame c { c with inputBuffer } :=
  ⟨rfl, rfl, List.prefix_refl _, rfl, .inl rfl, fun h => h⟩

theorem Frame.of_disconnecting (h : c.state = .kConnected) :
    Frame c { c with state := .kDisconnecting } :=
  ⟨rfl, rfl, List.prefix_refl _, rfl, .inr ⟨h, rfl⟩, fun h => h⟩

theorem directWrite_accepts (h : Served l c) {data : List UInt8} {n : ℕ}
    (hw : c.channel.isWriting = false) (hb : c.outputBuffer.readableBytes = 0) :
    (c.directWrite l data (.accepts n)).Spec l c data (.accepts n) := by
  have hout : c.outputBuffer.readable = [] := (c.outputBuffer.readable_eq_nil_iff).mpr hb
  have hrest : (data.drop (min n data.length)).take (data.length - min n data.length) =
      data.drop n := by
    rw [List.take_of_length_le (by rw [List.length_drop])]
    rcases Nat.le_total n data.length with hn | hn
    · rw [Nat.min_eq_left hn]
    · rw [Nat.min_eq_right hn, List.drop_of_length_le le_rfl, List.drop_of_length_le hn]
  have hnot : ¬c.Refused (.accepts n) := by
    rintro ⟨_, _, hE⟩
    cases hE
  have hs : Keeps l c l { c with socket := (c.socket.write data (.accepts n)).2 } :=
    .of_same h (.of_write data (.accepts n)) rfl
  have heq : c.directWrite l data (.accepts n) =
      let c' := { c with socket := (c.socket.write data (.accepts n)).2 }
      let remaining := data.length - min n data.length
      ⟨if remaining = 0 then c'.queueWriteComplete l else l, c', min n data.length, remaining,
        false⟩ := by
    unfold directWrite
    rw [if_pos ⟨hw, hb⟩]
    rfl
  rw [heq]
  exact {
    keeps := by
      dsimp only
      split
      · exact hs.trans (keeps_queueWriteComplete hs.served)
      · exact hs
    rest := ⟨rfl, rfl⟩
    channel := rfl
    outputBuffer := rfl
    remaining_le := Nat.sub_le ..
    error := by simpa using hnot
    refused := fun hr => absurd hr hnot
    stream := by
      intro _
      simp only [TcpConnection.stream, DirectWrite.rest, hrest, hout, List.append_nil]
      simp [Socket.write]
    length_rest := by
      simp only [DirectWrite.rest, hrest, List.length_drop]
      omega }

theorem directWrite_fails (h : Served l c) {data : List UInt8} {errno : Errno}
    (hw : c.channel.isWriting = false) (hb : c.outputBuffer.readableBytes = 0) :
    (c.directWrite l data (.fails errno)).Spec l c data (.fails errno) := by
  have heq : c.directWrite l data (.fails errno) =
      ⟨l, c, 0, data.length, errno != EWOULDBLOCK && errno == EPIPE⟩ := by
    unfold directWrite
    rw [if_pos ⟨hw, hb⟩]
    rfl
  rw [heq]
  exact {
    keeps := .refl h
    rest := ⟨rfl, rfl⟩
    channel := rfl
    outputBuffer := rfl
    remaining_le := le_rfl
    error := by
      have hne : EPIPE ≠ EWOULDBLOCK := by decide
      simp only [Refused, hw, hb, true_and, WriteResult.fails.injEq, Bool.and_eq_true,
        bne_iff_ne, beq_iff_eq]
      constructor
      · exact fun he => he.2
      · exact fun he => ⟨he ▸ hne, he⟩
    refused := fun _ => rfl
    stream := by
      intro _
      simp [DirectWrite.rest, TcpConnection.stream]
    length_rest := by simp [DirectWrite.rest] }

theorem directWrite_spec (h : Served l c) (data : List UInt8) (w : WriteResult) :
    (c.directWrite l data w).Spec l c data w := by
  by_cases hd : c.channel.isWriting = false ∧ c.outputBuffer.readableBytes = 0
  · cases w with
    | accepts n => exact directWrite_accepts h hd.1 hd.2
    | fails errno => exact directWrite_fails h hd.1 hd.2
  · have hnot : ¬c.Refused w := fun hr => hd ⟨hr.1, hr.2.1⟩
    unfold directWrite
    rw [if_neg hd]
    exact {
      keeps := .refl h
      rest := ⟨rfl, rfl⟩
      channel := rfl
      outputBuffer := rfl
      remaining_le := le_rfl
      error := by simpa using hnot
      refused := fun hr => absurd hr hnot
      stream := by
        intro _
        simp [DirectWrite.rest]
      length_rest := by simp [DirectWrite.rest] }

/-- What is queued goes to the back of the output buffer, and `POLLOUT` is asked for. -/
theorem queueRemaining_spec (h : Served l c) (rest : List UInt8) :
    Yields (c.queueRemaining l rest) fun r => Keeps l c r.1 r.2 ∧ SameRest c r.2 ∧
      r.2.socket = c.socket ∧ r.2.outputBuffer.readable = c.outputBuffer.readable ++ rest ∧
      r.2.channel.isWriting = true := by
  obtain ⟨outputBuffer, happ, hread⟩ := c.outputBuffer.append_spec rest
  unfold queueRemaining
  dsimp only
  rw [happ, ok_bind]
  have h₁ := keeps_queueHighWaterMark h rest.length
  generalize c.queueHighWaterMark l rest.length = l₁ at h₁ ⊢
  have h₂ : Keeps l₁ c l₁ { c with outputBuffer } := .of_same h₁.served (.of_outputBuffer outputBuffer) rfl
  split
  · rename_i hw
    exact yields_ok ⟨h₁.trans h₂, ⟨rfl, rfl⟩, rfl, hread, hw⟩
  · refine (setInterest_writing h₂.served (.inl rfl)).mono ?_
    rintro ⟨l₃, c₃⟩ ⟨h₃, hc⟩
    dsimp only at hc
    subst hc
    exact ⟨h₁.trans (h₂.trans h₃), ⟨rfl, rfl⟩, rfl, hread, Channel.isWriting_enableWriting _⟩

/-- `sendInLoop` adds its data to the stream, unless its direct write is refused. -/
theorem sendInLoop_spec (h : Served l c) (hs : c.state ≠ .kDisconnected) (data : List UInt8)
    (w : WriteResult) :
    Yields (c.sendInLoop l data w) fun r => Keeps l c r.1 r.2 ∧ SameRest c r.2 ∧
      r.2.stream = c.stream ++ (if c.Refused w then [] else data) ∧
      (c.Buffered → r.2.Buffered) := by
  have hd := directWrite_spec h data w
  unfold sendInLoop
  rw [h.assertInLoopThread, ok_bind, if_neg hs]
  dsimp only
  generalize c.directWrite l data w = d at hd ⊢
  rw [assert_pos hd.remaining_le, ok_bind]
  by_cases hq : (!d.error) = true ∧ d.remaining > 0
  · rw [if_pos hq]
    have herr : d.error = false := by simpa using hq.1
    have hnot : ¬c.Refused w := by
      rw [← hd.error, herr]
      decide
    refine (queueRemaining_spec hd.keeps.served _).mono ?_
    rintro r ⟨hk, hr, hsock, hread, hw⟩
    refine ⟨hd.keeps.trans hk, hd.rest.trans hr, ?_, fun _ => ?_⟩
    · rw [if_neg hnot, ← hd.stream hnot, TcpConnection.stream, hsock, hread]
      simp [TcpConnection.stream, DirectWrite.rest]
    · have hlen : 0 < (d.rest data).length := by
        rw [hd.length_rest]
        exact hq.2
      refine iff_of_true hw ?_
      rw [hread]
      intro hnil
      rw [DirectWrite.rest, (List.append_eq_nil_iff.mp hnil).2] at hlen
      exact absurd hlen (lt_irrefl 0)
  · rw [if_neg hq]
    refine yields_ok ⟨hd.keeps, hd.rest, ?_, ?_⟩
    · by_cases href : c.Refused w
      · rw [if_pos href, List.append_nil]
        simp only [TcpConnection.stream, hd.outputBuffer, hd.refused href]
      · have hrem : d.remaining = 0 := by
          have herr : d.error = false := by
            rw [← Bool.not_eq_true, hd.error]
            exact href
          rw [herr] at hq
          simpa using hq
        have hnil : d.rest data = [] := by
          rw [← List.length_eq_zero_iff, hd.length_rest, hrem]
        have hst := hd.stream href
        rw [hnil, List.append_nil] at hst
        rw [if_neg href, hst]
    · intro hbuf
      unfold Buffered at hbuf ⊢
      rw [hd.channel, hd.outputBuffer]
      exact hbuf

theorem shutdownInLoop_spec (h : Served l c) :
    Yields (c.shutdownInLoop l) fun r => Keeps l c r.1 r.2 ∧ r.2 = { c with
      socket := if c.channel.isWriting then c.socket else c.socket.shutdownWrite } := by
  unfold shutdownInLoop
  rw [h.assertInLoopThread, ok_bind]
  cases hw : c.channel.isWriting with
  | true => exact yields_ok ⟨.refl h, by simp⟩
  | false => exact yields_ok ⟨.of_same h .of_shutdownWrite rfl, by simp⟩

/-- What `shutdown` leaves of the connection: its stream and its interest. -/
structure ShutDown (c c' : TcpConnection) : Prop where
  stream : c'.stream = c.stream
  channel : c'.channel = c.channel
  outputBuffer : c'.outputBuffer = c.outputBuffer
  state : c'.state = if c.state = .kConnected then .kDisconnecting else c.state

theorem ShutDown.buffered {c' : TcpConnection} (h : ShutDown c c') (hb : c.Buffered) :
    c'.Buffered := by
  unfold Buffered at hb ⊢
  rw [h.channel, h.outputBuffer]
  exact hb

/-- `shutdown` called by the loop thread. -/
theorem shutdown_inLoop_spec (h : Served l c) :
    Yields (c.shutdown l true) fun r => Keeps l c r.1 r.2 ∧ ShutDown c r.2 ∧
      (r.2.socket.writeShutdown = true ↔ c.socket.writeShutdown = true ∨
        c.state = .kConnected ∧ c.channel.isWriting = false) := by
  unfold shutdown
  by_cases hs : c.state = .kConnected
  · rw [if_pos hs]
    have h₁ : Keeps l c l { c with state := .kDisconnecting } :=
      .of_same h (.of_disconnecting hs) rfl
    refine (shutdownInLoop_spec h₁.served).mono ?_
    rintro ⟨l', c'⟩ ⟨hk, hc⟩
    dsimp only at hc
    subst hc
    refine ⟨h₁.trans hk, ⟨?_, rfl, rfl, by simp [hs]⟩, ?_⟩
    · simp only [TcpConnection.stream]
      split <;> rfl
    · cases hw : c.channel.isWriting with
      | true => simp
      | false => simp [Socket.shutdownWrite, hs]
  · rw [if_neg hs]
    exact yields_ok ⟨.refl h, ⟨rfl, rfl, rfl, by simp [hs]⟩, by simp [hs]⟩

theorem shutdown_spec (h : Served l c) (b : Bool) :
    Yields (c.shutdown l b) fun r => Served r.1 r.2 ∧ ShutDown c r.2 := by
  cases b with
  | true => exact (shutdown_inLoop_spec h).mono fun r hr => ⟨hr.1.served, hr.2.1⟩
  | false =>
    unfold shutdown
    by_cases hs : c.state = .kConnected
    · rw [if_pos hs]
      have h₁ : Served l { c with state := .kDisconnecting } := ⟨h.loop, h.ownerLoop, h.settled⟩
      exact yields_ok ⟨h₁.frame (queueInLoop_id _ _) (queueInLoop_poller _ _),
        rfl, rfl, rfl, by simp [hs]⟩
    · rw [if_neg hs]
      exact yields_ok ⟨h, rfl, rfl, rfl, by simp [hs]⟩

/-- `handleWrite` writes out everything that is queued. -/
def Drains (c : TcpConnection) : WriteResult → Prop
  | .accepts n => c.channel.isWriting = true ∧ 0 < c.outputBuffer.readableBytes ∧
      c.outputBuffer.readableBytes ≤ n
  | .fails _ => False

instance (c : TcpConnection) : (w : WriteResult) → Decidable (c.Drains w)
  | .accepts _ => inferInstanceAs (Decidable (_ ∧ _ ∧ _))
  | .fails _ => inferInstanceAs (Decidable False)

/-- What `handleWrite` does to the connection, by cases of the write. -/
structure Written (c : TcpConnection) (w : WriteResult) (c' : TcpConnection) : Prop where
  state : c'.state = c.state
  stream : c'.stream = c.stream
  buffered : c.Buffered → c'.Buffered
  drained : c.Drains w → c'.outputBuffer.readable = []
  writeShutdown : c'.socket.writeShutdown = true ↔
    c.socket.writeShutdown = true ∨ c.state = .kDisconnecting ∧ c.Drains w

theorem Written.of_same {w : WriteResult} (h : ¬c.Drains w) : Written c w c where
  state := rfl
  stream := rfl
  buffered hb := hb
  drained hd := absurd hd h
  writeShutdown := by simp [h]

/-- The end of a `handleWrite` that has emptied the buffer. -/
theorem handleWrite_drained (h : Served l c) (hw : c.channel.isWriting = true) :
    Yields (do
        let (l, c) ← c.setInterest l .disableWriting
        let l := c.queueWriteComplete l
        if c.state = .kDisconnecting then c.shutdownInLoop l else return (l, c))
      fun r => Keeps l c r.1 r.2 ∧ r.2 = { c with
        channel := c.channel.set .disableWriting
        socket := if c.state = .kDisconnecting then c.socket.shutdownWrite else c.socket } := by
  refine (setInterest_writing h (.inr ⟨rfl, hw⟩)).bind ?_
  rintro ⟨l₁, c₁⟩ ⟨h₁, hc⟩
  dsimp only at hc ⊢
  subst hc
  have h₂ := h₁.trans (keeps_queueWriteComplete h₁.served)
  split
  · rename_i hs
    refine (shutdownInLoop_spec h₂.served).mono ?_
    rintro r ⟨h₃, hc⟩
    exact ⟨h₂.trans h₃, by simp [hc]⟩
  · exact yields_ok ⟨h₂, rfl⟩

/-- A write that accepts `n` bytes takes them off the front of the queued bytes. -/
theorem take_append_drop_min (xs : List UInt8) (n : ℕ) :
    xs.take n ++ xs.drop (min n xs.length) = xs := by
  rcases Nat.le_total n xs.length with hle | hle
  · rw [Nat.min_eq_left hle, List.take_append_drop]
  · rw [Nat.min_eq_right hle, List.take_of_length_le hle, List.drop_length, List.append_nil]

/-- `handleWrite` when the kernel accepts some, but not all, of the queued bytes. -/
theorem written_of_partial {n : ℕ} {b : Buffer} (hw : c.channel.isWriting = true)
    (hread : b.readable = c.outputBuffer.readable.drop (min n c.outputBuffer.readable.length))
    (hz : b.readableBytes ≠ 0) :
    Written c (.accepts n) { c with
      socket := (c.socket.write c.outputBuffer.readable (.accepts n)).2
      outputBuffer := b } := by
  have hdr : ¬c.Drains (.accepts n) := by
    rintro ⟨_, _, hle⟩
    have hlen := congrArg List.length hread
    rw [List.length_drop, Buffer.length_readable, Buffer.length_readable] at hlen
    rw [Nat.min_eq_right hle] at hlen
    omega
  exact {
    state := rfl
    stream := by
      simp only [TcpConnection.stream, Socket.write, hread, List.append_assoc,
        take_append_drop_min]
    buffered := by
      intro _
      refine iff_of_true hw ?_
      intro hnil
      exact hz ((b.readable_eq_nil_iff).mp hnil)
    drained := fun hd => absurd hd hdr
    writeShutdown := by simp [hdr, Socket.write] }

/-- `handleWrite` when the kernel accepts all of the queued bytes. -/
theorem written_of_drained {n : ℕ} {b : Buffer} (hw : c.channel.isWriting = true)
    (hpos : 0 < c.outputBuffer.readable.length)
    (hread : b.readable = c.outputBuffer.readable.drop (min n c.outputBuffer.readable.length))
    (hz : b.readableBytes = 0) :
    let socket := (c.socket.write c.outputBuffer.readable (.accepts n)).2
    Written c (.accepts n) { c with
      channel := c.channel.set .disableWriting
      socket := if c.state = .kDisconnecting then socket.shutdownWrite else socket
      outputBuffer := b } := by
  have hnil := (b.readable_eq_nil_iff).mpr hz
  have hle : c.outputBuffer.readable.length ≤ n := by
    have hlen := congrArg List.length hread
    rw [hnil, List.length_drop, List.length_nil] at hlen
    omega
  have hdr : c.Drains (.accepts n) := by
    rw [Buffer.length_readable] at hpos hle
    exact ⟨hw, hpos, hle⟩
  exact {
    state := rfl
    stream := by
      have hst : c.socket.written ++ c.outputBuffer.readable.take n ++ b.readable = c.stream := by
        rw [hread, List.append_assoc, take_append_drop_min]
        rfl
      rw [← hst]
      simp only [TcpConnection.stream]
      split <;> rfl
    buffered := by
      intro _
      simp [Buffered, hnil]
    drained := fun _ => hnil
    writeShutdown := by
      by_cases hs : c.state = .kDisconnecting
      · simp [hs, hdr, Socket.shutdownWrite]
      · simp [hs, Socket.write] }

/-- `handleWrite` moves bytes from the buffer to the kernel, and shuts the write
half down when it drains a connection that is `kDisconnecting`. -/
theorem handleWrite_spec (h : Served l c) (w : WriteResult) :
    Yields (c.handleWrite l w) fun r => Keeps l c r.1 r.2 ∧ Written c w r.2 := by
  unfold handleWrite
  rw [h.assertInLoopThread, ok_bind]
  cases hw : c.channel.isWriting with
  | false =>
    refine yields_ok ⟨.refl h, .of_same ?_⟩
    cases w with
    | accepts n => simp [Drains, hw]
    | fails errno => simp [Drains]
  | true =>
    cases w with
    | fails errno => exact yields_ok ⟨.refl h, .of_same (by simp [Drains])⟩
    | accepts n =>
      dsimp only [Socket.write, if_true]
      have h₁ : Keeps l c l { c with socket := (c.socket.write c.outputBuffer.readable
          (.accepts n)).2 } := .of_same h (.of_write _ _) rfl
      by_cases hn : min n c.outputBuffer.readable.length > 0
      · rw [if_pos hn]
        obtain ⟨b, hb, hread⟩ := c.outputBuffer.retrieve_spec
          (Nat.min_le_right n c.outputBuffer.readable.length)
        have h₂ := h₁.trans (.of_same h₁.served (.of_outputBuffer b) rfl)
        rw [hb, ok_bind]
        by_cases hz : b.readableBytes = 0
        · rw [if_pos hz]
          refine (handleWrite_drained h₂.served hw).mono ?_
          rintro ⟨l₃, c₃⟩ ⟨h₃, hc⟩
          dsimp only at hc
          subst hc
          exact ⟨h₂.trans h₃, written_of_drained hw (by omega) hread hz⟩
        · rw [if_neg hz]
          exact yields_ok ⟨h₂, written_of_partial hw hread hz⟩
      · rw [if_neg hn]
        have hzero : n = 0 ∨ c.outputBuffer.readable = [] := by
          rw [← List.length_eq_zero_iff]
          omega
        have htake : c.outputBuffer.readable.take n = [] := List.take_eq_nil_iff.mpr hzero
        have hdr : ¬c.Drains (.accepts n) := by
          rintro ⟨_, hpos, hle⟩
          rw [Buffer.length_readable] at hn
          omega
        refine yields_ok ⟨h₁, rfl, ?_, fun hbuf => hbuf, fun hd => absurd hd hdr, ?_⟩
        · simp [TcpConnection.stream, htake]
        · simp [hdr]

/-- A connection that has just been established on descriptor 5 in loop 0. -/
def sample : TcpConnection :=
  { new 1 0 "sample" 5 with
    state := .kConnected
    channel := (Channel.new 1 0 5).set .enableReading }

def sampleLoop : EventLoop PendingFunctor :=
  { EventLoop.entered 0 .new 0 with
    poller := EPollPoller.new.put sample.channel (EPollPoller.added sample.channel) }

theorem served_sample : Served sampleLoop sample :=
  ⟨rfl, rfl, .inl (EPollPoller.view_put_self _)⟩

end TcpConnection
end Muduo

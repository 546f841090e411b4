import Mathlib.Tactic

/-!
# Failed assertions

A step of the program either completes or stops at one of the assertions of the
source. `Checked` is the result of such a step; the constructors of `Assertion`
name the assertion by its function and, where a function has several, by what it
asserts. `epollCtl` is not an `assert` but the `LOG_SYSFATAL` of a failed
`epoll_ctl(2)`, which aborts as well.
-/
namespace Muduo

inductive Assertion
  /-- `Buffer`: `len <= readableBytes()` or `end <= beginWrite()` -/
  | bufferReadable
  /-- `Buffer::hasWritten` past the end of `buffer_`; not asserted, but undefined -/
  | bufferOverrun
  /-- `Buffer::prepend`: `len <= prependableBytes()` -/
  | bufferPrependable
  /-- `Buffer::ensureWritableBytes`: `writableBytes() >= len` -/
  | bufferWritable
  /-- `Buffer::makeSpace`: `kCheapPrepend < readerIndex_` -/
  | makeSpaceReaderIndex
  /-- a `StringPiece` of negative length; not asserted, but undefined -/
  | stringPieceLength
  /-- `EPollPoller::updateChannel`, new: `channels_.find(fd) == channels_.end()` -/
  | epollUpdateAbsent
  /-- `EPollPoller::updateChannel`: `channels_.find(fd) != channels_.end()` -/
  | epollUpdateFound
  /-- `EPollPoller::updateChannel`: `channels_[fd] == channel` -/
  | epollUpdateSame
  /-- `EPollPoller::updateChannel`: `index == kAdded` -/
  | epollUpdateIndex
  /-- `EPollPoller::removeChannel`: `channels_.find(fd) != channels_.end()` -/
  | epollRemoveFound
  /-- `EPollPoller::removeChannel`: `channels_[fd] == channel` -/
  | epollRemoveSame
  /-- `EPollPoller::removeChannel`: `channel->isNoneEvent()` -/
  | epollRemoveNoneEvent
  /-- `EPollPoller::removeChannel`: `index == kAdded || index == kDeleted` -/
  | epollRemoveIndex
  /-- `EPollPoller::fillActiveChannels`: `numEvents <= events_.size()` -/
  | epollFillSize
  /-- `EPollPoller::fillActiveChannels`: `it != channels_.end()` -/
  | epollFillFound
  /-- `EPollPoller::fillActiveChannels`: `it->second == channel` -/
  | epollFillSame
  /-- `EPollPoller::update`: `epoll_ctl(2)` fails for `EPOLL_CTL_ADD` or `EPOLL_CTL_MOD` -/
  | epollCtl
  /-- `PollPoller::updateChannel`, new: `channels_.find(fd) == channels_.end()` -/
  | pollUpdateAbsent
  /-- `PollPoller::updateChannel`: `channels_.find(fd) != channels_.end()` -/
  | pollUpdateFound
  /-- `PollPoller::updateChannel`: `channels_[fd] == channel` -/
  | pollUpdateSame
  /-- `PollPoller::updateChannel`: `0 <= idx && idx < pollfds_.size()` -/
  | pollUpdateIndex
  /-- `PollPoller::updateChannel`: `pfd.fd == fd || pfd.fd == -fd-1` -/
  | pollUpdatePollFd
  /-- `PollPoller::removeChannel`: `channels_.find(fd) != channels_.end()` -/
  | pollRemoveFound
  /-- `PollPoller::removeChannel`: `channels_[fd] == channel` -/
  | pollRemoveSame
  /-- `PollPoller::removeChannel`: `channel->isNoneEvent()` -/
  | pollRemoveNoneEvent
  /-- `PollPoller::removeChannel`: `0 <= idx && idx < pollfds_.size()` -/
  | pollRemoveIndex
  /-- `PollPoller::removeChannel`: `pfd.fd == -fd-1 && pfd.events == channel->events()` -/
  | pollRemovePollFd
  /-- `PollPoller::removeChannel` finds no channel at the end; not asserted, but undefined -/
  | pollRemoveEnd
  /-- `PollPoller::fillActiveChannels`: `ch != channels_.end()` -/
  | pollFillFound
  /-- `PollPoller::fillActiveChannels`: `channel->fd() == pfd->fd` -/
  | pollFillFd
  /-- `Channel::remove`: `isNoneEvent()` -/
  | channelRemoveNoneEvent
  /-- `EventLoop::assertInLoopThread` -/
  | inLoopThread
  /-- `EventLoop::removeChannel`: the channel is the current one or not active -/
  | removeActiveChannel
  /-- `TcpConnection::sendInLoop`: `remaining <= len` -/
  | sendInLoopRemaining
  /-- `TcpConnection::connectEstablished`: `state_ == kConnecting` -/
  | connectEstablishedState
  /-- `TcpConnection::handleClose`: `state_ == kConnected || state_ == kDisconnecting` -/
  | handleCloseState
  /-- `TcpServer::removeConnectionInLoop`: `n == 1` -/
  | removeConnectionErase
  /-- a functor or callback of a connection that is not there; not asserted, but undefined -/
  | noConnection
  /-- `Connector::startInLoop`: `state_ == kDisconnected` -/
  | startInLoopState
  /-- `Connector::connecting`: `!channel_` -/
  | connectingChannel
  /-- `Connector::handleWrite`: `state_ == kDisconnected` -/
  | handleWriteState
  /-- `Connector::handleError`: `state_ == kConnecting` -/
  | handleErrorState
  /-- `Connector::removeAndResetChannel` without a channel; not asserted, but undefined -/
  | noChannel
  /-- `Connector::~Connector`: `!channel_` -/
  | connectorChannel
  /-- a timer, a functor or a channel of a connector that is gone; not asserted, but undefined -/
  | noConnector
  /-- `TcpClient::removeConnection`: `loop_ == conn->getLoop()` -/
  | removeConnectionLoop
  /-- `TcpClient::removeConnection`: `connection_ == conn` -/
  | removeConnectionSame
  /-- a callback of a client that is not there; not asserted, but undefined -/
  | noClient
  /-- `TimerQueue`: `timers_.size() == activeTimers_.size()` -/
  | timerSizes
  /-- `TimerQueue::getExpired`: `end == timers_.end() || now < end->first` -/
  | timerLowerBound
  /-- `TimerQueue::cancelInLoop` and `getExpired`: `n == 1` -/
  | timerErase
  /-- `TimerQueue::insert`: `result.second` -/
  | timerInsert
  /-- a `Timer` that has been deleted; not asserted, but undefined -/
  | timerDeleted
  /-- `RpcCodec::send`: `readableBytes() == kHeaderLen + byte_size + kHeaderLen` -/
  | rpcSendReadable
  /-- `RpcChannel::onRpcMessage`: `message.has_response()` -/
  | rpcHasResponse
  /-- `HttpRequest::setMethod`: `method_ == kInvalid` -/
  | setMethodInvalid
  /-- `parseRequest` on a context that has got all; not asserted, but it never returns -/
  | parseRequestHangs
  /-- `BoundedBlockingQueue::put`: `!queue_.full()` -/
  | queueFull
  /-- `BoundedBlockingQueue::take`: `!queue_.empty()` -/
  | queueEmpty
  /-- `AsyncLogging::threadFunc`: `running_ == true` -/
  | asyncRunning
  /-- `AsyncLogging::threadFunc`: a new buffer is there, and `length() == 0` -/
  | asyncNewBuffer
  /-- `AsyncLogging::threadFunc` moves no buffer to `currentBuffer_`; not asserted, but undefined -/
  | asyncCurrentBuffer
  /-- `AsyncLogging::threadFunc`: `buffersToWrite.empty()` -/
  | asyncToWriteEmpty
  /-- `AsyncLogging::threadFunc`: `!buffersToWrite.empty()` -/
  | asyncToWriteNotEmpty
  /-- `TimeZone`: `localtimes.front()` of an empty vector; not asserted, but undefined -/
  | localtimesFront
  /-- `TimeZone`: `localtimes[..]` out of range; not asserted, but undefined -/
  | localtimesIndex
  /-- `TimeZone`: `abbreviation[..]` out of range; not asserted, but undefined -/
  | abbreviationIndex
  /-- `findLocaltime`: `transI != data.transitions.begin()` -/
  | findLocaltimeBegin
  /-- `readBytes` into an array of negative size; not asserted, but undefined -/
  | readBytesSize
  /-- `LogFile::LogFile`: `basename.find('/') == string::npos` -/
  | logFileBasename
  /-- `LogFile`: `file_` is null; not asserted, but undefined -/
  | logFileNull
  /-- a write past the end of the `data_` of a `FixedBuffer`; not asserted, but undefined -/
  | fixedBufferOverrun
  /-- `convert` or `convertHex` reads outside `digits` or `digitsHex`; not asserted, but undefined -/
  | digitsIndex
  /-- `T::T` of `Logging.cc`: `strlen(str) == len_` -/
  | logTextLength
  /-- `Logger::Impl::formatTime`: `len == 17` -/
  | logTimeLength
  /-- `Logger::Impl::formatTime`: `us.length() == 9` -/
  | logMicrosecondsLength
  /-- `Fmt::Fmt`: `length_ < sizeof buf_` -/
  | fmtSize
  /-- `CurrentThread::cacheTid`: `n == 6` -/
  | cacheTidLength
  /-- `AsyncLogging` uses a `BufferPtr` that is null; not asserted, but undefined -/
  | asyncNullBuffer
  deriving DecidableEq, Repr

abbrev Checked := Except Assertion

/-- `assert(p)` -/
def assert (p : Prop) [Decidable p] (a : Assertion) : Checked Unit :=
  if p then .ok () else .error a

section
universe u
variable {φ : Type*} {α β : Type u}

@[simp] theorem ok_bind (x : α) (f : α → Except φ β) : (Except.ok x >>= f) = f x := rfl

@[simp] theorem error_bind (e : φ) (f : α → Except φ β) :
    ((Except.error e : Except φ α) >>= f) = .error e := rfl

@[simp] theorem pure_eq_ok (x : α) : (pure x : Except φ α) = .ok x := rfl

theorem bind_eq_ok {x : Except φ α} {f : α → Except φ β} {b : β} :
    (x >>= f) = .ok b ↔ ∃ a, x = .ok a ∧ f a = .ok b := by
  cases x with
  | ok a => simp
  | error e => simp

theorem assert_pos {p : Prop} [Decidable p] (h : p) (a : Assertion) : assert p a = .ok () :=
  if_pos h

theorem assert_neg {p : Prop} [Decidable p] (h : ¬p) (a : Assertion) :
    assert p a = .error a := if_neg h

@[simp] theorem assert_eq_ok {p : Prop} [Decidable p] {a : Assertion} {u : Unit} :
    assert p a = .ok u ↔ p := by
  by_cases h : p
  · simp [assert, h]
  · simp [assert, h]

/-- `x` completes, with a result that satisfies `P`. -/
def Yields (x : Except φ α) (P : α → Prop) : Prop := ∃ a, x = .ok a ∧ P a

theorem yields_ok {a : α} {P : α → Prop} (h : P a) : Yields (.ok a : Except φ α) P := ⟨a, rfl, h⟩

theorem Yields.mono {x : Except φ α} {P Q : α → Prop} (h : Yields x P) (hPQ : ∀ a, P a → Q a) :
    Yields x Q := by
  obtain ⟨a, hx, ha⟩ := h
  exact ⟨a, hx, hPQ a ha⟩

theorem Yields.of_eq {x : Except φ α} {P : α → Prop} {a : α} (h : Yields x P) (hx : x = .ok a) :
    P a := by
  obtain ⟨b, hb, hP⟩ := h
  rw [hx] at hb
  exact Except.ok.inj hb ▸ hP

theorem Yields.bind {x : Except φ α} {f : α → Except φ β} {P : α → Prop} {Q : β → Prop}
    (h : Yields x P) (hf : ∀ a, P a → Yields (f a) Q) : Yields (x >>= f) Q := by
  obtain ⟨a, rfl, ha⟩ := h
  exact hf a ha

/-- `x` does not fail with `e`, and the result, if there is one, satisfies `P`. -/
def Avoids (e : φ) (x : Except φ α) (P : α → Prop) : Prop := x ≠ .error e ∧ ∀ a, x = .ok a → P a

variable {e : φ} {x : Except φ α} {P : α → Prop}

theorem avoids_ok {a : α} (h : P a) : Avoids e (.ok a : Except φ α) P := by
  constructor
  · simp
  · intro b hb
    exact Except.ok.inj hb ▸ h

theorem avoids_error {e' : φ} (h : e' ≠ e) : Avoids e (.error e' : Except φ α) P := by
  constructor
  · simpa using h
  · simp

theorem Yields.avoids (h : Yields x P) : Avoids e x P := by
  obtain ⟨a, rfl, ha⟩ := h
  exact avoids_ok ha

theorem Avoids.mono {Q : α → Prop} (h : Avoids e x P) (hPQ : ∀ a, P a → Q a) : Avoids e x Q :=
  ⟨h.1, fun a hx => hPQ a (h.2 a hx)⟩

theorem Avoids.bind {f : α → Except φ β} {Q : β → Prop} (h : Avoids e x P)
    (hf : ∀ a, P a → Avoids e (f a) Q) : Avoids e (x >>= f) Q := by
  cases x with
  | ok a => exact hf a (h.2 a rfl)
  | error e' =>
    apply avoids_error
    intro he
    exact h.1 (he ▸ rfl)

theorem avoids_assert {p : Prop} [Decidable p] {a b : Assertion} (h : a ≠ b) :
    Avoids b (assert p a) fun _ => p := by
  by_cases hp : p
  · rw [assert_pos hp]
    exact avoids_ok hp
  · rw [assert_neg hp]
    exact avoids_error h

end
end Muduo

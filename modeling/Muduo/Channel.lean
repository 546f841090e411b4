import Muduo.Assertion

/-!
# Channel

`net/Channel.h` and `net/Channel.cc`. A channel is identified by its address;
the field `index_`, which only the pollers read and write, is kept by the pollers.
The constants are those of `poll(2)`, which `epoll(4)` shares.
-/
namespace Muduo

abbrev Events := BitVec 32
abbrev ChannelId := ℕ
abbrev LoopId := ℕ

def POLLIN : Events := 0x001
def POLLPRI : Events := 0x002
def POLLOUT : Events := 0x004
def POLLERR : Events := 0x008
def POLLHUP : Events := 0x010
def POLLNVAL : Events := 0x020
def POLLRDHUP : Events := 0x2000

def kNoneEvent : Events := 0
def kReadEvent : Events := POLLIN ||| POLLPRI
def kWriteEvent : Events := POLLOUT

/-- What `poll(2)` and level-triggered `epoll(4)` report of a mask. -/
def reported (ready events : Events) : Events := ready &&& (events ||| POLLERR ||| POLLHUP)

structure Channel where
  id : ChannelId
  ownerLoop : LoopId
  fd : ℕ
  events : Events
  deriving DecidableEq, Repr

namespace Channel

/-- `Channel::Channel(loop, fd)` for the object at `id`. -/
def new (id : ChannelId) (loop : LoopId) (fd : ℕ) : Channel := ⟨id, loop, fd, kNoneEvent⟩

def isNoneEvent (ch : Channel) : Bool := ch.events == kNoneEvent

def isWriting (ch : Channel) : Bool := ch.events &&& kWriteEvent != 0

/-- What `enableReading`, `enableWriting`, `disableWriting` and `disableAll` do to
`events_`; each of them then calls `update()`. -/
inductive Interest
  | enableReading
  | enableWriting
  | disableWriting
  | disableAll
  deriving DecidableEq, Repr

def Interest.apply : Interest → Events → Events
  | enableReading, e => e ||| kReadEvent
  | enableWriting, e => e ||| kWriteEvent
  | disableWriting, e => e &&& ~~~kWriteEvent
  | disableAll, _ => kNoneEvent

def set (ch : Channel) (i : Interest) : Channel := { ch with events := i.apply ch.events }

variable (ch : Channel) (i : Interest)

@[simp] theorem set_id : (ch.set i).id = ch.id := rfl
@[simp] theorem set_fd : (ch.set i).fd = ch.fd := rfl
@[simp] theorem set_ownerLoop : (ch.set i).ownerLoop = ch.ownerLoop := rfl
@[simp] theorem set_events : (ch.set i).events = i.apply ch.events := rfl

theorem isNoneEvent_iff : ch.isNoneEvent = true ↔ ch.events = 0 := by
  simp [isNoneEvent, kNoneEvent]

theorem isWriting_iff : ch.isWriting = true ↔ ch.events &&& kWriteEvent ≠ 0 := by
  simp [isWriting]

theorem isNoneEvent_of_isWriting {ch : Channel} (h : ch.isWriting = true) :
    ch.isNoneEvent = false := by
  by_contra hn
  have he := (isNoneEvent_iff ch).mp (by simpa using hn)
  have hw := (isWriting_iff ch).mp h
  rw [he] at hw
  exact hw (by decide)

@[simp] theorem isNoneEvent_disableAll : (ch.set .disableAll).isNoneEvent = true := by
  simp [isNoneEvent, Interest.apply]

@[simp] theorem isWriting_disableAll : (ch.set .disableAll).isWriting = false := by
  simp [isWriting, Interest.apply, kNoneEvent]

@[simp] theorem isWriting_enableReading : (ch.set .enableReading).isWriting = ch.isWriting := by
  have h : (ch.events ||| kReadEvent) &&& kWriteEvent = ch.events &&& kWriteEvent := by
    have h₀ : kReadEvent &&& kWriteEvent = 0 := by decide
    have h₁ : (ch.events ||| kReadEvent) &&& kWriteEvent =
        ch.events &&& kWriteEvent ||| kReadEvent &&& kWriteEvent := by
      ext j
      simp only [BitVec.getElem_and, BitVec.getElem_or]
      exact Bool.and_or_distrib_right ..
    rw [h₁, h₀]
    exact BitVec.or_zero
  simp [isWriting, Interest.apply, h]

@[simp] theorem isWriting_enableWriting : (ch.set .enableWriting).isWriting = true := by
  have h : (ch.events ||| kWriteEvent) &&& kWriteEvent = kWriteEvent := by
    ext j
    simp only [BitVec.getElem_and, BitVec.getElem_or]
    cases kWriteEvent[j] <;> simp
  simp only [isWriting, set_events, Interest.apply, h]
  decide

@[simp] theorem isWriting_disableWriting : (ch.set .disableWriting).isWriting = false := by
  have h : ch.events &&& ~~~kWriteEvent &&& kWriteEvent = 0 := by
    ext j
    simp
  simp [isWriting, Interest.apply, h]

/-- `events_` is a union of the two masks the channel is ever given. -/
def EventsValid (e : Events) : Prop := e = 0 ∨ e = kReadEvent ∨ e = kWriteEvent ∨
  e = kReadEvent ||| kWriteEvent

instance (e : Events) : Decidable (EventsValid e) := by
  unfold EventsValid
  infer_instance

theorem EventsValid.apply {e : Events} (h : EventsValid e) (i : Interest) :
    EventsValid (i.apply e) := by
  rcases h with rfl | rfl | rfl | rfl <;> cases i <;> decide

end Channel
end Muduo

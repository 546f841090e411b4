import Muduo.EPollPoller

/-!
# EventLoop

`net/EventLoop.h` and `net/EventLoop.cc`. Besides its members an event loop
carries the locals of `loop()` and `doPendingFunctors()`: where the loop thread
stands, the active channels it has yet to visit, and the functors of the current
batch it has yet to run. Functors are values of any type `F`. A loop is driven by
one thread, and only that thread calls the functions of this file that change
anything but the functor queue, `quit_` and the wakeup counter.
-/
namespace Muduo

/-- Where the loop thread stands in `loop()`. -/
inductive Position
  /-- about to call `poller_->poll` -/
  | poll
  /-- in the loop over `activeChannels_` -/
  | handling
  /-- in `doPendingFunctors`, before the swap -/
  | swapping
  /-- in `doPendingFunctors`, after the swap -/
  | functors
  /-- out of the loop, `quit_` having been seen -/
  | exited
  deriving DecidableEq, Repr

structure EventLoop (F : Type) where
  id : LoopId
  quit : Bool
  eventHandling : Bool
  callingPendingFunctors : Bool
  poller : EPollPoller
  wakeupChannel : ChannelId
  /-- the kernel's counter of `wakeupFd_` -/
  wakeupCounter : ℕ
  activeChannels : List ChannelId
  currentActiveChannel : Option ChannelId
  pendingFunctors : List F
  position : Position
  /-- the active channels the iterator has not reached -/
  unvisited : List ChannelId
  /-- the functors of the batch that have not been started -/
  batch : List F

/-- The largest value of an eventfd counter. -/
def eventfdMax : ℕ := 2 ^ 64 - 2

namespace EventLoop
variable {F : Type}

/-- A loop that has entered `loop()`; `poller` already holds the wakeup channel. -/
def entered (id : LoopId) (poller : EPollPoller) (wakeupChannel : ChannelId) : EventLoop F where
  id := id
  quit := false
  eventHandling := false
  callingPendingFunctors := false
  poller := poller
  wakeupChannel := wakeupChannel
  wakeupCounter := 0
  activeChannels := []
  currentActiveChannel := none
  pendingFunctors := []
  position := .poll
  unvisited := []
  batch := []

variable (l : EventLoop F)

/-- The critical section of `queueInLoop`. -/
def push (cb : F) : EventLoop F := { l with pendingFunctors := l.pendingFunctors ++ [cb] }

/-- `wakeup()`: a write that would exceed the maximum fails and leaves the counter alone. -/
def wakeup : EventLoop F := { l with wakeupCounter := min (l.wakeupCounter + 1) eventfdMax }

/-- The test that guards `wakeup()` in `queueInLoop`. -/
def needsWakeup (isInLoopThread : Bool) : Bool := !isInLoopThread || l.callingPendingFunctors

def queueInLoop (isInLoopThread : Bool) (cb : F) : EventLoop F :=
  let l := l.push cb
  if l.needsWakeup isInLoopThread then l.wakeup else l

/-- `handleRead()`: a read of an eventfd resets its counter. -/
def handleRead : EventLoop F := { l with wakeupCounter := 0 }

/-- `assertInLoopThread()` of the loop `owner`, run by the thread of `l`. -/
def assertInLoopThread (owner : LoopId) : Checked Unit := assert (owner = l.id) .inLoopThread

/-- `Channel::update()`, that is `loop_->updateChannel(this)`. -/
def updateChannel (ch : Channel) : Checked (EventLoop F) := do
  l.assertInLoopThread ch.ownerLoop
  let poller ← l.poller.updateChannel ch
  return { l with poller }

/-- `Channel::remove()`, that is its assertion and `loop_->removeChannel(this)`. -/
def removeChannel (ch : Channel) : Checked (EventLoop F) := do
  assert (ch.isNoneEvent) .channelRemoveNoneEvent
  l.assertInLoopThread ch.ownerLoop
  if l.eventHandling then
    assert (l.currentActiveChannel = some ch.id ∨ ch.id ∉ l.activeChannels) .removeActiveChannel
  let poller ← l.poller.removeChannel ch
  return { l with poller }

/-- What `removeChannel` asserts of the channel at `x`. -/
def Removable (x : ChannelId) : Prop :=
  l.eventHandling = true → l.currentActiveChannel = some x ∨ x ∉ l.activeChannels

instance (x : ChannelId) : Decidable (l.Removable x) := inferInstanceAs (Decidable (_ → _))

/-- `poll` returns with the given active channels. -/
def pollReturn (active : List ChannelId) : EventLoop F :=
  { l with
    activeChannels := active
    eventHandling := true
    position := .handling
    unvisited := active }

/-- The iterator moves to the next active channel. -/
def visit (c : ChannelId) (rest : List ChannelId) : EventLoop F :=
  { l with currentActiveChannel := some c, unvisited := rest }

/-- The end of the loop over the active channels, and the entry of `doPendingFunctors`. -/
def endHandling : EventLoop F :=
  { l with
    currentActiveChannel := none
    eventHandling := false
    callingPendingFunctors := true
    position := .swapping }

/-- `functors.swap(pendingFunctors_)` -/
def swap : EventLoop F :=
  { l with batch := l.pendingFunctors, pendingFunctors := [], position := .functors }

/-- The next functor of the batch is taken. -/
def take (rest : List F) : EventLoop F := { l with batch := rest }

/-- The end of `doPendingFunctors` and the test of `quit_`. -/
def endFunctors : EventLoop F :=
  { l with
    callingPendingFunctors := false
    position := if l.quit then .exited else .poll }

/-- What one connection's work does to its loop: the poller differs at most in the
channel `ch`, the queue has grown by functors with `own`, the wakeup counter may
have moved, and nothing else has. -/
structure Frame (ch : Channel) (own : F → Prop) (l l' : EventLoop F) : Prop where
  rest : l' = { l with
    poller := l'.poller
    pendingFunctors := l'.pendingFunctors
    wakeupCounter := l'.wakeupCounter }
  poller : EPollPoller.SameBut ch l.poller l'.poller
  pending : ∃ new, l'.pendingFunctors = l.pendingFunctors ++ new ∧ ∀ f ∈ new, own f

namespace Frame
variable {ch : Channel} {own : F → Prop} {l l' l'' : EventLoop F}

theorem refl (ch : Channel) (own : F → Prop) (l : EventLoop F) : Frame ch own l l where
  rest := rfl
  poller := .refl ch l.poller
  pending := ⟨[], by simp, by simp⟩

theorem trans (h : Frame ch own l l') (g : Frame ch own l' l'') : Frame ch own l l'' where
  rest := by
    rw [g.rest, h.rest]
  poller := h.poller.trans g.poller
  pending := by
    obtain ⟨new, hnew, hown⟩ := h.pending
    obtain ⟨new', hnew', hown'⟩ := g.pending
    refine ⟨new ++ new', by rw [hnew', hnew, List.append_assoc], ?_⟩
    intro f hf
    rcases List.mem_append.mp hf with hf | hf
    · exact hown f hf
    · exact hown' f hf

theorem congr {d : Channel} (h : Frame d own l l') (hid : d.id = ch.id) (hfd : d.fd = ch.fd) :
    Frame ch own l l' := ⟨h.rest, h.poller.congr hid hfd, h.pending⟩

theorem id_eq (h : Frame ch own l l') : l'.id = l.id := by rw [h.rest]

end Frame

theorem queueInLoop_pendingFunctors (b : Bool) (cb : F) :
    (l.queueInLoop b cb).pendingFunctors = l.pendingFunctors ++ [cb] := by
  unfold queueInLoop
  dsimp only
  split
  · rfl
  · rfl

theorem frame_queueInLoop (ch : Channel) (own : F → Prop) {cb : F} (b : Bool) (h : own cb) :
    Frame ch own l (l.queueInLoop b cb) := by
  unfold queueInLoop
  dsimp only
  have hpend : ∃ new, l.pendingFunctors ++ [cb] = l.pendingFunctors ++ new ∧ ∀ f ∈ new, own f :=
    ⟨[cb], rfl, by simpa using h⟩
  split
  · exact ⟨rfl, .refl ch l.poller, hpend⟩
  · exact ⟨rfl, .refl ch l.poller, hpend⟩

theorem frame_put {own : F → Prop} (ch : Channel) (v : EPollPoller.View) :
    Frame ch own l { l with poller := l.poller.put ch v } where
  rest := rfl
  poller := EPollPoller.sameBut_put v
  pending := ⟨[], by simp, by simp⟩

theorem updateChannel_settled {old ch : Channel} (h : l.poller.Settled old) (hid : ch.id = old.id)
    (hfd : ch.fd = old.fd) (hown : ch.ownerLoop = l.id)
    (hne : old.isNoneEvent = false ∨ ch.isNoneEvent = false) :
    l.updateChannel ch =
      .ok { l with poller := l.poller.put ch (EPollPoller.registered ch) } := by
  simp [updateChannel, assertInLoopThread, assert_pos hown,
    EPollPoller.updateChannel_settled h hid hfd hne]

/-- `removeChannel` of a channel without interest. -/
theorem removeChannel_eq {ch : Channel} (hn : ch.isNoneEvent = true) (hown : ch.ownerLoop = l.id)
    (hr : l.Removable ch.id) :
    l.removeChannel ch = (do return { l with poller := ← l.poller.removeChannel ch }) := by
  unfold removeChannel assertInLoopThread
  rw [assert_pos hn, ok_bind, assert_pos hown, ok_bind]
  split_ifs with hev
  · rw [assert_pos (hr hev)]
    rfl
  · rfl

theorem removeChannel_active {ch : Channel} (hn : ch.isNoneEvent = true)
    (hown : ch.ownerLoop = l.id) (hr : ¬l.Removable ch.id) :
    l.removeChannel ch = .error .removeActiveChannel := by
  unfold Removable at hr
  obtain ⟨hev, hnot⟩ := Classical.not_imp.mp hr
  unfold removeChannel assertInLoopThread
  rw [assert_pos hn, ok_bind, assert_pos hown, ok_bind, if_pos hev, assert_neg hnot, error_bind]

/-- `removeChannel` after a change of the poller. -/
theorem removeChannel_with {ch : Channel} {poller poller' : EPollPoller}
    (hn : ch.isNoneEvent = true) (hown : ch.ownerLoop = l.id)
    (hrun : poller.removeChannel ch = .ok poller') :
    ({ l with poller } : EventLoop F).removeChannel ch =
      if l.Removable ch.id then .ok { l with poller := poller' }
      else .error .removeActiveChannel := by
  split_ifs with hr
  · rw [removeChannel_eq { l with poller } hn hown hr, hrun]
    rfl
  · exact removeChannel_active { l with poller } hn hown hr

theorem removeChannel_interested {ch : Channel} (hn : ch.isNoneEvent = false) :
    l.removeChannel ch = .error .channelRemoveNoneEvent := by
  unfold removeChannel
  rw [assert_neg (by simp [hn]), error_bind]

theorem wakeupCounter_wakeup_pos : 0 < l.wakeup.wakeupCounter := by
  simp [wakeup, eventfdMax]

end EventLoop
end Muduo

import Muduo.Assertion
import Muduo.Library.StepSystem

/-!
# Connector

`net/Connector.cc`, driven by the loop thread: the user starts and stops it in turn,
`poll` reports its channel, its retry timers fire, and the functors it has queued to
reset its channel are executed. A channel is named by the number of the attempt it was
made for, a functor by that of the channel it was queued for.
-/
namespace Muduo.Connector
open StepSystem

inductive States
  | kDisconnected
  | kConnecting
  | kConnected
  deriving DecidableEq, Repr

/-- The cases of `connect()` by the `errno` of `connect(2)`. -/
inductive Outcome
  /-- `0`, `EINPROGRESS`, `EINTR`, `EISCONN` -/
  | connecting
  /-- `EAGAIN`, `EADDRINUSE`, `EADDRNOTAVAIL`, `ECONNREFUSED`, `ENETUNREACH` -/
  | retry
  /-- any other -/
  | error
  deriving DecidableEq, Repr

/-- What `poll` reports of the channel. -/
structure Revents where
  error : Bool
  write : Bool
  deriving DecidableEq, Repr

/-- What the socket of the channel tells. -/
structure Socket where
  soError : Bool
  isSelfConnect : Bool

def kMaxRetryDelayMs : ℕ := 30 * 1000

def kInitRetryDelayMs : ℕ := 500

structure State where
  connect : Bool
  state : States
  channel : Option ℕ
  retryDelayMs : ℕ
  /-- the number of attempts that made a channel -/
  attempts : ℕ
  /-- the channel is in the poller -/
  registered : Bool
  /-- the channel is active, and its handler has not been called -/
  active : Option Revents
  /-- the retry timers, by their delay -/
  timers : List ℕ
  /-- the functors `resetChannel` -/
  resets : List ℕ
  /-- the user's last call was `start()` -/
  started : Bool

def initial : State where
  connect := false
  state := .kDisconnected
  channel := none
  retryDelayMs := kInitRetryDelayMs
  attempts := 0
  registered := false
  active := none
  timers := []
  resets := []
  started := false

namespace State
variable (s : State)

def retry : State :=
  let s := { s with state := .kDisconnected }
  if s.connect then
    { s with
      timers := s.timers ++ [s.retryDelayMs]
      retryDelayMs := min (s.retryDelayMs * 2) kMaxRetryDelayMs }
  else s

def connecting : Checked State := do
  let s := { s with state := .kConnecting }
  assert (s.channel = none) .connectingChannel
  return { s with channel := some s.attempts, attempts := s.attempts + 1, registered := true }

/-- `connect()` -/
def connectSocket : Outcome → Checked State
  | .connecting => s.connecting
  | .retry => .ok s.retry
  | .error => .ok s

def startInLoop (outcome : Outcome) : Checked State := do
  assert (s.state = .kDisconnected) .startInLoopState
  if s.connect then s.connectSocket outcome else return s

def start (outcome : Outcome) : Checked State :=
  { s with connect := true, started := true }.startInLoop outcome

/-- `Channel::remove` asserts that the channel is the one being handled, or not active. -/
def removeAndResetChannel (handling : Bool) : Checked State := match s.channel with
  | some n => do
    assert (handling = true ∨ s.active = none) .removeActiveChannel
    return { s with registered := false, resets := s.resets ++ [n] }
  | none => .error .noChannel

def resetChannel : State := { s with channel := none, resets := s.resets.tail }

def stopInLoop : Checked State :=
  if s.state = .kConnecting then do
    let s ← { s with state := .kDisconnected }.removeAndResetChannel false
    return s.retry
  else .ok s

def stop : Checked State := { s with connect := false, started := false }.stopInLoop

/-- A connected socket goes to `newConnectionCallback_`, or is closed, which changes nothing here. -/
def handleWrite (socket : Socket) : Checked State :=
  if s.state = .kConnecting then do
    let s ← s.removeAndResetChannel true
    return if socket.soError then s.retry
      else if socket.isSelfConnect then s.retry
      else { s with state := .kConnected }
  else do
    assert (s.state = .kDisconnected) .handleWriteState
    return s

def handleError : Checked State := do
  assert (s.state = .kConnecting) .handleErrorState
  let s ← s.removeAndResetChannel true
  return s.retry

/-- `Channel::handleEvent` -/
def handleEvent (revents : Revents) (socket : Socket) : Checked State := do
  let s := { s with active := none }
  let s ← if revents.error then s.handleError else .ok s
  if revents.write then s.handleWrite socket else return s

end State

inductive Event
  | start (outcome : Outcome)
  | stop
  /-- a retry timer fires -/
  | timer (delay : ℕ) (outcome : Outcome)
  | poll (revents : Revents)
  | handle (socket : Socket)
  /-- the next functor `resetChannel` is executed -/
  | reset

/-- Functors are executed when no channel is active. -/
def enabled (s : State) : Event → Prop
  | .start _ => s.started = false
  | .stop => s.started = true
  | .timer delay _ => delay ∈ s.timers
  | .poll _ => s.registered = true ∧ s.active = none
  | .handle _ => s.active ≠ none
  | .reset => s.resets ≠ [] ∧ s.active = none

instance (s : State) : (e : Event) → Decidable (enabled s e)
  | .start _ | .stop => inferInstanceAs (Decidable (_ = _))
  | .timer delay _ => inferInstanceAs (Decidable (delay ∈ s.timers))
  | .poll _ | .reset => inferInstanceAs (Decidable (_ ∧ _))
  | .handle _ => inferInstanceAs (Decidable (_ ≠ _))

def step (s : State) : Event → Checked State
  | .start outcome => s.start outcome
  | .stop => s.stop
  | .timer delay outcome => { s with timers := s.timers.erase delay }.startInLoop outcome
  | .poll revents => .ok { s with active := some revents }
  | .handle socket => match s.active with
    | some revents => s.handleEvent revents socket
    | none => .ok s
  | .reset => .ok s.resetChannel

def system : System State Event Assertion where
  init s := s = initial
  enabled := enabled
  step := step

instance (s : State) (e : Event) : Decidable (system.enabled s e) :=
  inferInstanceAs (Decidable (enabled s e))

/-- Neither assertion fails, and no channel of a later attempt is reset. -/
structure Sound (s : State) (e : Event) : Prop where
  startInLoop : step s e ≠ .error .startInLoopState
  connecting : step s e ≠ .error .connectingChannel
  reset : e = .reset → ∀ n ∈ s.resets.head?, ∀ m ∈ s.channel, m ≤ n

/-- The user starts the connector, and a timer fires, only while there is no attempt that has
connected; a timer, moreover, not while there is one that is connecting; and where a channel is
made, the last one has been reset. -/
def Free (s : State) : Event → Prop
  | .start outcome => s.state ≠ .kConnected ∧ (outcome = .connecting → s.resets = [])
  | .timer _ outcome =>
    s.state = .kDisconnected ∧ (s.connect = true → outcome = .connecting → s.resets = [])
  | .stop | .poll _ | .handle _ | .reset => True

instance (s : State) : (e : Event) → Decidable (Free s e)
  | .start _ | .timer .. => inferInstanceAs (Decidable (_ ∧ _))
  | .stop | .poll _ | .handle _ | .reset => inferInstanceAs (Decidable True)

/-- An attempt that is connecting has a channel in the poller. At any other time there is a
channel only until the functor that resets it is executed. -/
structure Inv (s : State) : Prop where
  connecting : s.state = .kConnecting → s.registered = true ∧ s.channel.isSome ∧ s.resets = []
  resets : s.state ≠ .kConnecting → s.registered = false ∧ s.resets = s.channel.toList
  started : s.started = true ↔ s.connect = true
  stopped : s.connect = false → s.state ≠ .kConnecting
  active : s.active ≠ none → s.state = .kConnecting

/-- No channel is in the poller, and one is left only to the functor that resets it. -/
structure Idle (s : State) : Prop where
  registered : s.registered = false
  resets : s.resets = s.channel.toList
  started : s.started = true ↔ s.connect = true
  active : s.active = none

variable {s t : State}

theorem Inv.idle (h : Inv s) (hs : s.state ≠ .kConnecting) : Idle s where
  registered := (h.resets hs).1
  resets := (h.resets hs).2
  started := h.started
  active := by
    by_contra ha
    exact hs (h.active ha)

theorem Idle.inv (h : Idle s) (hs : s.state ≠ .kConnecting) : Inv s where
  connecting hc := absurd hc hs
  resets _ := ⟨h.registered, h.resets⟩
  started := h.started
  stopped _ := hs
  active ha := absurd h.active ha

theorem Idle.retry (h : Idle s) : Inv s.retry := by
  have hs : s.retry.state ≠ .kConnecting := by
    simp only [State.retry]
    split <;> simp
  apply Idle.inv _ hs
  simp only [State.retry]
  split
  · exact ⟨h.registered, h.resets, h.started, h.active⟩
  · exact ⟨h.registered, h.resets, h.started, h.active⟩

/-- While no channel is in the poller, one is left exactly while a functor is to reset it. -/
theorem Idle.channel_iff (h : Idle s) : s.channel = none ↔ s.resets = [] := by
  rw [h.resets]
  cases s.channel with
  | none => simp
  | some n => simp

theorem Idle.connecting (h : Idle s) (hc : s.connect = true) (ht : s.connecting = .ok t) :
    Inv t := by
  obtain ⟨_, hn, ht⟩ := bind_eq_ok.mp ht
  rw [assert_eq_ok] at hn
  obtain rfl : _ = t := Except.ok.inj ht
  have hr : s.resets = [] := h.channel_iff.mp hn
  exact {
    connecting := fun _ => ⟨rfl, rfl, hr⟩
    resets := fun hs => absurd rfl hs
    started := h.started
    stopped := fun hs => by simp [hc] at hs
    active := fun ha => absurd h.active ha }

theorem Idle.startInLoop (h : Idle s) {outcome : Outcome} (hd : s.state = .kDisconnected)
    (ht : s.startInLoop outcome = .ok t) : Inv t := by
  rw [State.startInLoop, assert_pos hd, ok_bind] at ht
  have hs : s.state ≠ .kConnecting := by simp [hd]
  split at ht
  · rename_i hc
    cases outcome with
    | connecting => exact h.connecting hc ht
    | retry => exact Except.ok.inj ht ▸ h.retry
    | error => exact Except.ok.inj ht ▸ h.inv hs
  · exact Except.ok.inj ht ▸ h.inv hs

/-- What is left of an attempt once its channel has been removed. -/
theorem removeAndResetChannel_idle {handling : Bool} (hr : s.resets = [])
    (hs : s.started = true ↔ s.connect = true) (ha : handling = true → s.active = none)
    (ht : s.removeAndResetChannel handling = .ok t) : Idle t := by
  unfold State.removeAndResetChannel at ht
  split at ht
  · rename_i n hn
    obtain ⟨_, hactive, ht⟩ := bind_eq_ok.mp ht
    rw [assert_eq_ok] at hactive
    have hnone : s.active = none := by
      rcases hactive with hh | hh
      · exact ha hh
      · exact hh
    obtain rfl : _ = t := Except.ok.inj ht
    have hres : s.resets ++ [n] = s.channel.toList := by simp [hr, hn]
    exact ⟨rfl, hres, hs, hnone⟩
  · cases ht

theorem Inv.stop (h : Inv s) (ht : s.stop = .ok t) : Inv t := by
  unfold State.stop State.stopInLoop at ht
  split at ht
  · rename_i hc
    obtain ⟨-, -, hr⟩ := h.connecting hc
    obtain ⟨u, hu, ht⟩ := bind_eq_ok.mp ht
    have hidle : Idle u := removeAndResetChannel_idle
      (s := { s with connect := false, started := false, state := .kDisconnected }) hr (by simp)
      (by simp) hu
    exact Except.ok.inj ht ▸ hidle.retry
  · rename_i hc
    have hidle : Idle s := h.idle hc
    obtain rfl := Except.ok.inj ht
    exact Idle.inv ⟨hidle.registered, hidle.resets, by simp, hidle.active⟩ hc

/-- The channel of an attempt that is connecting is removed by its handler. -/
theorem Inv.handling (h : Inv s) (ha : s.active = none) (hc : s.state = .kConnecting)
    (ht : s.removeAndResetChannel true = .ok t) : Idle t :=
  removeAndResetChannel_idle (h.connecting hc).2.2 h.started (fun _ => ha) ht

theorem Inv.handleError (h : Inv s) (ha : s.active = none) (ht : s.handleError = .ok t) :
    Inv t ∧ t.active = none := by
  obtain ⟨_, hc, ht⟩ := bind_eq_ok.mp ht
  rw [assert_eq_ok] at hc
  obtain ⟨u, hu, ht⟩ := bind_eq_ok.mp ht
  have hidle : Idle u := h.handling ha hc hu
  obtain rfl := Except.ok.inj ht
  have hactive : u.retry.active = none := by
    simp only [State.retry]
    split <;> exact hidle.active
  exact ⟨hidle.retry, hactive⟩

theorem Inv.handleWrite (h : Inv s) (ha : s.active = none) {socket : Socket}
    (ht : s.handleWrite socket = .ok t) : Inv t := by
  unfold State.handleWrite at ht
  split at ht
  · rename_i hc
    obtain ⟨u, hu, ht⟩ := bind_eq_ok.mp ht
    have hidle : Idle u := h.handling ha hc hu
    obtain rfl := Except.ok.inj ht
    split
    · exact hidle.retry
    · split
      · exact hidle.retry
      · exact Idle.inv ⟨hidle.registered, hidle.resets, hidle.started, hidle.active⟩ (by simp)
  · obtain ⟨_, _, ht⟩ := bind_eq_ok.mp ht
    exact Except.ok.inj ht ▸ h

theorem handleEvent_eq (revents : Revents) (socket : Socket) :
    s.handleEvent revents socket =
      (if revents.error then { s with active := none }.handleError
        else .ok { s with active := none }) >>=
      fun u => if revents.write then u.handleWrite socket else .ok u := by
  unfold State.handleEvent
  cases revents.error <;> rfl

theorem Inv.handleEvent (h : Inv s) {revents : Revents} {socket : Socket}
    (ht : s.handleEvent revents socket = .ok t) : Inv t := by
  have h' : Inv { s with active := none } :=
    ⟨h.connecting, h.resets, h.started, h.stopped, by simp⟩
  rw [handleEvent_eq] at ht
  obtain ⟨u, hu, ht⟩ := bind_eq_ok.mp ht
  have hI : Inv u ∧ u.active = none := by
    split at hu
    · exact h'.handleError rfl hu
    · obtain rfl := Except.ok.inj hu
      exact ⟨h', rfl⟩
  split at ht
  · exact hI.1.handleWrite hI.2 ht
  · exact Except.ok.inj ht ▸ hI.1

/-- `startInLoop` completes only while nothing is connecting or has connected. -/
theorem startInLoop_state {outcome : Outcome} (ht : s.startInLoop outcome = .ok t) :
    s.state = .kDisconnected := by
  obtain ⟨_, hd, -⟩ := bind_eq_ok.mp ht
  exact assert_eq_ok.mp hd

theorem Inv.start (h : Inv s) {outcome : Outcome} (ht : s.start outcome = .ok t) : Inv t := by
  have hd : s.state = .kDisconnected :=
    startInLoop_state (s := { s with connect := true, started := true }) ht
  have hidle : Idle s := h.idle (by simp [hd])
  exact Idle.startInLoop (s := { s with connect := true, started := true })
    ⟨hidle.registered, hidle.resets, by simp, hidle.active⟩ hd ht

theorem Inv.timer (h : Inv s) {delay : ℕ} {outcome : Outcome}
    (ht : step s (.timer delay outcome) = .ok t) : Inv t := by
  have hd : s.state = .kDisconnected :=
    startInLoop_state (s := { s with timers := s.timers.erase delay }) ht
  have hidle : Idle s := h.idle (by simp [hd])
  exact Idle.startInLoop (s := { s with timers := s.timers.erase delay })
    ⟨hidle.registered, hidle.resets, hidle.started, hidle.active⟩ hd ht

theorem Inv.reset (h : Inv s) (he : enabled s .reset) : Inv s.resetChannel := by
  have hs : s.state ≠ .kConnecting := fun hc => he.1 (h.connecting hc).2.2
  have hidle : Idle s := h.idle hs
  have hr : s.resets.tail = [] := by
    rw [hidle.resets]
    cases s.channel with
    | none => rfl
    | some n => rfl
  exact Idle.inv ⟨hidle.registered, hr, hidle.started, hidle.active⟩ hs

theorem invariant : Invariant system Inv where
  init := by
    rintro s rfl
    exact Idle.inv ⟨rfl, rfl, by simp [initial], rfl⟩ (by simp [initial])
  step s e t h he ht := by
    cases e with
    | start outcome => exact h.start ht
    | stop => exact h.stop ht
    | timer delay outcome => exact h.timer ht
    | poll revents =>
      obtain rfl := Except.ok.inj ht
      have hc : s.state = .kConnecting := by
        by_contra hc
        exact absurd he.1 (by simp [(h.resets hc).1])
      exact ⟨h.connecting, h.resets, h.started, h.stopped, fun _ => hc⟩
    | handle socket =>
      simp only [system, step] at ht
      split at ht
      · exact h.handleEvent ht
      · exact Except.ok.inj ht ▸ h
    | reset => exact Except.ok.inj ht ▸ h.reset he

/-- `x` fails neither of the two assertions. -/
structure Clear {α : Type} (x : Checked α) : Prop where
  startInLoop : x ≠ .error .startInLoopState
  connecting : x ≠ .error .connectingChannel

theorem clear_ok {α : Type} (a : α) : Clear (.ok a : Checked α) := ⟨by simp, by simp⟩

theorem clear_assert {p : Prop} [Decidable p] {a : Assertion} (hs : a ≠ .startInLoopState)
    (hc : a ≠ .connectingChannel) : Clear (assert p a) := by
  by_cases hp : p
  · rw [assert_pos hp]
    exact clear_ok ()
  · rw [assert_neg hp]
    exact ⟨by simpa using hs, by simpa using hc⟩

theorem Clear.bind {α β : Type} {x : Checked α} {f : α → Checked β} (hx : Clear x)
    (hf : ∀ a, Clear (f a)) : Clear (x >>= f) := by
  cases x with
  | ok a => exact hf a
  | error e =>
    have hs : e ≠ .startInLoopState := fun h => hx.startInLoop (h ▸ rfl)
    have hc : e ≠ .connectingChannel := fun h => hx.connecting (h ▸ rfl)
    exact ⟨by simpa using hs, by simpa using hc⟩

theorem removeAndResetChannel_clear (handling : Bool) : Clear (s.removeAndResetChannel handling) := by
  unfold State.removeAndResetChannel
  split
  · exact (clear_assert (by simp) (by simp)).bind fun _ => clear_ok _
  · exact ⟨by simp, by simp⟩

theorem stop_clear : Clear s.stop := by
  unfold State.stop State.stopInLoop
  split
  · exact (removeAndResetChannel_clear false).bind fun _ => clear_ok _
  · exact clear_ok _

theorem handleError_clear : Clear s.handleError := by
  apply (clear_assert (by simp) (by simp)).bind
  intro _
  exact (removeAndResetChannel_clear true).bind fun _ => clear_ok _

theorem handleWrite_clear (socket : Socket) : Clear (s.handleWrite socket) := by
  unfold State.handleWrite
  split
  · exact (removeAndResetChannel_clear true).bind fun _ => clear_ok _
  · exact (clear_assert (by simp) (by simp)).bind fun _ => clear_ok _

theorem handleEvent_clear (revents : Revents) (socket : Socket) :
    Clear (s.handleEvent revents socket) := by
  rw [handleEvent_eq]
  apply Clear.bind
  · split
    · exact handleError_clear
    · exact clear_ok _
  · intro u
    split
    · exact handleWrite_clear socket
    · exact clear_ok _

/-- `startInLoop` is clear exactly if no attempt is left: none that is connecting, none that has
connected, and, where a channel is to be made, no functor for the last one. -/
theorem startInLoop_clear_iff (h : s.state ≠ .kConnecting → Idle s) (outcome : Outcome) :
    Clear (s.startInLoop outcome) ↔
      s.state = .kDisconnected ∧ (s.connect = true → outcome = .connecting → s.resets = []) := by
  by_cases hd : s.state = .kDisconnected
  · have hidle : Idle s := h (by simp [hd])
    rw [State.startInLoop, assert_pos hd, ok_bind]
    by_cases hc : s.connect = true
    · rw [if_pos hc]
      cases outcome with
      | connecting =>
        simp only [State.connectSocket, State.connecting]
        by_cases hn : s.channel = none
        · simpa [hn, assert_pos, hd, hc, hidle.channel_iff.mp hn] using clear_ok _
        · have hr : s.resets ≠ [] := fun hr => hn (hidle.channel_iff.mpr hr)
          rw [assert_neg hn]
          constructor
          · intro hclear
            exact absurd rfl hclear.connecting
          · intro hfree
            exact absurd (hfree.2 hc trivial) hr
      | retry => exact iff_of_true (clear_ok _) ⟨hd, by simp⟩
      | error => exact iff_of_true (clear_ok _) ⟨hd, by simp⟩
    · rw [if_neg hc]
      exact iff_of_true (clear_ok _) ⟨hd, fun hconnect => absurd hconnect hc⟩
  · rw [State.startInLoop, assert_neg hd]
    constructor
    · intro hclear
      exact absurd rfl hclear.startInLoop
    · intro hfree
      exact absurd hfree.1 hd

/-- A functor resets the channel it was queued for. -/
theorem Inv.reset_channel (h : Inv s) (he : enabled s .reset) :
    ∀ n ∈ s.resets.head?, ∀ m ∈ s.channel, m ≤ n := by
  intro n hn m hm
  have hs : s.state ≠ .kConnecting := fun hc => he.1 (h.connecting hc).2.2
  rw [(h.resets hs).2, Option.mem_def.mp hm] at hn
  simp at hn
  omega

theorem sound_iff_clear {e : Event} (he : e ≠ .reset) : Sound s e ↔ Clear (step s e) := by
  constructor
  · intro h
    exact ⟨h.startInLoop, h.connecting⟩
  · intro h
    exact ⟨h.startInLoop, h.connecting, fun hr => absurd hr he⟩

theorem Inv.sound_iff (h : Inv s) {e : Event} (he : enabled s e) : Sound s e ↔ Free s e := by
  cases e with
  | start outcome =>
    have hs : s.started = false := he
    have hc : s.connect = false := by simpa [hs] using h.started
    have hconnecting : s.state ≠ .kConnecting := h.stopped hc
    have hidle : Idle s := h.idle hconnecting
    have hstate : s.state = .kDisconnected ↔ s.state ≠ .kConnected := by
      cases hst : s.state with
      | kDisconnected => simp
      | kConnecting => exact absurd hst hconnecting
      | kConnected => simp
    have hiff := startInLoop_clear_iff (s := { s with connect := true, started := true })
      (fun _ => ⟨hidle.registered, hidle.resets, by simp, hidle.active⟩) outcome
    rw [sound_iff_clear (by simp)]
    apply hiff.trans
    simp [Free, hstate]
  | timer delay outcome =>
    have hiff := startInLoop_clear_iff (s := { s with timers := s.timers.erase delay })
      (fun hs => ⟨(h.resets hs).1, (h.resets hs).2, h.started, (h.idle hs).active⟩) outcome
    rw [sound_iff_clear (by simp)]
    exact hiff
  | stop =>
    rw [sound_iff_clear (by simp)]
    exact iff_of_true stop_clear trivial
  | poll revents =>
    rw [sound_iff_clear (by simp)]
    exact iff_of_true (clear_ok _) trivial
  | handle socket =>
    rw [sound_iff_clear (by simp)]
    apply iff_of_true _ trivial
    simp only [step]
    split
    · exact handleEvent_clear _ socket
    · exact clear_ok _
  | reset => exact iff_of_true ⟨by simp [step], by simp [step], fun _ => h.reset_channel he⟩ trivial

/-- A connector has one attempt at a time exactly if it is started anew, and a timer fires, only
after the last attempt. -/
theorem sound_iff_free {es : List Event} (hoffered : Guarded system system.enabled initial es) :
    Guarded system Sound initial es ↔ Guarded system Free initial es :=
  guarded_congr system invariant (fun _ _ h he => h.sound_iff he) rfl hoffered

/-- A refused attempt, the next one stopped while it is connecting, and a start after its
channel has been reset. -/
theorem sound_of_reset :
    let es : List Event := [.start .connecting, .poll ⟨true, false⟩, .handle ⟨true, false⟩, .reset,
      .timer 500 .connecting, .stop, .reset, .start .connecting]
    Guarded system Sound initial es := by
  intro es
  have hreplay : (replay (restrict system Free) initial es).any (fun _ => true) = true := by
    decide +kernel
  obtain ⟨t, hr, -⟩ := exists_run_of_replay _ hreplay
  have hoffered : Guarded system system.enabled initial es :=
    guarded_enabled system (run_of_restrict system hr)
  exact (sound_iff_free hoffered).mpr (restrict_guarded system hr)

/-- The channel of a stopped attempt is still there when the next attempt makes its own. -/
theorem not_sound_of_restart :
    let es : List Event := [.start .connecting, .stop, .start .connecting]
    Guarded system system.enabled initial es ∧ ¬Guarded system Sound initial es := by
  obtain ⟨t, hr, he, ht⟩ : ∃ t, Run system initial [.start .connecting, .stop] t ∧
      enabled t (.start .connecting) ∧ step t (.start .connecting) = .error .connectingChannel :=
    ⟨_, run_of_replay system rfl, rfl, rfl⟩
  constructor
  · exact (guarded_snoc system hr).mpr ⟨guarded_enabled system hr, he⟩
  · intro hsound
    exact ((guarded_snoc system hr).mp hsound).2.connecting ht

end Muduo.Connector

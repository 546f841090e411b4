import Muduo.Connector

/-!
# The sockets of a connector

`net/Connector.cc` with the sockets that `connect()` creates, numbered in this order. Any thread
calls `start()` and `stop()`, which in another thread than that of the loop queue their functor;
`restart()` is called in the loop thread.
-/
namespace Muduo.Connector.Sockets
open StepSystem

/-- The functor of a call in another thread. -/
inductive Call
  | startInLoop
  | stopInLoop
  deriving DecidableEq, Repr

structure State extends Connector.State where
  /-- the number of sockets that were created -/
  sockets : ℕ
  /-- the socket of the channel -/
  sockfd : Option ℕ
  /-- the arguments of `sockets::close` -/
  closed : List ℕ
  /-- the arguments of `newConnectionCallback_`, each with `connect_` at the call -/
  handed : List (ℕ × Bool)
  /-- the calls in other threads that have set `connect_` and not yet queued their functor -/
  entered : List Call
  /-- the functors of these calls -/
  calls : List Call

def initial : State where
  toState := Connector.initial
  sockets := 0
  sockfd := none
  closed := []
  handed := []
  entered := []
  calls := []

namespace State
variable (s : State)

def close (sockfd : ℕ) : State := { s with closed := s.closed ++ [sockfd] }

def retry (sockfd : ℕ) : State := { s.close sockfd with toState := s.toState.retry }

def connecting (sockfd : ℕ) : Checked State := do
  let connector ← s.toState.connecting
  return { s with toState := connector, sockfd := some sockfd }

/-- `connect()` -/
def connectSocket (outcome : Outcome) : Checked State :=
  let sockfd := s.sockets
  let s := { s with sockets := sockfd + 1 }
  match outcome with
  | .connecting => s.connecting sockfd
  | .retry => .ok (s.retry sockfd)
  | .error => .ok (s.close sockfd)

def startInLoop (outcome : Outcome) : Checked State := do
  assert (s.state = .kDisconnected) .startInLoopState
  if s.connect then s.connectSocket outcome else return s

def setConnect (connect : Bool) : State := { s with connect := connect, started := connect }

def start (outcome : Outcome) : Checked State := (s.setConnect true).startInLoop outcome

def restart (outcome : Outcome) : Checked State :=
  { s.setConnect true with
    state := .kDisconnected
    retryDelayMs := kInitRetryDelayMs }.startInLoop outcome

/-- The value is the socket of the channel. -/
def removeAndResetChannel (handling : Bool) : Checked (State × ℕ) := do
  let connector ← s.toState.removeAndResetChannel handling
  match s.sockfd with
  | some sockfd => return ({ s with toState := connector }, sockfd)
  | none => .error .noChannel

def resetChannel : State := { s with toState := s.toState.resetChannel, sockfd := none }

def stopInLoop : Checked State :=
  if s.state = .kConnecting then do
    let (s, sockfd) ← { s with state := .kDisconnected }.removeAndResetChannel false
    return s.retry sockfd
  else .ok s

def stop : Checked State := (s.setConnect false).stopInLoop

/-- The end of `handleWrite` for a socket that is connected. -/
def connected (sockfd : ℕ) : State :=
  let s := { s with state := .kConnected }
  if s.connect then { s with handed := s.handed ++ [(sockfd, s.connect)] } else s.close sockfd

def handleWrite (socket : Socket) : Checked State :=
  if s.state = .kConnecting then do
    let (s, sockfd) ← s.removeAndResetChannel true
    return if socket.soError then s.retry sockfd
      else if socket.isSelfConnect then s.retry sockfd
      else s.connected sockfd
  else do
    assert (s.state = .kDisconnected) .handleWriteState
    return s

def handleError : Checked State := do
  assert (s.state = .kConnecting) .handleErrorState
  let (s, sockfd) ← s.removeAndResetChannel true
  return s.retry sockfd

/-- `Channel::handleEvent` -/
def handleEvent (revents : Revents) (socket : Socket) : Checked State := do
  let s := { s with active := none }
  let s ← if revents.error then s.handleError else .ok s
  if revents.write then s.handleWrite socket else return s

/-- `start()` and `stop()` in another thread, up to `queueInLoop` -/
def enter (call : Call) : State :=
  { s.setConnect (call = .startInLoop) with entered := s.entered ++ [call] }

def queueInLoop (call : Call) : State :=
  { s with entered := s.entered.erase call, calls := s.calls ++ [call] }

end State

inductive Event
  | start (outcome : Outcome)
  | stop
  | restart (outcome : Outcome)
  | enter (call : Call)
  | queueInLoop (call : Call)
  /-- the next functor of another thread is executed -/
  | call (outcome : Outcome)
  /-- a retry timer fires -/
  | timer (delay : ℕ) (outcome : Outcome)
  | poll (revents : Revents)
  | handle (socket : Socket)
  /-- the next functor `resetChannel` is executed -/
  | reset

def enabled (s : State) : Event → Prop
  | .start _ | .stop | .restart _ | .enter _ => True
  | .queueInLoop call => call ∈ s.entered
  | .call _ => s.calls ≠ [] ∧ s.active = none
  | .timer delay _ => delay ∈ s.timers
  | .poll _ => s.registered = true ∧ s.active = none
  | .handle _ => s.active ≠ none
  | .reset => s.resets ≠ [] ∧ s.active = none

instance (s : State) : (e : Event) → Decidable (enabled s e)
  | .start _ | .stop | .restart _ | .enter _ => inferInstanceAs (Decidable True)
  | .queueInLoop call => inferInstanceAs (Decidable (call ∈ s.entered))
  | .timer delay _ => inferInstanceAs (Decidable (delay ∈ s.timers))
  | .call _ | .poll _ | .reset => inferInstanceAs (Decidable (_ ∧ _))
  | .handle _ => inferInstanceAs (Decidable (_ ≠ _))

def step (s : State) : Event → Checked State
  | .start outcome => s.start outcome
  | .stop => s.stop
  | .restart outcome => s.restart outcome
  | .enter call => .ok (s.enter call)
  | .queueInLoop call => .ok (s.queueInLoop call)
  | .call outcome => match s.calls with
    | .startInLoop :: calls => { s with calls := calls }.startInLoop outcome
    | .stopInLoop :: calls => { s with calls := calls }.stopInLoop
    | [] => .ok s
  | .timer delay outcome => { s with timers := s.timers.erase delay }.startInLoop outcome
  | .poll revents => .ok { s with active := some revents }
  | .handle socket => match s.active with
    | some revents => s.handleEvent revents socket
    | none => .ok s
  | .reset => .ok s.resetChannel

def system : System State Event Assertion where
  init s := s = initial
  enabled := enabled
  step := step

instance (s : State) (e : Event) : Decidable (system.enabled s e) :=
  inferInstanceAs (Decidable (enabled s e))

/-- The socket belongs to the channel of an attempt that is connecting. -/
def Owned (s : State) (n : ℕ) : Prop :=
  s.state = .kConnecting ∧ s.registered = true ∧ s.channel.isSome = true ∧ s.sockfd = some n

/-- The socket is owned, has been closed once, or has been handed over once. -/
def InOnePlace (s : State) (n : ℕ) : Prop :=
  Owned s n ∧ s.closed.count n = 0 ∧ (s.handed.map Prod.fst).count n = 0 ∨
    ¬Owned s n ∧ s.closed.count n = 1 ∧ (s.handed.map Prod.fst).count n = 0 ∨
    ¬Owned s n ∧ s.closed.count n = 0 ∧ (s.handed.map Prod.fst).count n = 1

/-- Every socket is in one place, and was handed over only while `connect_` was set. -/
def Accounted (s : State) : Prop :=
  (∀ n < s.sockets, InOnePlace s n) ∧ ∀ x ∈ s.handed, x.2 = true

/-- `restart()` is called while no attempt is connecting. -/
def RestartsIdle (s : State) : Event → Prop
  | .restart _ => s.state ≠ .kConnecting
  | .start _ | .stop | .enter _ | .queueInLoop _ | .call _ | .timer .. | .poll _ | .handle _
  | .reset => True

instance (s : State) : (e : Event) → Decidable (RestartsIdle s e)
  | .restart _ => inferInstanceAs (Decidable (_ ≠ _))
  | .start _ | .stop | .enter _ | .queueInLoop _ | .call _ | .timer .. | .poll _ | .handle _
  | .reset => inferInstanceAs (Decidable True)

/-- Every socket is among `hand` or closed or handed over, and is so once. -/
structure Books (s : State) (hand : List ℕ) : Prop where
  sockets : (hand ++ (s.closed ++ s.handed.map Prod.fst)).Perm (List.range s.sockets)
  handed : ∀ x ∈ s.handed, x.2 = true

/-- No channel is in the poller, and one is left only to the functor that resets it. -/
structure Rest (s : State) : Prop where
  registered : s.registered = false
  resets : s.resets = s.channel.toList
  active : s.active = none
  sockfd : s.sockfd.isSome = s.channel.isSome

/-- The channel of an attempt that is connecting is in the poller. -/
structure Live (s : State) : Prop where
  registered : s.registered = true
  resets : s.resets = []
  channel : s.channel.isSome = true
  sockfd : s.sockfd.isSome = true

structure Inv (s : State) : Prop where
  live : s.state = .kConnecting → Live s ∧ Books s s.sockfd.toList
  rest : s.state ≠ .kConnecting → Rest s ∧ Books s []

variable {s t : State} {n : ℕ} {outcome : Outcome}

theorem Books.close (h : Books s [n]) : Books (s.close n) [] where
  sockets := by
    refine List.Perm.trans ?_ h.sockets
    simp only [State.close, List.nil_append, List.append_assoc]
    exact List.perm_append_comm_assoc ..
  handed := h.handed

theorem Books.create (h : Books s []) : Books { s with sockets := s.sockets + 1 } [s.sockets] where
  sockets := by
    rw [List.range_succ]
    exact List.perm_append_comm.trans (h.sockets.append_right [s.sockets])
  handed := h.handed

theorem Books.connected (h : Books s [n]) : Books (s.connected n) [] := by
  unfold State.connected
  dsimp only
  split_ifs with hc
  · constructor
    · refine List.Perm.trans ?_ h.sockets
      simp only [List.nil_append, List.map_append, ← List.append_assoc]
      exact List.perm_append_comm
    · intro x hx
      obtain hx | hx := List.mem_append.mp hx
      · exact h.handed x hx
      · rw [List.mem_singleton.mp hx]
        exact hc
  · have hclose : Books (s.close n) [] := h.close
    exact ⟨hclose.sockets, hclose.handed⟩

theorem Rest.inv (hr : Rest s) (hb : Books s []) (hs : s.state ≠ .kConnecting) : Inv s where
  live hc := absurd hc hs
  rest _ := ⟨hr, hb⟩

theorem retry_state : (s.retry n).state = .kDisconnected := by
  simp only [State.retry, Connector.State.retry]
  split_ifs
  · rfl
  · rfl

theorem retry_channel : (s.retry n).channel = s.channel ∧ (s.retry n).resets = s.resets := by
  simp only [State.retry, Connector.State.retry]
  split_ifs
  · exact ⟨rfl, rfl⟩
  · exact ⟨rfl, rfl⟩

theorem Rest.retry (h : Rest s) : Rest (s.retry n) := by
  simp only [State.retry, Connector.State.retry]
  split_ifs
  · exact ⟨h.registered, h.resets, h.active, h.sockfd⟩
  · exact ⟨h.registered, h.resets, h.active, h.sockfd⟩

theorem inv_retry (hr : Rest s) (hb : Books s [n]) : Inv (s.retry n) := by
  have hbooks : Books (s.retry n) [] := ⟨hb.close.sockets, hb.handed⟩
  exact hr.retry.inv hbooks (by simp [retry_state])

theorem inv_connecting (hr : Rest s) (hb : Books s [n]) (ht : s.connecting n = .ok t) : Inv t := by
  obtain ⟨connector, hconnecting, ht⟩ := bind_eq_ok.mp ht
  obtain rfl := Except.ok.inj ht
  obtain ⟨_, hnone, hconnecting⟩ := bind_eq_ok.mp hconnecting
  obtain rfl := Except.ok.inj hconnecting
  rw [assert_eq_ok] at hnone
  have hresets : s.resets = [] := by
    rw [hr.resets]
    simp only at hnone
    simp [hnone]
  exact
    { live := fun _ => ⟨⟨rfl, hresets, rfl, rfl⟩, ⟨hb.sockets, hb.handed⟩⟩
      rest := fun hs => absurd rfl hs }

theorem inv_startInLoop (hr : Rest s) (hb : Books s []) (hs : s.state = .kDisconnected)
    (ht : s.startInLoop outcome = .ok t) : Inv t := by
  have hne : s.state ≠ .kConnecting := by simp [hs]
  rw [State.startInLoop, assert_pos hs, ok_bind] at ht
  split_ifs at ht
  · have hb' := hb.create
    have hr' : Rest { s with sockets := s.sockets + 1 } :=
      ⟨hr.registered, hr.resets, hr.active, hr.sockfd⟩
    cases outcome with
    | connecting => exact inv_connecting hr' hb' ht
    | retry => exact Except.ok.inj ht ▸ inv_retry hr' hb'
    | error =>
      obtain rfl := Except.ok.inj ht
      have hr'' : Rest ({ s with sockets := s.sockets + 1 }.close s.sockets) :=
        ⟨hr.registered, hr.resets, hr.active, hr.sockfd⟩
      exact hr''.inv hb'.close hne
  · exact Except.ok.inj ht ▸ hr.inv hb hne

/-- The state between the removal of a channel and what is done with its socket. -/
theorem removeAndResetChannel_rest {handling : Bool} {u : State} (h : Live s)
    (hb : Books s s.sockfd.toList) (ha : handling = true → s.active = none)
    (ht : s.removeAndResetChannel handling = .ok (u, n)) :
    Rest u ∧ Books u [n] ∧ u.connect = s.connect := by
  obtain ⟨connector, hremove, ht⟩ := bind_eq_ok.mp ht
  obtain ⟨x, hx⟩ := Option.isSome_iff_exists.mp h.channel
  simp only [Connector.State.removeAndResetChannel, hx] at hremove
  obtain ⟨_, hactive, hremove⟩ := bind_eq_ok.mp hremove
  rw [assert_eq_ok] at hactive
  obtain rfl := Except.ok.inj hremove
  have hnone : s.active = none := hactive.elim ha id
  obtain ⟨m, hm⟩ := Option.isSome_iff_exists.mp h.sockfd
  rw [hm] at ht
  cases ht
  rw [hm] at hb
  refine ⟨⟨rfl, ?_, hnone, ?_⟩, ⟨hb.sockets, hb.handed⟩, rfl⟩
  · simp [h.resets]
  · simp

theorem Inv.stopInLoop (h : Inv s) (ht : s.stopInLoop = .ok t) : Inv t := by
  unfold State.stopInLoop at ht
  split_ifs at ht with hs
  · obtain ⟨hlive, hb⟩ := h.live hs
    obtain ⟨⟨u, n⟩, hu, ht⟩ := bind_eq_ok.mp ht
    obtain rfl := Except.ok.inj ht
    have hlive' : Live { s with state := .kDisconnected } :=
      ⟨hlive.registered, hlive.resets, hlive.channel, hlive.sockfd⟩
    obtain ⟨hr, hb, _⟩ := removeAndResetChannel_rest hlive' ⟨hb.sockets, hb.handed⟩ (by simp) hu
    exact inv_retry hr hb
  · exact Except.ok.inj ht ▸ h

theorem Inv.handleError (h : Inv s) (ha : s.active = none) (ht : s.handleError = .ok t) :
    Inv t ∧ t.active = none := by
  obtain ⟨_, hs, ht⟩ := bind_eq_ok.mp ht
  rw [assert_eq_ok] at hs
  obtain ⟨⟨u, n⟩, hu, ht⟩ := bind_eq_ok.mp ht
  obtain rfl := Except.ok.inj ht
  obtain ⟨hlive, hb⟩ := h.live hs
  obtain ⟨hr, hb, _⟩ := removeAndResetChannel_rest hlive hb (fun _ => ha) hu
  exact ⟨inv_retry hr hb, hr.retry.active⟩

theorem Inv.handleWrite (h : Inv s) (ha : s.active = none) {socket : Socket}
    (ht : s.handleWrite socket = .ok t) : Inv t := by
  unfold State.handleWrite at ht
  split at ht
  · rename_i hs
    obtain ⟨⟨u, n⟩, hu, ht⟩ := bind_eq_ok.mp ht
    obtain rfl := Except.ok.inj ht
    obtain ⟨hlive, hb⟩ := h.live hs
    obtain ⟨hr, hb, _⟩ := removeAndResetChannel_rest hlive hb (fun _ => ha) hu
    split_ifs
    · exact inv_retry hr hb
    · exact inv_retry hr hb
    · have hrest : Rest (u.connected n) := by
        simp only [State.connected]
        split_ifs
        · exact ⟨hr.registered, hr.resets, hr.active, hr.sockfd⟩
        · exact ⟨hr.registered, hr.resets, hr.active, hr.sockfd⟩
      have hstate : (u.connected n).state = .kConnected := by
        simp only [State.connected]
        split_ifs
        · rfl
        · rfl
      exact hrest.inv hb.connected (by simp [hstate])
  · obtain ⟨_, _, ht⟩ := bind_eq_ok.mp ht
    exact Except.ok.inj ht ▸ h

theorem handleEvent_eq (revents : Revents) (socket : Socket) :
    s.handleEvent revents socket =
      (if revents.error then { s with active := none }.handleError
        else .ok { s with active := none }) >>=
      fun u => if revents.write then u.handleWrite socket else .ok u := by
  unfold State.handleEvent
  cases revents.error <;> rfl

/-- The error callback and the write callback may both run; the second finds nothing to do. -/
theorem Inv.handleEvent (h : Inv s) (ha : s.active ≠ none) {revents : Revents} {socket : Socket}
    (ht : s.handleEvent revents socket = .ok t) : Inv t := by
  have h' : Inv { s with active := none } :=
    { live := fun hs => by
        obtain ⟨hlive, hb⟩ := h.live hs
        exact ⟨⟨hlive.registered, hlive.resets, hlive.channel, hlive.sockfd⟩, hb.sockets, hb.handed⟩
      rest := fun hs => absurd (h.rest hs).1.active ha }
  rw [handleEvent_eq] at ht
  obtain ⟨u, hu, ht⟩ := bind_eq_ok.mp ht
  have hI : Inv u ∧ u.active = none := by
    split_ifs at hu
    · exact h'.handleError rfl hu
    · obtain rfl := Except.ok.inj hu
      exact ⟨h', rfl⟩
  split_ifs at ht
  · exact hI.1.handleWrite hI.2 ht
  · exact Except.ok.inj ht ▸ hI.1

/-- The sockets do not depend on what is asked of the connector, now or later. -/
theorem Inv.members (h : Inv s) (connect started : Bool) (timers : List ℕ)
    (entered calls : List Call) : Inv { s with
      connect := connect, started := started, timers := timers, entered := entered,
      calls := calls } where
  live hs := by
    obtain ⟨hlive, hb⟩ := h.live hs
    exact ⟨⟨hlive.registered, hlive.resets, hlive.channel, hlive.sockfd⟩, hb.sockets, hb.handed⟩
  rest hs := by
    obtain ⟨hr, hb⟩ := h.rest hs
    exact ⟨⟨hr.registered, hr.resets, hr.active, hr.sockfd⟩, hb.sockets, hb.handed⟩

theorem Inv.setConnect (h : Inv s) (connect : Bool) : Inv (s.setConnect connect) :=
  h.members connect connect s.timers s.entered s.calls

/-- What other threads do to their functors does not matter. -/
theorem Inv.setCalls (h : Inv s) (entered calls : List Call) :
    Inv { s with entered := entered, calls := calls } :=
  h.members s.connect s.started s.timers entered calls

theorem startInLoop_state (ht : s.startInLoop outcome = .ok t) : s.state = .kDisconnected := by
  obtain ⟨_, hs, _⟩ := bind_eq_ok.mp ht
  exact assert_eq_ok.mp hs

theorem Inv.startInLoop (h : Inv s) (ht : s.startInLoop outcome = .ok t) : Inv t := by
  have hs := startInLoop_state ht
  obtain ⟨hr, hb⟩ := h.rest (by simp [hs])
  exact inv_startInLoop hr hb hs ht

theorem Inv.restart (h : Inv s) (hs : s.state ≠ .kConnecting) (ht : s.restart outcome = .ok t) :
    Inv t := by
  obtain ⟨hr, hb⟩ := h.rest hs
  exact inv_startInLoop
    (s := { s.setConnect true with state := .kDisconnected, retryDelayMs := kInitRetryDelayMs })
    ⟨hr.registered, hr.resets, hr.active, hr.sockfd⟩ ⟨hb.sockets, hb.handed⟩ rfl ht

theorem Inv.timer (h : Inv s) {delay : ℕ}
    (ht : { s with timers := s.timers.erase delay }.startInLoop outcome = .ok t) : Inv t :=
  (h.members s.connect s.started (s.timers.erase delay) s.entered s.calls).startInLoop ht

theorem Inv.resetChannel (h : Inv s) (hne : s.resets ≠ []) : Inv s.resetChannel := by
  have hs : s.state ≠ .kConnecting := fun hs => hne (h.live hs).1.resets
  obtain ⟨hr, hb⟩ := h.rest hs
  have htail : s.resets.tail = [] := by
    rw [hr.resets]
    cases s.channel with
    | none => rfl
    | some => rfl
  have hr' : Rest s.resetChannel := ⟨hr.registered, htail, hr.active, rfl⟩
  exact hr'.inv ⟨hb.sockets, hb.handed⟩ hs

theorem inv_initial : Inv initial := by
  have hr : Rest initial := ⟨rfl, rfl, rfl, rfl⟩
  exact hr.inv ⟨List.Perm.refl _, by simp [initial]⟩ (by simp [initial, Connector.initial])

theorem inv_step {e : Event} (h : Inv s) (hC : RestartsIdle s e) (he : enabled s e)
    (ht : step s e = .ok t) : Inv t := by
  cases e with
  | start outcome => exact (h.setConnect true).startInLoop ht
  | stop => exact (h.setConnect false).stopInLoop ht
  | restart outcome => exact h.restart hC ht
  | enter call =>
    have hset := h.setConnect (call = .startInLoop)
    exact Except.ok.inj ht ▸ hset.setCalls (s.entered ++ [call]) s.calls
  | queueInLoop call =>
    exact Except.ok.inj ht ▸ h.setCalls (s.entered.erase call) (s.calls ++ [call])
  | call outcome =>
    simp only [step] at ht
    split at ht
    · exact (h.setCalls s.entered _).startInLoop ht
    · exact (h.setCalls s.entered _).stopInLoop ht
    · exact Except.ok.inj ht ▸ h
  | timer delay outcome => exact h.timer ht
  | poll revents =>
    obtain ⟨hregistered, _⟩ := he
    obtain rfl := Except.ok.inj ht
    have hs : s.state = .kConnecting := by
      by_contra hs
      simp [(h.rest hs).1.registered] at hregistered
    obtain ⟨hlive, hb⟩ := h.live hs
    exact
      { live := fun _ =>
          ⟨⟨hlive.registered, hlive.resets, hlive.channel, hlive.sockfd⟩, hb.sockets, hb.handed⟩
        rest := fun hne => absurd hs hne }
  | handle socket =>
    simp only [step] at ht
    split at ht
    · exact h.handleEvent he ht
    · exact Except.ok.inj ht ▸ h
  | reset => exact Except.ok.inj ht ▸ h.resetChannel he.1

/-- Every socket is in one place. -/
theorem Inv.accounted (h : Inv s) : Accounted s := by
  have hcount {hand : List ℕ} (hb : Books s hand) {n : ℕ} (hn : n < s.sockets) :
      hand.count n + (s.closed.count n + (s.handed.map Prod.fst).count n) = 1 := by
    rw [← List.count_append, ← List.count_append, hb.sockets.count_eq]
    exact List.count_eq_one_of_mem List.nodup_range (List.mem_range.mpr hn)
  by_cases hs : s.state = .kConnecting
  · obtain ⟨hlive, hb⟩ := h.live hs
    refine ⟨fun n hn => ?_, hb.handed⟩
    have hc := hcount hb hn
    by_cases hown : s.sockfd = some n
    · left
      simp only [hown, Option.toList_some, List.count_singleton_self] at hc
      exact ⟨⟨hs, hlive.registered, hlive.channel, hown⟩, by omega, by omega⟩
    · have hnot : ¬Owned s n := fun ho => hown ho.2.2.2
      have hzero : s.sockfd.toList.count n = 0 := by
        rw [List.count_eq_zero]
        simpa using hown
      simp only [InOnePlace, hnot, false_and, not_false_eq_true, true_and, false_or]
      omega
  · obtain ⟨_, hb⟩ := h.rest hs
    refine ⟨fun n hn => ?_, hb.handed⟩
    have hc := hcount hb hn
    have hnot : ¬Owned s n := fun ho => hs ho.1
    rw [List.count_nil] at hc
    simp only [InOnePlace, hnot, false_and, not_false_eq_true, true_and, false_or]
    omega

/-- The channel of an abandoned attempt stays, and its socket is nowhere. -/
structure Leaked (s : State) : Prop where
  state : s.state = .kDisconnected
  channel : s.channel ≠ none
  resets : s.resets = []
  socket : ∃ n < s.sockets, n ∉ s.closed ∧ n ∉ s.handed.map Prod.fst

theorem Leaked.not_accounted (h : Leaked s) : ¬Accounted s := by
  intro hacc
  obtain ⟨n, hn, hclosed, hhanded⟩ := h.socket
  obtain ⟨hown, _⟩ | ⟨_, hcount, _⟩ | ⟨_, _, hcount⟩ := hacc.1 n hn
  · have hs := h.state
    rw [hown.1] at hs
    cases hs
  · rw [List.count_eq_zero.mpr hclosed] at hcount
    omega
  · rw [List.count_eq_zero.mpr hhanded] at hcount
    omega

/-- While the channel is there, an attempt that would make another one fails, and any other closes
its own socket. -/
theorem leaked_connectSocket {n : ℕ} (hs : s.state = .kDisconnected) (hch : s.channel ≠ none)
    (hr : s.resets = []) (hn : n < s.sockets) (hclosed : n ∉ s.closed)
    (hhanded : n ∉ s.handed.map Prod.fst) (ht : s.connectSocket outcome = .ok t) : Leaked t := by
  have hne : n ≠ s.sockets := by omega
  cases outcome with
  | connecting =>
    obtain ⟨_, hconnecting, _⟩ := bind_eq_ok.mp ht
    obtain ⟨_, hnone, _⟩ := bind_eq_ok.mp hconnecting
    exact absurd (assert_eq_ok.mp hnone) hch
  | retry =>
    obtain rfl := Except.ok.inj ht
    obtain ⟨hchannel, hresets⟩ :=
      retry_channel (s := { s with sockets := s.sockets + 1 }) (n := s.sockets)
    exact ⟨retry_state, hchannel ▸ hch, hresets.trans hr, n, Nat.lt_succ_of_lt hn,
      by simp [State.retry, State.close, hclosed, hne], hhanded⟩
  | error =>
    obtain rfl := Except.ok.inj ht
    exact ⟨hs, hch, hr, n, Nat.lt_succ_of_lt hn, by simp [State.close, hclosed, hne], hhanded⟩

theorem Leaked.startInLoop (h : Leaked s) (ht : s.startInLoop outcome = .ok t) : Leaked t := by
  obtain ⟨n, hn, hclosed, hhanded⟩ := h.socket
  obtain ⟨_, _, ht⟩ := bind_eq_ok.mp ht
  split_ifs at ht
  · exact leaked_connectSocket h.state h.channel h.resets hn hclosed hhanded ht
  · exact Except.ok.inj ht ▸ h

theorem Leaked.stopInLoop (h : Leaked s) (ht : s.stopInLoop = .ok t) : Leaked t := by
  have hs : s.state ≠ .kConnecting := by simp [h.state]
  rw [State.stopInLoop, if_neg hs] at ht
  exact Except.ok.inj ht ▸ h

theorem Leaked.handleEvent (h : Leaked s) {revents : Revents} {socket : Socket}
    (ht : s.handleEvent revents socket = .ok t) : Leaked t := by
  have h' : Leaked { s with active := none } := ⟨h.state, h.channel, h.resets, h.socket⟩
  have hs : s.state ≠ .kConnecting := by simp [h.state]
  rw [handleEvent_eq] at ht
  obtain ⟨u, hu, ht⟩ := bind_eq_ok.mp ht
  split at hu
  · obtain ⟨_, hconnecting, _⟩ := bind_eq_ok.mp hu
    exact absurd (assert_eq_ok.mp hconnecting) hs
  · obtain rfl := Except.ok.inj hu
    split at ht
    · rw [State.handleWrite, if_neg hs] at ht
      obtain ⟨_, _, ht⟩ := bind_eq_ok.mp ht
      exact Except.ok.inj ht ▸ h'
    · exact Except.ok.inj ht ▸ h'

theorem leaked_step {e : Event} (h : Leaked s) (he : enabled s e) (ht : step s e = .ok t) :
    Leaked t := by
  have hset (connect : Bool) : Leaked (s.setConnect connect) :=
    ⟨h.state, h.channel, h.resets, h.socket⟩
  have hcalls (entered calls : List Call) : Leaked { s with entered := entered, calls := calls } :=
    ⟨h.state, h.channel, h.resets, h.socket⟩
  cases e with
  | start outcome => exact (hset true).startInLoop ht
  | stop => exact (hset false).stopInLoop ht
  | restart outcome =>
    have h' : Leaked { s.setConnect true with
        state := .kDisconnected, retryDelayMs := kInitRetryDelayMs } :=
      ⟨rfl, h.channel, h.resets, h.socket⟩
    exact h'.startInLoop ht
  | enter call => exact Except.ok.inj ht ▸ ⟨h.state, h.channel, h.resets, h.socket⟩
  | queueInLoop call => exact Except.ok.inj ht ▸ hcalls (s.entered.erase call) (s.calls ++ [call])
  | call outcome =>
    simp only [step] at ht
    split at ht
    · exact (hcalls s.entered _).startInLoop ht
    · exact (hcalls s.entered _).stopInLoop ht
    · exact Except.ok.inj ht ▸ h
  | timer delay outcome =>
    have h' : Leaked { s with timers := s.timers.erase delay } :=
      ⟨h.state, h.channel, h.resets, h.socket⟩
    exact h'.startInLoop ht
  | poll revents => exact Except.ok.inj ht ▸ ⟨h.state, h.channel, h.resets, h.socket⟩
  | handle socket =>
    simp only [step] at ht
    split at ht
    · exact h.handleEvent ht
    · exact Except.ok.inj ht ▸ h
  | reset => exact absurd h.resets he.1

/-- A call of `restart()` abandons an attempt that is connecting. -/
theorem leaked_of_restart {e : Event} (h : Inv s) (hC : ¬RestartsIdle s e)
    (ht : step s e = .ok t) : Leaked t := by
  obtain ⟨outcome, rfl, hs⟩ : ∃ outcome, e = .restart outcome ∧ s.state = .kConnecting := by
    cases e with
    | restart outcome => exact ⟨outcome, rfl, not_not.mp hC⟩
    | start | stop | enter | queueInLoop | call | timer | poll | handle | reset =>
      exact absurd trivial hC
  obtain ⟨hlive, hb⟩ := h.live hs
  obtain ⟨n, hn⟩ := Option.isSome_iff_exists.mp hlive.sockfd
  have hperm := hb.sockets
  rw [hn, Option.toList_some] at hperm
  have hlt : n < s.sockets := List.mem_range.mp (hperm.mem_iff.mp (by simp))
  have hnodup := hperm.nodup_iff.mpr List.nodup_range
  rw [List.singleton_append, List.nodup_cons, List.mem_append, not_or] at hnodup
  obtain ⟨⟨hclosed, hhanded⟩, _⟩ := hnodup
  have hch : s.channel ≠ none := by
    obtain ⟨x, hx⟩ := Option.isSome_iff_exists.mp hlive.channel
    simp [hx]
  exact leaked_connectSocket
    (s := { s.setConnect true with state := .kDisconnected, retryDelayMs := kInitRetryDelayMs })
    rfl hch hlive.resets hlt hclosed hhanded ht

theorem dichotomy : Dichotomy system Inv Leaked RestartsIdle where
  init _ hs := hs ▸ inv_initial
  keeps _ _ _ h hC he ht := inv_step h hC he ht
  falls _ _ _ h hC _ ht := leaked_of_restart h hC ht
  stays _ _ _ h he ht := leaked_step h he ht

/-- Every socket is owned by the channel of an attempt that is connecting, closed once or handed
over once exactly when no call of `restart()` has met an attempt that is connecting. -/
theorem accounted_iff {es : List Event} (hr : Run system initial es t) :
    Accounted t ↔ Guarded system RestartsIdle initial es := by
  constructor
  · intro hacc
    by_contra hnot
    exact (dichotomy.run _ rfl hr hnot).not_accounted hacc
  · intro hg
    exact (dichotomy.guardedInvariant.run _ rfl hr hg).accounted

/-- `restart()` meets an attempt that is connecting, and its own is refused. -/
def restartRefused : List Event := [.start .connecting, .restart .retry]

theorem restartRefused_leaks : ∃ t, Run system initial restartRefused t ∧ t.sockets = 2 ∧
    t.closed = [1] ∧ t.handed = [] ∧ t.state = .kDisconnected ∧ t.registered = true ∧
    ¬Accounted t := by
  have hrun : ∃ t, Run system initial restartRefused t ∧ t.sockets = 2 ∧ t.closed = [1] ∧
      t.handed = [] ∧ t.state = .kDisconnected ∧ t.registered = true :=
    ⟨_, run_of_replay system rfl, rfl, rfl, rfl, rfl, rfl⟩
  obtain ⟨t, hr, hsockets, hclosed, hhanded, hs, hregistered⟩ := hrun
  refine ⟨t, hr, hsockets, hclosed, hhanded, hs, hregistered, fun hacc => ?_⟩
  have hzero := hacc.1 0 (by omega)
  simp [InOnePlace, Owned, hclosed, hhanded, hs] at hzero

/-- An attempt that fails with `POLLERR` and `POLLOUT` in one event, one that connects, and a
restart that is refused. -/
def restartIdle : List Event :=
  [.start .connecting, .poll ⟨true, true⟩, .handle ⟨true, false⟩, .reset, .timer 500 .connecting,
    .poll ⟨false, true⟩, .handle ⟨false, false⟩, .reset, .restart .retry]

theorem restartIdle_accounted : ∃ t, Run system initial restartIdle t ∧ t.sockets = 3 ∧
    t.closed = [0, 2] ∧ t.handed = [(1, true)] ∧ Accounted t := by
  have hreplay : (replay (restrict system RestartsIdle) initial restartIdle).any (fun t =>
      decide (t.sockets = 3 ∧ t.closed = [0, 2] ∧ t.handed = [(1, true)])) = true := by
    decide +kernel
  obtain ⟨t, hr, ht⟩ := exists_run_of_replay _ hreplay
  obtain ⟨hsockets, hclosed, hhanded⟩ := of_decide_eq_true ht
  have hr' := run_of_restrict system hr
  exact ⟨t, hr', hsockets, hclosed, hhanded, (accounted_iff hr').mpr (restrict_guarded system hr)⟩

end Muduo.Connector.Sockets

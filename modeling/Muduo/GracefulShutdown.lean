import Muduo.Library.StepSystem
import Muduo.TcpConnection

/-!
# Graceful shutdown

One caller makes `send` calls on a connection and then calls `shutdown`. A caller
other than the loop thread takes each call in steps: the test of `state_`, the
store to it, and the push of the functor. The loop thread runs `loop()`, in which
`POLLOUT` is handled and functors are executed. No write fails but with
`EWOULDBLOCK`.
-/
namespace Muduo.GracefulShutdown
open StepSystem

/-- Where the caller stands. -/
inductive Caller
  /-- between two calls -/
  | idle
  /-- in `send`, about to queue the message -/
  | sending (message : List UInt8)
  /-- in `shutdown`, about to store `kDisconnecting` -/
  | closing
  /-- in `shutdown`, about to queue `shutdownInLoop` -/
  | queueing
  | done
  deriving DecidableEq, Repr

structure State where
  loop : EventLoop PendingFunctor
  conn : TcpConnection
  /-- the caller is the loop thread -/
  isInLoopThread : Bool
  caller : Caller
  /-- the bytes of all messages given to `send` -/
  issued : List UInt8

inductive Event
  | callSend (message : List UInt8)
  | pushSend
  | callShutdown
  | setDisconnecting
  | pushShutdown
  /-- the loop thread is the caller, inside a handler or functor -/
  | loopSend (message : List UInt8) (w : WriteResult)
  | loopShutdown
  | poll (active : List ChannelId)
  /-- the next active channel is handled; that of the connection has `POLLOUT` -/
  | handle (w : WriteResult)
  | endHandling
  | swap
  | execute (w : WriteResult)
  | endFunctors
  deriving DecidableEq, Repr

/-- A write succeeds or would block. -/
def Answer : WriteResult → Prop
  | .accepts _ => True
  | .fails errno => errno = EWOULDBLOCK

instance : (w : WriteResult) → Decidable (Answer w)
  | .accepts _ => inferInstanceAs (Decidable True)
  | .fails errno => inferInstanceAs (Decidable (errno = EWOULDBLOCK))

def Caller.isSending : Caller → Bool
  | sending _ => true
  | _ => false

/-- The loop thread runs a handler or a functor. -/
def State.userCode (s : State) : Prop :=
  s.loop.position = .handling ∨ s.loop.position = .functors

def enabled (s : State) : Event → Prop
  | .callSend _ | .callShutdown => s.isInLoopThread = false ∧ s.caller = .idle
  | .pushSend => s.caller.isSending = true
  | .setDisconnecting => s.caller = .closing
  | .pushShutdown => s.caller = .queueing
  | .loopSend _ w => s.isInLoopThread = true ∧ s.caller = .idle ∧ s.userCode ∧ Answer w
  | .loopShutdown => s.isInLoopThread = true ∧ s.caller = .idle ∧ s.userCode
  | .poll active => s.loop.position = .poll ∧ active.Nodup
  | .handle w => s.loop.position = .handling ∧ s.loop.unvisited ≠ [] ∧ Answer w
  | .endHandling => s.loop.position = .handling ∧ s.loop.unvisited = []
  | .swap => s.loop.position = .swapping
  | .execute w => s.loop.position = .functors ∧ s.loop.batch ≠ [] ∧ Answer w
  | .endFunctors => s.loop.position = .functors ∧ s.loop.batch = []

instance (s : State) : Decidable s.userCode := inferInstanceAs (Decidable (_ ∨ _))

instance (s : State) : (e : Event) → Decidable (enabled s e)
  | .callSend _ | .callShutdown | .poll _ | .endHandling | .endFunctors =>
    inferInstanceAs (Decidable (_ ∧ _))
  | .handle _ | .execute _ | .loopShutdown => inferInstanceAs (Decidable (_ ∧ _ ∧ _))
  | .loopSend _ _ => inferInstanceAs (Decidable (_ ∧ _ ∧ _ ∧ _))
  | .pushSend | .setDisconnecting | .pushShutdown | .swap => inferInstanceAs (Decidable (_ = _))

/-- A functor of the connection is run; the user's callbacks make no calls of their own. -/
def runFunctor (l : EventLoop PendingFunctor) (c : TcpConnection) (w : WriteResult) :
    PendingFunctor → Checked (EventLoop PendingFunctor × TcpConnection)
  | .sendInLoop _ message => c.sendInLoop l message w
  | .shutdownInLoop _ => c.shutdownInLoop l
  | _ => .ok (l, c)

def step (s : State) : Event → Checked State
  | .callSend message =>
    .ok { s with
      caller := if s.conn.state = .kConnected then .sending message else .idle
      issued := s.issued ++ message }
  | .pushSend => match s.caller with
    | .sending message =>
      .ok { s with
        loop := s.loop.queueInLoop false (.sendInLoop s.conn.id message)
        caller := .idle }
    | _ => .ok s
  | .callShutdown =>
    .ok { s with caller := if s.conn.state = .kConnected then .closing else .done }
  | .setDisconnecting =>
    .ok { s with conn := { s.conn with state := .kDisconnecting }, caller := .queueing }
  | .pushShutdown =>
    .ok { s with
      loop := s.loop.queueInLoop false (.shutdownInLoop s.conn.id)
      caller := .done }
  | .loopSend message w => do
    let (loop, conn) ← s.conn.send s.loop true message w
    return { s with loop, conn, issued := s.issued ++ message }
  | .loopShutdown => do
    let (loop, conn) ← s.conn.shutdown s.loop true
    return { s with loop, conn, caller := .done }
  | .poll active => .ok { s with loop := s.loop.pollReturn active }
  | .handle w => match s.loop.unvisited with
    | [] => .ok s
    | ch :: rest => do
      let loop := s.loop.visit ch rest
      if ch = s.conn.channel.id then
        let (loop, conn) ← s.conn.handleWrite loop w
        return { s with loop, conn }
      else return { s with loop }
  | .endHandling => .ok { s with loop := s.loop.endHandling }
  | .swap => .ok { s with loop := s.loop.swap }
  | .execute w => match s.loop.batch with
    | [] => .ok s
    | cb :: rest => do
      let (loop, conn) ← runFunctor (s.loop.take rest) s.conn w cb
      return { s with loop, conn }
  | .endFunctors => .ok { s with loop := s.loop.endFunctors }

/-- An established connection that has sent nothing, and a loop with nothing queued. -/
structure Initial (s : State) : Prop where
  served : TcpConnection.Served s.loop s.conn
  state : s.conn.state = .kConnected
  written : s.conn.socket.written = []
  writeShutdown : s.conn.socket.writeShutdown = false
  outputBuffer : s.conn.outputBuffer.readable = []
  isWriting : s.conn.channel.isWriting = false
  batch : s.loop.batch = []
  pendingFunctors : s.loop.pendingFunctors = []
  caller : s.caller = .idle
  issued : s.issued = []

def system : System State Event Assertion where
  init := Initial
  enabled := enabled
  step := step

instance (s : State) (e : Event) : Decidable (system.enabled s e) :=
  inferInstanceAs (Decidable (enabled s e))

/-- Where the write half has been shut down, all that was sent has been written. -/
def AllWritten (s : State) : Prop :=
  s.conn.socket.writeShutdown = true → s.conn.socket.written = s.issued

/-- The functors that are queued, in the order in which they will run. -/
def State.queue (s : State) : List PendingFunctor := s.loop.batch ++ s.loop.pendingFunctors

/-- The bytes on their way to `sendInLoop`. -/
def queuedData : List PendingFunctor → List UInt8
  | [] => []
  | .sendInLoop _ message :: q => message ++ queuedData q
  | _ :: q => queuedData q

/-- `handleWrite` does not drain a connection in `kDisconnecting` while data of the
caller is still queued. -/
def NothingQueued (s : State) : Event → Prop
  | .handle w => ¬(s.loop.unvisited.head? = some s.conn.channel.id ∧
      s.conn.state = .kDisconnecting ∧ s.conn.Drains w ∧ queuedData s.queue ≠ [])
  | _ => True

/-- Behind a `shutdownInLoop` no data is queued. -/
def ShutdownLast : List PendingFunctor → Prop
  | [] => True
  | .shutdownInLoop _ :: q => queuedData q = [] ∧ ShutdownLast q
  | _ :: q => ShutdownLast q

theorem queuedData_append (q r : List PendingFunctor) :
    queuedData (q ++ r) = queuedData q ++ queuedData r := by
  induction q with
  | nil => rfl
  | cons f q ih =>
    cases f with
    | sendInLoop conn message =>
      simp only [List.cons_append, queuedData, ih, List.append_assoc]
    | _ => exact ih

theorem ShutdownLast.append {q r : List PendingFunctor} (h : ShutdownLast q)
    (hr : ShutdownLast r) (hd : queuedData r = []) : ShutdownLast (q ++ r) := by
  induction q with
  | nil => exact hr
  | cons f q ih =>
    cases f with
    | shutdownInLoop conn =>
      refine ⟨?_, ih h.2⟩
      show queuedData (q ++ r) = []
      rw [queuedData_append, h.1, hd]
      rfl
    | _ => exact ih h

theorem shutdownLast_of_forall {q : List PendingFunctor}
    (h : ∀ conn, .shutdownInLoop conn ∉ q) : ShutdownLast q := by
  induction q with
  | nil => trivial
  | cons f q ih =>
    have hq : ShutdownLast q := ih fun conn hm => h conn (List.mem_cons_of_mem _ hm)
    cases f with
    | shutdownInLoop conn => exact absurd List.mem_cons_self (h conn)
    | _ => exact hq

/-- Callbacks carry no data and are no shutdown. -/
theorem callbacks_inert {conn : ConnId} {new : List PendingFunctor}
    (h : ∀ f ∈ new, PendingFunctor.IsCallback conn f) :
    queuedData new = [] ∧ ∀ d, .shutdownInLoop d ∉ new := by
  constructor
  · induction new with
    | nil => rfl
    | cons f new ih =>
      have hnew := ih fun g hg => h g (List.mem_cons_of_mem _ hg)
      have hf := h f List.mem_cons_self
      cases f with
      | writeCompleteCallback d => exact hnew
      | highWaterMarkCallback d len => exact hnew
      | _ => exact hf.elim
  · exact fun d hm => h _ hm

/-- The caller has not stored `kDisconnecting`. -/
def Caller.isOpen : Caller → Bool
  | idle | sending _ | closing => true
  | queueing | done => false

/-- The message that `send` has accepted but not queued. -/
def Caller.data : Caller → List UInt8
  | sending message => message
  | _ => []

structure Inv (s : State) : Prop where
  served : TcpConnection.Served s.loop s.conn
  buffered : s.conn.Buffered
  batch : s.loop.position ≠ .functors → s.loop.batch = []
  account : s.conn.stream ++ queuedData s.queue ++ s.caller.data = s.issued
  shutdownLast : ShutdownLast s.queue
  opened : s.caller.isOpen = true → s.conn.state = .kConnected ∧
    s.conn.socket.writeShutdown = false ∧ ∀ conn, .shutdownInLoop conn ∉ s.queue
  closed : s.caller.isOpen = false → s.conn.state = .kDisconnecting
  inLoop : s.isInLoopThread = true → queuedData s.queue = [] ∧ s.caller.data = []

theorem inv_init {s : State} (h : Initial s) : Inv s where
  served := h.served
  buffered := by simp [TcpConnection.Buffered, h.isWriting, h.outputBuffer]
  batch _ := h.batch
  account := by
    simp [TcpConnection.stream, h.written, h.outputBuffer, State.queue, h.batch, h.pendingFunctors,
      queuedData, h.caller, h.issued, Caller.data]
  shutdownLast := by simp [State.queue, h.batch, h.pendingFunctors, ShutdownLast]
  opened _ := by simp [h.state, h.writeShutdown, State.queue, h.batch, h.pendingFunctors]
  closed hc := by simp [h.caller, Caller.isOpen] at hc
  inLoop _ := by
    simp [State.queue, h.batch, h.pendingFunctors, queuedData, h.caller, Caller.data]

variable {s t : State}

/-- With the write half shut down, everything written means that nothing is on its way. -/
theorem Inv.allWritten_of_prefix (h : Inv t) (hs : AllWritten s)
    (hw : s.conn.socket.writeShutdown = true)
    (hp : s.conn.socket.written <+: t.conn.socket.written) (hi : t.issued = s.issued) :
    t.conn.socket.written = t.issued := by
  have ht : t.conn.socket.written <+: t.issued := by
    rw [← h.account, TcpConnection.stream, List.append_assoc, List.append_assoc]
    exact List.prefix_append ..
  refine ht.eq_of_length_le ?_
  rw [hi, ← hs hw]
  exact hp.length_le

/-- What every step owes: the invariant, and `AllWritten` exactly under its guard. -/
structure Owed (s : State) (e : Event) (t : State) : Prop where
  inv : Inv t
  keeps : AllWritten s → NothingQueued s e → AllWritten t
  breaks : ¬NothingQueued s e → ¬AllWritten t

/-- A step that is not a `handleWrite` and does not shut the write half down. -/
theorem Owed.of_inv {e : Event} (h : Inv t) (hg : NothingQueued s e)
    (hsh : t.conn.socket.writeShutdown = s.conn.socket.writeShutdown)
    (hp : s.conn.socket.written <+: t.conn.socket.written)
    (hi : s.conn.socket.writeShutdown = true → t.issued = s.issued) : Owed s e t where
  inv := h
  keeps hs _ hw := by
    rw [hsh] at hw
    exact h.allWritten_of_prefix hs hw hp (hi hw)
  breaks hn := absurd hg hn

theorem Inv.not_writeShutdown (h : Inv s) (ho : s.caller.isOpen = true) :
    s.conn.socket.writeShutdown ≠ true := by
  rw [(h.opened ho).2.1]
  decide

/-- The loop with its queue, as one list, after work on the connection. -/
theorem queue_of_keeps {l l' : EventLoop PendingFunctor} {c c' : TcpConnection}
    (hk : TcpConnection.Keeps l c l' c') :
    ∃ new, l'.batch ++ l'.pendingFunctors = l.batch ++ l.pendingFunctors ++ new ∧
      queuedData new = [] ∧ ∀ d, .shutdownInLoop d ∉ new := by
  obtain ⟨new, hnew, hcb⟩ := hk.loop.pending
  refine ⟨new, ?_, callbacks_inert hcb⟩
  have hb : l'.batch = l.batch := by rw [hk.loop.rest]
  rw [hb, hnew, List.append_assoc]

/-- Work of the loop thread on the connection, where `l` is the loop when it begins. -/
theorem inv_of_work (k : Caller) (issued : List UInt8) {l l' : EventLoop PendingFunctor}
    {c' : TcpConnection} (hk : TcpConnection.Keeps l s.conn l' c')
    (hb : l.position ≠ .functors → l.batch = []) (hbuf : c'.Buffered)
    (hacc : c'.stream ++ queuedData (l.batch ++ l.pendingFunctors) ++ k.data = issued)
    (hlast : ShutdownLast (l.batch ++ l.pendingFunctors))
    (ho : k.isOpen = true → c'.state = .kConnected ∧ c'.socket.writeShutdown = false ∧
      ∀ conn, .shutdownInLoop conn ∉ l.batch ++ l.pendingFunctors)
    (hc : k.isOpen = false → c'.state = .kDisconnecting)
    (hin : s.isInLoopThread = true →
      queuedData (l.batch ++ l.pendingFunctors) = [] ∧ k.data = []) :
    Inv { s with loop := l', conn := c', caller := k, issued := issued } := by
  obtain ⟨new, hq, hdata, hnot⟩ := queue_of_keeps hk
  have hd : queuedData (l'.batch ++ l'.pendingFunctors) =
      queuedData (l.batch ++ l.pendingFunctors) := by
    rw [hq, queuedData_append, hdata, List.append_nil]
  exact {
    served := hk.served
    buffered := hbuf
    batch := by
      show l'.position ≠ .functors → l'.batch = []
      rw [hk.loop.rest]
      exact hb
    account := by
      show c'.stream ++ queuedData (l'.batch ++ l'.pendingFunctors) ++ k.data = issued
      rw [hd, hacc]
    shutdownLast := by
      show ShutdownLast (l'.batch ++ l'.pendingFunctors)
      rw [hq]
      exact hlast.append (shutdownLast_of_forall hnot) hdata
    opened := by
      intro hopen
      obtain ⟨hs, hw, hno⟩ := ho hopen
      refine ⟨hs, hw, fun conn hm => ?_⟩
      have hm' : .shutdownInLoop conn ∈ l'.batch ++ l'.pendingFunctors := hm
      rw [hq] at hm'
      rcases List.mem_append.mp hm' with hm' | hm'
      · exact hno conn hm'
      · exact hnot conn hm'
    closed := hc
    inLoop := by
      intro hi
      obtain ⟨h₁, h₂⟩ := hin hi
      exact ⟨hd.trans h₁, h₂⟩ }

/-- A step of the loop that leaves connection, caller and queue alone. -/
theorem inv_of_loop (h : Inv s) {l : EventLoop PendingFunctor} (hid : l.id = s.loop.id)
    (hp : l.poller = s.loop.poller) (hb : l.position ≠ .functors → l.batch = [])
    (hq : l.batch ++ l.pendingFunctors = s.queue) : Inv { s with loop := l } where
  served := h.served.frame hid hp
  buffered := h.buffered
  batch := hb
  account := by
    show _ ++ queuedData (l.batch ++ l.pendingFunctors) ++ _ = _
    rw [hq]
    exact h.account
  shutdownLast := by
    show ShutdownLast (l.batch ++ l.pendingFunctors)
    rw [hq]
    exact h.shutdownLast
  opened := by
    show _ → _ ∧ _ ∧ ∀ conn, _ ∉ l.batch ++ l.pendingFunctors
    rw [hq]
    exact h.opened
  closed := h.closed
  inLoop := by
    show _ → queuedData (l.batch ++ l.pendingFunctors) = [] ∧ _
    rw [hq]
    exact h.inLoop

theorem not_refused {c : TcpConnection} {w : WriteResult} (hw : Answer w) : ¬c.Refused w := by
  rintro ⟨_, _, rfl⟩
  exact absurd hw (by decide)

theorem owed_callSend (h : Inv s) (hc : s.caller = .idle) (hl : s.isInLoopThread = false)
    (message : List UInt8) : Yields (step s (.callSend message)) (Owed s (.callSend message)) := by
  have hopen : s.caller.isOpen = true := by rw [hc]; rfl
  obtain ⟨hs, hw, hno⟩ := h.opened hopen
  have hacc := h.account
  rw [hc] at hacc
  rw [step, if_pos hs]
  refine yields_ok (.of_inv ?_ trivial rfl (List.prefix_refl _) ?_)
  · exact {
      served := h.served
      buffered := h.buffered
      batch := h.batch
      account := by
        show s.conn.stream ++ queuedData s.queue ++ message = s.issued ++ message
        rw [← hacc]
        simp [Caller.data]
      shutdownLast := h.shutdownLast
      opened := fun _ => ⟨hs, hw, hno⟩
      closed := fun hcl => by cases hcl
      inLoop := fun hi => by
        rw [hl] at hi
        cases hi }
  · exact fun hsh => absurd hsh (h.not_writeShutdown hopen)

/-- Another thread pushes a functor, at the end of a call. -/
theorem inv_push (h : Inv s) {cb : PendingFunctor} {k : Caller}
    (hacc : queuedData [cb] ++ k.data = s.caller.data)
    (hlast : ShutdownLast (s.queue ++ [cb]))
    (ho : k.isOpen = true → s.caller.isOpen = true ∧ ∀ conn, cb ≠ .shutdownInLoop conn)
    (hc : k.isOpen = false → s.caller.isOpen = false)
    (hin : s.isInLoopThread = true → queuedData [cb] = [] ∧ k.data = []) :
    Inv { s with loop := s.loop.queueInLoop false cb, caller := k } := by
  have hframe : EventLoop.Frame s.conn.channel (fun _ => True) s.loop
      (s.loop.queueInLoop false cb) := EventLoop.frame_queueInLoop s.loop _ _ false trivial
  have hb : (s.loop.queueInLoop false cb).batch = s.loop.batch := by rw [hframe.rest]
  have hpend : (s.loop.queueInLoop false cb).pendingFunctors = s.loop.pendingFunctors ++ [cb] := by
    unfold EventLoop.queueInLoop
    dsimp only
    split <;> rfl
  have hq : (s.loop.queueInLoop false cb).batch ++ (s.loop.queueInLoop false cb).pendingFunctors =
      s.queue ++ [cb] := by
    rw [hb, hpend, State.queue, List.append_assoc]
  exact {
    served := h.served.frame (TcpConnection.queueInLoop_id _ _)
      (TcpConnection.queueInLoop_poller _ _)
    buffered := h.buffered
    batch := by
      show _ → (s.loop.queueInLoop false cb).batch = []
      rw [hb, hframe.rest]
      exact h.batch
    account := by
      show _ ++ queuedData ((s.loop.queueInLoop false cb).batch ++ _) ++ k.data = s.issued
      rw [hq, queuedData_append, ← h.account, ← hacc]
      simp only [List.append_assoc]
    shutdownLast := by
      show ShutdownLast ((s.loop.queueInLoop false cb).batch ++ _)
      rw [hq]
      exact hlast
    opened := by
      intro hopen
      obtain ⟨hso, hne⟩ := ho hopen
      obtain ⟨hs, hw, hno⟩ := h.opened hso
      refine ⟨hs, hw, fun conn hm => ?_⟩
      have hm' : .shutdownInLoop conn ∈ (s.loop.queueInLoop false cb).batch ++
        (s.loop.queueInLoop false cb).pendingFunctors := hm
      rw [hq, List.mem_append, List.mem_singleton] at hm'
      rcases hm' with hm' | hm'
      · exact hno conn hm'
      · exact hne conn hm'.symm
    closed := fun hcl => h.closed (hc hcl)
    inLoop := by
      intro hi
      show queuedData ((s.loop.queueInLoop false cb).batch ++ _) = [] ∧ k.data = []
      rw [hq, queuedData_append, (h.inLoop hi).1, (hin hi).1]
      exact ⟨rfl, (hin hi).2⟩ }

theorem owed_pushSend (h : Inv s) : Yields (step s .pushSend) (Owed s .pushSend) := by
  rw [step]
  split
  · rename_i message hc
    have hopen : s.caller.isOpen = true := by rw [hc]; rfl
    obtain ⟨_, _, hno⟩ := h.opened hopen
    have hnot : ∀ conn, PendingFunctor.sendInLoop s.conn.id message ≠ .shutdownInLoop conn := by
      intro conn he
      cases he
    refine yields_ok (.of_inv (inv_push h ?_ ?_ ?_ ?_ ?_) trivial rfl (List.prefix_refl _)
      fun _ => rfl)
    · rw [hc]
      simp [queuedData, Caller.data]
    · refine shutdownLast_of_forall fun conn hm => ?_
      rw [List.mem_append, List.mem_singleton] at hm
      rcases hm with hm | hm
      · exact hno conn hm
      · exact hnot conn hm.symm
    · exact fun _ => ⟨hopen, hnot⟩
    · exact fun hcl => by cases hcl
    · intro hi
      have hdata := (h.inLoop hi).2
      rw [hc] at hdata
      have hm : message = [] := hdata
      simp [queuedData, Caller.data, hm]
  · exact yields_ok (.of_inv h trivial rfl (List.prefix_refl _) fun _ => rfl)

theorem owed_callShutdown (h : Inv s) (hc : s.caller = .idle) :
    Yields (step s .callShutdown) (Owed s .callShutdown) := by
  have hopen : s.caller.isOpen = true := by rw [hc]; rfl
  have ho := h.opened hopen
  have hacc := h.account
  have hin := h.inLoop
  rw [hc] at hacc hin
  rw [step, if_pos ho.1]
  refine yields_ok (.of_inv ?_ trivial rfl (List.prefix_refl _) fun _ => rfl)
  exact ⟨h.served, h.buffered, h.batch, hacc, h.shutdownLast, fun _ => ho,
    fun hcl => (by cases hcl), hin⟩

theorem owed_setDisconnecting (h : Inv s) (hc : s.caller = .closing) :
    Yields (step s .setDisconnecting) (Owed s .setDisconnecting) := by
  have hacc := h.account
  have hin := h.inLoop
  rw [hc] at hacc hin
  refine yields_ok (.of_inv ?_ trivial rfl (List.prefix_refl _) fun _ => rfl)
  exact ⟨⟨h.served.loop, h.served.ownerLoop, h.served.settled⟩, h.buffered, h.batch, hacc,
    h.shutdownLast, fun hopen => (by cases hopen), fun _ => rfl, hin⟩

theorem owed_pushShutdown (h : Inv s) (hc : s.caller = .queueing) :
    Yields (step s .pushShutdown) (Owed s .pushShutdown) := by
  refine yields_ok (.of_inv (inv_push h ?_ ?_ ?_ ?_ ?_) trivial rfl (List.prefix_refl _)
    fun _ => rfl)
  · rw [hc]
    rfl
  · exact h.shutdownLast.append ⟨rfl, trivial⟩ rfl
  · exact fun hopen => by cases hopen
  · intro _
    rw [hc]
    rfl
  · exact fun _ => ⟨rfl, rfl⟩

theorem owed_loopSend (h : Inv s) (hl : s.isInLoopThread = true) (hc : s.caller = .idle)
    (message : List UInt8) {w : WriteResult} (hw : Answer w) :
    Yields (step s (.loopSend message w)) (Owed s (.loopSend message w)) := by
  have hopen : s.caller.isOpen = true := by rw [hc]; rfl
  obtain ⟨hs, hsh, hno⟩ := h.opened hopen
  obtain ⟨hq, hdata⟩ := h.inLoop hl
  rw [step, TcpConnection.send, if_pos hs, if_pos rfl]
  refine (TcpConnection.sendInLoop_spec h.served (by rw [hs]; decide) message w).bind ?_
  rintro ⟨l', c'⟩ ⟨hk, hr, hst, hbuf⟩
  rw [if_neg (not_refused hw)] at hst
  have hinv := inv_of_work s.caller (s.issued ++ message) hk h.batch
    (hbuf h.buffered) ?_ h.shutdownLast ?_ ?_ (fun _ => ⟨hq, hdata⟩)
  · refine yields_ok (.of_inv hinv trivial hr.writeShutdown hk.conn.written ?_)
    exact fun hw => absurd hw (h.not_writeShutdown hopen)
  · have hacc := h.account
    rw [hq, hdata, List.append_nil, List.append_nil] at hacc
    show c'.stream ++ queuedData s.queue ++ s.caller.data = _
    rw [hst, hq, hdata, hacc, List.append_nil, List.append_nil]
  · exact fun _ => ⟨hr.state.trans hs, hr.writeShutdown.trans hsh, hno⟩
  · intro hcl
    rw [hopen] at hcl
    cases hcl

/-- In the loop thread `shutdown` finds nothing queued, and shuts the write half
down only if nothing is buffered either. -/
theorem owed_loopShutdown (h : Inv s) (hl : s.isInLoopThread = true) (hc : s.caller = .idle) :
    Yields (step s .loopShutdown) (Owed s .loopShutdown) := by
  have hopen : s.caller.isOpen = true := by rw [hc]; rfl
  obtain ⟨hs, hsh, _⟩ := h.opened hopen
  obtain ⟨hq, hdata⟩ := h.inLoop hl
  have hacc := h.account
  rw [hq, hdata, List.append_nil, List.append_nil] at hacc
  rw [step]
  refine (TcpConnection.shutdown_inLoop_spec h.served).bind ?_
  rintro ⟨l', c'⟩ ⟨hk, hd, hw⟩
  have hinv := inv_of_work .done s.issued hk h.batch (hd.buffered h.buffered)
    ?_ h.shutdownLast ?_ ?_ (fun _ => ⟨hq, rfl⟩)
  · refine yields_ok ⟨hinv, fun _ _ hw' => ?_, fun hn => absurd trivial hn⟩
    rcases hw.mp hw' with hw' | ⟨_, hnw⟩
    · rw [hsh] at hw'
      cases hw'
    · have hnil : c'.outputBuffer.readable = [] := by
        rw [hd.outputBuffer]
        by_contra hne
        have := h.buffered.mpr hne
        rw [hnw] at this
        cases this
      show c'.socket.written = s.issued
      rw [← hacc, ← hd.stream, TcpConnection.stream, hnil, List.append_nil]
  · show c'.stream ++ queuedData s.queue ++ [] = s.issued
    rw [hd.stream, hq, hacc, List.append_nil, List.append_nil]
  · exact fun hopen => by cases hopen
  · intro _
    show c'.state = _
    rw [hd.state, if_pos hs]

/-- A step of the loop that leaves connection, caller and queue alone. -/
theorem owed_loop (h : Inv s) (e : Event) (hg : NothingQueued s e)
    {l : EventLoop PendingFunctor} (hid : l.id = s.loop.id) (hp : l.poller = s.loop.poller)
    (hb : l.position ≠ .functors → l.batch = [])
    (hq : l.batch ++ l.pendingFunctors = s.queue) : Owed s e { s with loop := l } :=
  .of_inv (inv_of_loop h hid hp hb hq) hg rfl (List.prefix_refl _) fun _ => rfl

theorem owed_handleWrite (h : Inv s) {w : WriteResult} {ch : ChannelId} {rest : List ChannelId}
    (hp : s.loop.position = .handling) (hu : s.loop.unvisited = ch :: rest)
    (hch : ch = s.conn.channel.id) :
    Yields (s.conn.handleWrite (s.loop.visit ch rest) w) fun r =>
      Owed s (.handle w) { s with loop := r.1, conn := r.2 } := by
  have hb := h.batch (by rw [hp]; decide)
  have hserved : TcpConnection.Served (s.loop.visit ch rest) s.conn := h.served.frame rfl rfl
  refine (TcpConnection.handleWrite_spec hserved w).mono ?_
  rintro ⟨l', c'⟩ ⟨hk, hw⟩
  have hinv := inv_of_work s.caller s.issued (s := s) hk (fun _ => hb)
    (hw.buffered h.buffered) ?_ h.shutdownLast ?_ ?_ h.inLoop
  · refine ⟨hinv, fun hs hg hsh => ?_, fun hg hall => ?_⟩
    · rcases hw.writeShutdown.mp hsh with hsh' | ⟨hst, hd⟩
      · exact hinv.allWritten_of_prefix hs hsh' hk.conn.written rfl
      · have hnil : queuedData s.queue = [] := by
          by_contra hne
          exact hg ⟨by rw [hu, hch]; rfl, hst, hd, hne⟩
        have hdata : s.caller.data = [] := by
          cases hc : s.caller with
          | sending message =>
            rw [(h.opened (by rw [hc]; rfl)).1] at hst
            cases hst
          | _ => rfl
        have hacc := h.account
        rw [hnil, hdata, List.append_nil, List.append_nil, ← hw.stream, TcpConnection.stream,
          hw.drained hd, List.append_nil] at hacc
        exact hacc
    · rw [NothingQueued, not_not] at hg
      obtain ⟨_, hst, hd, hne⟩ := hg
      have hwr : c'.socket.written = s.issued := hall (hw.writeShutdown.mpr (.inr ⟨hst, hd⟩))
      have hacc := h.account
      rw [← hw.stream, TcpConnection.stream, hw.drained hd, List.append_nil, hwr,
        List.append_assoc] at hacc
      have hlen := congrArg List.length hacc
      simp only [List.length_append] at hlen
      exact hne (List.length_eq_zero_iff.mp (by omega))
  · rw [hw.stream]
    exact h.account
  · intro hopen
    obtain ⟨hs, hsh, hno⟩ := h.opened hopen
    refine ⟨hw.state.trans hs, ?_, hno⟩
    by_contra hne
    have hne' : c'.socket.writeShutdown = true := by simpa using hne
    rcases hw.writeShutdown.mp hne' with hsh' | ⟨hst, _⟩
    · exact absurd hsh' (h.not_writeShutdown hopen)
    · rw [hs] at hst
      cases hst
  · exact fun hcl => hw.state.trans (h.closed hcl)

theorem owed_handle (h : Inv s) {w : WriteResult} (hp : s.loop.position = .handling) :
    Yields (step s (.handle w)) (Owed s (.handle w)) := by
  have hb := h.batch (by rw [hp]; decide)
  rw [step]
  split
  · rename_i hu
    refine yields_ok (.of_inv h ?_ rfl (List.prefix_refl _) fun _ => rfl)
    simp [NothingQueued, hu]
  · rename_i ch rest hu
    dsimp only
    by_cases hch : ch = s.conn.channel.id
    · rw [if_pos hch]
      exact (owed_handleWrite h hp hu hch).bind fun _ hr => yields_ok hr
    · rw [if_neg hch]
      refine yields_ok (owed_loop h (.handle w) ?_ rfl rfl (fun _ => hb) rfl)
      simp [NothingQueued, hu, hch]

/-- Data leaves the queue for the stream. -/
theorem owed_executeSend (h : Inv s) {w : WriteResult} (hp : s.loop.position = .functors)
    (hw : Answer w) {conn : ConnId} {message : List UInt8} {rest : List PendingFunctor}
    (hq : s.loop.batch = .sendInLoop conn message :: rest) :
    Yields (s.conn.sendInLoop (s.loop.take rest) message w) fun r =>
      Owed s (.execute w) { s with loop := r.1, conn := r.2 } := by
  have hacc := h.account
  have hlast := h.shutdownLast
  have hin := h.inLoop
  have hop := h.opened
  unfold State.queue at hacc hlast hin hop
  rw [hq] at hacc hlast hin hop
  have hserved : TcpConnection.Served (s.loop.take rest) s.conn := h.served.frame rfl rfl
  have hnd : s.conn.state ≠ .kDisconnected := by
    cases hc : s.caller.isOpen with
    | true => rw [(h.opened hc).1]; decide
    | false => rw [h.closed hc]; decide
  refine (TcpConnection.sendInLoop_spec hserved hnd message w).mono ?_
  rintro ⟨l', c'⟩ ⟨hk, hr, hst, hbuf⟩
  rw [if_neg (not_refused hw)] at hst
  have hinv := inv_of_work s.caller s.issued (s := s) hk (fun hne => absurd hp hne)
    (hbuf h.buffered) ?_ hlast ?_ ?_ ?_
  · exact .of_inv hinv trivial hr.writeShutdown hk.conn.written fun _ => rfl
  · rw [hst, ← hacc]
    simp [queuedData, EventLoop.take]
  · intro hopen
    obtain ⟨hs, hsh, hno⟩ := hop hopen
    exact ⟨hr.state.trans hs, hr.writeShutdown.trans hsh,
      fun d hm => hno d (List.mem_cons_of_mem _ hm)⟩
  · exact fun hcl => hr.state.trans (h.closed hcl)
  · intro hi
    obtain ⟨h₁, h₂⟩ := hin hi
    exact ⟨(List.append_eq_nil_iff.mp h₁).2, h₂⟩

/-- A queued shutdown is behind all data. -/
theorem Inv.stream_of_shutdown (h : Inv s) {conn : ConnId} {rest : List PendingFunctor}
    (hq : s.loop.batch = .shutdownInLoop conn :: rest) :
    s.caller.isOpen = false ∧ s.caller.data = [] ∧
      queuedData (rest ++ s.loop.pendingFunctors) = [] ∧ s.conn.stream = s.issued := by
  have hacc := h.account
  have hlast := h.shutdownLast
  have hop := h.opened
  unfold State.queue at hacc hlast hop
  rw [hq] at hacc hlast hop
  have hcl : s.caller.isOpen = false := by
    by_contra hne
    exact (hop (by simpa using hne)).2.2 conn (by simp)
  have hdata : s.caller.data = [] := by
    cases hc : s.caller with
    | sending message =>
      rw [hc] at hcl
      cases hcl
    | _ => rfl
  have hnil : queuedData (rest ++ s.loop.pendingFunctors) = [] := hlast.1
  have hacc' : s.conn.stream ++ queuedData (rest ++ s.loop.pendingFunctors) ++
      s.caller.data = s.issued := hacc
  refine ⟨hcl, hdata, hnil, ?_⟩
  rw [hnil, hdata, List.append_nil, List.append_nil] at hacc'
  exact hacc'

theorem owed_executeShutdown (h : Inv s) {w : WriteResult} (hp : s.loop.position = .functors)
    {conn : ConnId} {rest : List PendingFunctor}
    (hq : s.loop.batch = .shutdownInLoop conn :: rest) :
    Yields (s.conn.shutdownInLoop (s.loop.take rest)) fun r =>
      Owed s (.execute w) { s with loop := r.1, conn := r.2 } := by
  have hlast := h.shutdownLast
  have hin := h.inLoop
  unfold State.queue at hlast hin
  rw [hq] at hlast hin
  obtain ⟨hcl, hdata, hnil, hstream⟩ := h.stream_of_shutdown hq
  have hserved : TcpConnection.Served (s.loop.take rest) s.conn := h.served.frame rfl rfl
  refine (TcpConnection.shutdownInLoop_spec hserved).mono ?_
  rintro ⟨l', c'⟩ ⟨hk, hc⟩
  dsimp only at hc
  have hbuf : c'.Buffered := by
    rw [hc]
    exact h.buffered
  have hst : c'.stream = s.conn.stream := by
    rw [hc]
    simp only [TcpConnection.stream]
    split <;> rfl
  have hinv := inv_of_work s.caller s.issued (s := s) hk (fun hne => absurd hp hne) hbuf
    ?_ hlast.2 ?_ ?_ ?_
  · refine ⟨hinv, fun hall _ hsh => ?_, fun hn => absurd trivial hn⟩
    by_cases hwr : s.conn.channel.isWriting = true
    · rw [hc, if_pos hwr] at hsh
      exact hinv.allWritten_of_prefix hall hsh hk.conn.written rfl
    · have hbnil : s.conn.outputBuffer.readable = [] := by
        by_contra hne
        exact hwr (h.buffered.mpr hne)
      show c'.socket.written = s.issued
      rw [← hstream, ← hst, TcpConnection.stream, hc]
      simp [hbnil]
  · rw [hst, hstream, hdata, List.append_nil]
    change s.issued ++ queuedData (rest ++ s.loop.pendingFunctors) = s.issued
    rw [hnil, List.append_nil]
  · intro hopen
    rw [hcl] at hopen
    cases hopen
  · intro _
    rw [hc]
    exact h.closed hcl
  · exact hin

theorem owed_execute (h : Inv s) {w : WriteResult} (hp : s.loop.position = .functors)
    (hw : Answer w) : Yields (step s (.execute w)) (Owed s (.execute w)) := by
  rw [step]
  split
  · exact yields_ok (.of_inv h trivial rfl (List.prefix_refl _) fun _ => rfl)
  · rename_i cb rest hq
    cases cb with
    | sendInLoop conn message =>
      exact (owed_executeSend h hp hw hq).bind fun _ hr => yields_ok hr
    | shutdownInLoop conn =>
      exact (owed_executeShutdown h hp hq).bind fun _ hr => yields_ok hr
    | _ =>
      have hlast := h.shutdownLast
      have hop := h.opened
      unfold State.queue at hlast hop
      rw [hq] at hlast hop
      refine yields_ok (.of_inv ?_ trivial rfl (List.prefix_refl _) fun _ => rfl)
      exact {
        served := h.served.frame rfl rfl
        buffered := h.buffered
        batch := fun hne => absurd hp hne
        account := by
          have hacc := h.account
          unfold State.queue at hacc
          rwa [hq] at hacc
        shutdownLast := hlast
        opened := fun hopen => by
          obtain ⟨hs, hsh, hno⟩ := hop hopen
          exact ⟨hs, hsh, fun d hm => hno d (List.mem_cons_of_mem _ hm)⟩
        closed := h.closed
        inLoop := by
          have hin := h.inLoop
          unfold State.queue at hin
          rwa [hq] at hin }

theorem owed_step (h : Inv s) {e : Event} (he : enabled s e) : Yields (step s e) (Owed s e) := by
  cases e with
  | callSend message => exact owed_callSend h he.2 he.1 message
  | pushSend => exact owed_pushSend h
  | callShutdown => exact owed_callShutdown h he.2
  | setDisconnecting => exact owed_setDisconnecting h he
  | pushShutdown => exact owed_pushShutdown h he
  | loopSend message w => exact owed_loopSend h he.1 he.2.1 message he.2.2.2
  | loopShutdown => exact owed_loopShutdown h he.1 he.2.1
  | poll active =>
    have hb := h.batch (by rw [he.1]; decide)
    exact yields_ok (owed_loop h (.poll active) trivial rfl rfl (fun _ => hb) rfl)
  | handle w => exact owed_handle h he.1
  | endHandling =>
    have hb := h.batch (by rw [he.1]; decide)
    exact yields_ok (owed_loop h .endHandling trivial rfl rfl (fun _ => hb) rfl)
  | swap =>
    have hp : s.loop.position = .swapping := he
    have hb := h.batch (by rw [hp]; decide)
    refine yields_ok (owed_loop h .swap trivial rfl rfl (fun hne => absurd rfl hne) ?_)
    simp [EventLoop.swap, State.queue, hb]
  | execute w => exact owed_execute h he.1 he.2.2
  | endFunctors => exact yields_ok (owed_loop h .endFunctors trivial rfl rfl (fun _ => he.2) rfl)

theorem owed_of_step (h : Inv s) {e : Event} (he : enabled s e) (hs : step s e = .ok t) :
    Owed s e t := by
  obtain ⟨u, hu, ho⟩ := owed_step h he
  have hut : u = t := Except.ok.inj (hu.symm.trans hs)
  exact hut ▸ ho

theorem exactGuard :
    ExactGuard system (fun s => Inv s ∧ AllWritten s) AllWritten NothingQueued where
  init s h := by
    refine ⟨inv_init h, fun hw => ?_⟩
    rw [h.writeShutdown] at hw
    cases hw
  sound _ h := h.2
  keeps _ _ _ hI hC he hs :=
    have ho := owed_of_step hI.1 he hs
    ⟨ho.inv, ho.keeps hI.2 hC⟩
  breaks _ _ _ hI hC he hs := (owed_of_step hI.1 he hs).breaks hC

/-- No offered step fails. -/
theorem safe : Safe system := by
  have htotal : TotalInvariant system Inv := {
    init := fun _ h => inv_init h
    step := fun _ _ h he => (owed_step h he).mono fun _ ho => ho.inv }
  exact htotal.safe system

/-- A run never shuts the write half down before all that was sent has been
written, exactly when no `handleWrite` of the run drains a connection in
`kDisconnecting` while data of the caller is still queued. -/
theorem shutdownWrite_after_written_iff {s t : State} {es : List Event} (hs : Initial s)
    (hr : Run system s es t) :
    Throughout system AllWritten s es ↔ Guarded system NothingQueued s es :=
  exactGuard.throughout_iff system hs hr

/-- No step changes the caller's thread. -/
theorem isInLoopThread_step {e : Event} (h : step s e = .ok t) :
    t.isInLoopThread = s.isInLoopThread := by
  cases e with
  | pushSend =>
    rw [step] at h
    split at h <;> cases h <;> rfl
  | loopSend message w =>
    obtain ⟨r, _, h⟩ := bind_eq_ok.mp h
    cases h
    rfl
  | loopShutdown =>
    obtain ⟨r, _, h⟩ := bind_eq_ok.mp h
    cases h
    rfl
  | handle w =>
    rw [step] at h
    split at h
    · cases h
      rfl
    · dsimp only at h
      split at h
      · obtain ⟨r, _, h⟩ := bind_eq_ok.mp h
        cases h
        rfl
      · cases h
        rfl
  | execute w =>
    rw [step] at h
    split at h
    · cases h
      rfl
    · obtain ⟨r, _, h⟩ := bind_eq_ok.mp h
      cases h
      rfl
  | _ =>
    cases h
    rfl

/-- A caller in the loop thread queues no data. -/
theorem allWritten_of_isInLoopThread {s t : State} {es : List Event} (hs : Initial s)
    (hl : s.isInLoopThread = true) (hr : Run system s es t) : AllWritten t := by
  have key : t.isInLoopThread = true ∧ Inv t ∧ AllWritten t := by
    induction hr with
    | nil => exact ⟨hl, exactGuard.init _ hs⟩
    | @snoc t u es e hr he hst ih =>
      obtain ⟨ht, hIt, hPt⟩ := ih
      have ho := owed_of_step hIt he hst
      refine ⟨(isInLoopThread_step hst).trans ht, ho.inv, ho.keeps hPt ?_⟩
      cases e with
      | handle w => exact fun hg => hg.2.2.2 (hIt.inLoop ht).1
      | _ => trivial
  exact key.2.2

/-- The sample connection; the caller is another thread. -/
def established : State where
  loop := TcpConnection.sampleLoop
  conn := TcpConnection.sample
  isInLoopThread := false
  caller := .idle
  issued := []

theorem initial_established : Initial established where
  served := TcpConnection.served_sample
  state := rfl
  written := rfl
  writeShutdown := rfl
  outputBuffer := Buffer.readable_new
  isWriting := by decide
  batch := rfl
  pendingFunctors := rfl
  caller := rfl
  issued := rfl

/-- The first message is half written; the second is queued, and `shutdown` has
stored `kDisconnecting`, when the rest of the first is written. -/
def lostMessage : List Event :=
  [.callSend [1, 2], .pushSend, .poll [], .endHandling, .swap, .execute (.accepts 1), .endFunctors,
    .callSend [3], .pushSend, .callShutdown, .setDisconnecting, .poll [1], .handle (.accepts 9)]

theorem run_lostMessage : ∃ t, Run system established lostMessage t ∧
    (t.conn.socket.writeShutdown && decide (t.conn.socket.written = [1, 2]) &&
      decide (t.issued = [1, 2, 3])) = true :=
  exists_run_of_replay system (by decide +kernel)

theorem lostMessage_not_allWritten : ∃ t, Run system established lostMessage t ∧ ¬AllWritten t := by
  obtain ⟨t, hr, hp⟩ := run_lostMessage
  simp only [Bool.and_eq_true, decide_eq_true_eq] at hp
  refine ⟨t, hr, fun h => ?_⟩
  have := h hp.1.1
  rw [hp.1.2, hp.2] at this
  cases this

theorem lostMessage_not_guarded : ¬Guarded system NothingQueued established lostMessage := by
  obtain ⟨t, hr, hp⟩ := run_lostMessage
  simp only [Bool.and_eq_true, decide_eq_true_eq] at hp
  intro hg
  have hall := (shutdownWrite_after_written_iff initial_established hr).mpr hg lostMessage [] t
    (by simp) hr
  have := hall hp.1.1
  rw [hp.1.2, hp.2] at this
  cases this

end Muduo.GracefulShutdown

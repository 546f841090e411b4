import Muduo.Library.StepSystem
import Muduo.TcpConnection

/-!
# The output stream of a connection

`sendInLoop` and `handleWrite` share one byte stream. Any sequence of them, with
any answers of the kernel, and with `shutdown` by either thread in between,
delivers the messages in order: the bytes the kernel has accepted, followed by
the output buffer.
-/
namespace Muduo.OutputStream
open StepSystem

structure State where
  loop : EventLoop PendingFunctor
  conn : TcpConnection
  /-- the messages given to `sendInLoop` whose direct write did not fail with `EPIPE` -/
  kept : List (List UInt8)

inductive Event
  | sendInLoop (message : List UInt8) (w : WriteResult)
  | handleWrite (w : WriteResult)
  | shutdown (isInLoopThread : Bool)
  deriving DecidableEq, Repr

def step (s : State) : Event → Checked State
  | .sendInLoop message w => do
    let (loop, conn) ← s.conn.sendInLoop s.loop message w
    return ⟨loop, conn, if s.conn.Refused w then s.kept else s.kept ++ [message]⟩
  | .handleWrite w => do
    let (loop, conn) ← s.conn.handleWrite s.loop w
    return { s with loop, conn }
  | .shutdown isInLoopThread => do
    let (loop, conn) ← s.conn.shutdown s.loop isInLoopThread
    return { s with loop, conn }

/-- A connection that has sent nothing and has not reached `kDisconnected`. -/
structure Initial (s : State) : Prop where
  served : TcpConnection.Served s.loop s.conn
  state : s.conn.state ≠ .kDisconnected
  written : s.conn.socket.written = []
  outputBuffer : s.conn.outputBuffer.readable = []
  isWriting : s.conn.channel.isWriting = false
  kept : s.kept = []

def system : System State Event Assertion where
  init := Initial
  enabled _ _ := True
  step := step

instance (s : State) (e : Event) : Decidable (system.enabled s e) := inferInstanceAs (Decidable True)

structure Inv (s : State) : Prop where
  served : TcpConnection.Served s.loop s.conn
  state : s.conn.state ≠ .kDisconnected
  stream : s.conn.stream = s.kept.flatten
  buffered : s.conn.Buffered

theorem inv_init {s : State} (h : Initial s) : Inv s where
  served := h.served
  state := h.state
  stream := by simp [TcpConnection.stream, h.written, h.outputBuffer, h.kept]
  buffered := by simp [TcpConnection.Buffered, h.isWriting, h.outputBuffer]

variable {s : State}

theorem inv_sendInLoop (h : Inv s) (message : List UInt8) (w : WriteResult) :
    Yields (step s (.sendInLoop message w)) Inv := by
  refine (TcpConnection.sendInLoop_spec h.served h.state message w).bind ?_
  rintro ⟨loop, conn⟩ ⟨hk, hr, hst, hb⟩
  refine yields_ok ⟨hk.served, ?_, ?_, hb h.buffered⟩
  · show conn.state ≠ .kDisconnected
    rw [hr.state]
    exact h.state
  · show conn.stream = _
    rw [hst, h.stream]
    split
    · exact List.append_nil _
    · simp

theorem inv_handleWrite (h : Inv s) (w : WriteResult) :
    Yields (step s (.handleWrite w)) Inv := by
  refine (TcpConnection.handleWrite_spec h.served w).bind ?_
  rintro ⟨loop, conn⟩ ⟨hk, hw⟩
  refine yields_ok ⟨hk.served, ?_, ?_, hw.buffered h.buffered⟩
  · show conn.state ≠ .kDisconnected
    rw [hw.state]
    exact h.state
  · show conn.stream = _
    rw [hw.stream, h.stream]

theorem inv_shutdown (h : Inv s) (b : Bool) : Yields (step s (.shutdown b)) Inv := by
  refine (TcpConnection.shutdown_spec h.served b).bind ?_
  rintro ⟨loop, conn⟩ ⟨hserved, hsh⟩
  refine yields_ok ⟨hserved, ?_, ?_, hsh.buffered h.buffered⟩
  · show conn.state ≠ .kDisconnected
    rw [hsh.state]
    split
    · decide
    · exact h.state
  · show conn.stream = _
    rw [hsh.stream, h.stream]

theorem inv_step (h : Inv s) (e : Event) : Yields (step s e) Inv := by
  cases e with
  | sendInLoop message w => exact inv_sendInLoop h message w
  | handleWrite w => exact inv_handleWrite h w
  | shutdown b => exact inv_shutdown h b

theorem inv_total : TotalInvariant system Inv where
  init _ h := inv_init h
  step _ e h _ := inv_step h e

/-- The kernel's bytes followed by the buffered bytes are the kept messages in
order, `POLLOUT` is asked for exactly while bytes are buffered, and no step fails. -/
theorem written_append_buffered {s : State} (h : Reachable system s) :
    s.conn.socket.written ++ s.conn.outputBuffer.readable = s.kept.flatten ∧
      (s.conn.channel.isWriting = true ↔ s.conn.outputBuffer.readable ≠ []) ∧
      ∀ e, ∃ t, step s e = .ok t := by
  have hI := (inv_total.invariant system).reachable system h
  exact ⟨hI.stream, hI.buffered, fun e => inv_total.safe system s h e trivial⟩

/-- The sample connection, which has sent nothing. -/
def established : State where
  loop := TcpConnection.sampleLoop
  conn := TcpConnection.sample
  kept := []

theorem initial_established : Initial established where
  served := TcpConnection.served_sample
  state := by decide
  written := rfl
  outputBuffer := Buffer.readable_new
  isWriting := by decide
  kept := rfl

/-- Three bytes are sent, of which one is written at once and two are queued. -/
theorem written_append_buffered_established :
    ∃ s, Reachable system s ∧ s.kept = [[1, 2, 3]] ∧
      s.conn.socket.written ++ s.conn.outputBuffer.readable = [1, 2, 3] := by
  have h₀ := reachable_init system initial_established
  obtain ⟨t, ht, -⟩ := inv_step (inv_init initial_established) (.sendInLoop [1, 2, 3] (.accepts 1))
  have h : Reachable system t :=
    reachable_step system (.sendInLoop [1, 2, 3] (.accepts 1)) h₀ trivial ht
  have hkept : t.kept = [[1, 2, 3]] := by
    obtain ⟨⟨loop, conn⟩, _, hc⟩ := bind_eq_ok.mp ht
    cases hc
    have hnot : ¬established.conn.Refused (.accepts 1) := by
      rintro ⟨_, _, hE⟩
      cases hE
    simp only [if_neg hnot]
    rfl
  refine ⟨t, h, hkept, ?_⟩
  rw [(written_append_buffered h).1, hkept]
  rfl

end Muduo.OutputStream

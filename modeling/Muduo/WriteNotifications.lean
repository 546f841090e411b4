import Muduo.Library.Log
import Muduo.OutputStream

/-!
# The notifications of a writer

A connection tells its user when all bytes have been written and when too many are
queued. Which of the two callbacks `sendInLoop` and `handleWrite` queue is read off
the backlog before and after, and a log of the messages, the callbacks and the
backlogs between the steps shows that none is missing.
-/
namespace Muduo

namespace TcpConnection
variable {l : EventLoop PendingFunctor} {c : TcpConnection}

/-- The bytes that are queued. -/
def backlog (c : TcpConnection) : ℕ := c.outputBuffer.readableBytes

/-- What `sendInLoop` queues for a message of which `rest` bytes are not written at once. -/
def sent (c : TcpConnection) (rest : ℕ) : List PendingFunctor :=
  if rest = 0 then [.writeCompleteCallback c.id]
  else if c.highWaterMark ≤ c.backlog + rest ∧ c.backlog < c.highWaterMark then
    [.highWaterMarkCallback c.id (c.backlog + rest)]
  else []

/-- What `handleWrite` queues. -/
def flushed (c c' : TcpConnection) : List PendingFunctor :=
  if c'.backlog = 0 ∧ c.backlog ≠ 0 then [.writeCompleteCallback c.id] else []

theorem pendingFunctors_setInterest {i : Channel.Interest} {r : EventLoop PendingFunctor × TcpConnection}
    (h : c.setInterest l i = .ok r) : r.1.pendingFunctors = l.pendingFunctors := by
  obtain ⟨l', hl, h⟩ := bind_eq_ok.mp h
  obtain rfl := Except.ok.inj h
  obtain ⟨_, _, hl⟩ := bind_eq_ok.mp hl
  obtain ⟨poller, _, hl⟩ := bind_eq_ok.mp hl
  obtain rfl := Except.ok.inj hl
  rfl

theorem pendingFunctors_queueWriteComplete (hcb : c.writeCompleteCallback = true) :
    (c.queueWriteComplete l).pendingFunctors =
      l.pendingFunctors ++ [.writeCompleteCallback c.id] := by
  unfold queueWriteComplete
  rw [if_pos hcb]
  exact l.queueInLoop_pendingFunctors true _

theorem pendingFunctors_queueHighWaterMark (hcb : c.highWaterMarkCallback = true) {n : ℕ}
    (hn : 0 < n) : (c.queueHighWaterMark l n).pendingFunctors = l.pendingFunctors ++ c.sent n := by
  unfold queueHighWaterMark sent backlog
  dsimp only
  rw [if_neg hn.ne']
  by_cases h : c.highWaterMark ≤ c.outputBuffer.readableBytes + n ∧
      c.outputBuffer.readableBytes < c.highWaterMark
  · rw [if_pos h, if_pos ⟨h.1, h.2, hcb⟩]
    exact l.queueInLoop_pendingFunctors true _
  · rw [if_neg h, if_neg fun h' => h ⟨h'.1, h'.2.1⟩, List.append_nil]

theorem queueRemaining_notifies (hcb : c.highWaterMarkCallback = true) {rest : List UInt8}
    (hne : rest ≠ []) {r : EventLoop PendingFunctor × TcpConnection}
    (h : c.queueRemaining l rest = .ok r) :
    r.1.pendingFunctors = l.pendingFunctors ++ c.sent rest.length ∧
      r.2.backlog = c.backlog + rest.length := by
  obtain ⟨outputBuffer, happ, hread⟩ := c.outputBuffer.append_spec rest
  have hlen : outputBuffer.readableBytes = c.backlog + rest.length := by
    rw [← Buffer.length_readable, hread, List.length_append, Buffer.length_readable, backlog]
  have hq := pendingFunctors_queueHighWaterMark (l := l) hcb (List.length_pos_of_ne_nil hne)
  unfold queueRemaining at h
  dsimp only at h
  rw [happ, ok_bind] at h
  split at h
  · obtain rfl := Except.ok.inj h
    exact ⟨hq, hlen⟩
  · rw [pendingFunctors_setInterest h]
    obtain ⟨_, _, h⟩ := bind_eq_ok.mp h
    obtain rfl := Except.ok.inj h
    exact ⟨hq, hlen⟩

/-- What the direct write establishes for the callbacks of `sendInLoop`. -/
structure DirectWrite.Notifies (l : EventLoop PendingFunctor) (c : TcpConnection)
    (d : DirectWrite) : Prop where
  error : d.error = false
  backlog : d.conn.backlog = c.backlog
  callback : d.conn.highWaterMarkCallback = c.highWaterMarkCallback
  sent : ∀ rest, d.conn.sent rest = c.sent rest
  complete : d.remaining = 0 → d.loop.pendingFunctors = l.pendingFunctors ++ c.sent 0
  incomplete : d.remaining ≠ 0 → d.loop.pendingFunctors = l.pendingFunctors
  drained : d.remaining = 0 → c.backlog = 0

/-- The direct write tells whether all has been written; nothing else is queued. -/
theorem directWrite_notifies (hcb : c.writeCompleteCallback = true) {data : List UInt8}
    (hne : data ≠ []) {w : WriteResult} (hw : w ≠ .fails EPIPE) :
    (c.directWrite l data w).Notifies l c := by
  have hpos : data.length ≠ 0 := (List.length_pos_of_ne_nil hne).ne'
  unfold directWrite
  split
  · rename_i hd
    cases w with
    | accepts n =>
      exact {
        error := rfl
        backlog := rfl
        callback := rfl
        sent := fun _ => rfl
        complete := by
          intro hz
          dsimp only [Socket.write] at hz ⊢
          rw [if_pos hz]
          exact pendingFunctors_queueWriteComplete (c := { c with socket := _ }) hcb
        incomplete := by
          intro hz
          dsimp only [Socket.write] at hz ⊢
          rw [if_neg hz]
        drained := fun _ => hd.2 }
    | fails errno =>
      have herr : (errno != EWOULDBLOCK && errno == EPIPE) = false := by
        rw [Bool.and_eq_false_iff]
        right
        rw [beq_eq_false_iff_ne]
        rintro rfl
        exact hw rfl
      exact ⟨herr, rfl, rfl, fun _ => rfl, fun hz => absurd hz hpos, fun _ => rfl, fun _ => hd.2⟩
  · exact ⟨rfl, rfl, rfl, fun _ => rfl, fun hz => absurd hz hpos, fun _ => rfl,
      fun hz => absurd hz hpos⟩

/-- `sendInLoop` leaves `rest` bytes of its message queued, and queues the callback that
belongs to them. -/
theorem sendInLoop_notifies (h : Served l c) (hs : c.state ≠ .kDisconnected)
    (hwc : c.writeCompleteCallback = true) (hhw : c.highWaterMarkCallback = true)
    {data : List UInt8} (hne : data ≠ []) {w : WriteResult} (hw : w ≠ .fails EPIPE)
    {r : EventLoop PendingFunctor × TcpConnection} (hr : c.sendInLoop l data w = .ok r) :
    ∃ rest, r.1.pendingFunctors = l.pendingFunctors ++ c.sent rest ∧
      r.2.backlog = c.backlog + rest ∧ (rest = 0 → c.backlog = 0) := by
  have hd : (c.directWrite l data w).Notifies l c := directWrite_notifies hwc hne hw
  have hlen := (directWrite_spec h data w).length_rest
  unfold DirectWrite.rest at hlen
  unfold sendInLoop at hr
  rw [h.assertInLoopThread, ok_bind, if_neg hs] at hr
  dsimp only at hr
  generalize c.directWrite l data w = d at *
  obtain ⟨_, _, hr⟩ := bind_eq_ok.mp hr
  rw [hd.error] at hr
  by_cases hrem : d.remaining = 0
  · rw [if_neg (by simp [hrem])] at hr
    obtain rfl := Except.ok.inj hr
    exact ⟨0, hd.complete hrem, hd.backlog, fun _ => hd.drained hrem⟩
  · rw [if_pos ⟨rfl, Nat.pos_of_ne_zero hrem⟩] at hr
    have hrest : (data.drop d.nwrote).take d.remaining ≠ [] := by
      rw [ne_eq, ← List.length_eq_zero_iff, hlen]
      exact hrem
    obtain ⟨h₁, h₂⟩ := queueRemaining_notifies (hd.callback.trans hhw) hrest hr
    rw [hlen, hd.incomplete hrem, hd.sent] at h₁
    rw [hlen, hd.backlog] at h₂
    exact ⟨d.remaining, h₁, h₂, fun hz => absurd hz hrem⟩

theorem pendingFunctors_shutdownInLoop {r : EventLoop PendingFunctor × TcpConnection}
    (h : c.shutdownInLoop l = .ok r) :
    r.1.pendingFunctors = l.pendingFunctors ∧ r.2.backlog = c.backlog := by
  obtain ⟨_, _, h⟩ := bind_eq_ok.mp h
  split at h
  · obtain rfl := Except.ok.inj h
    exact ⟨rfl, rfl⟩
  · obtain rfl := Except.ok.inj h
    exact ⟨rfl, rfl⟩

/-- `handleWrite` tells when it has written the last byte. -/
theorem handleWrite_notifies (hwc : c.writeCompleteCallback = true) {w : WriteResult}
    {r : EventLoop PendingFunctor × TcpConnection} (hr : c.handleWrite l w = .ok r) :
    r.1.pendingFunctors = l.pendingFunctors ++ c.flushed r.2 ∧ r.2.backlog ≤ c.backlog := by
  have hsame : ∀ c' : TcpConnection, c'.backlog = c.backlog →
      l.pendingFunctors = l.pendingFunctors ++ c.flushed c' ∧ c'.backlog ≤ c.backlog := by
    intro c' hc'
    have hnil : c.flushed c' = [] := if_neg fun hz => hz.2 (hc' ▸ hz.1)
    exact ⟨by rw [hnil, List.append_nil], hc'.le⟩
  obtain ⟨_, _, hr⟩ := bind_eq_ok.mp hr
  split at hr
  · cases w with
    | fails errno =>
      obtain rfl := Except.ok.inj hr
      exact hsame _ rfl
    | accepts n =>
      dsimp only [Socket.write] at hr
      split at hr
      · rename_i hn
        obtain ⟨b, hb, hread⟩ := c.outputBuffer.retrieve_spec
          (Nat.min_le_right n c.outputBuffer.readable.length)
        rw [hb, ok_bind] at hr
        have hlen := congrArg List.length hread
        rw [List.length_drop, Buffer.length_readable, Buffer.length_readable] at hlen
        rw [Buffer.length_readable] at hn
        have hle : b.readableBytes ≤ c.backlog := by
          unfold backlog
          omega
        have hpos : c.backlog ≠ 0 := by
          unfold backlog
          omega
        split at hr
        · rename_i hz
          obtain ⟨⟨l₁, c₁⟩, h₁, hr⟩ := bind_eq_ok.mp hr
          have hl₁ := pendingFunctors_setInterest h₁
          obtain ⟨_, _, h₁⟩ := bind_eq_ok.mp h₁
          obtain rfl := (Prod.mk.inj (Except.ok.inj h₁)).2
          dsimp only at hr hl₁
          have hq := pendingFunctors_queueWriteComplete (l := l₁) (c := { c with
            socket := { c.socket with
              written := c.socket.written ++ c.outputBuffer.readable.take n }
            channel := c.channel.set .disableWriting
            outputBuffer := b }) hwc
          have hback : r.1.pendingFunctors = l.pendingFunctors ++ [.writeCompleteCallback c.id] ∧
              r.2.backlog = b.readableBytes := by
            rw [← hl₁]
            split at hr
            · obtain ⟨h₂, h₃⟩ := pendingFunctors_shutdownInLoop hr
              exact ⟨h₂.trans hq, h₃⟩
            · obtain rfl := Except.ok.inj hr
              exact ⟨hq, rfl⟩
          rw [flushed, if_pos ⟨hback.2.trans hz, hpos⟩, hback.2]
          exact ⟨hback.1, hle⟩
        · rename_i hz
          obtain rfl := Except.ok.inj hr
          refine ⟨?_, hle⟩
          rw [flushed, if_neg fun h' => hz h'.1, List.append_nil]
      · obtain rfl := Except.ok.inj hr
        exact hsame _ rfl
  · obtain rfl := Except.ok.inj hr
    exact hsame _ rfl

end TcpConnection

namespace WriteNotifications
open StepSystem

inductive Entry
  /-- a message has been passed to `sendInLoop` -/
  | message (data : List UInt8)
  /-- a functor has been queued -/
  | queued (cb : PendingFunctor)
  /-- the bytes in the output buffer between two steps -/
  | backlog (n : ℕ)
  deriving DecidableEq, Repr

structure State where
  loop : EventLoop PendingFunctor
  conn : TcpConnection
  log : List Entry

inductive Event
  | sendInLoop (message : List UInt8) (w : WriteResult)
  | handleWrite (w : WriteResult)
  deriving DecidableEq, Repr

/-- The functors that are behind those of `l` in the queue. -/
def newFunctors (l l' : EventLoop PendingFunctor) : List PendingFunctor :=
  l'.pendingFunctors.drop l.pendingFunctors.length

/-- The step to `loop` and `conn` is logged. -/
def record (s : State) (first : List Entry) (loop : EventLoop PendingFunctor)
    (conn : TcpConnection) : State :=
  ⟨loop, conn, s.log ++ (first ++ (newFunctors s.loop loop).map .queued ++
    [.backlog conn.outputBuffer.readableBytes])⟩

def step (s : State) : Event → Checked State
  | .sendInLoop message w => do
    let (loop, conn) ← s.conn.sendInLoop s.loop message w
    return record s [.message message] loop conn
  | .handleWrite w => do
    let (loop, conn) ← s.conn.handleWrite s.loop w
    return record s [] loop conn

/-- No empty message, and no `EPIPE`. -/
def enabled : Event → Prop
  | .sendInLoop message w => message ≠ [] ∧ w ≠ .fails EPIPE
  | .handleWrite _ => True

instance : DecidablePred enabled
  | .sendInLoop .. => inferInstanceAs (Decidable (_ ∧ _))
  | .handleWrite _ => inferInstanceAs (Decidable True)

variable (M : ℕ)

/-- A connection with both callbacks that has nothing queued and is not `kDisconnected`. -/
structure Initial (s : State) : Prop where
  served : TcpConnection.Served s.loop s.conn
  state : s.conn.state ≠ .kDisconnected
  outputBuffer : s.conn.outputBuffer.readable = []
  isWriting : s.conn.channel.isWriting = false
  writeCompleteCallback : s.conn.writeCompleteCallback = true
  highWaterMarkCallback : s.conn.highWaterMarkCallback = true
  highWaterMark : s.conn.highWaterMark = M
  log : s.log = [.backlog 0]

def system : System State Event Assertion where
  init := Initial M
  enabled _ e := enabled e
  step := step

instance (s : State) (e : Event) : Decidable ((system M).enabled s e) :=
  inferInstanceAs (Decidable (enabled e))

def IsMessage (e : Entry) : Prop := ∃ data, e = .message data

def IsWriteComplete (id : ConnId) (e : Entry) : Prop := e = .queued (.writeCompleteCallback id)

def IsHighWaterMark (id : ConnId) (e : Entry) : Prop :=
  ∃ n, e = .queued (.highWaterMarkCallback id n)

/-- A `highWaterMarkCallback_` that carries at least `M`. -/
def IsWarning (id : ConnId) (e : Entry) : Prop :=
  ∃ n, M ≤ n ∧ e = .queued (.highWaterMarkCallback id n)

/-- The backlog was below `M`. -/
def IsLow (e : Entry) : Prop := ∃ n < M, e = .backlog n

/-- Every message has been followed by a `writeCompleteCallback_`. -/
def Completed (id : ConnId) (log : List Entry) : Prop :=
  Log.Followed IsMessage (IsWriteComplete id) log

/-- A `highWaterMarkCallback_` with at least `M` has been queued since the backlog was
last below `M`. -/
def Warned (id : ConnId) (log : List Entry) : Prop := Log.Since (IsLow M) (IsWarning M id) log

/-- Between two `highWaterMarkCallback_` the backlog was below `M`. -/
def Spaced (id : ConnId) (log : List Entry) : Prop :=
  Log.Separated (IsLow M) (IsHighWaterMark id) log

/-- A log that ends with the backlog `b` and misses no callback. -/
structure Logged (id : ConnId) (b : ℕ) (log : List Entry) : Prop where
  last : ∃ front, log = front ++ [.backlog b]
  completed : b = 0 → Completed id log
  warned : M ≤ b → Warned M id log
  spaced : Spaced M id log

section Logged
variable {M} {id : ConnId} {b b' : ℕ} {log : List Entry}

theorem Logged.followed_low (h : Logged M id b log) (hb : b < M) :
    Log.Followed (IsHighWaterMark id) (IsLow M) log := by
  obtain ⟨front, rfl⟩ := h.last
  refine Log.followed_append_of_mem ?_ List.mem_cons_self ⟨b, hb, rfl⟩
  rintro a ha ⟨n, rfl⟩
  simp at ha

theorem last_append (log tail : List Entry) (b : ℕ) :
    ∃ front, log ++ (tail ++ [.backlog b]) = front ++ [.backlog b] :=
  ⟨log ++ tail, by rw [List.append_assoc]⟩

/-- All is written at last. -/
theorem Logged.complete (h : Logged M id b log) (hM : 0 < M) (first : List Entry)
    (hf : ∀ e ∈ first, IsMessage e) :
    Logged M id 0 (log ++ (first ++ [.queued (.writeCompleteCallback id)] ++ [.backlog 0])) where
  last := last_append ..
  completed := by
    intro _
    rw [← List.append_assoc, ← List.append_assoc, List.append_assoc]
    refine Log.followed_append_of_mem ?_ List.mem_cons_self rfl
    rintro e he ⟨data, rfl⟩
    simp at he
  warned hM' := absurd hM' (by omega)
  spaced := by
    refine h.spaced.append ?_
    rintro e he ⟨n, rfl⟩
    rcases List.mem_append.mp he with he | he
    · rcases List.mem_append.mp he with he | he
      · obtain ⟨data, hd⟩ := hf _ he
        cases hd
      · simp at he
    · simp at he

/-- The backlog shrinks, and something is left of it. -/
theorem Logged.shrink (h : Logged M id b log) (hle : b' ≤ b) (hz : b' = 0 → b = 0) :
    Logged M id b' (log ++ [.backlog b']) where
  last := ⟨log, rfl⟩
  completed := by
    intro h0
    refine (h.completed (hz h0)).append ?_
    rintro e he ⟨data, rfl⟩
    simp at he
  warned := by
    intro hM
    refine (h.warned (by omega)).append ?_
    rintro e he ⟨n, hn, rfl⟩
    obtain rfl : n = b' := by simpa using he
    omega
  spaced := by
    refine h.spaced.append ?_
    rintro e he ⟨n, rfl⟩
    simp at he

/-- The backlog grows without crossing the mark. -/
theorem Logged.grow (h : Logged M id b log) (data : List UInt8) (hpos : b' ≠ 0)
    (hno : M ≤ b' → M ≤ b) :
    Logged M id b' (log ++ [.message data, .backlog b']) where
  last := last_append log [.message data] b'
  completed h0 := absurd h0 hpos
  warned := by
    intro hM
    refine (h.warned (hno hM)).append ?_
    rintro e he ⟨n, hn, rfl⟩
    obtain rfl : n = b' := by simpa using he
    omega
  spaced := by
    refine h.spaced.append ?_
    rintro e he ⟨n, rfl⟩
    simp at he

/-- The backlog crosses the mark. -/
theorem Logged.cross (h : Logged M id b log) (data : List UInt8) (hb : b < M) (hb' : M ≤ b') :
    Logged M id b' (log ++ [.message data, .queued (.highWaterMarkCallback id b'),
      .backlog b']) where
  last := last_append log [.message data, .queued (.highWaterMarkCallback id b')] b'
  completed h0 := absurd h0 (by omega)
  warned := by
    intro _
    refine ⟨log ++ [.message data], _, [.backlog b'], by simp, ⟨b', hb', rfl⟩, ?_⟩
    rintro e he ⟨n, hn, rfl⟩
    obtain rfl : n = b' := by simpa using he
    omega
  spaced := by
    have hsplit : log ++ [Entry.message data, .queued (.highWaterMarkCallback id b'),
        .backlog b'] = log ++ [.message data] ++ [.queued (.highWaterMarkCallback id b')] ++
          [.backlog b'] := by simp
    have hmessage : ∀ e ∈ [Entry.message data], ¬IsHighWaterMark id e := by
      rintro e he ⟨n, rfl⟩
      simp at he
    rw [hsplit]
    refine (Log.Separated.snoc (h.spaced.append hmessage)
      ((h.followed_low hb).append hmessage) _).append ?_
    rintro e he ⟨n, rfl⟩
    simp at he

end Logged

structure Inv (s : State) : Prop where
  served : TcpConnection.Served s.loop s.conn
  state : s.conn.state ≠ .kDisconnected
  writeCompleteCallback : s.conn.writeCompleteCallback = true
  highWaterMarkCallback : s.conn.highWaterMarkCallback = true
  highWaterMark : s.conn.highWaterMark = M
  logged : Logged M s.conn.id s.conn.backlog s.log

variable {M} {s : State}

theorem inv_init (hM : 0 < M) (h : Initial M s) : Inv M s where
  served := h.served
  state := h.state
  writeCompleteCallback := h.writeCompleteCallback
  highWaterMarkCallback := h.highWaterMarkCallback
  highWaterMark := h.highWaterMark
  logged := by
    have hz : s.conn.backlog = 0 := (s.conn.outputBuffer.readable_eq_nil_iff).mp h.outputBuffer
    rw [hz, h.log]
    refine ⟨⟨[], rfl⟩, fun _ => ?_, fun hM' => absurd hM' (by omega), ?_⟩
    · rintro pre a post heq ⟨data, rfl⟩
      have hmem : Entry.message data ∈ [Entry.backlog 0] := by simp [heq]
      simp at hmem
    · rintro pre a mid b post heq ⟨n, rfl⟩
      have hmem : Entry.queued (.highWaterMarkCallback s.conn.id n) ∈ [Entry.backlog 0] := by
        simp [heq]
      simp at hmem

/-- What a step keeps, whatever it logs. -/
theorem Inv.record {l' : EventLoop PendingFunctor} {c' : TcpConnection} {first : List Entry}
    (h : Inv M s) (hk : TcpConnection.Keeps s.loop s.conn l' c') (hs : c'.state = s.conn.state)
    (hl : Logged M s.conn.id c'.backlog (record s first l' c').log) :
    Inv M (record s first l' c') := by
  have hid : c'.id = s.conn.id := hk.conn.id_eq
  have hrest := hk.conn.rest
  refine ⟨hk.served, ?_, ?_, ?_, ?_, ?_⟩
  · rw [show (WriteNotifications.record s first l' c').conn = c' from rfl, hs]
    exact h.state
  · rw [show (WriteNotifications.record s first l' c').conn = c' from rfl, hrest]
    exact h.writeCompleteCallback
  · rw [show (WriteNotifications.record s first l' c').conn = c' from rfl, hrest]
    exact h.highWaterMarkCallback
  · rw [show (WriteNotifications.record s first l' c').conn = c' from rfl, hrest]
    exact h.highWaterMark
  · rw [show (WriteNotifications.record s first l' c').conn = c' from rfl, hid]
    exact hl

theorem newFunctors_of_append {l l' : EventLoop PendingFunctor} {new : List PendingFunctor}
    (h : l'.pendingFunctors = l.pendingFunctors ++ new) : newFunctors l l' = new := by
  rw [newFunctors, h, List.drop_left]

theorem inv_sendInLoop (hM : 0 < M) (h : Inv M s) {message : List UInt8} (hne : message ≠ [])
    {w : WriteResult} (hw : w ≠ .fails EPIPE) : Yields (step s (.sendInLoop message w)) (Inv M) := by
  obtain ⟨⟨l', c'⟩, hr, hk, hsame, -, -⟩ :=
    TcpConnection.sendInLoop_spec h.served h.state message w
  obtain ⟨rest, hpend, hback, hzero⟩ := TcpConnection.sendInLoop_notifies h.served h.state
    h.writeCompleteCallback h.highWaterMarkCallback hne hw hr
  dsimp only at hk hsame hpend hback
  unfold step
  dsimp only
  rw [hr, ok_bind]
  refine yields_ok (h.record hk hsame.state ?_)
  unfold record
  rw [newFunctors_of_append hpend, show c'.outputBuffer.readableBytes = _ from hback, hback]
  unfold TcpConnection.sent
  rw [h.highWaterMark]
  by_cases hrest : rest = 0
  · rw [if_pos hrest, hzero hrest, hrest]
    exact h.logged.complete hM [.message message] (by simp [IsMessage])
  · rw [if_neg hrest]
    by_cases hcross : M ≤ s.conn.backlog + rest ∧ s.conn.backlog < M
    · rw [if_pos hcross]
      exact h.logged.cross message hcross.2 hcross.1
    · rw [if_neg hcross]
      exact h.logged.grow message (by omega) (by omega)

theorem inv_handleWrite (hM : 0 < M) (h : Inv M s) (w : WriteResult) :
    Yields (step s (.handleWrite w)) (Inv M) := by
  obtain ⟨⟨l', c'⟩, hr, hk, hwritten⟩ := TcpConnection.handleWrite_spec h.served w
  obtain ⟨hpend, hle⟩ := TcpConnection.handleWrite_notifies h.writeCompleteCallback hr
  dsimp only at hk hwritten hpend hle
  unfold step
  dsimp only
  rw [hr, ok_bind]
  refine yields_ok (h.record hk hwritten.state ?_)
  unfold record
  rw [newFunctors_of_append hpend, show c'.outputBuffer.readableBytes = c'.backlog from rfl]
  unfold TcpConnection.flushed
  by_cases hdrained : c'.backlog = 0 ∧ s.conn.backlog ≠ 0
  · rw [if_pos hdrained, hdrained.1]
    exact h.logged.complete hM [] (by simp)
  · rw [if_neg hdrained]
    exact h.logged.shrink hle fun hz => by_contra fun hne => hdrained ⟨hz, hne⟩

theorem inv_total (hM : 0 < M) : TotalInvariant (system M) (Inv M) where
  init _ h := inv_init hM h
  step s e h he := by
    cases e with
    | sendInLoop message w => exact inv_sendInLoop hM h he.1 he.2
    | handleWrite w => exact inv_handleWrite hM h w

/-- No notification is missing, and none is repeated. -/
theorem notified (hM : 0 < M) (h : Reachable (system M) s) :
    (s.conn.outputBuffer.readable = [] → Completed s.conn.id s.log) ∧
      (M ≤ s.conn.outputBuffer.readableBytes → Warned M s.conn.id s.log) ∧
      Spaced M s.conn.id s.log ∧ ∀ e, enabled e → ∃ t, step s e = .ok t := by
  have hI := ((inv_total hM).invariant (system M)).reachable (system M) h
  refine ⟨fun hnil => ?_, hI.logged.warned, hI.logged.spaced, fun e he => ?_⟩
  · exact hI.logged.completed ((s.conn.outputBuffer.readable_eq_nil_iff).mp hnil)
  · exact (inv_total hM).safe (system M) s h e he

/-- The sample connection with both callbacks, and a mark of two bytes. -/
def established : State where
  loop := TcpConnection.sampleLoop
  conn := { TcpConnection.sample with
    writeCompleteCallback := true
    highWaterMarkCallback := true
    highWaterMark := 2 }
  log := [.backlog 0]

theorem initial_established : Initial 2 established where
  served := ⟨rfl, rfl, TcpConnection.served_sample.settled⟩
  state := by decide
  outputBuffer := Buffer.readable_new
  isWriting := by decide
  writeCompleteCallback := rfl
  highWaterMarkCallback := rfl
  highWaterMark := rfl
  log := rfl

/-- Two of three bytes are queued, which crosses the mark, and then written. -/
def crossing : List Event := [.sendInLoop [1, 2, 3] (.accepts 1), .handleWrite (.accepts 2)]

theorem notified_crossing : ∃ s, Run (system 2) established crossing s ∧
    s.log = [.backlog 0, .message [1, 2, 3], .queued (.highWaterMarkCallback 1 2), .backlog 2,
      .queued (.writeCompleteCallback 1), .backlog 0] ∧
    (s.conn.outputBuffer.readable = [] → Completed s.conn.id s.log) ∧
      (2 ≤ s.conn.outputBuffer.readableBytes → Warned 2 s.conn.id s.log) ∧
      Spaced 2 s.conn.id s.log ∧ ∀ e, enabled e → ∃ t, step s e = .ok t := by
  have h : (replay (system 2) established crossing).any (fun t => decide (t.log =
      [.backlog 0, .message [1, 2, 3], .queued (.highWaterMarkCallback 1 2), .backlog 2,
        .queued (.writeCompleteCallback 1), .backlog 0])) = true := by decide +kernel
  obtain ⟨s, hr, hs⟩ := exists_run_of_replay (system 2) h
  exact ⟨s, hr, of_decide_eq_true hs, notified (by decide) ⟨_, _, initial_established, hr⟩⟩

end WriteNotifications
end Muduo

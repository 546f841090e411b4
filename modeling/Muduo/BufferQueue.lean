import Muduo.Buffer
import Muduo.Library.StepSystem

/-!
# A buffer is a queue of bytes

Whatever is done to a `Buffer`, its content is that of a queue of bytes that may also be
prepended to. Where the content lies shows only in the room there is before it.
-/
namespace Muduo.BufferQueue
open StepSystem

inductive Event
  | append (data : List UInt8)
  | prepend (data : List UInt8)
  | retrieve (len : ℕ)
  /-- `retrieveUntil(peek() + off)` -/
  | retrieveUntil (off : ℕ)
  | retrieveAsString (len : ℕ)
  | retrieveAll
  | retrieveAllAsString
  | ensureWritableBytes (len : ℕ)
  /-- `data` is written to `beginWrite()`, and then announced by `hasWritten` -/
  | hasWritten (data : List UInt8)
  | shrink (reserve : ℕ)
  /-- `readFd`, where `readv(2)` delivers `data`, or fails -/
  | readFd (data : Option (List UInt8))
  deriving DecidableEq, Repr

/-- The queue, and all the bytes that have been taken from it as strings. -/
structure ByteQueue where
  content : List UInt8
  taken : List UInt8
  deriving DecidableEq, Repr

/-- What the operations are for. -/
def ByteQueue.apply (q : ByteQueue) : Event → ByteQueue
  | .append data | .hasWritten data | .readFd (some data) => { q with content := q.content ++ data }
  | .prepend data => { q with content := data ++ q.content }
  | .retrieve len | .retrieveUntil len => { q with content := q.content.drop len }
  | .retrieveAsString len => ⟨q.content.drop len, q.taken ++ q.content.take len⟩
  | .retrieveAll => { q with content := [] }
  | .retrieveAllAsString => ⟨[], q.taken ++ q.content⟩
  | .ensureWritableBytes _ | .shrink _ | .readFd none => q

structure State where
  buffer : Buffer
  /-- what `retrieveAsString` and `retrieveAllAsString` have returned -/
  taken : List UInt8
  /-- `prepend` has been used since the content was last discarded or moved to the front -/
  prepended : Bool

def initial : State := ⟨.new, [], false⟩

/-- The lengths are as the functions require, and the content can be handed to `shrink`. -/
def enabled (s : State) (e : Event) : Prop :=
  s.buffer.readableBytes < 2 ^ 31 ∧ match e with
    | .prepend data => data.length ≤ s.buffer.prependableBytes
    | .retrieve len | .retrieveUntil len | .retrieveAsString len => len ≤ s.buffer.readableBytes
    | .hasWritten data => data.length ≤ s.buffer.writableBytes
    | .readFd (some data) => data.length ≤ s.buffer.writableBytes + Buffer.extrabufSize
    | .append _ | .retrieveAll | .retrieveAllAsString | .ensureWritableBytes _ | .shrink _
    | .readFd none => True

instance (s : State) : (e : Event) → Decidable (enabled s e)
  | .prepend _ | .retrieve _ | .retrieveUntil _ | .retrieveAsString _ | .hasWritten _
  | .readFd (some _) => inferInstanceAs (Decidable (_ ∧ _))
  | .append _ | .retrieveAll | .retrieveAllAsString | .ensureWritableBytes _ | .shrink _
  | .readFd none => inferInstanceAs (Decidable (_ ∧ True))

/-- Whether `prepended` outlasts an operation that makes room for `len` bytes. -/
def State.keeps (s : State) (len : ℕ) : Bool := s.prepended && !decide (s.buffer.Compacts len)

def step (s : State) : Event → Checked State
  | .append data => do
    let buffer ← s.buffer.append data
    return { s with buffer, prepended := s.keeps data.length }
  | .prepend data => do
    let buffer ← s.buffer.prepend data
    return { s with buffer, prepended := true }
  | .retrieve len => do
    let buffer ← s.buffer.retrieve len
    return { s with buffer, prepended := s.prepended && decide (len < s.buffer.readableBytes) }
  | .retrieveUntil off => do
    let buffer ← s.buffer.retrieveUntil off
    return { s with buffer, prepended := s.prepended && decide (off < s.buffer.readableBytes) }
  | .retrieveAsString len => do
    let (result, buffer) ← s.buffer.retrieveAsString len
    return ⟨buffer, s.taken ++ result, s.prepended && decide (len < s.buffer.readableBytes)⟩
  | .retrieveAll => .ok { s with buffer := s.buffer.retrieveAll, prepended := false }
  | .retrieveAllAsString => do
    let (result, buffer) ← s.buffer.retrieveAllAsString
    return ⟨buffer, s.taken ++ result, false⟩
  | .ensureWritableBytes len => do
    let buffer ← s.buffer.ensureWritableBytes len
    return { s with buffer, prepended := s.keeps len }
  | .hasWritten data => do
    let buffer ← (s.buffer.copyToWrite data).hasWritten data.length
    return { s with buffer }
  | .shrink reserve => do
    let buffer ← s.buffer.shrink reserve
    return { s with buffer, prepended := false }
  | .readFd (some data) => do
    let buffer ← s.buffer.readFd data
    return { s with buffer, prepended := s.keeps data.length }
  | .readFd none => .ok s

def system : System State Event Assertion where
  init s := s = initial
  enabled := enabled
  step := step

instance (s : State) (e : Event) : Decidable (system.enabled s e) :=
  inferInstanceAs (Decidable (enabled s e))

/-- The queue that a buffer stands for. -/
def State.queue (s : State) : ByteQueue := ⟨s.buffer.readable, s.taken⟩

/-- The room before the content, where nothing has been prepended. -/
def Cheap (s : State) : Prop := s.prepended = false → kCheapPrepend ≤ s.buffer.prependableBytes

variable {s t : State} {b b' : Buffer} {data : List UInt8} {len : ℕ}

/-! ### The place of the content -/

theorem readerIndex_retrieve (h : b.retrieve len = .ok b') :
    b'.readerIndex = if len < b.readableBytes then b.readerIndex + len else kCheapPrepend := by
  unfold Buffer.retrieve at h
  split at h
  · split at h
    · rename_i hlt
      obtain rfl := Except.ok.inj h
      rw [if_pos hlt]
    · rename_i hge
      obtain rfl := Except.ok.inj h
      rw [if_neg hge]
      rfl
  · cases h

/-- What does not fit into the writable bytes is appended to a buffer that is full. -/
theorem readerIndex_readFd (h : b.readFd data = .ok b') :
    b'.readerIndex = if b.Compacts data.length then kCheapPrepend else b.readerIndex := by
  unfold Buffer.readFd at h
  split at h
  · rename_i hfit
    rw [if_neg fun hc => absurd hc.1 (by omega)]
    exact (b.copyToWrite data).readerIndex_hasWritten h
  · rename_i hlong
    obtain ⟨b₁, h₁, h⟩ := bind_eq_ok.mp h
    have hreader : b₁.readerIndex = b.readerIndex :=
      (b.copyToWrite (data.take b.writableBytes)).readerIndex_hasWritten h₁
    have hwritable : b₁.writableBytes = 0 := by
      have hlen : b.writerIndex + (data.take b.writableBytes).length ≤ b.buffer.length := by
        have hw := b.writer_le_size
        simp only [Buffer.writableBytes, List.length_take]
        omega
      unfold Buffer.hasWritten at h₁
      split at h₁
      · obtain rfl := Except.ok.inj h₁
        change (copyTo b.buffer b.writerIndex (data.take b.writableBytes)).length -
          (b.writerIndex + b.writableBytes) = 0
        rw [length_copyTo hlen, Buffer.writableBytes]
        omega
      · cases h₁
    have hiff : b₁.Compacts (data.drop b.writableBytes).length ↔ b.Compacts data.length := by
      simp only [Buffer.Compacts, Buffer.prependableBytes, hwritable, hreader, List.length_drop]
      omega
    rw [b₁.readerIndex_append h, hreader]
    simp only [hiff]

/-- A buffer is shrunk into a new one. -/
theorem shrink_spec (b : Buffer) (reserve : ℕ) (h : b.readableBytes < 2 ^ 31) :
    Yields (b.shrink reserve) fun b' =>
      b'.readable = b.readable ∧ b'.readerIndex = kCheapPrepend := by
  obtain ⟨other, hother, hread, -⟩ :=
    Buffer.new.ensureWritableBytes_spec (b.readableBytes + reserve)
  have hreader : other.readerIndex = kCheapPrepend := by
    rw [Buffer.new.readerIndex_ensureWritableBytes hother]
    exact ite_self _
  obtain ⟨b', happend, hread'⟩ := other.append_spec b.readable
  refine ⟨b', ?_, ?_, ?_⟩
  · simp [Buffer.shrink, hother, b.toStringPiece_spec h, happend]
  · rw [hread', hread, Buffer.readable_new, List.nil_append]
  · rw [other.readerIndex_append happend, hreader, ite_self]

/-! ### One operation -/

/-- Where making room has moved the content, there is room before it. -/
theorem Cheap.keeps (hc : Cheap s)
    (hb : b.readerIndex = if s.buffer.Compacts len then kCheapPrepend else s.buffer.readerIndex) :
    s.keeps len = false → kCheapPrepend ≤ b.prependableBytes := by
  intro hk
  unfold Buffer.prependableBytes
  by_cases hcompacts : s.buffer.Compacts len
  · rw [hb, if_pos hcompacts]
  · rw [hb, if_neg hcompacts]
    exact hc (by simpa [State.keeps, hcompacts] using hk)

theorem Cheap.retrieve (hc : Cheap s) (h : s.buffer.retrieve len = .ok b) :
    (s.prepended && decide (len < s.buffer.readableBytes)) = false →
      kCheapPrepend ≤ b.prependableBytes := by
  intro hp
  unfold Buffer.prependableBytes
  rw [readerIndex_retrieve h]
  split
  · rename_i hlt
    have hcheap := hc (by simpa [hlt] using hp)
    simp only [Buffer.prependableBytes] at hcheap
    omega
  · exact le_rfl

/-- An operation completes, does what it is for, and keeps the room before the content. -/
theorem step_spec {e : Event} (he : enabled s e) (hc : Cheap s) :
    Yields (step s e) fun t => t.queue = s.queue.apply e ∧ Cheap t := by
  obtain ⟨hsmall, he⟩ := he
  cases e with
  | append data =>
    obtain ⟨b, hb, hread⟩ := s.buffer.append_spec data
    simp only [step, hb, ok_bind]
    exact yields_ok ⟨by simp [State.queue, ByteQueue.apply, hread],
      hc.keeps (s.buffer.readerIndex_append hb)⟩
  | prepend data =>
    obtain ⟨b, hb, hread⟩ := s.buffer.prepend_spec data he
    simp only [step, hb, ok_bind]
    exact yields_ok ⟨by simp [State.queue, ByteQueue.apply, hread], fun h => by cases h⟩
  | retrieve len =>
    have hle : len ≤ s.buffer.readable.length := by simpa using he
    obtain ⟨b, hb, hread⟩ := s.buffer.retrieve_spec hle
    simp only [step, hb, ok_bind]
    exact yields_ok ⟨by simp [State.queue, ByteQueue.apply, hread], hc.retrieve hb⟩
  | retrieveUntil off =>
    have hle : off ≤ s.buffer.readable.length := by simpa using he
    obtain ⟨b, hb, hread⟩ := s.buffer.retrieve_spec hle
    have hoff : off ≤ s.buffer.readableBytes := he
    simp only [step, Buffer.retrieveUntil, if_pos hoff, hb, ok_bind]
    exact yields_ok ⟨by simp [State.queue, ByteQueue.apply, hread], hc.retrieve hb⟩
  | retrieveAsString len =>
    have hle : len ≤ s.buffer.readable.length := by simpa using he
    obtain ⟨b, hb, hread⟩ := s.buffer.retrieve_spec hle
    simp only [step, Buffer.retrieveAsString, assert_pos he, hb, ok_bind, pure_eq_ok]
    exact yields_ok ⟨by simp [State.queue, ByteQueue.apply, hread], hc.retrieve hb⟩
  | retrieveAll =>
    exact yields_ok ⟨by simp [State.queue, ByteQueue.apply], fun _ => le_rfl⟩
  | retrieveAllAsString =>
    have hle : s.buffer.readableBytes ≤ s.buffer.readable.length := by simp
    obtain ⟨b, hb, hread⟩ := s.buffer.retrieve_spec hle
    have hreader := readerIndex_retrieve hb
    rw [if_neg (lt_irrefl _)] at hreader
    simp only [step, Buffer.retrieveAllAsString, hb, ok_bind, pure_eq_ok]
    refine yields_ok ⟨?_, fun _ => hreader.ge⟩
    simp [State.queue, ByteQueue.apply, hread]
  | ensureWritableBytes len =>
    obtain ⟨b, hb, hread, -⟩ := s.buffer.ensureWritableBytes_spec len
    simp only [step, hb, ok_bind]
    exact yields_ok ⟨by simp [State.queue, ByteQueue.apply, hread],
      hc.keeps (s.buffer.readerIndex_ensureWritableBytes hb)⟩
  | hasWritten data =>
    obtain ⟨b, hb, hread⟩ := s.buffer.hasWritten_copyToWrite data he
    have hreader := Buffer.readerIndex_hasWritten _ hb
    simp only [step, hb, ok_bind]
    refine yields_ok ⟨by simp [State.queue, ByteQueue.apply, hread], ?_⟩
    intro hp
    exact (hc hp).trans hreader.ge
  | shrink reserve =>
    obtain ⟨b, hb, hread, hreader⟩ := shrink_spec s.buffer reserve hsmall
    simp only [step, hb, ok_bind]
    exact yields_ok ⟨by simp [State.queue, ByteQueue.apply, hread], fun _ => hreader.ge⟩
  | readFd data =>
    cases data with
    | none => exact yields_ok ⟨rfl, hc⟩
    | some data =>
      obtain ⟨b, hb, hread⟩ := s.buffer.readFd_spec data
      simp only [step, hb, ok_bind]
      exact yields_ok ⟨by simp [State.queue, ByteQueue.apply, hread],
        hc.keeps (readerIndex_readFd hb)⟩

/-! ### Any sequence of operations -/

theorem totalInvariant : TotalInvariant system Cheap where
  init := by
    rintro s rfl _
    exact le_rfl
  step s e hc he := by
    obtain ⟨t, ht, -, hcheap⟩ := step_spec he hc
    exact ⟨t, ht, hcheap⟩

theorem queue_of_run {es : List Event} (hr : Run system initial es t) :
    t.queue = es.foldl ByteQueue.apply ⟨[], []⟩ := by
  induction hr with
  | nil => simp [initial, State.queue]
  | @snoc s t es e hr he hst ih =>
    have hc : Cheap s := (totalInvariant.invariant system).run system (fun _ => le_rfl) hr
    obtain ⟨u, hu, hqueue, -⟩ := step_spec he hc
    obtain rfl : u = t := Except.ok.inj (hu.symm.trans hst)
    rw [List.foldl_append, ← ih]
    exact hqueue

/-- No operation fails an assertion, the content is that of the queue, and there is cheap room
before it where nothing has been prepended. -/
theorem refines_queue {es : List Event} (hr : Run system initial es t) :
    t.queue = es.foldl ByteQueue.apply ⟨[], []⟩ ∧
      (t.buffer.readerIndex ≤ t.buffer.writerIndex ∧
        t.buffer.writerIndex ≤ t.buffer.buffer.length) ∧
      (t.prepended = false → kCheapPrepend ≤ t.buffer.prependableBytes) ∧
      ∀ e, enabled t e → ∃ u, step t e = .ok u := by
  have hc : Cheap t := (totalInvariant.invariant system).run system (fun _ => le_rfl) hr
  refine ⟨queue_of_run hr, ⟨t.buffer.reader_le_writer, t.buffer.writer_le_size⟩, hc, ?_⟩
  intro e he
  obtain ⟨u, hu, -⟩ := step_spec he hc
  exact ⟨u, hu⟩

/-- The content is prepended to, grown, shrunk, and then moved to the front. -/
def mixed : List Event :=
  [.append [1, 2, 3], .prepend [0], .retrieveAsString 2, .ensureWritableBytes 2000, .shrink 0,
    .append [4, 5], .retrieve 1, .ensureWritableBytes 1021, .readFd (some [6]), .readFd none]

theorem mixed_refines : ∃ t, Run system initial mixed t ∧ t.queue = ⟨[3, 4, 5, 6], [0, 1]⟩ ∧
    t.buffer.readerIndex = kCheapPrepend ∧ kCheapPrepend ≤ t.buffer.prependableBytes := by
  have hreplay : (replay system initial mixed).any (fun t => decide
      (t.prepended = false ∧ t.buffer.readerIndex = kCheapPrepend)) = true := by
    decide +kernel
  obtain ⟨t, hr, ht⟩ := exists_run_of_replay _ hreplay
  obtain ⟨hp, hreader⟩ := of_decide_eq_true ht
  obtain ⟨hqueue, -, hcheap, -⟩ := refines_queue hr
  exact ⟨t, hr, hqueue.trans (by decide), hreader, hcheap hp⟩

end Muduo.BufferQueue

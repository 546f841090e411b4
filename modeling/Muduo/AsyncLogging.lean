import Muduo.Assertion
import Muduo.Library.StepSystem

/-!
# AsyncLogging

`base/AsyncLogging.h` and `base/AsyncLogging.cc`. Any threads call `append`, one thread calls
`start()` and then `stop()`, and the back-end runs `threadFunc`. What is done under the mutex is
one step; `running_` is read and written without it.
-/
namespace Muduo.AsyncLogging
open StepSystem

/-- `FixedBuffer<SIZE>` of `base/LogStream.h`: the bytes before `cur_`. -/
structure FixedBuffer (size : ℕ) where
  data : List UInt8
  length_le : data.length ≤ size
  deriving DecidableEq

namespace FixedBuffer
variable {size : ℕ} (b : FixedBuffer size) (buf : List UInt8)

def length : ℕ := b.data.length

def avail : ℕ := size - b.length

/-- The constructor, and `reset()`. -/
def empty : FixedBuffer size := ⟨[], Nat.zero_le _⟩

def append : FixedBuffer size :=
  if h : b.avail > buf.length then
    ⟨b.data ++ buf, by unfold avail length at h; rw [List.length_append]; omega⟩
  else b

variable {b buf}

@[simp] theorem data_empty : (empty : FixedBuffer size).data = [] := rfl

theorem data_append (h : b.avail > buf.length) : (b.append buf).data = b.data ++ buf := by
  rw [append, dif_pos h]

theorem data_append_of_empty (hb : b.data = []) (h : buf.length < size) :
    (b.append buf).data = buf := by
  rw [data_append (by simpa [avail, length, hb] using h), hb, List.nil_append]

end FixedBuffer

def kLargeBuffer : ℕ := 4000 * 1000

abbrev Buffer := FixedBuffer kLargeBuffer

/-- The bytes in a list of buffers. -/
def bytes (buffers : List Buffer) : List UInt8 := buffers.flatMap FixedBuffer.data

/-- One `output.append` of the back-end. -/
inductive Entry
  | logged (data : List UInt8)
  /-- the notice that `dropped` buffers were dropped at the time `now` -/
  | notice (now : String) (dropped : ℕ)
  deriving DecidableEq, Repr

/-- The text of a notice, in `char buf[256]`. -/
def noticeText (now : String) (dropped : ℕ) : String :=
  .ofList (("Dropped log messages at " ++ now ++ ", " ++ toString dropped ++
    " larger buffers\n").toList.take 255)

/-- Neither a time nor a number of buffers is so long that the text is cut. -/
theorem noticeText_eq {now : String} {dropped : ℕ}
    (h : now.length + (toString dropped).length ≤ 213) :
    noticeText now dropped =
      "Dropped log messages at " ++ now ++ ", " ++ toString dropped ++ " larger buffers\n" := by
  rw [noticeText, List.take_of_length_le, String.ofList_toList]
  simp only [String.length_toList, String.length_append]
  have h1 : "Dropped log messages at ".length = 24 := rfl
  have h2 : ", ".length = 2 := rfl
  have h3 : " larger buffers\n".length = 16 := rfl
  omega

/-- Where the back-end stands in `threadFunc`. -/
inductive Position
  /-- not started yet -/
  | created
  /-- at `assert(running_ == true)` -/
  | starting
  /-- at the loop test -/
  | testing
  /-- before the critical section -/
  | locking
  /-- in `cond_.waitForSeconds(flushInterval_)`, or woken from it and without the mutex -/
  | waiting
  /-- at the test for more than 25 buffers -/
  | overload
  /-- about to write buffer `i` of `buffersToWrite` -/
  | write (i : ℕ)
  /-- after the loop that writes -/
  | recycle
  /-- `threadFunc` has returned -/
  | returned
  deriving DecidableEq, Repr

/-- Where the thread stands that calls `start()` and `stop()`. -/
inductive Caller
  | constructed
  /-- in `latch_.wait()` -/
  | starting
  | started
  /-- in `stop()`, before `cond_.notify()` -/
  | notifying
  /-- in `thread_.join()` -/
  | joining
  /-- `stop()` has returned -/
  | stopped
  deriving DecidableEq, Repr

structure State where
  running : Bool
  latch : ℕ
  currentBuffer : Buffer
  nextBuffer : Option Buffer
  buffers : List Buffer
  newBuffer1 : Option Buffer
  newBuffer2 : Option Buffer
  buffersToWrite : List Buffer
  output : List Entry
  position : Position
  caller : Caller
  /-- the records that were appended, in the order of the critical sections -/
  appended : List (List UInt8)
  /-- how many of them when `stop()` was called -/
  appendedBefore : ℕ
  /-- the batches of buffers that the back-end has collected -/
  batches : List (List Buffer)
  deriving DecidableEq

inductive Event
  | append (logline : List UInt8)
  /-- `start()` up to `latch_.wait()` -/
  | start
  /-- `start()` returns -/
  | started
  /-- `stop()` up to `cond_.notify()` -/
  | stop
  | notify
  /-- `stop()` returns -/
  | joined
  /-- `threadFunc` up to the loop -/
  | begin
  | test
  | lock
  /-- the wait ends, because of a `notify()`, a timeout or no reason -/
  | wake
  | overload (now : String)
  | write
  | recycle
  deriving DecidableEq, Repr

def enabled (s : State) : Event → Prop
  | .append logline => logline.length < kLargeBuffer
  | .start => s.caller = .constructed
  | .started => s.caller = .starting ∧ s.latch = 0
  | .stop => s.caller = .started
  | .notify => s.caller = .notifying
  | .joined => s.caller = .joining ∧ s.position = .returned
  | .begin => s.position = .starting
  | .test => s.position = .testing
  | .lock => s.position = .locking
  | .wake => s.position = .waiting
  | .overload _ => s.position = .overload
  | .write => ∃ i, s.position = .write i
  | .recycle => s.position = .recycle

instance (s : State) : Decidable (∃ i, s.position = .write i) :=
  match h : s.position with
  | .write i => isTrue ⟨i, rfl⟩
  | .created | .starting | .testing | .locking | .waiting | .overload | .recycle | .returned =>
    isFalse (by simp)

instance (s : State) : (e : Event) → Decidable (enabled s e)
  | .append _ => inferInstanceAs (Decidable (_ < _))
  | .start | .stop | .notify | .begin | .test | .lock | .wake | .overload _ | .recycle =>
    inferInstanceAs (Decidable (_ = _))
  | .started | .joined => inferInstanceAs (Decidable (_ ∧ _))
  | .write => inferInstanceAs (Decidable (∃ i, s.position = .write i))

/-- `append`, where a `notify()` does no more than to allow the back-end to wake. -/
def append (s : State) (logline : List UInt8) : State :=
  if s.currentBuffer.avail > logline.length then
    { s with currentBuffer := s.currentBuffer.append logline }
  else
    match s.nextBuffer with
    | some next =>
      { s with
        buffers := s.buffers ++ [s.currentBuffer]
        currentBuffer := next.append logline
        nextBuffer := none }
    | none =>
      { s with
        buffers := s.buffers ++ [s.currentBuffer]
        currentBuffer := FixedBuffer.empty.append logline }

/-- A buffer that is there and empty. -/
def Ready (buffer : Option Buffer) : Prop := buffer = some .empty

instance (buffer : Option Buffer) : Decidable (Ready buffer) := inferInstanceAs (Decidable (_ = _))

def begin (s : State) : Checked State := do
  assert (s.running = true) .asyncRunning
  pure
    { s with
      latch := s.latch - 1
      newBuffer1 := some .empty
      newBuffer2 := some .empty
      buffersToWrite := []
      position := .testing }

def test (s : State) : Checked State :=
  if s.running then do
    assert (Ready s.newBuffer1) .asyncNewBuffer
    assert (Ready s.newBuffer2) .asyncNewBuffer
    assert (s.buffersToWrite = []) .asyncToWriteEmpty
    pure { s with position := .locking }
  else
    pure { s with buffersToWrite := [], position := .returned }

/-- The critical section after the wait. -/
def collect (s : State) : Checked State := do
  let buffers := s.buffers ++ [s.currentBuffer]
  match s.newBuffer1 with
  | none => throw .asyncCurrentBuffer
  | some new =>
    let s :=
      { s with
        currentBuffer := new
        newBuffer1 := none
        buffersToWrite := buffers
        buffers := s.buffersToWrite
        batches := s.batches ++ [buffers]
        position := .overload }
    let s := match s.nextBuffer with
      | none => { s with nextBuffer := s.newBuffer2, newBuffer2 := none }
      | some _ => s
    assert (s.buffersToWrite ≠ []) .asyncToWriteNotEmpty
    pure s

def lock (s : State) : Checked State :=
  if s.buffers = [] then pure { s with position := .waiting } else collect s

def overload (s : State) (now : String) : State :=
  if s.buffersToWrite.length > 25 then
    { s with
      output := s.output ++ [.notice now (s.buffersToWrite.length - 2)]
      buffersToWrite := s.buffersToWrite.take 2
      position := .write 0 }
  else { s with position := .write 0 }

/-- One turn of the loop that writes. -/
def write (s : State) (i : ℕ) : State :=
  match s.buffersToWrite[i]? with
  | some buffer =>
    { s with output := s.output ++ [.logged buffer.data], position := .write (i + 1) }
  | none => { s with position := .recycle }

/-- `if (!newBuffer)`: take the last buffer of `buffersToWrite` for it. -/
def refill (newBuffer : Option Buffer) (toWrite : List Buffer) :
    Checked (Option Buffer × List Buffer) :=
  match newBuffer with
  | some buffer => pure (some buffer, toWrite)
  | none => do
    assert (toWrite ≠ []) .asyncToWriteNotEmpty
    pure (some .empty, toWrite.dropLast)

def recycle (s : State) : Checked State := do
  let toWrite := if s.buffersToWrite.length > 2 then s.buffersToWrite.take 2 else s.buffersToWrite
  let (newBuffer1, toWrite) ← refill s.newBuffer1 toWrite
  let (newBuffer2, _) ← refill s.newBuffer2 toWrite
  pure
    { s with
      newBuffer1 := newBuffer1
      newBuffer2 := newBuffer2
      buffersToWrite := []
      position := .testing }

def step (s : State) : Event → Checked State
  | .append logline => pure { append s logline with appended := s.appended ++ [logline] }
  | .start => pure { s with running := true, caller := .starting, position := .starting }
  | .started => pure { s with caller := .started }
  | .stop =>
    pure { s with running := false, caller := .notifying, appendedBefore := s.appended.length }
  | .notify => pure { s with caller := .joining }
  | .joined => pure { s with caller := .stopped }
  | .begin => begin s
  | .test => test s
  | .lock => lock s
  | .wake => collect s
  | .overload now => pure (overload s now)
  | .write => match s.position with
    | .write i => pure (write s i)
    | .created | .starting | .testing | .locking | .waiting | .overload | .recycle
    | .returned => pure s
  | .recycle => recycle s

def constructed : State where
  running := false
  latch := 1
  currentBuffer := .empty
  nextBuffer := some .empty
  buffers := []
  newBuffer1 := none
  newBuffer2 := none
  buffersToWrite := []
  output := []
  position := .created
  caller := .constructed
  appended := []
  appendedBefore := 0
  batches := []

def system : System State Event Assertion where
  init s := s = constructed
  enabled := enabled
  step := step

instance (s : State) (e : Event) : Decidable (system.enabled s e) :=
  inferInstanceAs (Decidable (enabled s e))

/-- What the back-end writes of a batch. -/
def kept (batch : List Buffer) : List Buffer := if batch.length > 25 then batch.take 2 else batch

/-- An entry without the time of a notice. -/
inductive Item
  | logged (data : List UInt8)
  | notice (dropped : ℕ)
  deriving DecidableEq, Repr

def Entry.item : Entry → Item
  | .logged data => .logged data
  | .notice _ dropped => .notice dropped

def items (buffers : List Buffer) : List Item := buffers.map fun b => .logged b.data

/-- The entries of a batch: a notice if buffers are dropped, and the kept buffers. -/
def expected (batch : List Buffer) : List Item :=
  (if batch.length > 25 then [.notice (batch.length - 2)] else []) ++ items (kept batch)

/-- The buffers of `buffersToWrite` that are not yet written. -/
def State.unwritten (s : State) : List Buffer := match s.position with
  | .overload => s.buffersToWrite
  | .write i => s.buffersToWrite.drop i
  | .created | .starting | .testing | .locking | .waiting | .recycle | .returned => []

/-- The entries that are to be written before the next critical section. -/
def State.remaining (s : State) : List Item := match s.position with
  | .overload => expected s.buffersToWrite
  | .created | .starting | .testing | .locking | .waiting | .write _ | .recycle | .returned =>
    items s.unwritten

/-- The bytes of the entries, notices aside. -/
def loggedBytes (output : List Entry) : List UInt8 := output.flatMap fun
  | .logged data => data
  | .notice .. => []

/-- The records go into `buffers_` and `currentBuffer_`, from there into batches, and batches into
the file. -/
structure Accounted (s : State) : Prop where
  appended : s.appended.flatten =
    bytes s.batches.flatten ++ (bytes s.buffers ++ s.currentBuffer.data)
  output : s.output.map Entry.item ++ s.remaining = s.batches.flatMap expected

/-- Where the empty buffers are. -/
def Spare (s : State) : Prop := match s.position with
  | .testing | .locking | .waiting =>
    Ready s.newBuffer1 ∧ Ready s.newBuffer2 ∧ s.buffersToWrite = []
  | .overload | .write _ | .recycle =>
    s.newBuffer1 = none ∧ s.buffersToWrite ≠ [] ∧
      (Ready s.newBuffer2 ∨ s.newBuffer2 = none ∧ 2 ≤ s.buffersToWrite.length)
  | .created | .starting | .returned => True

/-- `threadFunc` has passed its first assertion. -/
def Position.Begun (position : Position) : Prop := position ≠ .created ∧ position ≠ .starting

/-- How far the caller of `start()` and the back-end have got. -/
structure Life (s : State) : Prop where
  starting : s.position = .starting → s.running = true
  latch : s.latch = 0 → s.position.Begun
  constructed : s.caller = .constructed → s.latch ≠ 0 ∧ s.position = .created
  started : s.caller ≠ .constructed → s.caller ≠ .starting → s.position.Begun

structure Inv (s : State) : Prop where
  accounted : Accounted s
  spare : Spare s
  next : ∀ b, s.nextBuffer = some b → b = .empty
  buffers : s.nextBuffer = none → s.buffers ≠ []
  collected : s.position = .overload → s.buffersToWrite ∈ s.batches
  life : Life s

variable {s t : State} {logline : List UInt8}

/-- Up to the critical section. -/
theorem Spare.ready (h : Spare s)
    (hp : s.position = .testing ∨ s.position = .locking ∨ s.position = .waiting) :
    Ready s.newBuffer1 ∧ Ready s.newBuffer2 ∧ s.buffersToWrite = [] := by
  unfold Spare at h
  rcases hp with hp | hp | hp
  · rwa [hp] at h
  · rwa [hp] at h
  · rwa [hp] at h

/-- Behind it. -/
theorem Spare.collected (h : Spare s)
    (hp : s.position = .overload ∨ s.position = .recycle ∨ ∃ i, s.position = .write i) :
    s.newBuffer1 = none ∧ s.buffersToWrite ≠ [] ∧
      (Ready s.newBuffer2 ∨ s.newBuffer2 = none ∧ 2 ≤ s.buffersToWrite.length) := by
  unfold Spare at h
  rcases hp with hp | hp | ⟨i, hp⟩
  · rwa [hp] at h
  · rwa [hp] at h
  · rwa [hp] at h

@[simp] theorem bytes_nil : bytes [] = [] := rfl

@[simp] theorem bytes_append (l l' : List Buffer) : bytes (l ++ l') = bytes l ++ bytes l' :=
  List.flatMap_append

@[simp] theorem bytes_singleton (b : Buffer) : bytes [b] = b.data := by simp [bytes]

theorem append_cases (logline : List UInt8) (hnext : ∀ b, s.nextBuffer = some b → b = .empty) :
    s.currentBuffer.avail > logline.length ∧
      append s logline = { s with currentBuffer := s.currentBuffer.append logline } ∨
    append s logline =
      { s with
        buffers := s.buffers ++ [s.currentBuffer]
        currentBuffer := FixedBuffer.empty.append logline
        nextBuffer := none } := by
  unfold append
  split_ifs with havail
  · exact .inl ⟨havail, rfl⟩
  · right
    cases hn : s.nextBuffer with
    | none => simp
    | some b => rw [hnext b hn]

theorem collect_eq (h1 : Ready s.newBuffer1) (h2 : Ready s.newBuffer2)
    (hw : s.buffersToWrite = []) (hnext : ∀ b, s.nextBuffer = some b → b = .empty) :
    collect s = .ok
      { s with
        currentBuffer := .empty
        nextBuffer := some .empty
        buffers := []
        newBuffer1 := none
        newBuffer2 := if s.nextBuffer = none then none else some .empty
        buffersToWrite := s.buffers ++ [s.currentBuffer]
        position := .overload
        batches := s.batches ++ [s.buffers ++ [s.currentBuffer]] } := by
  unfold Ready at h1 h2
  cases hn : s.nextBuffer with
  | none => simp [collect, hn, h1, h2, hw, assert]
  | some b => simp [collect, hn, hnext b hn, h1, h2, hw, assert]

/-- The buffers that were written, cut to two, are enough for the two new buffers. -/
theorem refill_both {toWrite : List Buffer} {newBuffer2 : Option Buffer} (hne : toWrite ≠ [])
    (h2 : Ready newBuffer2 ∨ newBuffer2 = none ∧ 2 ≤ toWrite.length) :
    ∃ rest rest',
      refill none (if toWrite.length > 2 then toWrite.take 2 else toWrite) =
        .ok (some .empty, rest) ∧
      refill newBuffer2 rest = .ok (some .empty, rest') := by
  obtain ⟨two, htwo⟩ : ∃ l, l = if toWrite.length > 2 then toWrite.take 2 else toWrite := ⟨_, rfl⟩
  have hlen : two.length = min 2 toWrite.length := by
    rw [htwo]
    split_ifs
    · simp
    · omega
  have hpos : 0 < toWrite.length := List.length_pos_iff.mpr hne
  have htwo' : two ≠ [] := List.ne_nil_of_length_pos (by omega)
  have hfirst : refill none two = .ok (some .empty, two.dropLast) := by
    simp [refill, assert_pos htwo']
  rw [← htwo]
  obtain h2 | ⟨h2, hmany⟩ := h2
  · exact ⟨_, _, hfirst, by rw [h2]; rfl⟩
  · have hone : two.dropLast ≠ [] :=
      List.ne_nil_of_length_pos (by rw [List.length_dropLast]; omega)
    exact ⟨_, two.dropLast.dropLast, hfirst, by rw [h2]; simp [refill, assert_pos hone]⟩

theorem recycle_eq (h1 : s.newBuffer1 = none) (hw : s.buffersToWrite ≠ [])
    (h2 : Ready s.newBuffer2 ∨ s.newBuffer2 = none ∧ 2 ≤ s.buffersToWrite.length) :
    recycle s = .ok
      { s with
        newBuffer1 := some .empty
        newBuffer2 := some .empty
        buffersToWrite := []
        position := .testing } := by
  obtain ⟨rest, rest', hfirst, hsecond⟩ := refill_both hw h2
  unfold recycle
  simp only [h1, hfirst, hsecond, ok_bind, pure_eq_ok]

/-- The back-end goes on. -/
theorem Life.turn (h : Life s) (hs : s.position ≠ .created) (ht : t.position.Begun)
    (hcaller : t.caller = s.caller) : Life t where
  starting hp := absurd hp ht.2
  latch _ := ht
  constructed hc := absurd (h.constructed (hcaller ▸ hc)).2 hs
  started _ _ := ht

theorem Life.start (h : Life s) (hc : s.caller = .constructed) :
    Life { s with running := true, caller := .starting, position := .starting } where
  starting _ := rfl
  latch hl := absurd hl (h.constructed hc).1
  constructed hc := by cases hc
  started _ hc := absurd rfl hc

/-- Where the back-end has begun, the caller goes on. -/
theorem Life.call (hc : t.caller ≠ .constructed) (ht : t.position.Begun) : Life t where
  starting hp := absurd hp ht.2
  latch _ := ht
  constructed hc' := absurd hc' hc
  started _ _ := ht

theorem inv_constructed : Inv constructed where
  accounted := ⟨rfl, rfl⟩
  spare := trivial
  next b hb := (Option.some.inj hb).symm
  buffers h := by cases h
  collected h := by cases h
  life :=
    { starting := fun h => by cases h
      latch := fun h => by cases h
      constructed := fun _ => ⟨by decide, rfl⟩
      started := fun h => absurd rfl h }

theorem inv_append (h : Inv s) (hl : logline.length < kLargeBuffer) :
    Inv { append s logline with appended := s.appended ++ [logline] } := by
  have hold := h.accounted.appended
  obtain ⟨havail, heq⟩ | heq := append_cases logline h.next
  · rw [heq]
    refine { h with accounted := ⟨?_, h.accounted.output⟩, life := { h.life with } }
    simp [hold, FixedBuffer.data_append havail]
  · rw [heq]
    refine
      { accounted := ⟨?_, h.accounted.output⟩
        spare := h.spare
        next := fun b hb => by cases hb
        buffers := fun _ => by simp
        collected := h.collected
        life := { h.life with } }
    simp [hold, FixedBuffer.data_append_of_empty FixedBuffer.data_empty hl]

/-- The caller's thread calls and returns. -/
theorem inv_start (h : Inv s) (hc : s.caller = .constructed) :
    Inv { s with running := true, caller := .starting, position := .starting } := by
  have hp := (h.life.constructed hc).2
  have hout := h.accounted.output
  refine
    { h with
      accounted := ⟨h.accounted.appended, ?_⟩
      spare := trivial
      collected := fun hp => by cases hp
      life := h.life.start hc }
  simpa [State.remaining, State.unwritten, hp] using hout

theorem inv_caller (h : Inv s) {caller : Caller} {running : Bool} {before : ℕ}
    (hc : caller ≠ .constructed) (hb : s.position.Begun) :
    Inv { s with running := running, caller := caller, appendedBefore := before } :=
  { h with
    accounted := ⟨h.accounted.appended, h.accounted.output⟩
    spare := h.spare
    life := Life.call hc hb }

theorem inv_begin (h : Inv s) (hp : s.position = .starting) : Yields (begin s) Inv := by
  unfold begin
  rw [assert_pos (h.life.starting hp)]
  apply yields_ok
  have hout := h.accounted.output
  refine
    { h with
      accounted := ⟨h.accounted.appended, ?_⟩
      spare := ⟨rfl, rfl, rfl⟩
      collected := fun hp => by cases hp
      life := h.life.turn (by simp [hp]) (by simp [Position.Begun]) rfl }
  simpa [State.remaining, State.unwritten, hp] using hout

theorem inv_test (h : Inv s) (hp : s.position = .testing) : Yields (test s) Inv := by
  obtain ⟨h1, h2, hw⟩ := h.spare.ready (.inl hp)
  have hb : s.position ≠ .created := by simp [hp]
  have hout := h.accounted.output
  simp only [State.remaining, State.unwritten, hp] at hout
  unfold test
  split_ifs
  · rw [assert_pos h1, assert_pos h2, assert_pos hw]
    apply yields_ok
    exact
      { h with
        accounted := ⟨h.accounted.appended, hout⟩
        spare := ⟨h1, h2, hw⟩
        collected := fun hp => by cases hp
        life := h.life.turn hb (by simp [Position.Begun]) rfl }
  · apply yields_ok
    exact
      { h with
        accounted := ⟨h.accounted.appended, hout⟩
        spare := trivial
        collected := fun hp => by cases hp
        life := h.life.turn hb (by simp [Position.Begun]) rfl }

theorem inv_collect (h : Inv s) (hp : s.position = .locking ∨ s.position = .waiting) :
    Yields (collect s) Inv := by
  have hremaining : s.remaining = [] := by
    obtain hp | hp := hp
    · simp [State.remaining, State.unwritten, hp, items]
    · simp [State.remaining, State.unwritten, hp, items]
  have hb : s.position ≠ .created := by
    obtain hp | hp := hp
    · simp [hp]
    · simp [hp]
  obtain ⟨h1, h2, hw⟩ := h.spare.ready (.inr hp)
  rw [collect_eq h1 h2 hw h.next]
  apply yields_ok
  have hold := h.accounted.appended
  have hout := h.accounted.output
  rw [hremaining, List.append_nil] at hout
  refine
    { accounted := ⟨by simp [hold], by simp [State.remaining, hout]⟩
      spare := ⟨rfl, by simp, ?_⟩
      next := fun b hb => (Option.some.inj hb).symm
      buffers := fun hn => by cases hn
      collected := fun _ => by simp
      life := h.life.turn hb (by simp [Position.Begun]) rfl }
  by_cases hn : s.nextBuffer = none
  · have hpos := List.length_pos_iff.mpr (h.buffers hn)
    right
    simp [hn]
    omega
  · left
    simp [hn, Ready]

theorem inv_lock (h : Inv s) (hp : s.position = .locking) : Yields (lock s) Inv := by
  unfold lock
  split_ifs
  · apply yields_ok
    have hspare := h.spare.ready (.inr (.inl hp))
    have hout := h.accounted.output
    simp only [State.remaining, State.unwritten, hp] at hout
    exact
      { h with
        accounted := ⟨h.accounted.appended, hout⟩
        spare := hspare
        collected := fun hp => by cases hp
        life := h.life.turn (by simp [hp]) (by simp [Position.Begun]) rfl }
  · exact inv_collect h (.inl hp)

theorem inv_overload (h : Inv s) (hp : s.position = .overload) (now : String) :
    Inv (overload s now) := by
  obtain ⟨h1, hne, h2⟩ := h.spare.collected (.inl hp)
  have hb : s.position ≠ .created := by simp [hp]
  have hout := h.accounted.output
  simp only [State.remaining, hp, expected, kept] at hout
  unfold overload
  split_ifs with hlen
  · exact
      { h with
        accounted := ⟨h.accounted.appended, by
          simpa [State.remaining, State.unwritten, Entry.item, hlen] using hout⟩
        spare := ⟨h1, List.ne_nil_of_length_pos (by rw [List.length_take]; omega),
          h2.imp_right fun h2 => ⟨h2.1, by rw [List.length_take]; omega⟩⟩
        collected := fun hp => by cases hp
        life := h.life.turn hb (by simp [Position.Begun]) rfl }
  · exact
      { h with
        accounted := ⟨h.accounted.appended, by
          simpa [State.remaining, State.unwritten, hlen] using hout⟩
        spare := ⟨h1, hne, h2⟩
        collected := fun hp => by cases hp
        life := h.life.turn hb (by simp [Position.Begun]) rfl }

theorem inv_write (h : Inv s) {i : ℕ} (hp : s.position = .write i) : Inv (write s i) := by
  have hspare := h.spare.collected (.inr (.inr ⟨i, hp⟩))
  have hb : s.position ≠ .created := by simp [hp]
  have hout := h.accounted.output
  simp only [State.remaining, State.unwritten, hp] at hout
  unfold write
  cases hi : s.buffersToWrite[i]? with
  | some b =>
    obtain ⟨hlt, hb'⟩ := List.getElem?_eq_some_iff.mp hi
    rw [List.drop_eq_getElem_cons hlt, hb'] at hout
    exact
      { h with
        accounted := ⟨h.accounted.appended, by
          simpa [State.remaining, State.unwritten, Entry.item, items] using hout⟩
        spare := hspare
        collected := fun hp => by cases hp
        life := h.life.turn hb (by simp [Position.Begun]) rfl }
  | none =>
    rw [List.drop_eq_nil_of_le (List.getElem?_eq_none_iff.mp hi)] at hout
    exact
      { h with
        accounted := ⟨h.accounted.appended, hout⟩
        spare := hspare
        collected := fun hp => by cases hp
        life := h.life.turn hb (by simp [Position.Begun]) rfl }

theorem inv_recycle (h : Inv s) (hp : s.position = .recycle) : Yields (recycle s) Inv := by
  obtain ⟨h1, hne, h2⟩ := h.spare.collected (.inr (.inl hp))
  have hout := h.accounted.output
  simp only [State.remaining, State.unwritten, hp] at hout
  rw [recycle_eq h1 hne h2]
  apply yields_ok
  exact
    { h with
      accounted := ⟨h.accounted.appended, hout⟩
      spare := ⟨rfl, rfl, rfl⟩
      collected := fun hp => by cases hp
      life := h.life.turn (by simp [hp]) (by simp [Position.Begun]) rfl }

/-- No assertion of `threadFunc` fails. -/
theorem invariant : TotalInvariant system Inv where
  init s hs := hs ▸ inv_constructed
  step s e h he := by
    cases e with
    | append => exact yields_ok (inv_append h he)
    | start => exact yields_ok (inv_start h he)
    | started =>
      obtain ⟨_, hlatch⟩ := he
      exact yields_ok (inv_caller h (by simp) (h.life.latch hlatch))
    | stop =>
      have hc : s.caller = .started := he
      exact yields_ok (inv_caller h (by simp) (h.life.started (by simp [hc]) (by simp [hc])))
    | notify =>
      have hc : s.caller = .notifying := he
      exact yields_ok (inv_caller h (by simp) (h.life.started (by simp [hc]) (by simp [hc])))
    | joined =>
      obtain ⟨hc, _⟩ := he
      exact yields_ok (inv_caller h (by simp) (h.life.started (by simp [hc]) (by simp [hc])))
    | begin => exact inv_begin h he
    | test => exact inv_test h he
    | lock => exact inv_lock h he
    | wake => exact inv_collect h (.inr he)
    | overload now => exact yields_ok (inv_overload h he now)
    | write =>
      obtain ⟨i, hp⟩ := he
      have hstep : system.step s .write = .ok (write s i) := by simp [system, step, hp]
      exact ⟨_, hstep, inv_write h hp⟩
    | recycle => exact inv_recycle h he

/-- The bytes of an item, none for a notice. -/
def Item.bytes : Item → List UInt8
  | .logged data => data
  | .notice _ => []

theorem loggedBytes_eq (output : List Entry) :
    loggedBytes output = (output.map Entry.item).flatMap Item.bytes := by
  rw [loggedBytes, List.flatMap_map]
  apply List.flatMap_congr
  rintro (_ | _) -
  · rfl
  · rfl

theorem flatMap_bytes_items (buffers : List Buffer) :
    (items buffers).flatMap Item.bytes = bytes buffers := by
  rw [items, List.flatMap_map]
  rfl

theorem expected_of_le {batch : List Buffer} (h : batch.length ≤ 25) :
    expected batch = items batch := by
  have hlen : ¬batch.length > 25 := by omega
  rw [expected, kept, if_neg hlen, if_neg hlen, List.nil_append]

theorem flatMap_expected {batches : List (List Buffer)} (h : ∀ b ∈ batches, b.length ≤ 25) :
    batches.flatMap expected = items batches.flatten := by
  induction batches with
  | nil => rfl
  | cons b rest ih =>
    simp only [List.forall_mem_cons] at h
    rw [List.flatMap_cons, expected_of_le h.1, ih h.2]
    simp [items]

theorem remaining_of_le (h : s.position = .overload → s.buffersToWrite.length ≤ 25) :
    s.remaining = items s.unwritten := by
  unfold State.remaining
  cases hp : s.position with
  | overload => simp [State.unwritten, hp, expected_of_le (h hp)]
  | created | starting | testing | locking | waiting | write | recycle | returned => rfl

/-- What is appended is, in this order, in the collected batches, in `buffers_` and in
`currentBuffer_`; and what is written and to be written is what the batches keep, with a notice
before each batch that does not keep all. -/
theorem appended_eq (h : Reachable system s) :
    s.appended.flatten = bytes s.batches.flatten ++ (bytes s.buffers ++ s.currentBuffer.data) ∧
    s.output.map Entry.item ++ s.remaining = s.batches.flatMap expected ∧
    ((∀ b ∈ s.batches, b.length ≤ 25) → loggedBytes s.output ++ (bytes s.unwritten ++
      (bytes s.buffers ++ s.currentBuffer.data)) = s.appended.flatten) := by
  have hI : Inv s := (invariant.invariant _).reachable _ h
  have happended := hI.accounted.appended
  have houtput := hI.accounted.output
  refine ⟨happended, houtput, fun hle => ?_⟩
  have hremaining := remaining_of_le fun hp => hle _ (hI.collected hp)
  rw [hremaining, flatMap_expected hle] at houtput
  have hlogged : loggedBytes s.output ++ bytes s.unwritten = bytes s.batches.flatten := by
    rw [loggedBytes_eq, ← flatMap_bytes_items s.unwritten, ← List.flatMap_append, houtput,
      flatMap_bytes_items]
  rw [happended, ← hlogged, List.append_assoc]

/-- Two records are collected and written, and a third is appended meanwhile. -/
def sampleEvents : List Event :=
  [.start, .begin, .started, .append [1, 2], .test, .lock, .append [3], .wake, .append [4],
    .overload "", .write]

theorem sample_appended : ∃ s : State, s.output = [.logged [1, 2, 3]] ∧
    s.currentBuffer.data = [4] ∧
    s.appended.flatten = bytes s.batches.flatten ++ (bytes s.buffers ++ s.currentBuffer.data) ∧
    s.output.map Entry.item ++ s.remaining = s.batches.flatMap expected := by
  have hreplay : (replay system constructed sampleEvents).any
      (fun s => decide (s.output = [.logged [1, 2, 3]] ∧ s.currentBuffer.data = [4])) = true := by
    decide +kernel
  obtain ⟨s, hr, hs⟩ := exists_run_of_replay system hreplay
  obtain ⟨hout, hcurrent⟩ := of_decide_eq_true hs
  obtain ⟨happended, hitems, _⟩ := appended_eq ⟨constructed, sampleEvents, rfl, hr⟩
  exact ⟨s, hout, hcurrent, happended, hitems⟩

end Muduo.AsyncLogging

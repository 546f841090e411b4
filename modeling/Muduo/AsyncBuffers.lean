import Muduo.AsyncLogging

/-!
# The buffer pointers of an `AsyncLogging`

The same threads as in `AsyncLogging`, with records of any length. Each `BufferPtr` may be
null here, `currentBuffer_` as well, and a null one that is used is an error. What has become
of the records is left out.
-/
namespace Muduo.AsyncLogging.Pointers
open StepSystem

/-- `BufferPtr`; `none` is null. -/
abbrev BufferPtr := Option Buffer

/-- `*p` -/
def deref : BufferPtr → Checked Buffer
  | some buffer => .ok buffer
  | none => .error .asyncNullBuffer

structure State where
  running : Bool
  latch : ℕ
  currentBuffer : BufferPtr
  nextBuffer : BufferPtr
  buffers : List Buffer
  newBuffer1 : BufferPtr
  newBuffer2 : BufferPtr
  buffersToWrite : List Buffer
  position : Position
  caller : Caller
  deriving DecidableEq

/-- `currentBuffer_` takes over `nextBuffer_`, or a new buffer. -/
def replaceCurrent (s : State) : State := match s.nextBuffer with
  | some next => { s with currentBuffer := some next, nextBuffer := none }
  | none => { s with currentBuffer := some .empty }

def append (s : State) (logline : List UInt8) : Checked State := do
  let current ← deref s.currentBuffer
  if current.avail > logline.length then
    return { s with currentBuffer := some (current.append logline) }
  else do
    let s := replaceCurrent { s with buffers := s.buffers ++ [current], currentBuffer := none }
    let current ← deref s.currentBuffer
    return { s with currentBuffer := some (current.append logline) }

def begin (s : State) : Checked State := do
  assert (s.running = true) .asyncRunning
  return { s with
    latch := s.latch - 1
    newBuffer1 := some .empty
    newBuffer2 := some .empty
    buffersToWrite := []
    position := .testing }

def test (s : State) : Checked State :=
  if s.running then do
    assert (Ready s.newBuffer1) .asyncNewBuffer
    assert (Ready s.newBuffer2) .asyncNewBuffer
    assert (s.buffersToWrite = []) .asyncToWriteEmpty
    return { s with position := .locking }
  else return { s with buffersToWrite := [], position := .returned }

/-- The critical section after the wait, and the assertion behind it. -/
def collect (s : State) : Checked State := do
  let current ← deref s.currentBuffer
  let s := { s with
    currentBuffer := s.newBuffer1
    newBuffer1 := none
    buffersToWrite := s.buffers ++ [current]
    buffers := s.buffersToWrite
    position := .overload }
  let s :=
    if s.nextBuffer.isNone then { s with nextBuffer := s.newBuffer2, newBuffer2 := none } else s
  assert (s.buffersToWrite ≠ []) .asyncToWriteNotEmpty
  return s

def lock (s : State) : Checked State :=
  if s.buffers = [] then return { s with position := .waiting } else collect s

def overload (s : State) : State :=
  { s with
    buffersToWrite :=
      if s.buffersToWrite.length > 25 then s.buffersToWrite.take 2 else s.buffersToWrite
    position := .write 0 }

/-- One turn of the loop that writes. -/
def write (s : State) (i : ℕ) : State :=
  { s with position := if i < s.buffersToWrite.length then .write (i + 1) else .recycle }

def recycle (s : State) : Checked State := do
  let toWrite := if s.buffersToWrite.length > 2 then s.buffersToWrite.take 2 else s.buffersToWrite
  let (newBuffer1, toWrite) ← refill s.newBuffer1 toWrite
  let (newBuffer2, _) ← refill s.newBuffer2 toWrite
  return { s with newBuffer1, newBuffer2, buffersToWrite := [], position := .testing }

def step (s : State) : Event → Checked State
  | .append logline => append s logline
  | .start => .ok { s with running := true, caller := .starting, position := .starting }
  | .started => .ok { s with caller := .started }
  | .stop => .ok { s with running := false, caller := .notifying }
  | .notify => .ok { s with caller := .joining }
  | .joined => .ok { s with caller := .stopped }
  | .begin => begin s
  | .test => test s
  | .lock => lock s
  | .wake => collect s
  | .overload _ => .ok (overload s)
  | .write => match s.position with
    | .write i => .ok (write s i)
    | .created | .starting | .testing | .locking | .waiting | .overload | .recycle | .returned =>
      .ok s
  | .recycle => recycle s

def enabled (s : State) : Event → Prop
  | .append _ => True
  | .start => s.caller = .constructed
  | .started => s.caller = .starting ∧ s.latch = 0
  | .stop => s.caller = .started
  | .notify => s.caller = .notifying
  | .joined => s.caller = .joining ∧ s.position = .returned
  | .begin => s.position = .starting
  | .test => s.position = .testing
  | .lock => s.position = .locking
  | .wake => s.position = .waiting
  | .overload _ => s.position = .overload
  | .write => ∃ i, s.position = .write i
  | .recycle => s.position = .recycle

/-- The part of the state that the model without null pointers has too. -/
def State.plain (s : State) : AsyncLogging.State where
  running := s.running
  latch := s.latch
  currentBuffer := .empty
  nextBuffer := s.nextBuffer
  buffers := s.buffers
  newBuffer1 := s.newBuffer1
  newBuffer2 := s.newBuffer2
  buffersToWrite := s.buffersToWrite
  output := []
  position := s.position
  caller := s.caller
  appended := []
  appendedBefore := 0
  batches := []

instance (s : State) : Decidable (∃ i, s.position = .write i) :=
  inferInstanceAs (Decidable (∃ i, s.plain.position = .write i))

instance (s : State) : (e : Event) → Decidable (enabled s e)
  | .append _ => inferInstanceAs (Decidable True)
  | .start | .stop | .notify | .begin | .test | .lock | .wake | .overload _ | .recycle =>
    inferInstanceAs (Decidable (_ = _))
  | .started | .joined => inferInstanceAs (Decidable (_ ∧ _))
  | .write => inferInstanceAs (Decidable (∃ i, s.position = .write i))

def constructed : State where
  running := false
  latch := 1
  currentBuffer := some .empty
  nextBuffer := some .empty
  buffers := []
  newBuffer1 := none
  newBuffer2 := none
  buffersToWrite := []
  position := .created
  caller := .constructed

def system : System State Event Assertion where
  init s := s = constructed
  enabled := enabled
  step := step

instance (s : State) (e : Event) : Decidable (system.enabled s e) :=
  inferInstanceAs (Decidable (enabled s e))

/-! ### The invariant -/

structure Inv (s : State) : Prop where
  current : s.currentBuffer ≠ none
  next : s.nextBuffer = none → s.buffers ≠ []
  spare : Spare s.plain
  life : Life s.plain

variable {s t : State}

@[simp] theorem plain_position : s.plain.position = s.position := rfl

@[simp] theorem plain_caller : s.plain.caller = s.caller := rfl

/-- The back-end goes on. -/
theorem Inv.turn (h : Inv s) (hs : s.position ≠ .created) (ht : t.position.Begun)
    (hcaller : t.caller = s.caller) : Life t.plain :=
  h.life.turn hs ht hcaller

theorem inv_constructed : Inv constructed where
  current := by simp [constructed]
  next h := by cases h
  spare := trivial
  life := AsyncLogging.inv_constructed.life

/-- Whatever a record does to the buffers, it queues one where it takes `nextBuffer_`. -/
theorem inv_append (h : Inv s) (logline : List UInt8) : Yields (append s logline) Inv := by
  obtain ⟨current, hcurrent⟩ := Option.ne_none_iff_exists'.mp h.current
  unfold append
  rw [hcurrent]
  simp only [deref, ok_bind]
  split_ifs with havail
  · exact yields_ok { h with current := by simp, spare := h.spare, life := { h.life with } }
  · unfold replaceCurrent
    cases hnext : s.nextBuffer with
    | some next =>
      exact yields_ok
        { current := by simp, next := fun _ => by simp, spare := h.spare, life := { h.life with } }
    | none =>
      exact yields_ok
        { current := by simp, next := fun _ => by simp, spare := h.spare, life := { h.life with } }

/-- The caller's thread calls and returns. -/
theorem inv_start (h : Inv s) (hc : s.caller = .constructed) :
    Inv { s with running := true, caller := .starting, position := .starting } :=
  { h with
    spare := trivial
    life := h.life.start hc }

theorem inv_caller (h : Inv s) {caller : Caller} {running : Bool} (hc : caller ≠ .constructed)
    (hb : s.position.Begun) : Inv { s with running := running, caller := caller } :=
  { h with
    spare := h.spare
    life := Life.call hc hb }

theorem inv_begin (h : Inv s) (hp : s.position = .starting) : Yields (begin s) Inv := by
  have hrunning : s.running = true := h.life.starting hp
  unfold begin
  rw [assert_pos hrunning, ok_bind]
  exact yields_ok
    { h with
      spare := ⟨rfl, rfl, rfl⟩
      life := h.turn (by simp [hp]) (by simp [Position.Begun]) rfl }

theorem Inv.ready (h : Inv s)
    (hp : s.position = .testing ∨ s.position = .locking ∨ s.position = .waiting) :
    Ready s.newBuffer1 ∧ Ready s.newBuffer2 ∧ s.buffersToWrite = [] :=
  h.spare.ready hp

theorem Inv.collected (h : Inv s)
    (hp : s.position = .overload ∨ s.position = .recycle ∨ ∃ i, s.position = .write i) :
    s.newBuffer1 = none ∧ s.buffersToWrite ≠ [] ∧
      (Ready s.newBuffer2 ∨ s.newBuffer2 = none ∧ 2 ≤ s.buffersToWrite.length) :=
  h.spare.collected hp

theorem inv_test (h : Inv s) (hp : s.position = .testing) : Yields (test s) Inv := by
  obtain ⟨h1, h2, hw⟩ := h.ready (.inl hp)
  have hb : s.position ≠ .created := by simp [hp]
  unfold test
  split_ifs
  · rw [assert_pos h1, assert_pos h2, assert_pos hw]
    exact yields_ok
      { h with
        spare := ⟨h1, h2, hw⟩
        life := h.turn hb (by simp [Position.Begun]) rfl }
  · exact yields_ok
      { h with
        spare := trivial
        life := h.turn hb (by simp [Position.Begun]) rfl }

/-- Where `nextBuffer_` is null, a buffer has been queued before the current one. -/
theorem inv_collect (h : Inv s) (hp : s.position = .locking ∨ s.position = .waiting) :
    Yields (collect s) Inv := by
  obtain ⟨current, hcurrent⟩ := Option.ne_none_iff_exists'.mp h.current
  obtain ⟨h1, h2, hw⟩ := h.ready (.inr hp)
  have hb : s.position ≠ .created := by
    rcases hp with hp | hp
    · simp [hp]
    · simp [hp]
  have hlife : ∀ {t : State}, t.position = .overload → t.caller = s.caller → Life t.plain := by
    intro t ht hcaller
    exact h.turn hb (by simp [Position.Begun, ht]) hcaller
  have hne : s.buffers ++ [current] ≠ [] := by simp
  unfold Ready at h1 h2
  unfold collect
  rw [hcurrent]
  simp only [deref, ok_bind]
  cases hnext : s.nextBuffer with
  | none =>
    have hpos := List.length_pos_iff.mpr (h.next hnext)
    have hmany : 2 ≤ (s.buffers ++ [current]).length := by
      rw [List.length_append, List.length_singleton]
      omega
    simp only [Option.isNone_none, if_true, assert_pos hne, ok_bind, h1, h2]
    exact yields_ok
      { current := by simp
        next := fun hn => by cases hn
        spare := ⟨rfl, hne, .inr ⟨rfl, hmany⟩⟩
        life := hlife rfl rfl }
  | some next =>
    simp only [Option.isNone_some, Bool.false_eq_true, if_false, assert_pos hne, ok_bind, h1, h2]
    exact yields_ok
      { current := by simp
        next := fun hn => by cases hn
        spare := ⟨rfl, hne, .inl rfl⟩
        life := hlife rfl rfl }

theorem inv_lock (h : Inv s) (hp : s.position = .locking) : Yields (lock s) Inv := by
  unfold lock
  split_ifs
  · exact yields_ok
      { h with
        spare := h.ready (.inr (.inl hp))
        life := h.turn (by simp [hp]) (by simp [Position.Begun]) rfl }
  · exact inv_collect h (.inl hp)

/-- Two buffers survive the drop. -/
theorem inv_overload (h : Inv s) (hp : s.position = .overload) : Inv (overload s) := by
  obtain ⟨h1, hne, h2⟩ := h.collected (.inl hp)
  have hb : s.position ≠ .created := by simp [hp]
  have hpos := List.length_pos_iff.mpr hne
  refine
    { current := h.current
      next := h.next
      spare := ⟨h1, ?_, h2.imp_right fun h2 => ⟨h2.1, ?_⟩⟩
      life := h.turn hb (by simp [Position.Begun, overload]) rfl }
  · show (overload s).buffersToWrite ≠ []
    unfold overload
    dsimp only
    split_ifs with hlen
    · exact List.ne_nil_of_length_pos (by rw [List.length_take]; omega)
    · exact hne
  · show 2 ≤ (overload s).buffersToWrite.length
    unfold overload
    dsimp only
    split_ifs with hlen
    · rw [List.length_take]
      omega
    · exact h2.2

theorem inv_write (h : Inv s) {i : ℕ} (hp : s.position = .write i) : Inv (write s i) := by
  have hspare := h.collected (.inr (.inr ⟨i, hp⟩))
  have hb : s.position ≠ .created := by simp [hp]
  unfold write
  split_ifs
  · exact { h with
      spare := hspare
      life := h.turn hb (by simp [Position.Begun]) rfl }
  · exact { h with
      spare := hspare
      life := h.turn hb (by simp [Position.Begun]) rfl }

theorem inv_recycle (h : Inv s) (hp : s.position = .recycle) : Yields (recycle s) Inv := by
  obtain ⟨h1, hne, h2⟩ := h.collected (.inr (.inl hp))
  obtain ⟨rest, rest', hfirst, hsecond⟩ := AsyncLogging.refill_both hne h2
  unfold recycle
  simp only [h1, hfirst, hsecond, ok_bind, pure_eq_ok]
  exact yields_ok
    { h with
      spare := ⟨rfl, rfl, rfl⟩
      life := h.turn (by simp [hp]) (by simp [Position.Begun]) rfl }

theorem totalInvariant : TotalInvariant system Inv where
  init s hs := by
    rw [show s = constructed from hs]
    exact inv_constructed
  step s e h he := by
    cases e with
    | append logline => exact inv_append h logline
    | start => exact yields_ok (inv_start h he)
    | started =>
      obtain ⟨_, hlatch⟩ := he
      exact yields_ok (inv_caller h (by simp) (h.life.latch hlatch))
    | stop =>
      have hc : s.caller = .started := he
      exact yields_ok (inv_caller h (by simp) (h.life.started (by simp [hc]) (by simp [hc])))
    | notify =>
      have hc : s.caller = .notifying := he
      exact yields_ok (inv_caller h (by simp) (h.life.started (by simp [hc]) (by simp [hc])))
    | joined =>
      obtain ⟨hc, _⟩ := he
      exact yields_ok (inv_caller h (by simp) (h.life.started (by simp [hc]) (by simp [hc])))
    | begin => exact inv_begin h he
    | test => exact inv_test h he
    | lock => exact inv_lock h he
    | wake => exact inv_collect h (.inr he)
    | overload now => exact yields_ok (inv_overload h he)
    | write =>
      obtain ⟨i, hp⟩ := he
      have hstep : system.step s .write = .ok (write s i) := by simp [system, step, hp]
      exact ⟨_, hstep, inv_write h hp⟩
    | recycle => exact inv_recycle h he

/-- The pointers between two steps. -/
structure Recycled (s : State) : Prop where
  current : s.currentBuffer ≠ none
  next : s.nextBuffer = none → s.buffers ≠ []
  /-- at the loop test -/
  top : s.position = .testing →
    Ready s.newBuffer1 ∧ Ready s.newBuffer2 ∧ s.buffersToWrite = []
  /-- before the buffers are popped that are missing -/
  enough : s.position = .recycle →
    [s.newBuffer1, s.newBuffer2].count none ≤ min 2 s.buffersToWrite.length

theorem Inv.recycled (h : Inv s) : Recycled s where
  current := h.current
  next := h.next
  top hp := h.ready (.inl hp)
  enough hp := by
    obtain ⟨h1, hne, h2⟩ := h.collected (.inr (.inl hp))
    have hpos := List.length_pos_iff.mpr hne
    rw [h1]
    rcases h2 with h2 | ⟨h2, htwo⟩
    · rw [show s.newBuffer2 = some .empty from h2]
      simp
      omega
    · rw [h2]
      simp
      omega

/-- However the threads interleave, the pointers are as the code takes them to be, and no
assertion fails. -/
theorem buffers_recycled : Safe system ∧ ∀ s, Reachable system s → Recycled s :=
  ⟨totalInvariant.safe, fun _ hs => ((totalInvariant.invariant _).reachable _ hs).recycled⟩

/-- A record that no buffer holds takes `nextBuffer_` and is lost. -/
theorem append_long {logline : List UInt8} (h : AsyncLogging.kLargeBuffer ≤ logline.length) :
    append constructed logline =
      .ok { constructed with nextBuffer := none, buffers := [.empty] } := by
  have havail : ¬(FixedBuffer.empty : Buffer).avail > logline.length := by
    simpa [FixedBuffer.avail, FixedBuffer.length] using h
  unfold append constructed
  simp only [deref, ok_bind, if_neg havail, replaceCurrent, FixedBuffer.append,
    dif_neg havail, List.nil_append, pure_eq_ok]

/-- The back-end collects two buffers and pops both. -/
def twoPopped : List Event :=
  [.start, .begin, .started, .test, .lock, .overload "", .write, .write, .write, .recycle]

theorem buffers_recycled_popped : ∃ s logline,
    Run system constructed (.append logline :: twoPopped) s ∧
    s.newBuffer1 = some .empty ∧ s.newBuffer2 = some .empty ∧ Recycled s := by
  obtain ⟨logline, hlong⟩ : ∃ l : List UInt8, AsyncLogging.kLargeBuffer ≤ l.length :=
    ⟨.replicate AsyncLogging.kLargeBuffer 0, by rw [List.length_replicate]⟩
  have hreplay : (replay system { constructed with nextBuffer := none, buffers := [.empty] }
      twoPopped).any (fun s => decide (Ready s.newBuffer1 ∧ Ready s.newBuffer2)) = true := by
    decide +kernel
  obtain ⟨s, hr, hs⟩ := exists_run_of_replay system hreplay
  obtain ⟨h1, h2⟩ := of_decide_eq_true hs
  have henabled : system.enabled constructed (.append logline) := trivial
  have hrun := run_cons system henabled (append_long hlong) hr
  exact ⟨s, logline, hrun, h1, h2, buffers_recycled.2 s ⟨constructed, _, rfl, hrun⟩⟩

/-! ### The model without null pointers -/

/-- The pointers of a state in which `currentBuffer_` cannot be null. -/
def pointers (l : AsyncLogging.State) : State where
  running := l.running
  latch := l.latch
  currentBuffer := some l.currentBuffer
  nextBuffer := l.nextBuffer
  buffers := l.buffers
  newBuffer1 := l.newBuffer1
  newBuffer2 := l.newBuffer2
  buffersToWrite := l.buffersToWrite
  position := l.position
  caller := l.caller

variable {l l' : AsyncLogging.State} {e : Event}

theorem append_pointers (l : AsyncLogging.State) (logline : List UInt8) :
    append (pointers l) logline = .ok (pointers (AsyncLogging.append l logline)) := by
  unfold append AsyncLogging.append pointers
  simp only [deref, ok_bind]
  split_ifs with havail
  · rfl
  · unfold replaceCurrent
    cases l.nextBuffer with
    | some next => rfl
    | none => rfl

theorem collect_pointers (h : AsyncLogging.collect l = .ok l') :
    collect (pointers l) = .ok (pointers l') := by
  have hne : l.buffers ++ [l.currentBuffer] ≠ [] := by simp
  unfold AsyncLogging.collect at h
  unfold collect pointers
  cases h1 : l.newBuffer1 with
  | none =>
    rw [h1] at h
    cases h
  | some new =>
    rw [h1] at h
    cases hnext : l.nextBuffer with
    | none =>
      simp only [hnext, assert_pos hne, ok_bind, pure_eq_ok] at h
      rw [← Except.ok.inj h]
      simp only [deref, ok_bind, Option.isNone_none, if_true, assert_pos hne, pure_eq_ok]
    | some next =>
      simp only [hnext, assert_pos hne, ok_bind, pure_eq_ok] at h
      rw [← Except.ok.inj h]
      simp only [deref, ok_bind, Option.isNone_some, Bool.false_eq_true, if_false,
        assert_pos hne, pure_eq_ok]

theorem begin_pointers (h : AsyncLogging.begin l = .ok l') :
    begin (pointers l) = .ok (pointers l') := by
  obtain ⟨_, hassert, h⟩ := bind_eq_ok.mp h
  have hrunning : (pointers l).running = true := assert_eq_ok.mp hassert
  unfold begin
  rw [assert_pos hrunning, ok_bind, ← Except.ok.inj h]
  rfl

theorem test_pointers (h : AsyncLogging.test l = .ok l') :
    test (pointers l) = .ok (pointers l') := by
  unfold AsyncLogging.test at h
  unfold test
  by_cases hrunning : l.running = true
  · rw [if_pos hrunning] at h
    obtain ⟨_, h1, h⟩ := bind_eq_ok.mp h
    obtain ⟨_, h2, h⟩ := bind_eq_ok.mp h
    obtain ⟨_, hw, h⟩ := bind_eq_ok.mp h
    have hready1 : Ready (pointers l).newBuffer1 := assert_eq_ok.mp h1
    have hready2 : Ready (pointers l).newBuffer2 := assert_eq_ok.mp h2
    have hempty : (pointers l).buffersToWrite = [] := assert_eq_ok.mp hw
    rw [if_pos (show (pointers l).running = true from hrunning), assert_pos hready1,
      assert_pos hready2, assert_pos hempty, ← Except.ok.inj h]
    rfl
  · rw [if_neg hrunning] at h
    rw [if_neg (show ¬(pointers l).running = true from hrunning), ← Except.ok.inj h]
    rfl

theorem lock_pointers (h : AsyncLogging.lock l = .ok l') :
    lock (pointers l) = .ok (pointers l') := by
  unfold AsyncLogging.lock at h
  unfold lock
  by_cases hbuffers : l.buffers = []
  · rw [if_pos hbuffers] at h
    rw [if_pos (show (pointers l).buffers = [] from hbuffers), ← Except.ok.inj h]
    rfl
  · rw [if_neg hbuffers] at h
    rw [if_neg (show ¬(pointers l).buffers = [] from hbuffers)]
    exact collect_pointers h

theorem overload_pointers (l : AsyncLogging.State) (now : String) :
    overload (pointers l) = pointers (AsyncLogging.overload l now) := by
  unfold overload AsyncLogging.overload pointers
  split_ifs
  · rfl
  · rfl

theorem write_pointers (l : AsyncLogging.State) (i : ℕ) :
    write (pointers l) i = pointers (AsyncLogging.write l i) := by
  unfold write AsyncLogging.write pointers
  by_cases hi : i < l.buffersToWrite.length
  · rw [List.getElem?_eq_getElem hi, if_pos hi]
  · rw [List.getElem?_eq_none (by omega), if_neg hi]

theorem recycle_pointers (h : AsyncLogging.recycle l = .ok l') :
    recycle (pointers l) = .ok (pointers l') := by
  obtain ⟨⟨first, rest⟩, hfirst, h⟩ := bind_eq_ok.mp h
  obtain ⟨⟨second, rest'⟩, hsecond, h⟩ := bind_eq_ok.mp h
  unfold recycle pointers
  dsimp only
  rw [hfirst, ok_bind]
  dsimp only
  rw [hsecond, ok_bind, ← Except.ok.inj h]
  rfl

theorem step_pointers (h : AsyncLogging.step l e = .ok l') :
    step (pointers l) e = .ok (pointers l') := by
  cases e with
  | append logline =>
    rw [← Except.ok.inj h]
    exact append_pointers l logline
  | start | started | stop | notify | joined =>
    rw [← Except.ok.inj h]
    rfl
  | begin => exact begin_pointers h
  | test => exact test_pointers h
  | lock => exact lock_pointers h
  | wake => exact collect_pointers h
  | overload now =>
    rw [← Except.ok.inj h]
    exact congrArg Except.ok (overload_pointers l now)
  | write =>
    cases hp : l.position with
    | write i =>
      simp only [AsyncLogging.step, hp, pure_eq_ok, Except.ok.injEq] at h
      have hp' : (pointers l).position = .write i := hp
      rw [step, hp', ← h]
      exact congrArg Except.ok (write_pointers l i)
    | created | starting | testing | locking | waiting | overload | recycle | returned =>
      simp only [AsyncLogging.step, hp, pure_eq_ok, Except.ok.injEq] at h
      have hp' : (pointers l).position = l.position := rfl
      rw [step, hp', hp, ← h]
  | recycle => exact recycle_pointers h

theorem enabled_pointers (h : AsyncLogging.enabled l e) : enabled (pointers l) e := by
  cases e with
  | append logline => exact trivial
  | start | started | stop | notify | joined | begin | test | lock | wake | overload | write
  | recycle => exact h

theorem run_pointers {es : List Event} (h : Run AsyncLogging.system l es l') :
    Run system (pointers l) es (pointers l') := by
  induction h with
  | nil => exact .nil _
  | snoc _ he hs ih => exact .snoc ih (enabled_pointers he) (step_pointers hs)

/-- So what holds of the pointers holds there, too. -/
theorem reachable_pointers (h : Reachable AsyncLogging.system l) :
    Reachable system (pointers l) := by
  obtain ⟨s, es, hinit, hr⟩ := h
  have hs : pointers s = constructed := by
    rw [show s = AsyncLogging.constructed from hinit]
    rfl
  exact ⟨pointers s, es, hs, run_pointers hr⟩

end Muduo.AsyncLogging.Pointers

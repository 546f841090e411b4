import Muduo.Buffer
import Muduo.Library.GrowingInput
import Muduo.Library.WhileLoop

/-!
# The length header codec

`examples/asio/chat/codec.h`. The calls of the message callback are recorded by their messages,
and those of `conn->shutdown()` by their number. The reading side is a consumer of its stream:
what has been dispatched depends on the bytes that have arrived, not on how they were cut.
-/
namespace Muduo.Chat
open GrowingInput WhileLoop

def kHeaderLen : ℕ := 4

def kMaxLen : ℤ := 65536

structure Codec where
  buf : Buffer
  messages : List (List UInt8)
  shutdowns : ℕ

namespace Codec

/-- The branch of `onMessage` for a message that is there as a whole. -/
def dispatch (s : Codec) (len : ℕ) : Checked Codec := do
  let buf ← s.buf.retrieve kHeaderLen
  let message := buf.readable.take len
  let buf ← buf.retrieve len
  return { s with buf, messages := s.messages ++ [message] }

/-- One iteration of the loop of `onMessage`. -/
def onMessageBody (s : Codec) : Exit Codec (Checked Codec) :=
  if s.buf.readableBytes ≥ kHeaderLen then
    let len := (networkToHost32 s.buf.readable).toInt
    if len > kMaxLen ∨ len < 0 then .done (.ok { s with shutdowns := s.shutdowns + 1 })
    else if s.buf.readableBytes ≥ len.toNat + kHeaderLen then
      match s.dispatch len.toNat with
      | .ok t => .next t
      | .error a => .done (.error a)
    else .done (.ok s)
  else .done (.ok s)

/-- `onMessage`, for at most `n` iterations; `none` if the loop has not ended by then. -/
def onMessage (n : ℕ) (s : Codec) : Option (Checked Codec) := iterate onMessageBody n s

/-- A chunk arrives in the input buffer, and `onMessage` is called. -/
def receive (n : ℕ) (s : Codec) (chunk : List UInt8) : Option (Checked Codec) :=
  match s.buf.readFd chunk with
  | .ok buf => onMessage n { s with buf }
  | .error a => some (.error a)

def receiveAll (n : ℕ) : Codec → List (List UInt8) → Option (Checked Codec)
  | s, [] => some (.ok s)
  | s, chunk :: chunks => match receive n s chunk with
    | some (.ok t) => receiveAll n t chunks
    | r => r

/-- `send`, up to `conn->send(&buf)`, with the buffer that the connection is given. -/
def send (message : List UInt8) : Checked Buffer := do
  let buf ← Buffer.new.append message
  buf.prepend (hostToNetwork32 (.ofNat 32 message.length))

/-- The length that the bytes announce. -/
def lengthField (bytes : List UInt8) : ℤ := (networkToHost32 bytes).toInt

def InvalidLength (bytes : List UInt8) : Prop :=
  lengthField bytes > kMaxLen ∨ lengthField bytes < 0

instance (bytes : List UInt8) : Decidable (InvalidLength bytes) :=
  inferInstanceAs (Decidable (_ ∨ _))

theorem lengthField_append {bytes : List UInt8} (h : kHeaderLen ≤ bytes.length)
    (more : List UInt8) : lengthField (bytes ++ more) = lengthField bytes := by
  unfold kHeaderLen at h
  rw [lengthField, lengthField, networkToHost32, networkToHost32,
    List.take_append_of_le_length h]

/-- What the codec does with the bytes at hand. At an invalid length it stops, and the bytes
stay where they are. -/
inductive Reads (messages : List (List UInt8)) (bytes : List UInt8) :
    Move (List (List UInt8)) Unit UInt8 → Prop
  | invalid : kHeaderLen ≤ bytes.length → InvalidLength bytes →
      Reads messages bytes (.stop () messages bytes)
  | message : kHeaderLen ≤ bytes.length → ¬InvalidLength bytes →
      (lengthField bytes).toNat + kHeaderLen ≤ bytes.length →
      Reads messages bytes (.next
        (messages ++ [(bytes.drop kHeaderLen).take (lengthField bytes).toNat])
        (bytes.drop (kHeaderLen + (lengthField bytes).toNat)))

theorem Reads.det {messages : List (List UInt8)} {bytes : List UInt8}
    {m m' : Move (List (List UInt8)) Unit UInt8} (h : Reads messages bytes m)
    (h' : Reads messages bytes m') : m = m' := by
  cases h with
  | invalid _ hinvalid =>
    cases h' with
    | invalid => rfl
    | message _ hvalid => exact absurd hinvalid hvalid
  | message _ hvalid =>
    cases h' with
    | invalid _ hinvalid => exact absurd hinvalid hvalid
    | message => rfl

theorem Reads.extend {messages : List (List UInt8)} {bytes : List UInt8}
    {m : Move (List (List UInt8)) Unit UInt8} (more : List UInt8) (h : Reads messages bytes m) :
    Reads messages (bytes ++ more) (m.extend more) := by
  cases h with
  | invalid hlen hinvalid =>
    refine .invalid (by rw [List.length_append]; omega) ?_
    rw [InvalidLength, lengthField_append hlen]
    exact hinvalid
  | message hlen hvalid hall =>
    have hfield := lengthField_append hlen more
    have hmove : Reads messages (bytes ++ more) _ := .message
      (by rw [List.length_append]; omega) (by rw [InvalidLength, hfield]; exact hvalid)
      (by rw [hfield, List.length_append]; omega)
    rw [hfield, List.drop_append_of_le_length hlen, List.take_append_of_le_length
      (by rw [List.length_drop]; omega), List.drop_append_of_le_length (by omega)] at hmove
    exact hmove

/-- The reading side of the codec. -/
def reader : Consumer (List (List UInt8)) Unit UInt8 where
  Step := Reads
  det := Reads.det
  extend := Reads.extend

/-- One iteration does what the reader does. -/
theorem onMessageBody_spec (s : Codec) :
    ((∀ m, ¬Reads s.messages s.buf.readable m) ∧ onMessageBody s = .done (.ok s)) ∨
    (Reads s.messages s.buf.readable (.stop () s.messages s.buf.readable) ∧
      onMessageBody s = .done (.ok { s with shutdowns := s.shutdowns + 1 })) ∨
    (∃ t : Codec, Reads s.messages s.buf.readable (.next t.messages t.buf.readable) ∧
      onMessageBody s = .next t ∧ t.shutdowns = s.shutdowns ∧
      t.buf.readable.length < s.buf.readable.length) := by
  rw [onMessageBody, ← Buffer.length_readable]
  by_cases hlen : kHeaderLen ≤ s.buf.readable.length
  · rw [if_pos hlen]
    by_cases hinvalid : InvalidLength s.buf.readable
    · exact Or.inr (Or.inl ⟨.invalid hlen hinvalid, if_pos hinvalid⟩)
    · by_cases hall : (lengthField s.buf.readable).toNat + kHeaderLen ≤ s.buf.readable.length
      · obtain ⟨b₁, h₁, hread₁⟩ := s.buf.retrieve_spec hlen
        have hbody : (lengthField s.buf.readable).toNat ≤ b₁.readable.length := by
          rw [hread₁, List.length_drop]
          omega
        obtain ⟨b₂, h₂, hread₂⟩ := b₁.retrieve_spec hbody
        refine Or.inr (Or.inr ⟨⟨b₂, s.messages ++ [b₁.readable.take
          (lengthField s.buf.readable).toNat], s.shutdowns⟩, ?_, ?_, rfl, ?_⟩)
        · rw [hread₂, hread₁, List.drop_drop]
          exact .message hlen hinvalid hall
        · have hdispatch : s.dispatch (lengthField s.buf.readable).toNat = .ok ⟨b₂,
              s.messages ++ [b₁.readable.take (lengthField s.buf.readable).toNat],
              s.shutdowns⟩ := by
            rw [dispatch, h₁, ok_bind, h₂]
            rfl
          refine (if_neg hinvalid).trans ((if_pos hall).trans ?_)
          change (match s.dispatch (lengthField s.buf.readable).toNat with
            | Except.ok t => Exit.next t
            | Except.error a => Exit.done (Except.error a)) = _
          rw [hdispatch]
        · rw [hread₂, hread₁, List.length_drop, List.length_drop]
          unfold kHeaderLen at *
          omega
      · refine Or.inl ⟨?_, (if_neg hinvalid).trans (if_neg hall)⟩
        intro m hm
        cases hm with
        | invalid _ h => exact hinvalid h
        | message _ _ h => exact hall h
  · rw [if_neg hlen]
    refine Or.inl ⟨?_, rfl⟩
    intro m hm
    cases hm with
    | invalid h => exact hlen h
    | message h => exact hlen h

/-- Where the reader ends with the bytes of the buffer, the codec has got. -/
structure Got (s : Codec) (e : End (List (List UInt8)) Unit UInt8) (t : Codec) : Prop where
  messages : t.messages = e.state
  rest : t.buf.readable = e.rest
  shutdowns : t.shutdowns = s.shutdowns + if e.verdict = none then 0 else 1

/-- The loop of `onMessage` ends: every iteration but the last takes bytes off the buffer. -/
theorem onMessage_spec {s : Codec} {n : ℕ} (hn : s.buf.readable.length < n) :
    ∃ t e, onMessage n s = some (.ok t) ∧ Runs reader s.messages s.buf.readable e ∧ Got s e t := by
  induction n generalizing s with
  | zero => omega
  | succ n ih =>
    rcases onMessageBody_spec s with ⟨hwait, hbody⟩ | ⟨hstop, hbody⟩ | ⟨u, hnext, hbody, hsd, hlt⟩
    · exact ⟨s, _, iterate_done _ hbody n, .wait hwait, ⟨rfl, rfl, rfl⟩⟩
    · exact ⟨_, _, iterate_done _ hbody n, .stop hstop, ⟨rfl, rfl, rfl⟩⟩
    · obtain ⟨t, e, hrun, hruns, hgot⟩ := ih (s := u) (by omega)
      refine ⟨t, e, (iterate_next _ hbody n).trans hrun, .next hnext hruns, ?_⟩
      exact ⟨hgot.messages, hgot.rest, hsd ▸ hgot.shutdowns⟩

theorem receive_spec {s : Codec} {chunk : List UInt8} {n : ℕ}
    (hn : (s.buf.readable ++ chunk).length < n) :
    ∃ t e, receive n s chunk = some (.ok t) ∧
      Runs reader s.messages (s.buf.readable ++ chunk) e ∧ Got s e t := by
  obtain ⟨buf, hbuf, hread⟩ := s.buf.readFd_spec chunk
  obtain ⟨t, e, hrun, hruns, hgot⟩ := onMessage_spec (s := { s with buf }) (n := n)
    (by rw [hread]; exact hn)
  refine ⟨t, e, ?_, hread ▸ hruns, ⟨hgot.messages, hgot.rest, hgot.shutdowns⟩⟩
  rw [receive, hbuf]
  exact hrun

/-- What is left never grows but by what arrives. -/
theorem rest_length {messages : List (List UInt8)} {bytes : List UInt8}
    {e : End (List (List UInt8)) Unit UInt8} (h : Runs reader messages bytes e) :
    e.rest.length ≤ bytes.length := by
  induction h with
  | wait => exact le_rfl
  | stop hstep =>
    cases hstep with
    | invalid => exact le_rfl
  | next hstep _ ih =>
    cases hstep with
    | message =>
      rw [List.length_drop] at ih
      omega

/-- A reader that has stopped does so again with what it has left over. -/
theorem stopped_again {messages : List (List UInt8)} {bytes : List UInt8}
    {e : End (List (List UInt8)) Unit UInt8} (h : Runs reader messages bytes e)
    (hv : e.verdict = some ()) (more : List UInt8) :
    Runs reader e.state (e.rest ++ more) ⟨some (), e.state, e.rest ++ more⟩ := by
  induction h with
  | wait => cases hv
  | stop hstep =>
    cases hstep with
    | invalid hlen hinvalid => exact .stop (reader.extend more (.invalid hlen hinvalid))
  | next _ _ ih => exact ih hv

/-- The codec after the bytes `stream`, however they were cut. -/
def Read (stream : List UInt8) (t : Codec) : Prop :=
  ∃ verdict, Runs reader [] stream ⟨verdict, t.messages, t.buf.readable⟩ ∧
    (t.shutdowns = 0 ↔ verdict = none)

theorem Read.receive {stream chunk : List UInt8} {s : Codec} {n : ℕ} (h : Read stream s)
    (hn : (stream ++ chunk).length < n) :
    ∃ t, receive n s chunk = some (.ok t) ∧ Read (stream ++ chunk) t := by
  obtain ⟨verdict, hruns, hsd⟩ := h
  have hrest : s.buf.readable.length ≤ stream.length := rest_length hruns
  rw [List.length_append] at hn
  have hsize : (s.buf.readable ++ chunk).length < n := by
    rw [List.length_append]
    omega
  obtain ⟨t, e, hrun, hruns', hmessages, hread, hsd'⟩ := receive_spec hsize
  refine ⟨t, hrun, ?_⟩
  cases verdict with
  | none =>
    refine ⟨e.verdict, ?_, ?_⟩
    · rw [hmessages, hread]
      exact hruns.resume rfl hruns'
    · rw [hsd', hsd.mpr rfl]
      cases e.verdict with
      | none => simp
      | some _ => simp
  | some _ =>
    have he : e = ⟨some (), s.messages, s.buf.readable ++ chunk⟩ :=
      hruns'.det (stopped_again hruns rfl chunk)
    subst he
    refine ⟨some (), ?_, ?_⟩
    · rw [hmessages, hread]
      exact hruns.extend chunk rfl
    · simp [hsd']

/-- The codec of a new connection. -/
def init : Codec := ⟨Buffer.new, [], 0⟩

theorem read_init : Read [] init := by
  refine ⟨none, .wait fun m hm => ?_, iff_of_true rfl rfl⟩
  cases hm with
  | invalid hlen => simp [kHeaderLen] at hlen
  | message hlen => simp [kHeaderLen] at hlen

theorem Read.receiveAll {stream : List UInt8} {chunks : List (List UInt8)} {s : Codec} {n : ℕ}
    (h : Read stream s) (hn : (stream ++ chunks.flatten).length < n) :
    ∃ t, receiveAll n s chunks = some (.ok t) ∧ Read (stream ++ chunks.flatten) t := by
  induction chunks generalizing stream s with
  | nil => exact ⟨s, rfl, by simpa using h⟩
  | cons chunk chunks ih =>
    rw [List.flatten_cons, ← List.append_assoc] at hn ⊢
    have hsize : (stream ++ chunk).length < n := by
      rw [List.length_append] at hn
      omega
    obtain ⟨t, hrun, ht⟩ := h.receive hsize
    obtain ⟨u, hrest, hu⟩ := ih ht hn
    refine ⟨u, ?_, hu⟩
    rw [Codec.receiveAll, hrun]
    exact hrest

theorem receiveAll_init {chunks : List (List UInt8)} {n : ℕ} (hn : chunks.flatten.length < n) :
    ∃ t, receiveAll n init chunks = some (.ok t) ∧ Read chunks.flatten t :=
  Read.receiveAll read_init hn

/-- Every call of `onMessage` returns, and what the codec has made of a stream does not depend on
how the stream was cut. -/
theorem receiveAll_det {chunks chunks' : List (List UInt8)} (h : chunks.flatten = chunks'.flatten)
    {n : ℕ} (hn : chunks.flatten.length < n) :
    ∃ t t', receiveAll n init chunks = some (.ok t) ∧ receiveAll n init chunks' = some (.ok t') ∧
      t.messages = t'.messages ∧ t.buf.readable = t'.buf.readable ∧
      (t.shutdowns = 0 ↔ t'.shutdowns = 0) := by
  obtain ⟨t, hrun, v, hruns, hsd⟩ := receiveAll_init hn
  obtain ⟨t', hrun', v', hruns', hsd'⟩ := receiveAll_init (h ▸ hn)
  have he := hruns.det (h ▸ hruns')
  injection he with hv hmessages hread
  exact ⟨t, t', hrun, hrun', hmessages, hread, by rw [hsd, hsd', hv]⟩

theorem receiveAll_det_split :
    ∃ t t', receiveAll 6 init [[0, 0, 0, 1, 104]] = some (.ok t) ∧
      receiveAll 6 init [[0], [0, 0], [1, 104]] = some (.ok t') ∧ t.messages = t'.messages ∧
      t.buf.readable = t'.buf.readable ∧ (t.shutdowns = 0 ↔ t'.shutdowns = 0) := by
  have hflatten : [[0, 0, 0, 1, 104]].flatten =
      ([[0], [0, 0], [1, 104]] : List (List UInt8)).flatten := rfl
  exact receiveAll_det hflatten (Nat.lt_succ_self 5)

/-- The bytes of a message on the wire. -/
def frame (message : List UInt8) : List UInt8 :=
  hostToNetwork32 (.ofNat 32 message.length) ++ message

/-- `prepend` finds the eight bytes free that a new buffer keeps there. -/
theorem send_spec (message : List UInt8) :
    Yields (send message) fun buf => buf.readable = frame message := by
  obtain ⟨b₁, h₁, hread₁⟩ := Buffer.new.append_spec message
  have hindex : b₁.readerIndex = kCheapPrepend := by
    rw [Buffer.new.readerIndex_append h₁]
    exact ite_self _
  obtain ⟨b₂, h₂, hread₂⟩ := b₁.prepend_spec (hostToNetwork32 (.ofNat 32 message.length))
    (by rw [hindex, length_hostToNetwork32]; decide)
  refine ⟨b₂, by rw [send, h₁, ok_bind, h₂], ?_⟩
  show b₂.readable = frame message
  rw [hread₂, hread₁, Buffer.readable_new, List.nil_append, frame]

theorem lengthField_frame (message rest : List UInt8) :
    lengthField (frame message ++ rest) = (BitVec.ofNat 32 message.length).toInt := by
  rw [lengthField, frame, List.append_assoc, networkToHost32_hostToNetwork32]

theorem lengthField_frame_of_le {message : List UInt8} (h : message.length ≤ 65536)
    (rest : List UInt8) : lengthField (frame message ++ rest) = message.length := by
  rw [lengthField_frame, BitVec.toInt_eq_toNat_of_lt]
  · simp
    omega
  · simp
    omega

theorem length_frame (message : List UInt8) : (frame message).length = message.length + 4 := by
  rw [frame, List.length_append, length_hostToNetwork32, Nat.add_comm]

theorem drop_frame (message rest : List UInt8) :
    (frame message ++ rest).drop kHeaderLen = message ++ rest := by
  rw [frame, List.append_assoc]
  exact List.drop_left' (length_hostToNetwork32 _)

/-- The frame of a message of at most 65536 bytes is read back. -/
theorem reads_frame {messages : List (List UInt8)} {message : List UInt8}
    (h : message.length ≤ 65536) (rest : List UInt8) :
    Reads messages (frame message ++ rest) (.next (messages ++ [message]) rest) := by
  have hfield := lengthField_frame_of_le h rest
  have hlen := length_frame message
  have hmove : Reads messages (frame message ++ rest) _ := .message
    (by rw [List.length_append, hlen, kHeaderLen]; omega)
    (by rw [InvalidLength, hfield, kMaxLen]; omega)
    (by rw [hfield, List.length_append, hlen, kHeaderLen]; omega)
  rw [hfield, Int.toNat_natCast, ← List.drop_drop, drop_frame, List.take_left' rfl,
    List.drop_left' rfl] at hmove
  exact hmove

theorem runs_frames {messages : List (List UInt8)} {sent : List (List UInt8)}
    (h : ∀ m ∈ sent, m.length ≤ 65536) :
    Runs reader messages (sent.map frame).flatten ⟨none, messages ++ sent, []⟩ := by
  induction sent generalizing messages with
  | nil =>
    rw [List.append_nil]
    refine .wait fun m hm => ?_
    cases hm with
    | invalid hlen => simp [kHeaderLen] at hlen
    | message hlen => simp [kHeaderLen] at hlen
  | cons message sent ih =>
    rw [List.map_cons, List.flatten_cons]
    have hrest : Runs reader (messages ++ [message]) (sent.map frame).flatten _ :=
      ih fun m hm => h m (List.mem_cons_of_mem _ hm)
    rw [List.append_assoc] at hrest
    exact .next (reads_frame (h message (by simp)) _) hrest

/-- Messages that have been dispatched stay. -/
theorem prefix_of_runs {messages : List (List UInt8)} {bytes : List UInt8}
    {e : End (List (List UInt8)) Unit UInt8} (h : Runs reader messages bytes e) :
    messages <+: e.state := by
  induction h with
  | wait => exact List.prefix_refl _
  | stop hstep =>
    cases hstep with
    | invalid => exact List.prefix_refl _
  | next hstep _ ih =>
    cases hstep with
    | message => exact (List.prefix_append ..).trans ih

/-- A longer message is not read back, nor what follows it: its length field is refused, or has
lost its upper bits. -/
theorem length_le_of_runs {messages sent : List (List UInt8)}
    {e : End (List (List UInt8)) Unit UInt8}
    (h : Runs reader messages (sent.map frame).flatten e) (he : e.state = messages ++ sent) :
    ∀ m ∈ sent, m.length ≤ 65536 := by
  induction sent generalizing messages with
  | nil => simp
  | cons message sent ih =>
    rw [List.map_cons, List.flatten_cons] at h
    cases h with
    | wait => simp at he
    | stop hstep =>
      cases hstep with
      | invalid => simp at he
    | next hstep hruns =>
      cases hstep with
      | message hlen hvalid hall =>
        have hfront := prefix_of_runs hruns
        rw [he, List.prefix_append_right_inj, List.cons_prefix_cons] at hfront
        have hmessage := hfront.1
        rw [drop_frame] at hmessage
        have hlength := congrArg List.length hmessage
        rw [List.length_append, length_frame, kHeaderLen] at hall
        rw [List.length_take, List.length_append, min_eq_left (by omega)] at hlength
        have hle : message.length ≤ 65536 := by
          unfold InvalidLength kMaxLen at hvalid
          omega
        have hfield := lengthField_frame_of_le hle (sent.map frame).flatten
        rw [hfield, Int.toNat_natCast, ← List.drop_drop, drop_frame, List.take_left' rfl,
          List.drop_left' rfl] at hruns
        intro m hm
        rcases List.mem_cons.mp hm with heq | hm
        · exact heq ▸ hle
        · exact ih hruns (by simpa using he) m hm

/-- What the codec of one side has sent, the codec of the other side dispatches, however the
stream is cut, exactly when no message has more than 65536 bytes. -/
theorem roundTrip_iff (messages : List (List UInt8)) :
    Yields (messages.mapM send) fun bufs =>
      ∀ chunks : List (List UInt8), chunks.flatten = (bufs.map Buffer.readable).flatten →
        ∀ n, chunks.flatten.length < n →
          ∃ t, receiveAll n init chunks = some (.ok t) ∧
            (t.messages = messages ↔ ∀ m ∈ messages, m.length ≤ 65536) := by
  have hbufs : Yields (messages.mapM send) fun bufs =>
      bufs.map Buffer.readable = messages.map frame := by
    induction messages with
    | nil => exact yields_ok rfl
    | cons message messages ih =>
      obtain ⟨buf, hbuf, hread⟩ := send_spec message
      obtain ⟨bufs, hbufs, hreads⟩ := ih
      refine ⟨buf :: bufs, ?_, ?_⟩
      · rw [List.mapM_cons, hbuf, ok_bind, hbufs, ok_bind]
        rfl
      · show buf.readable :: bufs.map Buffer.readable = _
        rw [hreads, List.map_cons, hread]
  apply hbufs.mono
  intro bufs hbufs chunks hchunks n hn
  obtain ⟨t, hrun, v, hruns, -⟩ := receiveAll_init hn
  rw [hchunks, hbufs] at hruns
  refine ⟨t, hrun, fun heq => length_le_of_runs hruns heq, fun hle => ?_⟩
  have he := hruns.det (runs_frames hle)
  injection he with _ hmessages _

/-- What is dispatched has passed the test of its length. -/
theorem length_le_of_mem {messages : List (List UInt8)} {bytes : List UInt8}
    {e : End (List (List UInt8)) Unit UInt8} (h : Runs reader messages bytes e)
    (hle : ∀ m ∈ messages, m.length ≤ 65536) : ∀ m ∈ e.state, m.length ≤ 65536 := by
  induction h with
  | wait => exact hle
  | stop hstep =>
    cases hstep with
    | invalid => exact hle
  | next hstep _ ih =>
    cases hstep with
    | message _ hvalid =>
      apply ih
      intro m hm
      rcases List.mem_append.mp hm with hm | hm
      · exact hle m hm
      · rw [List.mem_singleton.mp hm, List.length_take]
        unfold InvalidLength kMaxLen at hvalid
        omega

/-- The front of a stream of frames. -/
theorem Read.of_prefix {stream : List UInt8} {sent : List (List UInt8)} {t : Codec}
    (h : Read stream t) (hsent : ∀ m ∈ sent, m.length ≤ 65536)
    (hfront : stream <+: (sent.map frame).flatten) :
    t.messages <+: sent ∧ t.shutdowns = 0 ∧
      (stream = (sent.map frame).flatten → t.messages = sent) := by
  obtain ⟨verdict, hruns, hsd⟩ := h
  obtain ⟨more, hmore⟩ := hfront
  have hall : Runs reader [] (stream ++ more) ⟨none, sent, []⟩ := by
    rw [hmore]
    exact runs_frames hsent
  have hnone : verdict = none := by
    cases verdict with
    | none => rfl
    | some _ => cases (hruns.extend more rfl).det hall
  subst hnone
  obtain ⟨b, -, hread⟩ := t.buf.readFd_spec more
  obtain ⟨_, e, -, hruns', -⟩ := onMessage_spec (s := { t with buf := b }) (Nat.lt_succ_self _)
  have he := (hruns.resume rfl (hread ▸ hruns')).det hall
  refine ⟨?_, hsd.mpr rfl, ?_⟩
  · have hgrows := prefix_of_runs hruns'
    rwa [he] at hgrows
  · intro hstream
    have hnil : more = [] := by
      rw [hstream] at hmore
      exact List.append_right_eq_self.mp hmore
    rw [hnil, List.append_nil] at hall
    have heq := hruns.det hall
    injection heq

end Codec
end Muduo.Chat

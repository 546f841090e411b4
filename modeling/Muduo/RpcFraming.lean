import Muduo.Library.FrameStream
import Muduo.RpcCodec

/-!
# RPC framing

`RpcCodec::send`, and what `onMessage` makes of its frames when they arrive in pieces. What
protobuf writes for a message is a parameter, as is what it reads.
-/
namespace Muduo.RpcCodec
open WhileLoop FrameStream

variable {M : Type} (x : Externals M) (serialize : M → List UInt8)

/-- `send`, up to `conn->send(&buf)`, with the buffer that the connection is given. -/
def send (message : M) : Checked Buffer := do
  let buf ← Buffer.new.append tag
  let byteSize := (serialize message).length
  let buf ← buf.ensureWritableBytes (byteSize + kHeaderLen)
  let buf ← (buf.copyToWrite (serialize message)).hasWritten byteSize
  let checkSum := x.adler32 1 buf.readable
  let buf ← buf.appendInt32 checkSum
  assert (buf.readableBytes = kHeaderLen + byteSize + kHeaderLen) .rpcSendReadable
  let len := hostToNetwork32 (.ofNat 32 buf.readableBytes)
  buf.prepend len

/-- What the length field announces. -/
def body (message : M) : List UInt8 :=
  tag ++ serialize message ++ hostToNetwork32 (x.adler32 1 (tag ++ serialize message))

def frame (message : M) : List UInt8 :=
  hostToNetwork32 (.ofNat 32 (body x serialize message).length) ++ body x serialize message

theorem length_body (message : M) :
    (body x serialize message).length = kMinMessageLen + (serialize message).length := by
  simp [body, tag, kMinMessageLen, kHeaderLen]
  omega

theorem length_frame (message : M) :
    (frame x serialize message).length =
      kMinMessageLen + kHeaderLen + (serialize message).length := by
  rw [frame, List.length_append, length_body, length_hostToNetwork32]
  unfold kHeaderLen
  omega

/-- The indices of the buffer of `send` are never moved to the front, so that the eight bytes
there are free for the length field. -/
theorem send_spec (message : M) :
    Yields (send x serialize message) fun buf => buf.readable = frame x serialize message := by
  obtain ⟨b₁, h₁, hread₁⟩ := Buffer.new.append_spec tag
  have hr₁ : b₁.readerIndex = kCheapPrepend := by
    rw [Buffer.new.readerIndex_append h₁]
    exact ite_self _
  obtain ⟨b₂, h₂, hread₂, hfit⟩ :=
    b₁.ensureWritableBytes_spec ((serialize message).length + kHeaderLen)
  have hr₂ : b₂.readerIndex = kCheapPrepend := by
    rw [b₁.readerIndex_ensureWritableBytes h₂, hr₁, ite_self]
  obtain ⟨b₃, h₃, hread₃⟩ := b₂.hasWritten_copyToWrite (serialize message) (by omega)
  have hr₃ : b₃.readerIndex = kCheapPrepend := (Buffer.readerIndex_hasWritten _ h₃).trans hr₂
  obtain ⟨b₄, h₄, hread₄⟩ := b₃.append_spec (hostToNetwork32 (x.adler32 1 b₃.readable))
  have hr₄ : b₄.readerIndex = kCheapPrepend := by
    rw [b₃.readerIndex_append h₄, hr₃, ite_self]
  have hbody : b₄.readable = body x serialize message := by
    rw [hread₄, hread₃, hread₂, hread₁, Buffer.readable_new, List.nil_append, body]
  have hlen : b₄.readableBytes = kHeaderLen + (serialize message).length + kHeaderLen := by
    rw [← Buffer.length_readable, hbody, length_body]
    unfold kMinMessageLen
    omega
  have hfree : (hostToNetwork32 (.ofNat 32 b₄.readableBytes)).length ≤ b₄.readerIndex := by
    rw [hr₄, length_hostToNetwork32]
    decide
  obtain ⟨b₅, h₅, hread₅⟩ := b₄.prepend_spec _ hfree
  refine ⟨b₅, ?_, ?_⟩
  · simp only [send, Buffer.appendInt32, h₁, h₂, h₃, h₄, ok_bind, assert_pos hlen, h₅]
  · show b₅.readable = frame x serialize message
    rw [hread₅, frame, ← hbody, Buffer.length_readable]

/-- A message that fits, and that protobuf reads back. -/
structure Sendable (message : M) : Prop where
  size : (serialize message).length ≤ kMaxMessageLen - kMinMessageLen
  parses : x.parseFromArray (serialize message) = some message

variable {x serialize} {message : M}

theorem Sendable.lengthField (h : Sendable x serialize message) :
    lengthField (frame x serialize message) = (body x serialize message).length := by
  have hlen := length_body x serialize message
  have hsize := h.size
  have hmax : (body x serialize message).length ≤ 2 ^ 26 := by
    unfold kMinMessageLen kMaxMessageLen kHeaderLen at *
    omega
  rw [RpcCodec.lengthField, frame, networkToHost32_hostToNetwork32]
  rw [BitVec.toInt_eq_toNat_of_lt]
  · simp
    omega
  · simp
    omega

theorem Sendable.parse (h : Sendable x serialize message) :
    parse x ((frame x serialize message).drop kHeaderLen) = .ok message := by
  have hdrop : (frame x serialize message).drop kHeaderLen = body x serialize message :=
    List.drop_left' (length_hostToNetwork32 _)
  have hfront : (tag ++ serialize message).length =
      (body x serialize message).length - kHeaderLen := by
    rw [length_body]
    simp [tag, kMinMessageLen, kHeaderLen]
    omega
  have hcheck : (body x serialize message).drop ((body x serialize message).length - kHeaderLen) =
      hostToNetwork32 (x.adler32 1 (tag ++ serialize message)) := List.drop_left' hfront
  have htake : (body x serialize message).take ((body x serialize message).length - kHeaderLen) =
      tag ++ serialize message := List.take_left' hfront
  have hsum : asInt32 (hostToNetwork32 (x.adler32 1 (tag ++ serialize message))) =
      x.adler32 1 (tag ++ serialize message) := by
    simpa [asInt32] using networkToHost32_hostToNetwork32 (x.adler32 1 (tag ++ serialize message)) []
  have htag : (body x serialize message).take kHeaderLen = tag := by
    rw [body, List.append_assoc]
    exact List.take_left' rfl
  have hpayload : ((body x serialize message).drop kHeaderLen).take
      ((body x serialize message).length - 2 * kHeaderLen) = serialize message := by
    rw [length_body, body, List.append_assoc, List.drop_left' (by rfl)]
    exact List.take_left' (by unfold kMinMessageLen; omega)
  rw [hdrop]
  simp only [RpcCodec.parse, hcheck, htake, hsum, if_true, htag, hpayload, h.parses]

theorem Sendable.validLength (h : Sendable x serialize message) :
    ValidLength (RpcCodec.lengthField (frame x serialize message)) := by
  have hlen := length_body x serialize message
  have hsize := h.size
  rw [h.lengthField, ValidLength]
  unfold kMinMessageLen kMaxMessageLen kHeaderLen at *
  omega

theorem Sendable.announces (h : Sendable x serialize message) :
    RpcCodec.lengthField (frame x serialize message) + kHeaderLen =
      (frame x serialize message).length := by
  rw [h.lengthField, length_body, length_frame]
  omega

/-- `onMessage` waits for the rest of a frame. -/
theorem unfinished_of_front {messages : List M} {tail : List UInt8}
    (h : ∀ m ∈ messages, Sendable x serialize m)
    (hfront : Front tail (messages.map (frame x serialize))) : Unfinished tail := by
  by_cases hshort : tail.length < kMinMessageLen + kHeaderLen
  · exact .inl hshort
  · cases messages with
    | nil =>
      have hnil : tail = [] := hfront
      simp [hnil, kMinMessageLen, kHeaderLen] at hshort
    | cons message messages =>
      have hsend := h message List.mem_cons_self
      have hlt := hfront.length_lt
      obtain ⟨suffix, hsuffix⟩ := hfront.1
      have hfield : lengthField tail = lengthField (frame x serialize message) := by
        unfold lengthField networkToHost32
        unfold kMinMessageLen kHeaderLen at hshort
        rw [← hsuffix, List.take_append_of_le_length (by omega)]
      right
      rw [hfield, hsend.announces]
      exact ⟨hsend.validLength, by exact_mod_cast hlt⟩

/-- One call of `onMessage` dispatches the whole frames of the buffer. -/
theorem onMessage_frames {messages : List M} {s : State M} {tail : List UInt8}
    (h : ∀ m ∈ messages, Sendable x serialize m)
    (hr : s.buf.readable = (messages.map (frame x serialize)).flatten ++ tail)
    (hu : Unfinished tail) :
    ∃ buf, onMessage x (messages.length + 1) s =
      some (.ok { s with buf, messages := s.messages ++ messages }) ∧ buf.readable = tail := by
  induction messages generalizing s with
  | nil =>
    have htail : s.buf.readable = tail := by simpa using hr
    refine ⟨s.buf, ?_, htail⟩
    rw [List.append_nil]
    exact iterate_done _ (body_unfinished x (htail ▸ hu)) 0
  | cons message messages ih =>
    have hsend := h message List.mem_cons_self
    rw [List.map_cons, List.flatten_cons, List.append_assoc] at hr
    have hmin : kMinMessageLen + kHeaderLen ≤ (frame x serialize message).length := by
      rw [length_frame]
      omega
    obtain ⟨buf, hb, hrest⟩ :=
      body_frame x hmin hsend.announces hsend.validLength hsend.parse hr
    obtain ⟨buf', hrun, htail⟩ := ih (fun m hm => h m (List.mem_cons_of_mem _ hm))
      (s := { s with buf, messages := s.messages ++ [message] }) hrest
    refine ⟨buf', ?_, htail⟩
    rw [onMessage, List.length_cons, iterate_next _ hb]
    simpa [onMessage] using hrun

/-- A chunk arrives, and the codec is called. -/
def receive (x : Externals M) (n : ℕ) (s : State M) (chunk : List UInt8) :
    Option (Checked (State M)) :=
  match s.buf.readFd chunk with
  | .ok buf => onMessage x n { s with buf }
  | .error a => some (.error a)

def receiveAll (x : Externals M) (n : ℕ) : State M → List (List UInt8) → Option (Checked (State M))
  | s, [] => some (.ok s)
  | s, chunk :: chunks => match receive x n s chunk with
    | some (.ok t) => receiveAll x n t chunks
    | r => r

/-- From `s` to `t` nothing has happened but that the messages of the whole frames among
`received` have been dispatched; the buffer holds the bytes of the next. -/
def Delivered (messages : List M) (frames : List (List UInt8)) (received : List UInt8)
    (s t : State M) : Prop :=
  ∃ k, t = { s with buf := t.buf, messages := s.messages ++ messages.take k } ∧
    received = (frames.take k).flatten ++ t.buf.readable ∧ Front t.buf.readable (frames.drop k)

theorem frames_ne_nil (messages : List M) :
    ∀ f ∈ messages.map (frame x serialize), f ≠ [] := by
  intro f hf
  obtain ⟨message, _, rfl⟩ := List.mem_map.mp hf
  have hlen := length_frame x serialize message
  intro hnil
  rw [hnil] at hlen
  simp [kMinMessageLen, kHeaderLen] at hlen
  omega

/-- A chunk completes some frames and leaves the beginning of the next. -/
theorem receive_spec {messages : List M} {s : State M} {chunk : List UInt8} {n : ℕ}
    (h : ∀ m ∈ messages, Sendable x serialize m) (hn : messages.length < n)
    (hr : s.buf.readable ++ chunk <+: (messages.map (frame x serialize)).flatten) :
    ∃ t, receive x n s chunk = some (.ok t) ∧
      Delivered messages (messages.map (frame x serialize)) (s.buf.readable ++ chunk) s t := by
  obtain ⟨done, rest, tail, hframes, hreceived, hfront⟩ := exists_cut (frames_ne_nil messages) hr
  obtain ⟨ms, ms', rfl, rfl, rfl⟩ := List.map_eq_append_iff.mp hframes
  obtain ⟨b, hb, hread⟩ := s.buf.readFd_spec chunk
  have hu : Unfinished tail :=
    unfinished_of_front (fun m hm => h m (List.mem_append_right _ hm)) hfront
  obtain ⟨buf, hrun, htail⟩ := onMessage_frames (s := { s with buf := b })
    (fun m hm => h m (List.mem_append_left _ hm)) (hread.trans hreceived) hu
  have hle : ms.length + 1 ≤ n := by
    rw [List.length_append] at hn
    omega
  refine ⟨{ s with buf, messages := s.messages ++ ms }, ?_, ms.length, ?_, ?_, ?_⟩
  · rw [receive, hb]
    exact iterate_mono _ hle hrun
  · simp
  · simp [hreceived, htail]
  · simpa [htail] using hfront

/-- However the frames are cut, after each chunk the messages of the whole frames have been
dispatched. -/
theorem receiveAll_spec {messages : List M} {s : State M} {chunks : List (List UInt8)} {n : ℕ}
    (h : ∀ m ∈ messages, Sendable x serialize m) (hn : messages.length < n)
    (hfront : Front s.buf.readable (messages.map (frame x serialize)))
    (hr : s.buf.readable ++ chunks.flatten <+: (messages.map (frame x serialize)).flatten) :
    ∃ t, receiveAll x n s chunks = some (.ok t) ∧ Delivered messages
      (messages.map (frame x serialize)) (s.buf.readable ++ chunks.flatten) s t := by
  induction chunks generalizing s messages with
  | nil => exact ⟨s, rfl, 0, by simp, by simp, hfront⟩
  | cons chunk chunks ih =>
    rw [List.flatten_cons, ← List.append_assoc] at hr ⊢
    obtain ⟨u, hu, k, heq, hreceived, hfront'⟩ :=
      receive_spec h hn ((List.prefix_append ..).trans hr)
    have hmore : u.buf.readable ++ chunks.flatten <+:
        ((messages.drop k).map (frame x serialize)).flatten := by
      rw [hreceived, ← List.take_append_drop k (messages.map (frame x serialize)),
        List.flatten_append, List.append_assoc] at hr
      rw [List.map_drop]
      simpa using hr
    obtain ⟨t, ht, k', heq', hreceived', hfront''⟩ := ih
      (fun m hm => h m (List.mem_of_mem_drop hm))
      ((List.length_drop ▸ Nat.sub_le ..).trans_lt hn)
      (List.map_drop ▸ hfront') hmore
    refine ⟨t, ?_, k + k', ?_, ?_, ?_⟩
    · rw [receiveAll, hu]
      exact ht
    · rw [heq', heq, List.take_add, List.append_assoc]
    · rw [hreceived, List.append_assoc, hreceived', List.take_add, List.flatten_append,
        List.append_assoc, List.map_drop]
    · rw [List.map_drop, List.drop_drop] at hfront''
      exact hfront''

theorem mapM_send (messages : List M) :
    Yields (messages.mapM (send x serialize)) fun bufs =>
      bufs.map Buffer.readable = messages.map (frame x serialize) := by
  induction messages with
  | nil => exact yields_ok rfl
  | cons message messages ih =>
    obtain ⟨buf, hbuf, hread⟩ := send_spec x serialize message
    obtain ⟨bufs, hbufs, hreads⟩ := ih
    refine ⟨buf :: bufs, ?_, ?_⟩
    · rw [List.mapM_cons, hbuf, ok_bind, hbufs, ok_bind]
      rfl
    · show buf.readable :: bufs.map Buffer.readable = _
      rw [hreads, List.map_cons]
      exact congrArg (· :: _) hread

/-- What is sent is received, however the stream is cut into chunks: no assertion fails in
`send`, after each chunk the messages whose frames are complete have been dispatched in order
and the buffer holds the beginning of the next frame, and in the end it is empty. -/
theorem roundTrip {messages : List M}
    (hsize : ∀ m ∈ messages, (serialize m).length ≤ kMaxMessageLen - 8)
    (hparse : ∀ m ∈ messages, x.parseFromArray (serialize m) = some m) :
    Yields (messages.mapM (send x serialize)) fun bufs =>
      ∀ chunks : List (List UInt8), chunks.flatten = (bufs.map Buffer.readable).flatten →
      ∀ s : State M, s.buf.readable = [] →
        (∀ received rest, chunks = received ++ rest →
          ∃ t, receiveAll x (messages.length + 1) s received = some (.ok t) ∧
            Delivered messages (bufs.map Buffer.readable) received.flatten s t) ∧
        ∃ t, receiveAll x (messages.length + 1) s chunks = some (.ok t) ∧
          t = { s with buf := t.buf, messages := s.messages ++ messages } ∧
          t.buf.readable = [] := by
  have h : ∀ m ∈ messages, Sendable x serialize m := fun m hm => ⟨hsize m hm, hparse m hm⟩
  apply (mapM_send messages).mono
  intro bufs hbufs chunks hchunks s hs
  rw [hbufs] at hchunks ⊢
  have hdelivered : ∀ received rest, chunks = received ++ rest →
      ∃ t, receiveAll x (messages.length + 1) s received = some (.ok t) ∧
        Delivered messages (messages.map (frame x serialize)) received.flatten s t := by
    intro received rest hcut
    have hfront : Front s.buf.readable (messages.map (frame x serialize)) := by
      rw [hs]
      exact front_nil (frames_ne_nil messages)
    have hprefix : s.buf.readable ++ received.flatten <+:
        (messages.map (frame x serialize)).flatten := by
      rw [hs, List.nil_append, ← hchunks, hcut, List.flatten_append]
      exact List.prefix_append ..
    simpa [hs] using receiveAll_spec h (Nat.lt_succ_self _) hfront hprefix
  refine ⟨hdelivered, ?_⟩
  obtain ⟨t, ht, k, heq, hreceived, hfront⟩ := hdelivered chunks [] (List.append_nil chunks).symm
  have hall : t.buf.readable = ((messages.map (frame x serialize)).drop k).flatten := by
    rw [hchunks, ← List.take_append_drop k (messages.map (frame x serialize)),
      List.flatten_append] at hreceived
    simpa using hreceived.symm
  have hdrop : (messages.map (frame x serialize)).drop k = [] := hfront.eq_nil hall
  have hk : messages.length ≤ k := by simpa using hdrop
  refine ⟨t, ht, ?_, ?_⟩
  · rw [List.take_of_length_le hk] at heq
    exact heq
  · rw [hall, hdrop, List.flatten_nil]

/-! ### Requests that carry only their id -/

/-- `adler32` of zlib. -/
def adler32 (adler : BitVec 32) (data : List UInt8) : BitVec 32 :=
  let (a, b) := data.foldl (fun (a, b) byte =>
    let a := (a + byte.toNat) % 65521
    (a, (b + a) % 65521)) (adler.toNat % 2 ^ 16, adler.toNat / 2 ^ 16)
  .ofNat 32 (b * 2 ^ 16 + a)

/-- The fields `type` and `id` of an `RpcMessage` that is a `REQUEST`, as protobuf writes them. -/
def sampleSerialize (id : BitVec 64) : List UInt8 :=
  [8, 1, 17] ++ (List.range 8).map fun i => .ofNat (id.toNat / 256 ^ i)

def sampleExternals : Externals (BitVec 64) where
  adler32 := adler32
  parseFromArray bytes :=
    if bytes.length = 11 ∧ bytes.take 3 = [8, 1, 17] then
      some (.ofNat 64 ((bytes.drop 3).foldr (fun byte n => byte.toNat + 256 * n) 0))
    else none

/-- Two requests arrive byte by byte. -/
theorem roundTrip_bytes :
    Yields ([1, 258].mapM (send sampleExternals sampleSerialize)) fun bufs =>
      ∃ t, receiveAll sampleExternals 3 ⟨none, .new, [], []⟩
        ((bufs.map Buffer.readable).flatten.map fun byte => [byte]) = some (.ok t) ∧
        t.messages = [1, 258] ∧ t.log = [] := by
  have hsize : ∀ m ∈ ([1, 258] : List (BitVec 64)),
      (sampleSerialize m).length ≤ kMaxMessageLen - 8 := by
    intro m _
    simp [sampleSerialize, kMaxMessageLen]
  have hparse : ∀ m ∈ ([1, 258] : List (BitVec 64)),
      sampleExternals.parseFromArray (sampleSerialize m) = some m := by
    intro m hm
    simp only [List.mem_cons, List.not_mem_nil, or_false] at hm
    rcases hm with rfl | rfl
    · have hbytes : sampleSerialize 1 = [8, 1, 17, 1, 0, 0, 0, 0, 0, 0, 0] := rfl
      rw [hbytes]
      rfl
    · have hbytes : sampleSerialize 258 = [8, 1, 17, 2, 1, 0, 0, 0, 0, 0, 0] := rfl
      rw [hbytes]
      rfl
  apply (roundTrip hsize hparse).mono
  intro bufs h
  obtain ⟨-, t, ht, heq, -⟩ := h ((bufs.map Buffer.readable).flatten.map fun byte => [byte])
    (by rw [← List.flatMap_def, List.flatMap_singleton']) ⟨none, .new, [], []⟩ Buffer.readable_new
  refine ⟨t, ht, ?_, ?_⟩
  · rw [heq]
    rfl
  · rw [heq]

end Muduo.RpcCodec

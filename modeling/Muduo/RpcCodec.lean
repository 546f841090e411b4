import Muduo.Library.WhileLoop
import Muduo.TcpConnection

/-!
# RpcCodec

`net/protorpc/RpcCodec.h` and `net/protorpc/RpcCodec.cc`: the reading side, with
the default error callback. The checksum of zlib and the parser that protobuf
generates are parameters. The message callback is recorded by its message.
-/
namespace Muduo.RpcCodec
open WhileLoop

inductive ErrorCode
  | kNoError
  | kInvalidLength
  | kCheckSumError
  | kInvalidNameLen
  | kUnknownMessageType
  | kParseError
  deriving DecidableEq, Repr

def errorCodeToString : ErrorCode → String
  | .kNoError => "NoError"
  | .kInvalidLength => "InvalidLength"
  | .kCheckSumError => "CheckSumError"
  | .kInvalidNameLen => "InvalidNameLen"
  | .kUnknownMessageType => "UnknownMessageType"
  | .kParseError => "ParseError"

def kHeaderLen : ℕ := 4
def kMinMessageLen : ℕ := 2 * kHeaderLen
def kMaxMessageLen : ℕ := 64 * 1024 * 1024

/-- The bytes of `"RPC0"`. -/
def tag : List UInt8 := [82, 80, 67, 48]

/-- What the codec takes from zlib and from the generated class `RpcMessage`. -/
structure Externals (M : Type) where
  adler32 : BitVec 32 → List UInt8 → BitVec 32
  parseFromArray : List UInt8 → Option M

structure State (M : Type) where
  /-- `conn`, which may be null, with its loop -/
  conn : Option (EventLoop PendingFunctor × TcpConnection)
  buf : Buffer
  /-- the calls of `messageCallback_` -/
  messages : List M
  /-- the texts logged by the error callback -/
  log : List String

def asInt32 (bytes : List UInt8) : BitVec 32 := networkToHost32 bytes

variable {M : Type} (x : Externals M)

/-- `parse(buf, len, message)` on the `len` bytes `frame`. -/
def parse (frame : List UInt8) : Except ErrorCode M :=
  let len := frame.length
  let expectedCheckSum := asInt32 (frame.drop (len - kHeaderLen))
  let checkSum := x.adler32 1 (frame.take (len - kHeaderLen))
  if checkSum = expectedCheckSum then
    if frame.take kHeaderLen = tag then
      match x.parseFromArray ((frame.drop kHeaderLen).take (len - 2 * kHeaderLen)) with
      | some message => .ok message
      | none => .error .kParseError
    else .error .kUnknownMessageType
  else .error .kCheckSumError

/-- `defaultErrorCallback`, run by the thread of the connection's loop. -/
def defaultErrorCallback (s : State M) (errorCode : ErrorCode) : Checked (State M) :=
  let s := { s with
    log := s.log ++ ["ProtobufCodec::defaultErrorCallback - " ++ errorCodeToString errorCode] }
  match s.conn with
  | none => .ok s
  | some (l, c) =>
    if c.connected then do
      let r ← c.shutdown l true
      return { s with conn := some r }
    else .ok s

/-- The loop goes on after the error callback. -/
def afterError (r : Checked (State M)) : Exit (State M) (Checked (State M)) :=
  match r with
  | .ok s => .next s
  | .error a => .done (.error a)

/-- One iteration of the loop of `onMessage`. -/
def onMessageBody (s : State M) : Exit (State M) (Checked (State M)) :=
  if s.buf.readableBytes ≥ kMinMessageLen + kHeaderLen then
    match s.buf.peekInt32 with
    | .error a => .done (.error a)
    | .ok len =>
      if len > kMaxMessageLen ∨ len < kMinMessageLen then
        afterError (defaultErrorCallback s .kInvalidLength)
      else if s.buf.readableBytes ≥ (len + kHeaderLen).toNat then
        match parse x ((s.buf.readable.drop kHeaderLen).take len.toNat) with
        | .ok message =>
          match s.buf.retrieve (kHeaderLen + len.toNat) with
          | .ok buf => .next { s with buf, messages := s.messages ++ [message] }
          | .error a => .done (.error a)
        | .error errorCode => afterError (defaultErrorCallback s errorCode)
      else .done (.ok s)
  else .done (.ok s)

/-- `onMessage` for at most `n` iterations; `none` if the loop has not ended by then. -/
def onMessage (n : ℕ) (s : State M) : Option (Checked (State M)) := iterate (onMessageBody x) n s

/-- The length field at the front of `bytes`. -/
def lengthField (bytes : List UInt8) : ℤ := (networkToHost32 bytes).toInt

def ValidLength (len : ℤ) : Prop := (kMinMessageLen : ℤ) ≤ len ∧ len ≤ kMaxMessageLen

/-- A complete frame that `parse` accepts. -/
structure GoodFrame (frame : List UInt8) : Prop where
  length_le : kMinMessageLen + kHeaderLen ≤ frame.length
  announces : lengthField frame + kHeaderLen = frame.length
  valid : ValidLength (lengthField frame)
  parses : ∃ message, parse x (frame.drop kHeaderLen) = .ok message

/-- The beginning of a frame: too short for any frame, or for the frame it announces. -/
def Unfinished (tail : List UInt8) : Prop :=
  tail.length < kMinMessageLen + kHeaderLen ∨
    ValidLength (lengthField tail) ∧ (tail.length : ℤ) < lengthField tail + kHeaderLen

/-- What makes `onMessage` call the error callback. -/
def Malformed (bytes : List UInt8) : Prop :=
  kMinMessageLen + kHeaderLen ≤ bytes.length ∧
    (¬ValidLength (lengthField bytes) ∨
      lengthField bytes + kHeaderLen ≤ bytes.length ∧
        ∃ errorCode, parse x ((bytes.drop kHeaderLen).take (lengthField bytes).toNat) =
          .error errorCode)

/-- The connection, if there is one, belongs to the loop whose thread runs the codec. -/
def Served (s : State M) : Prop :=
  ∀ l c, s.conn = some (l, c) → TcpConnection.Served l c

/-- The default callback leaves the buffer alone. -/
theorem defaultErrorCallback_spec {s : State M} (h : Served s) (e : ErrorCode) :
    Yields (defaultErrorCallback s e) fun t => t.buf = s.buf ∧ Served t := by
  unfold defaultErrorCallback
  dsimp only
  split
  · exact yields_ok ⟨rfl, h⟩
  · rename_i l c hc
    split
    · refine (TcpConnection.shutdown_spec (h l c hc) true).bind ?_
      rintro ⟨l', c'⟩ ⟨hserved, _⟩
      refine yields_ok ⟨rfl, ?_⟩
      intro l'' c'' he
      cases he
      exact hserved
    · exact yields_ok ⟨rfl, h⟩

theorem peekInt32_eq {b : Buffer} (h : kMinMessageLen + kHeaderLen ≤ b.readable.length) :
    b.peekInt32 = .ok (lengthField b.readable) := by
  rw [Buffer.length_readable] at h
  have h4 : 4 ≤ b.readableBytes := by
    unfold kMinMessageLen kHeaderLen at h
    omega
  unfold Buffer.peekInt32
  rw [if_pos h4]
  rfl

variable {s : State M}

theorem body_short (h : s.buf.readable.length < kMinMessageLen + kHeaderLen) :
    onMessageBody x s = .done (.ok s) := by
  rw [Buffer.length_readable] at h
  unfold onMessageBody
  rw [if_neg (by omega)]

/-- The iteration on a buffer that holds a header. -/
theorem body_of_header (h : kMinMessageLen + kHeaderLen ≤ s.buf.readable.length) :
    onMessageBody x s =
      let len := lengthField s.buf.readable
      if len > kMaxMessageLen ∨ len < kMinMessageLen then
        afterError (defaultErrorCallback s .kInvalidLength)
      else if s.buf.readableBytes ≥ (len + kHeaderLen).toNat then
        match parse x ((s.buf.readable.drop kHeaderLen).take len.toNat) with
        | .ok message =>
          match s.buf.retrieve (kHeaderLen + len.toNat) with
          | .ok buf => .next { s with buf, messages := s.messages ++ [message] }
          | .error a => .done (.error a)
        | .error errorCode => afterError (defaultErrorCallback s errorCode)
      else .done (.ok s) := by
  have hlen := h
  rw [Buffer.length_readable] at hlen
  unfold onMessageBody
  rw [if_pos hlen, peekInt32_eq h]

theorem body_unfinished (h : Unfinished s.buf.readable) :
    onMessageBody x s = .done (.ok s) := by
  by_cases hshort : s.buf.readable.length < kMinMessageLen + kHeaderLen
  · exact body_short x hshort
  · rcases h with h | ⟨hv, hlt⟩
    · exact absurd h hshort
    · have hv' := hv
      unfold ValidLength at hv'
      rw [Buffer.length_readable] at hlt
      rw [body_of_header x (Nat.le_of_not_lt hshort)]
      dsimp only
      rw [if_neg (by omega), if_neg (by omega)]

theorem body_malformed (hs : Served s) (h : Malformed x s.buf.readable) :
    ∃ t, onMessageBody x s = .next t ∧ t.buf = s.buf ∧ Served t := by
  obtain ⟨hlen, h⟩ := h
  rw [body_of_header x hlen]
  dsimp only
  by_cases hv : ValidLength (lengthField s.buf.readable)
  · obtain ⟨hle, e, hp⟩ := h.resolve_left (not_not_intro hv)
    unfold ValidLength at hv
    rw [Buffer.length_readable] at hle
    obtain ⟨t, ht, hbuf, hserved⟩ := defaultErrorCallback_spec hs e
    refine ⟨t, ?_, hbuf, hserved⟩
    rw [if_neg (by omega), if_pos (by omega), hp]
    dsimp only
    rw [ht]
    rfl
  · obtain ⟨t, ht, hbuf, hserved⟩ := defaultErrorCallback_spec hs .kInvalidLength
    refine ⟨t, ?_, hbuf, hserved⟩
    unfold ValidLength at hv
    rw [if_pos (by omega), ht]
    rfl

/-- A frame at the front is dispatched and taken off the buffer. -/
theorem body_frame {frame rest : List UInt8} {message : M}
    (hmin : kMinMessageLen + kHeaderLen ≤ frame.length)
    (hannounces : lengthField frame + kHeaderLen = frame.length)
    (hv : ValidLength (lengthField frame))
    (hp : parse x (frame.drop kHeaderLen) = .ok message)
    (hr : s.buf.readable = frame ++ rest) :
    ∃ buf, onMessageBody x s = .next { s with buf, messages := s.messages ++ [message] } ∧
      buf.readable = rest := by
  have hfield : lengthField s.buf.readable = lengthField frame := by
    unfold lengthField networkToHost32
    have h4 : 4 ≤ frame.length := by
      unfold kMinMessageLen kHeaderLen at hmin
      omega
    rw [hr, List.take_append_of_le_length h4]
  have hle : frame.length ≤ s.buf.readable.length := by
    rw [hr, List.length_append]
    omega
  unfold ValidLength at hv
  have htoNat : kHeaderLen + (lengthField frame).toNat = frame.length := by omega
  have hframe : (s.buf.readable.drop kHeaderLen).take (lengthField frame).toNat =
      frame.drop kHeaderLen := by
    rw [hr, List.drop_append_of_le_length (by omega), List.take_append_of_le_length,
      List.take_of_length_le]
    · rw [List.length_drop]
      omega
    · rw [List.length_drop]
      omega
  obtain ⟨b, hb, hread⟩ := s.buf.retrieve_spec hle
  rw [body_of_header x (by omega)]
  dsimp only
  rw [hfield, hframe, hp, htoNat]
  rw [Buffer.length_readable] at hle
  rw [if_neg (by omega), if_pos (by omega)]
  dsimp only
  rw [hb]
  exact ⟨b, rfl, by rw [hread, hr, List.drop_left]⟩

theorem body_good (hs : Served s) {frame rest : List UInt8} (hf : GoodFrame x frame)
    (hr : s.buf.readable = frame ++ rest) :
    ∃ t, onMessageBody x s = .next t ∧ t.buf.readable = rest ∧ Served t := by
  obtain ⟨message, hp⟩ := hf.parses
  obtain ⟨buf, hb, hrest⟩ := body_frame x hf.length_le hf.announces hf.valid hp hr
  exact ⟨_, hb, hrest, hs⟩

/-- Whatever is buffered is unfinished, malformed, or begins with a good frame. -/
theorem front_cases (bytes : List UInt8) :
    Unfinished bytes ∨ Malformed x bytes ∨
      ∃ frame rest, bytes = frame ++ rest ∧ GoodFrame x frame := by
  by_cases hshort : bytes.length < kMinMessageLen + kHeaderLen
  · exact .inl (.inl hshort)
  · have hlen := Nat.le_of_not_lt hshort
    by_cases hv : ValidLength (lengthField bytes)
    · by_cases hlt : (bytes.length : ℤ) < lengthField bytes + kHeaderLen
      · exact .inl (.inr ⟨hv, hlt⟩)
      · have hle : lengthField bytes + kHeaderLen ≤ bytes.length := by omega
        cases hp : parse x ((bytes.drop kHeaderLen).take (lengthField bytes).toNat) with
        | error e => exact .inr (.inl ⟨hlen, .inr ⟨hle, e, hp⟩⟩)
        | ok message =>
          right
          right
          have hv' := hv
          unfold ValidLength kMinMessageLen kHeaderLen at hv'
          have hn : (kHeaderLen + (lengthField bytes).toNat : ℕ) ≤ bytes.length := by omega
          refine ⟨bytes.take (kHeaderLen + (lengthField bytes).toNat), bytes.drop _,
            (List.take_append_drop _ _).symm, ?_⟩
          have hfield : lengthField (bytes.take (kHeaderLen + (lengthField bytes).toNat)) =
              lengthField bytes := by
            unfold lengthField networkToHost32
            rw [List.take_take, Nat.min_eq_left]
            unfold kHeaderLen
            omega
          have hlen' : (bytes.take (kHeaderLen + (lengthField bytes).toNat)).length =
              kHeaderLen + (lengthField bytes).toNat := by
            rw [List.length_take, Nat.min_eq_left hn]
          refine ⟨?_, ?_, ?_, message, ?_⟩
          · rw [hlen']
            unfold kMinMessageLen kHeaderLen
            omega
          · rw [hlen', hfield]
            omega
          · rw [hfield]
            exact hv
          · rw [List.drop_take, Nat.add_sub_cancel_left]
            exact hp
    · exact .inr (.inl ⟨hlen, .inl hv⟩)

/-- A malformed frame at the front is never consumed. -/
theorem not_terminates_of_malformed (hs : Served s) (h : Malformed x s.buf.readable) :
    ¬Terminates (onMessageBody x) s := by
  refine not_terminates_of_invariant (onMessageBody x)
    (fun t => Served t ∧ Malformed x t.buf.readable) ?_ ⟨hs, h⟩
  rintro t ⟨ht, hm⟩
  obtain ⟨u, hu, hbuf, hserved⟩ := body_malformed x ht hm
  exact ⟨u, hu, hserved, by rw [hbuf]; exact hm⟩

/-- `onMessage` comes to an end exactly when the buffer holds good frames followed by
the beginning of another. -/
theorem onMessage_terminates_iff {s : State M} (hs : Served s) :
    (∃ n, (onMessage x n s).isSome) ↔
      ∃ (frames : List (List UInt8)) (tail : List UInt8),
        s.buf.readable = frames.flatten ++ tail ∧ (∀ frame ∈ frames, GoodFrame x frame) ∧
          Unfinished tail := by
  show Terminates (onMessageBody x) s ↔ _
  constructor
  · intro h
    induction hn : s.buf.readable.length using Nat.strongRecOn generalizing s with
    | _ n ih =>
      rcases front_cases x s.buf.readable with hu | hm | ⟨frame, rest, hr, hf⟩
      · exact ⟨[], s.buf.readable, rfl, by simp, hu⟩
      · exact absurd h (not_terminates_of_malformed x hs hm)
      · obtain ⟨t, hb, ht, hserved⟩ := body_good x hs hf hr
        have hpos := hf.length_le
        have hlt : t.buf.readable.length < n := by
          rw [← hn, ht, hr, List.length_append]
          unfold kMinMessageLen kHeaderLen at hpos
          omega
        obtain ⟨frames, tail, hrest, hgood, hu⟩ :=
          ih _ hlt hserved ((terminates_next_iff _ hb).mp h) rfl
        refine ⟨frame :: frames, tail, ?_, ?_, hu⟩
        · rw [hr, List.flatten_cons, List.append_assoc, ← hrest, ht]
        · rintro f (_ | ⟨_, hf'⟩)
          · exact hf
          · exact hgood f hf'
  · rintro ⟨frames, tail, hr, hgood, hu⟩
    induction frames generalizing s with
    | nil => exact terminates_done _ (body_unfinished x (hr ▸ hu))
    | cons frame frames ih =>
      rw [List.flatten_cons, List.append_assoc] at hr
      obtain ⟨t, hb, ht, hserved⟩ := body_good x hs (hgood frame List.mem_cons_self) hr
      refine (terminates_next_iff _ hb).mpr ?_
      exact ih hserved ht fun f hf => hgood f (List.mem_cons_of_mem _ hf)

/-- The given bytes have arrived on a connection that has just been established. -/
def received (data : List UInt8) : Checked (State M) := do
  let buf ← Buffer.new.append data
  return ⟨some (TcpConnection.sampleLoop, TcpConnection.sample), buf, [], []⟩

theorem received_spec (data : List UInt8) :
    Yields (received data : Checked (State M)) fun s => s.buf.readable = data ∧ Served s := by
  obtain ⟨b, hb, hread⟩ := Buffer.new.append_spec data
  unfold received
  rw [hb, ok_bind]
  refine yields_ok ⟨?_, ?_⟩
  · show b.readable = data
    rw [hread, Buffer.readable_new, List.nil_append]
  · intro l c hc
    cases hc
    exact TcpConnection.served_sample

/-- Twelve zero bytes announce a frame of length zero. -/
theorem zeros_not_terminates : Yields (received (List.replicate 12 0) : Checked (State Unit))
    fun s => ∀ n, onMessage ⟨fun _ _ => 0, fun _ => none⟩ n s = none := by
  refine (received_spec _).mono ?_
  rintro s ⟨hr, hs⟩ n
  have hmal : Malformed (⟨fun _ _ => 0, fun _ => none⟩ : Externals Unit) s.buf.readable := by
    rw [hr]
    exact ⟨by decide, .inl (by unfold ValidLength; decide)⟩
  by_contra hne
  exact not_terminates_of_malformed _ hs hmal ⟨n, Option.isSome_iff_ne_none.mpr hne⟩

/-- Eleven bytes are the beginning of a frame. -/
theorem short_terminates : Yields (received (List.replicate 11 0) : Checked (State Unit))
    fun s => ∃ n, (onMessage ⟨fun _ _ => 0, fun _ => none⟩ n s).isSome := by
  refine (received_spec _).mono ?_
  rintro s ⟨hr, hs⟩
  refine (onMessage_terminates_iff _ hs).mpr ⟨[], List.replicate 11 0, hr, by simp, .inl ?_⟩
  decide

end Muduo.RpcCodec

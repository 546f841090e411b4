import Mathlib.Data.List.Basic
import Muduo.Assertion
import Muduo.Library.ListSearch

/-!
# Buffer

`net/Buffer.h` and `net/Buffer.cc`. The vector `buffer_` is a list of bytes, the
two indices are natural numbers, and the order of the three regions is carried by
the structure. Pointers into the readable region are offsets from `peek()`.
`readable` is the abstract content: what a reader of the buffer can see.
-/
namespace Muduo

def kCheapPrepend : ℕ := 8
def kInitialSize : ℕ := 1024

structure Buffer where
  buffer : List UInt8
  readerIndex : ℕ
  writerIndex : ℕ
  reader_le_writer : readerIndex ≤ writerIndex
  writer_le_size : writerIndex ≤ buffer.length
  prepend_le_size : kCheapPrepend ≤ buffer.length

/-- `std::copy` of `data` to the position `off` of a vector. -/
def copyTo (v : List UInt8) (off : ℕ) (data : List UInt8) : List UInt8 :=
  v.take off ++ data ++ v.drop (off + data.length)

/-- `std::vector::resize`, new cells being zero. -/
def resize (v : List UInt8) (n : ℕ) : List UInt8 :=
  v.take n ++ List.replicate (n - v.length) 0

theorem length_copyTo {v data : List UInt8} {off : ℕ} (h : off + data.length ≤ v.length) :
    (copyTo v off data).length = v.length := by
  simp only [copyTo, List.length_append, List.length_take, List.length_drop]
  omega

theorem le_length_copyTo {v : List UInt8} (data : List UInt8) {off : ℕ} (h : off ≤ v.length) :
    v.length ≤ (copyTo v off data).length := by
  simp only [copyTo, List.length_append, List.length_take, List.length_drop]
  omega

theorem take_copyTo {v : List UInt8} (data : List UInt8) {off : ℕ} (h : off ≤ v.length) :
    (copyTo v off data).take (off + data.length) = v.take off ++ data := by
  rw [copyTo, List.take_left' (by simp [h])]

@[simp] theorem length_resize (v : List UInt8) (n : ℕ) : (resize v n).length = n := by
  simp only [resize, List.length_append, List.length_take, List.length_replicate]
  omega

theorem take_resize {v : List UInt8} {k n : ℕ} (hk : k ≤ v.length) (hn : k ≤ n) :
    (resize v n).take k = v.take k := by
  rw [resize, List.take_append_of_le_length, List.take_take, min_eq_left hn]
  rw [List.length_take]
  omega

/-- `sockets::networkToHost32` of the four bytes at the front. -/
def networkToHost32 (bytes : List UInt8) : BitVec 32 :=
  BitVec.ofNat 32 ((bytes.take 4).foldl (fun n b => n * 256 + b.toNat) 0)

/-- `sockets::hostToNetwork32`: the most significant byte comes first. -/
def hostToNetwork32 (host32 : BitVec 32) : List UInt8 :=
  [.ofNat (host32.toNat / 2 ^ 24), .ofNat (host32.toNat / 2 ^ 16), .ofNat (host32.toNat / 2 ^ 8),
    .ofNat host32.toNat]

@[simp] theorem length_hostToNetwork32 (host32 : BitVec 32) :
    (hostToNetwork32 host32).length = 4 := rfl

theorem networkToHost32_hostToNetwork32 (host32 : BitVec 32) (rest : List UInt8) :
    networkToHost32 (hostToNetwork32 host32 ++ rest) = host32 := by
  have hlt : host32.toNat < 2 ^ 32 := host32.isLt
  apply BitVec.eq_of_toNat_eq
  simp [networkToHost32, hostToNetwork32]
  omega

/-- `Buffer::kCRLF` -/
def kCRLF : List UInt8 := [13, 10]

namespace Buffer

/-- `Buffer::Buffer()` -/
def new : Buffer where
  buffer := List.replicate (kCheapPrepend + kInitialSize) 0
  readerIndex := kCheapPrepend
  writerIndex := kCheapPrepend
  reader_le_writer := le_rfl
  writer_le_size := by rw [List.length_replicate]; omega
  prepend_le_size := by rw [List.length_replicate]; omega

variable (b : Buffer)

def readableBytes : ℕ := b.writerIndex - b.readerIndex

def writableBytes : ℕ := b.buffer.length - b.writerIndex

def prependableBytes : ℕ := b.readerIndex

/-- The bytes from `peek()` to `beginWrite()`. -/
def readable : List UInt8 := (b.buffer.take b.writerIndex).drop b.readerIndex

@[simp] theorem length_readable : b.readable.length = b.readableBytes := by
  have := b.writer_le_size
  simp only [readable, readableBytes, List.length_drop, List.length_take]
  omega

@[simp] theorem readable_new : new.readable = [] := by
  simp [readable, new]

theorem readable_eq_nil_iff : b.readable = [] ↔ b.readableBytes = 0 := by
  rw [← length_readable, List.length_eq_zero_iff]

/-- `findCRLF()`, as an offset from `peek()`. -/
def findCRLF : Option ℕ := ListSearch.search kCRLF b.readable

def retrieveAll : Buffer where
  buffer := b.buffer
  readerIndex := kCheapPrepend
  writerIndex := kCheapPrepend
  reader_le_writer := le_rfl
  writer_le_size := b.prepend_le_size
  prepend_le_size := b.prepend_le_size

@[simp] theorem readable_retrieveAll : b.retrieveAll.readable = [] := by
  simp [readable, retrieveAll]

def retrieve (len : ℕ) : Checked Buffer :=
  if len ≤ b.readableBytes then
    if h : len < b.readableBytes then
      .ok { b with
        readerIndex := b.readerIndex + len
        reader_le_writer := by simp only [readableBytes] at h; omega }
    else .ok b.retrieveAll
  else .error .bufferReadable

/-- `retrieveUntil(end)` for `end = peek() + off`. -/
def retrieveUntil (off : ℕ) : Checked Buffer :=
  if off ≤ b.readableBytes then b.retrieve off else .error .bufferReadable

theorem retrieve_spec {len : ℕ} (h : len ≤ b.readable.length) :
    ∃ b', b.retrieve len = .ok b' ∧ b'.readable = b.readable.drop len := by
  rw [length_readable] at h
  rw [retrieve, if_pos h]
  split
  · refine ⟨_, rfl, ?_⟩
    simp [readable]
  · refine ⟨_, rfl, ?_⟩
    rw [readable_retrieveAll, List.drop_of_length_le (by rw [length_readable]; omega)]

theorem retrieveUntil_spec {off : ℕ} (h : off ≤ b.readable.length) :
    ∃ b', b.retrieveUntil off = .ok b' ∧ b'.readable = b.readable.drop off := by
  rw [retrieveUntil, if_pos (by simpa using h)]
  exact b.retrieve_spec h

/-- `retrieveAsString(len)`: the string, and the buffer it leaves. -/
def retrieveAsString (len : ℕ) : Checked (List UInt8 × Buffer) := do
  assert (len ≤ b.readableBytes) .bufferReadable
  let rest ← b.retrieve len
  return (b.readable.take len, rest)

/-- `retrieveAllAsString()`: the content, and the buffer it leaves. -/
def retrieveAllAsString : Checked (List UInt8 × Buffer) := do
  let rest ← b.retrieve b.readableBytes
  return (b.readable, rest)

/-- `makeSpace(len)`; its only caller has found too few writable bytes. -/
def makeSpace (len : ℕ) (hlen : b.writableBytes < len) : Checked Buffer :=
  if b.writableBytes + b.prependableBytes < len + kCheapPrepend then
    .ok { b with
      buffer := resize b.buffer (b.writerIndex + len)
      writer_le_size := by simp
      prepend_le_size := by
        have := b.prepend_le_size
        simp only [writableBytes] at hlen
        rw [length_resize]
        omega }
  else if h : kCheapPrepend < b.readerIndex then
    .ok {
      buffer := copyTo b.buffer kCheapPrepend b.readable
      readerIndex := kCheapPrepend
      writerIndex := kCheapPrepend + b.readableBytes
      reader_le_writer := by omega
      writer_le_size := by
        have := b.writer_le_size
        have := b.prepend_le_size
        have := le_length_copyTo b.readable b.prepend_le_size
        simp only [readableBytes]
        omega
      prepend_le_size := b.prepend_le_size.trans (le_length_copyTo b.readable b.prepend_le_size) }
  else .error .makeSpaceReaderIndex

theorem makeSpace_spec {len : ℕ} (hlen : b.writableBytes < len) :
    ∃ b', b.makeSpace len hlen = .ok b' ∧ b'.readable = b.readable ∧ len ≤ b'.writableBytes := by
  have hw := b.writer_le_size
  have hr := b.reader_le_writer
  have hp := b.prepend_le_size
  by_cases hfew : b.writableBytes + b.prependableBytes < len + kCheapPrepend
  · refine ⟨_, if_pos hfew, ?_, ?_⟩
    · simp only [readable]
      rw [take_resize hw (by omega)]
    · simp [writableBytes]
  · have hreader : kCheapPrepend < b.readerIndex := by
      simp only [prependableBytes] at hfew
      omega
    refine ⟨_, by rw [makeSpace, if_neg hfew, dif_pos hreader], ?_, ?_⟩
    · have h := take_copyTo b.readable hp
      rw [length_readable] at h
      change ((copyTo b.buffer kCheapPrepend b.readable).take
        (kCheapPrepend + b.readableBytes)).drop kCheapPrepend = b.readable
      rw [h, List.drop_left' (by simp [hp])]
    · have h : kCheapPrepend + b.readable.length ≤ b.buffer.length := by
        rw [length_readable, readableBytes]
        omega
      simp only [writableBytes, length_copyTo h]
      simp only [writableBytes, prependableBytes, readableBytes] at hfew ⊢
      omega

def ensureWritableBytes (len : ℕ) : Checked Buffer := do
  let b' ← if h : b.writableBytes < len then b.makeSpace len h else .ok b
  assert (len ≤ b'.writableBytes) .bufferWritable
  return b'

theorem ensureWritableBytes_spec (len : ℕ) :
    ∃ b', b.ensureWritableBytes len = .ok b' ∧ b'.readable = b.readable ∧
      len ≤ b'.writableBytes := by
  by_cases h : b.writableBytes < len
  · obtain ⟨b', hb', hread, hlen⟩ := b.makeSpace_spec h
    refine ⟨b', ?_, hread, hlen⟩
    simp [ensureWritableBytes, h, hb', assert_pos hlen]
  · refine ⟨b, ?_, rfl, by omega⟩
    simp [ensureWritableBytes, h, assert_pos (Nat.le_of_not_lt h)]

def hasWritten (len : ℕ) : Checked Buffer :=
  if h : b.writerIndex + len ≤ b.buffer.length then
    .ok { b with
      writerIndex := b.writerIndex + len
      reader_le_writer := b.reader_le_writer.trans (by omega)
      writer_le_size := h }
  else .error .bufferOverrun

/-- `std::copy(data, data+len, beginWrite())` -/
def copyToWrite (data : List UInt8) : Buffer :=
  { b with
    buffer := copyTo b.buffer b.writerIndex data
    writer_le_size := b.writer_le_size.trans (le_length_copyTo data b.writer_le_size)
    prepend_le_size := b.prepend_le_size.trans (le_length_copyTo data b.writer_le_size) }

def append (data : List UInt8) : Checked Buffer := do
  let b' ← b.ensureWritableBytes data.length
  (b'.copyToWrite data).hasWritten data.length

theorem hasWritten_copyToWrite (data : List UInt8) (h : data.length ≤ b.writableBytes) :
    ∃ b', (b.copyToWrite data).hasWritten data.length = .ok b' ∧
      b'.readable = b.readable ++ data := by
  have hw := b.writer_le_size
  have hfit : b.writerIndex + data.length ≤ b.buffer.length := by
    simp only [writableBytes] at h
    omega
  have hfit' : b.writerIndex + data.length ≤ (copyTo b.buffer b.writerIndex data).length :=
    hfit.trans (le_length_copyTo data hw)
  refine ⟨_, dif_pos hfit', ?_⟩
  simp only [readable, copyToWrite]
  rw [take_copyTo data hw, List.drop_append_of_le_length (by simp [hw, b.reader_le_writer])]

/-- Appending never fails and adds exactly its bytes at the back of the content. -/
theorem append_spec (data : List UInt8) :
    ∃ b', b.append data = .ok b' ∧ b'.readable = b.readable ++ data := by
  obtain ⟨b₁, h₁, hread, hlen⟩ := b.ensureWritableBytes_spec data.length
  obtain ⟨b₂, h₂, hread₂⟩ := b₁.hasWritten_copyToWrite data hlen
  exact ⟨b₂, by simp [append, h₁, h₂], by rw [hread₂, hread]⟩

/-- Making room for `len` bytes moves the content to the front. -/
def Compacts (len : ℕ) : Prop :=
  b.writableBytes < len ∧ len + kCheapPrepend ≤ b.writableBytes + b.prependableBytes

instance (len : ℕ) : Decidable (b.Compacts len) := inferInstanceAs (Decidable (_ ∧ _))

/-- Otherwise the content stays where it is. -/
theorem readerIndex_ensureWritableBytes {b' : Buffer} {len : ℕ}
    (h : b.ensureWritableBytes len = .ok b') :
    b'.readerIndex = if b.Compacts len then kCheapPrepend else b.readerIndex := by
  unfold ensureWritableBytes at h
  split at h
  · rename_i hw
    obtain ⟨b₁, h₁, h⟩ := bind_eq_ok.mp h
    obtain ⟨_, _, h⟩ := bind_eq_ok.mp h
    obtain rfl := Except.ok.inj h
    unfold makeSpace at h₁
    split at h₁
    · rename_i hfew
      obtain rfl := Except.ok.inj h₁
      rw [if_neg (fun hc => absurd hc.2 (by omega))]
    · rename_i hroom
      split at h₁
      · obtain rfl := Except.ok.inj h₁
        rw [if_pos ⟨hw, by omega⟩]
      · cases h₁
  · rename_i hw
    obtain ⟨b₁, h₁, h⟩ := bind_eq_ok.mp h
    obtain rfl := Except.ok.inj h₁
    obtain ⟨_, _, h⟩ := bind_eq_ok.mp h
    obtain rfl := Except.ok.inj h
    rw [if_neg fun hc => hw hc.1]

theorem readerIndex_hasWritten {b' : Buffer} {len : ℕ} (h : b.hasWritten len = .ok b') :
    b'.readerIndex = b.readerIndex := by
  unfold hasWritten at h
  split at h
  · obtain rfl := Except.ok.inj h
    rfl
  · cases h

theorem readerIndex_append {b' : Buffer} {data : List UInt8} (h : b.append data = .ok b') :
    b'.readerIndex = if b.Compacts data.length then kCheapPrepend else b.readerIndex := by
  obtain ⟨b₁, h₁, h⟩ := bind_eq_ok.mp h
  rw [← b.readerIndex_ensureWritableBytes h₁]
  exact (b₁.copyToWrite data).readerIndex_hasWritten h

/-- The stack buffer of `readFd`. -/
def extrabufSize : ℕ := 65536

/-- `readFd` after `readv(2)` has delivered `data` into the writable bytes and
`extrabuf`; for a failed read the buffer is left alone. -/
def readFd (data : List UInt8) : Checked Buffer :=
  if data.length ≤ b.writableBytes then (b.copyToWrite data).hasWritten data.length
  else do
    let b' ← (b.copyToWrite (data.take b.writableBytes)).hasWritten b.writableBytes
    b'.append (data.drop b.writableBytes)

theorem readFd_spec (data : List UInt8) :
    ∃ b', b.readFd data = .ok b' ∧ b'.readable = b.readable ++ data := by
  by_cases h : data.length ≤ b.writableBytes
  · rw [readFd, if_pos h]
    exact b.hasWritten_copyToWrite data h
  · have hlen : (data.take b.writableBytes).length = b.writableBytes := by
      rw [List.length_take]
      omega
    obtain ⟨b₁, h₁, hread₁⟩ := b.hasWritten_copyToWrite (data.take b.writableBytes) hlen.le
    obtain ⟨b₂, h₂, hread₂⟩ := b₁.append_spec (data.drop b.writableBytes)
    rw [hlen] at h₁
    refine ⟨b₂, by simp [readFd, h, h₁, h₂], ?_⟩
    rw [hread₂, hread₁, List.append_assoc, List.take_append_drop]

/-- `appendInt32(x)` -/
def appendInt32 (x : BitVec 32) : Checked Buffer := b.append (hostToNetwork32 x)

def prepend (data : List UInt8) : Checked Buffer :=
  if data.length ≤ b.prependableBytes then
    .ok {
      buffer := copyTo b.buffer (b.readerIndex - data.length) data
      readerIndex := b.readerIndex - data.length
      writerIndex := b.writerIndex
      reader_le_writer := (Nat.sub_le ..).trans b.reader_le_writer
      writer_le_size := b.writer_le_size.trans (le_length_copyTo data
        ((Nat.sub_le ..).trans (b.reader_le_writer.trans b.writer_le_size)))
      prepend_le_size := b.prepend_le_size.trans (le_length_copyTo data
        ((Nat.sub_le ..).trans (b.reader_le_writer.trans b.writer_le_size))) }
  else .error .bufferPrependable

/-- Where its bytes fit, prepending puts them before the content. -/
theorem prepend_spec (data : List UInt8) (h : data.length ≤ b.readerIndex) :
    ∃ b', b.prepend data = .ok b' ∧ b'.readable = data ++ b.readable := by
  have hr := b.reader_le_writer
  have hw := b.writer_le_size
  refine ⟨_, if_pos h, ?_⟩
  have hoff : b.readerIndex - data.length + data.length = b.readerIndex := by omega
  have htake : (b.buffer.take (b.readerIndex - data.length)).length =
      b.readerIndex - data.length := by
    rw [List.length_take]
    omega
  have hlen : b.writerIndex - (b.readerIndex - data.length) - data.length =
      b.writerIndex - b.readerIndex := by omega
  simp only [readable, copyTo, hoff, List.append_assoc, List.drop_take]
  rw [List.drop_left' htake, List.take_append, hlen, List.take_of_length_le (by omega)]

/-- `toStringPiece()`; the length of a `StringPiece` is an `int`. -/
def toStringPiece : Checked (List UInt8) :=
  let length := (BitVec.ofNat 32 b.readableBytes).toInt
  if 0 ≤ length then .ok (b.readable.take length.toNat) else .error .stringPieceLength

theorem toStringPiece_spec (h : b.readableBytes < 2 ^ 31) : b.toStringPiece = .ok b.readable := by
  have hlen : (BitVec.ofNat 32 b.readableBytes).toInt = b.readableBytes := by
    have hmod : b.readableBytes % 2 ^ 32 = b.readableBytes := Nat.mod_eq_of_lt (by omega)
    rw [BitVec.toInt_eq_toNat_of_lt (by rw [BitVec.toNat_ofNat, hmod]; omega), BitVec.toNat_ofNat,
      hmod]
  unfold toStringPiece
  simp only [hlen]
  rw [if_pos (by omega), List.take_of_length_le (by simp)]

def shrink (reserve : ℕ) : Checked Buffer := do
  let other ← new.ensureWritableBytes (b.readableBytes + reserve)
  let piece ← b.toStringPiece
  other.append piece

/-- `peekInt32()` -/
def peekInt32 : Checked ℤ :=
  if 4 ≤ b.readableBytes then .ok (networkToHost32 b.readable).toInt else .error .bufferReadable

end Buffer
end Muduo

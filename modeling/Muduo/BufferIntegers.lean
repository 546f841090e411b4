import Muduo.Buffer
import Muduo.Library.BigEndian

/-!
# Integers in a buffer

The integer operations of `net/Buffer.h`, each in its three widths, and what they do to the
content. Integers are written as `BitVec`s and read as numbers.
-/
namespace Muduo

/-- `sockets::networkToHost16` of the two bytes at the front. -/
def networkToHost16 (bytes : List UInt8) : BitVec 16 :=
  BitVec.ofNat 16 ((bytes.take 2).foldl (fun n b => n * 256 + b.toNat) 0)

/-- `sockets::hostToNetwork16` -/
def hostToNetwork16 (host16 : BitVec 16) : List UInt8 :=
  [.ofNat (host16.toNat / 2 ^ 8), .ofNat host16.toNat]

namespace Buffer
variable (b : Buffer)

def appendInt16 (x : BitVec 16) : Checked Buffer := b.append (hostToNetwork16 x)

def appendInt8 (x : BitVec 8) : Checked Buffer := b.append [.ofBitVec x]

def peekInt16 : Checked ℤ :=
  if 2 ≤ b.readableBytes then .ok (networkToHost16 b.readable).toInt else .error .bufferReadable

/-- `peekInt8()` does not convert. -/
def peekInt8 : Checked ℤ :=
  if 1 ≤ b.readableBytes then .ok (b.readable.headD 0).toInt8.toInt else .error .bufferReadable

def retrieveInt32 : Checked Buffer := b.retrieve 4

def retrieveInt16 : Checked Buffer := b.retrieve 2

def retrieveInt8 : Checked Buffer := b.retrieve 1

/-- The `readInt`s give the number, and the buffer they leave. -/
def readInt32 : Checked (ℤ × Buffer) := do
  let result ← b.peekInt32
  let rest ← b.retrieveInt32
  return (result, rest)

def readInt16 : Checked (ℤ × Buffer) := do
  let result ← b.peekInt16
  let rest ← b.retrieveInt16
  return (result, rest)

def readInt8 : Checked (ℤ × Buffer) := do
  let result ← b.peekInt8
  let rest ← b.retrieveInt8
  return (result, rest)

def prependInt32 (x : BitVec 32) : Checked Buffer := b.prepend (hostToNetwork32 x)

def prependInt16 (x : BitVec 16) : Checked Buffer := b.prepend (hostToNetwork16 x)

def prependInt8 (x : BitVec 8) : Checked Buffer := b.prepend [.ofBitVec x]

/-- The number in the name of an operation. -/
inductive Width
  | int8
  | int16
  | int32
  deriving DecidableEq, Repr

/-- In bytes. -/
def Width.size : Width → ℕ
  | .int8 => 1
  | .int16 => 2
  | .int32 => 4

def peekInt : Width → Checked ℤ
  | .int8 => b.peekInt8
  | .int16 => b.peekInt16
  | .int32 => b.peekInt32

def readInt : Width → Checked (ℤ × Buffer)
  | .int8 => b.readInt8
  | .int16 => b.readInt16
  | .int32 => b.readInt32

/-- An argument of `appendInt8`, `appendInt16` or `appendInt32`. -/
inductive Field
  | int8 (x : Int8)
  | int16 (x : Int16)
  | int32 (x : Int32)
  deriving DecidableEq, Repr

def Field.width : Field → Width
  | .int8 _ => .int8
  | .int16 _ => .int16
  | .int32 _ => .int32

def Field.value : Field → ℤ
  | .int8 x => x.toInt
  | .int16 x => x.toInt
  | .int32 x => x.toInt

def appendInt : Field → Checked Buffer
  | .int8 x => b.appendInt8 x.toBitVec
  | .int16 x => b.appendInt16 x.toBitVec
  | .int32 x => b.appendInt32 x.toBitVec

def prependInt : Field → Checked Buffer
  | .int8 x => b.prependInt8 x.toBitVec
  | .int16 x => b.prependInt16 x.toBitVec
  | .int32 x => b.prependInt32 x.toBitVec

def appendInts : List Field → Buffer → Checked Buffer
  | [], b => .ok b
  | field :: fields, b => do
    let b ← b.appendInt field
    appendInts fields b

def readInts : List Width → Buffer → Checked (List ℤ × Buffer)
  | [], b => .ok ([], b)
  | width :: widths, b => do
    let (value, b) ← b.readInt width
    let (values, b) ← readInts widths b
    return (value :: values, b)

/-- The big-endian bytes of the two's complement. -/
def Field.bytes (field : Field) : List UInt8 :=
  BigEndian.signedBytes field.width.size field.value

@[simp] theorem Field.length_bytes (field : Field) : field.bytes.length = field.width.size :=
  BigEndian.length_signedBytes ..

theorem Field.toInt_bytes (field : Field) :
    (BitVec.ofNat (8 * field.width.size) (BigEndian.value field.bytes)).toInt = field.value := by
  unfold bytes
  cases field with
  | int8 x => exact BigEndian.toInt_signedBytes (n := 1) x.le_toInt x.toInt_lt (by decide)
  | int16 x => exact BigEndian.toInt_signedBytes (n := 2) x.le_toInt x.toInt_lt (by decide)
  | int32 x => exact BigEndian.toInt_signedBytes (n := 4) x.le_toInt x.toInt_lt (by decide)

/-- The bytes as the operations take them from the argument. -/
def Field.toNetwork : Field → List UInt8
  | .int8 x => [.ofBitVec x.toBitVec]
  | .int16 x => hostToNetwork16 x.toBitVec
  | .int32 x => hostToNetwork32 x.toBitVec

theorem Field.toNetwork_eq (field : Field) : field.toNetwork = field.bytes := by
  symm
  cases field with
  | int8 x =>
    have hbyte : UInt8.ofNat x.toBitVec.toNat = .ofBitVec x.toBitVec := by
      apply UInt8.toBitVec_inj.mp
      exact BitVec.ofNat_toNat 8 x.toBitVec
    refine (BigEndian.signedBytes_toInt (n := 1) x.toBitVec).trans ?_
    change _ = [UInt8.ofBitVec x.toBitVec]
    rw [← hbyte]
    simp [BigEndian.bytes]
  | int16 x =>
    refine (BigEndian.signedBytes_toInt (n := 2) x.toBitVec).trans ?_
    simp [BigEndian.bytes, List.range_succ, toNetwork, hostToNetwork16]
  | int32 x =>
    refine (BigEndian.signedBytes_toInt (n := 4) x.toBitVec).trans ?_
    simp [BigEndian.bytes, List.range_succ, toNetwork, hostToNetwork32]

/-! ### One lemma for the three widths -/

theorem appendInt_eq (field : Field) : b.appendInt field = b.append field.bytes := by
  rw [← field.toNetwork_eq]
  cases field with
  | int8 x => rfl
  | int16 x => rfl
  | int32 x => rfl

theorem prependInt_eq (field : Field) : b.prependInt field = b.prepend field.bytes := by
  rw [← field.toNetwork_eq]
  cases field with
  | int8 x => rfl
  | int16 x => rfl
  | int32 x => rfl

theorem peekInt_eq (width : Width) :
    b.peekInt width =
      if width.size ≤ b.readableBytes then
        .ok (BitVec.ofNat (8 * width.size)
          (BigEndian.value (b.readable.take width.size))).toInt
      else .error .bufferReadable := by
  cases width with
  | int8 =>
    unfold peekInt peekInt8 Width.size
    dsimp only
    split_ifs with hlen
    · have hne : b.readable ≠ [] := by
        rw [ne_eq, readable_eq_nil_iff]
        omega
      obtain ⟨c, rest, hread⟩ := List.exists_cons_of_ne_nil hne
      rw [hread]
      simp [BigEndian.value, Int8.toInt]
    · rfl
  | int16 => rfl
  | int32 => rfl

theorem readInt_eq (width : Width) :
    b.readInt width = (do
      let result ← b.peekInt width
      let rest ← b.retrieve width.size
      return (result, rest)) := by
  cases width with
  | int8 => rfl
  | int16 => rfl
  | int32 => rfl

/-- The bytes of a field at the front are read, and nothing else. -/
theorem readInt_spec {field : Field} {rest : List UInt8} (h : b.readable = field.bytes ++ rest) :
    Yields (b.readInt field.width) fun r => r.1 = field.value ∧ r.2.readable = rest := by
  have hlen : field.width.size ≤ b.readable.length := by
    rw [h, List.length_append, field.length_bytes]
    omega
  obtain ⟨b', hb', hread⟩ := b.retrieve_spec hlen
  rw [readInt_eq, peekInt_eq, if_pos (by rwa [length_readable] at hlen), ok_bind, hb', ok_bind]
  have hfront : (field.bytes ++ rest).take field.width.size = field.bytes :=
    List.take_left' field.length_bytes
  have hback : (field.bytes ++ rest).drop field.width.size = rest :=
    List.drop_left' field.length_bytes
  refine yields_ok ⟨?_, ?_⟩
  · dsimp only
    rw [h, hfront, field.toInt_bytes]
  · rw [hread, h, hback]

theorem appendInts_spec (fields : List Field) :
    Yields (appendInts fields b) fun b' =>
      b'.readable = b.readable ++ fields.flatMap Field.bytes := by
  induction fields generalizing b with
  | nil => exact yields_ok (by simp)
  | cons field fields ih =>
    obtain ⟨b₁, h₁, hread₁⟩ := b.append_spec field.bytes
    unfold appendInts
    rw [appendInt_eq, h₁, ok_bind]
    refine (ih b₁).mono ?_
    intro b' hread
    rw [hread, hread₁, List.flatMap_cons, List.append_assoc]

theorem readInts_spec {fields : List Field} {rest : List UInt8}
    (h : b.readable = fields.flatMap Field.bytes ++ rest) :
    Yields (readInts (fields.map Field.width) b) fun r =>
      r.1 = fields.map Field.value ∧ r.2.readable = rest := by
  induction fields generalizing b with
  | nil => exact yields_ok ⟨rfl, h⟩
  | cons field fields ih =>
    rw [List.flatMap_cons, List.append_assoc] at h
    obtain ⟨⟨value, b₁⟩, h₁, hvalue, hread₁⟩ := b.readInt_spec h
    obtain ⟨⟨values, b₂⟩, h₂, hvalues, hread₂⟩ := ih b₁ hread₁
    rw [List.map_cons]
    unfold readInts
    simp only [h₁, ok_bind, h₂]
    refine yields_ok ⟨?_, hread₂⟩
    simp only [List.map_cons, ← hvalue, ← hvalues]

/-- Fields that are appended, in any widths, put their bytes behind the content. When that is
dropped, whatever has come after them, they are read back, and nothing else. Peeking is
reading, also where it fails. What has been prepended is read back, and leaves the content. -/
theorem integers_round_trip (b : Buffer) :
    (∀ fields : List Field, Yields (appendInts fields b) fun b₁ =>
      b₁.readable = b.readable ++ fields.flatMap Field.bytes ∧
      ∀ (rest : List UInt8) (b₂ : Buffer), b₂.readable = b₁.readable ++ rest →
        Yields (b₂.retrieve b.readableBytes) fun b₃ =>
          Yields (readInts (fields.map Field.width) b₃) fun r =>
            r.1 = fields.map Field.value ∧ r.2.readable = rest) ∧
    (∀ width : Width, b.peekInt width = Prod.fst <$> b.readInt width) ∧
    ∀ field : Field, field.width.size ≤ b.prependableBytes →
      Yields (b.prependInt field) fun b₁ =>
        b₁.readable = field.bytes ++ b.readable ∧
        Yields (b₁.readInt field.width) fun r =>
          r.1 = field.value ∧ r.2.readable = b.readable := by
  refine ⟨?_, ?_, ?_⟩
  · intro fields
    refine (b.appendInts_spec fields).mono ?_
    intro b₁ hread
    refine ⟨hread, ?_⟩
    intro rest b₂ hread₂
    rw [hread, List.append_assoc] at hread₂
    have hlen : b.readableBytes ≤ b₂.readable.length := by
      rw [hread₂, List.length_append, length_readable]
      omega
    obtain ⟨b₃, h₃, hread₃⟩ := b₂.retrieve_spec hlen
    rw [hread₂, List.drop_left' b.length_readable] at hread₃
    exact ⟨b₃, h₃, b₃.readInts_spec hread₃⟩
  · intro width
    rw [readInt_eq, peekInt_eq]
    split_ifs with hlen
    · rw [← length_readable] at hlen
      obtain ⟨b', hb', -⟩ := b.retrieve_spec hlen
      rw [ok_bind, hb']
      rfl
    · rfl
  · intro field hroom
    obtain ⟨b₁, h₁, hread⟩ := b.prepend_spec field.bytes (by rwa [field.length_bytes])
    rw [prependInt_eq, h₁]
    exact yields_ok ⟨hread, b₁.readInt_spec hread⟩

theorem integers_round_trip_prepended :
    Width.size .int32 ≤ new.prependableBytes ∧
      Yields (new.prependInt (.int32 (-2))) fun b₁ =>
        b₁.readable = (Field.int32 (-2)).bytes ++ new.readable ∧
        Yields (b₁.readInt .int32) fun r => r.1 = -2 ∧ r.2.readable = new.readable :=
  ⟨by decide, (integers_round_trip new).2.2 (.int32 (-2)) (by decide)⟩

end Buffer
end Muduo

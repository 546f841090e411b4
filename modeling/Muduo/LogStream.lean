import Muduo.HttpContext
import Muduo.Library.Memory
import Muduo.Library.StepSystem

/-!
# Log streams

`LogStream` and its `FixedBuffer` of `base/LogStream.h` and `base/LogStream.cc`, on the
bytes of `data_`. A write past its end fails. The operators for floating point numbers
and `Fmt` are left out.
-/
namespace Muduo

namespace LogStream

def kSmallBuffer : ℕ := 4000

def kMaxNumericSize : ℕ := 32

/-- `digits` and `digitsHex` -/
def digits : List UInt8 := text "9876543210123456789"

def digitsHex : List UInt8 := text "0123456789ABCDEF"

/-- `table[i]` -/
def tableAt (table : List UInt8) (i : ℤ) : Checked UInt8 :=
  match table[i.toNat]? with
  | some c => if 0 ≤ i then .ok c else .error .digitsIndex
  | none => .error .digitsIndex

/-- `zero[lsd]`, where `zero` is `digits + 9`. -/
def zero (lsd : ℤ) : Checked UInt8 := tableAt digits (9 + lsd)

/-- `digitsHex[lsd]` -/
def hexDigit (lsd : ℤ) : Checked UInt8 := tableAt digitsHex lsd

section
variable {n : ℕ}

/-- The loop of `convert` and `convertHex`: the digits of `i`, the least significant one
first. `fuel` is more than the number of iterations. -/
def writeDigits (base : ℤ) (digit : ℤ → Checked UInt8) :
    ℕ → Memory UInt8 n → ℕ → ℤ → Checked (Memory UInt8 n × ℕ)
  | 0, m, p, _ => .ok (m, p)
  | fuel + 1, m, p, i => do
    let lsd := i.tmod base
    let i := i.tdiv base
    let c ← digit lsd
    let m ← m.store .fixedBufferOverrun p c
    if i ≠ 0 then writeDigits base digit fuel m (p + 1) i else return (m, p + 1)

/-- `convert(buf, value)` gives the number of characters. -/
def convert (m : Memory UInt8 n) (buf : ℕ) (value : ℤ) : Checked (Memory UInt8 n × ℕ) := do
  let (m, p) ← writeDigits 10 zero (value.natAbs + 1) m buf value
  let (m, p) ←
    if value < 0 then do
      let m ← m.store .fixedBufferOverrun p 45
      pure (m, p + 1)
    else pure (m, p)
  let m ← m.store .fixedBufferOverrun p 0
  return (m.reverse buf p, p - buf)

/-- `convertHex(buf, value)` -/
def convertHex (m : Memory UInt8 n) (buf : ℕ) (value : ℕ) : Checked (Memory UInt8 n × ℕ) := do
  let (m, p) ← writeDigits 16 hexDigit (value + 1) m buf value
  let m ← m.store .fixedBufferOverrun p 0
  return (m.reverse buf p, p - buf)

end

/-- `detail::FixedBuffer<SIZE>` -/
structure FixedBuffer (SIZE : ℕ) where
  data_ : Memory UInt8 SIZE
  cur_ : ℕ

namespace FixedBuffer
variable {SIZE : ℕ} (b : FixedBuffer SIZE)

/-- `FixedBuffer()`; `data_` is not initialized. -/
def new (data_ : Memory UInt8 SIZE) : FixedBuffer SIZE := { data_ := data_, cur_ := 0 }

def avail : ℤ := (SIZE : ℤ) - b.cur_

/-- `append(buf, len)`; `avail()` is converted to a `size_t`. -/
def append (buf : List UInt8) : Checked (FixedBuffer SIZE) :=
  if (b.avail % 2 ^ 64).toNat > buf.length then do
    let data ← b.data_.copy .fixedBufferOverrun b.cur_ buf
    return { data_ := data, cur_ := b.cur_ + buf.length }
  else .ok b

def add (len : ℕ) : FixedBuffer SIZE := { b with cur_ := b.cur_ + len }

/-- `asString()` -/
def asString : List UInt8 := b.data_.cells.take b.cur_

end FixedBuffer

/-- `LogStream::Buffer` -/
abbrev Buffer := FixedBuffer kSmallBuffer

/-- `formatInteger(v)` -/
def formatInteger (buffer_ : Buffer) (v : ℤ) : Checked Buffer :=
  if buffer_.avail ≥ kMaxNumericSize then do
    let (data, len) ← convert buffer_.data_ buffer_.cur_ v
    return { buffer_ with data_ := data }.add len
  else .ok buffer_

/-- `operator<<(const void*)` -/
def formatPointer (buffer_ : Buffer) (v : ℕ) : Checked Buffer :=
  if buffer_.avail ≥ kMaxNumericSize then do
    let buf := buffer_.cur_
    let data ← buffer_.data_.store .fixedBufferOverrun buf 48
    let data ← data.store .fixedBufferOverrun (buf + 1) 120
    let (data, len) ← convertHex data (buf + 2) v
    return { buffer_ with data_ := data }.add (len + 2)
  else .ok buffer_

/-- What is streamed. A `const char*` is the bytes from it on, the NUL included. -/
inductive Item
  | bool (v : Bool)
  | short (v : Int16)
  | unsignedShort (v : UInt16)
  | int (v : Int32)
  | unsignedInt (v : UInt32)
  | long (v : Int64)
  | unsignedLong (v : UInt64)
  | longLong (v : Int64)
  | unsignedLongLong (v : UInt64)
  | pointer (v : UInt64)
  | char (v : UInt8)
  | cstr (v : List UInt8)
  | string (v : List UInt8)
  | stringPiece (v : List UInt8)
  deriving DecidableEq, Repr

/-- `operator<<` -/
def stream (buffer_ : Buffer) : Item → Checked Buffer
  | .bool v => buffer_.append (if v then text "1" else text "0")
  | .short v => formatInteger buffer_ v.toInt32.toInt
  | .unsignedShort v => formatInteger buffer_ v.toUInt32.toNat
  | .int v => formatInteger buffer_ v.toInt
  | .unsignedInt v => formatInteger buffer_ v.toNat
  | .long v => formatInteger buffer_ v.toInt
  | .unsignedLong v => formatInteger buffer_ v.toNat
  | .longLong v => formatInteger buffer_ v.toInt
  | .unsignedLongLong v => formatInteger buffer_ v.toNat
  | .pointer v => formatPointer buffer_ v.toNat
  | .char v => buffer_.append [v]
  | .cstr v => buffer_.append (v.takeWhile (· ≠ 0))
  | .string v => buffer_.append v
  | .stringPiece v => buffer_.append v

/-! ### Numerals -/

/-- The decimal numeral of a number. -/
def decimal (v : ℤ) : List UInt8 := (if v < 0 then text "-" else []) ++ text (toString v.natAbs)

/-- The hexadecimal numeral, with upper-case digits. -/
def hexadecimal (v : ℕ) : List UInt8 :=
  text (String.ofList ((Nat.toDigits 16 v).map Char.toUpper))

/-- A digit as a byte. -/
def byteOf (c : Char) : UInt8 := UInt8.ofNat c.toNat

theorem text_toString (n : ℕ) : text (toString n) = (Nat.toDigits 10 n).map byteOf := by
  unfold text
  rw [Nat.toString_eq_ofList_toDigits, String.toList_ofList]
  rfl

theorem hexadecimal_eq (v : ℕ) :
    hexadecimal v = (Nat.toDigits 16 v).map fun c => byteOf c.toUpper := by
  unfold hexadecimal text
  rw [String.toList_ofList, List.map_map]
  rfl

theorem zero_eq {d : ℕ} (h : d < 10) :
    zero d = .ok (byteOf d.digitChar) ∧ zero (-d) = .ok (byteOf d.digitChar) := by
  interval_cases d
  all_goals exact ⟨by decide, by decide⟩

theorem hexDigit_eq {d : ℕ} (h : d < 16) : hexDigit d = .ok (byteOf d.digitChar.toUpper) := by
  interval_cases d
  all_goals decide

section
variable {n base : ℕ} {digit : ℤ → Checked UInt8} {f : Char → UInt8} {m : Memory UInt8 n} {s : ℤ}

/-- Truncation keeps the sign apart. -/
theorem tdiv_signed (hs : s = 1 ∨ s = -1) (v base : ℕ) :
    (s * v).tdiv base = s * (v / base : ℕ) ∧ (s * v).tmod base = s * (v % base : ℕ) := by
  rcases hs with rfl | rfl
  · rw [one_mul, one_mul, one_mul, Int.tdiv_eq_ediv_of_nonneg (Int.natCast_nonneg v),
      Int.tmod_eq_emod_of_nonneg (Int.natCast_nonneg v)]
    exact ⟨rfl, rfl⟩
  · rw [neg_one_mul, neg_one_mul, neg_one_mul, Int.neg_tdiv, Int.neg_tmod,
      Int.tdiv_eq_ediv_of_nonneg (Int.natCast_nonneg v),
      Int.tmod_eq_emod_of_nonneg (Int.natCast_nonneg v)]
    exact ⟨rfl, rfl⟩

/-- The loop writes the numeral backwards, after the block `w`. -/
theorem writeDigits_eq (hbase : 1 < base) (hs : s = 1 ∨ s = -1)
    (hdigit : ∀ d < base, digit (s * d) = .ok (f d.digitChar)) {fuel v p : ℕ} {w : List UInt8}
    (hfuel : v < fuel)
    (hle : p + (w ++ ((Nat.toDigits base v).map f).reverse).length ≤ n) :
    writeDigits base digit fuel (m.put p w (by rw [List.length_append] at hle; omega))
        (p + w.length) (s * v) =
      .ok (m.put p (w ++ ((Nat.toDigits base v).map f).reverse) hle,
        p + (w ++ ((Nat.toDigits base v).map f).reverse).length) := by
  induction fuel generalizing v w with
  | zero => omega
  | succ fuel ih =>
    obtain ⟨hdiv, hmod⟩ := tdiv_signed hs v base
    have hpos : 0 < (Nat.toDigits base v).length := Nat.length_toDigits_pos
    have hlen := hle
    simp only [List.length_append, List.length_reverse, List.length_map] at hlen
    unfold writeDigits
    dsimp only
    rw [hmod, hdigit _ (Nat.mod_lt v (by omega)), ok_bind, Memory.store_put _ (by omega), ok_bind,
      hdiv]
    rcases Nat.lt_or_ge v base with hlt | hge
    · -- the last digit
      have hone : Nat.toDigits base v = [v.digitChar] := Nat.toDigits_of_lt_base hlt
      rw [Nat.div_eq_of_lt hlt, Nat.mod_eq_of_lt hlt]
      simp only [hone, List.map_singleton, List.reverse_singleton, Nat.cast_zero, mul_zero, ne_eq,
        not_true_eq_false, if_false, List.length_append, List.length_singleton]
      rfl
    · have hmore : Nat.toDigits base v =
          Nat.toDigits base (v / base) ++ [(v % base).digitChar] :=
        Nat.toDigits_of_base_le hbase hge
      have hsplit : w ++ ((Nat.toDigits base v).map f).reverse =
          w ++ [f (v % base).digitChar] ++ ((Nat.toDigits base (v / base)).map f).reverse := by
        rw [hmore, List.map_append, List.reverse_append, List.append_assoc]
        rfl
      have hdivpos : 0 < v / base := Nat.div_pos hge (by omega)
      have hne : s * ((v / base : ℕ) : ℤ) ≠ 0 := by
        rcases hs with rfl | rfl
        · omega
        · omega
      have hdivlt : v / base < v := Nat.div_lt_self (by omega) hbase
      rw [if_pos hne]
      simp only [hsplit] at hle ⊢
      have hend : p + w.length + 1 = p + (w ++ [f (v % base).digitChar]).length := by
        rw [List.length_append, List.length_singleton, Nat.add_assoc]
      rw [hend]
      exact ih (by omega) hle

theorem writeDigits_first (m : Memory UInt8 n) (buf : ℕ) (hbase : 1 < base) (hs : s = 1 ∨ s = -1)
    (hdigit : ∀ d < base, digit (s * d) = .ok (f d.digitChar)) {v : ℕ} {D : List UInt8}
    (hD : D = (Nat.toDigits base v).map f) (hle : buf + D.reverse.length ≤ n) :
    writeDigits base digit (v + 1) m buf (s * v) =
      .ok (m.put buf D.reverse hle, buf + D.reverse.length) := by
  subst hD
  have h := writeDigits_eq (m := m) (w := []) hbase hs hdigit (Nat.lt_succ_self v) hle
  simpa only [Memory.put_nil, List.nil_append, List.length_nil, Nat.add_zero] using h

end

section
variable {n : ℕ} {m : Memory UInt8 n} {buf : ℕ}

theorem decimal_eq (v : ℤ) : decimal v =
    (if v < 0 then text "-" else []) ++ (Nat.toDigits 10 v.natAbs).map byteOf := by
  unfold decimal
  rw [text_toString]

/-- The terminating NUL, and the block before it reversed. -/
theorem terminate_eq {w : List UInt8} (h : buf + (w.reverse ++ [0]).length ≤ n) :
    ((m.put buf w (by simp at h; omega)).store .fixedBufferOverrun (buf + w.length) 0 >>= fun m =>
      (pure (m.reverse buf (buf + w.length), buf + w.length - buf) :
        Checked (Memory UInt8 n × ℕ))) = .ok (m.put buf (w.reverse ++ [0]) h, w.length) := by
  have hlen := h
  simp only [List.length_append, List.length_reverse, List.length_singleton] at hlen
  rw [Memory.store_put _ (by omega), ok_bind, Memory.reverse_put, Nat.add_sub_cancel_left]
  rfl

/-- The numeral and the terminating NUL are written, and the NUL is not counted. -/
theorem convert_eq (v : ℤ) (h : buf + (decimal v ++ [0]).length ≤ n) :
    convert m buf v = .ok (m.put buf (decimal v ++ [0]) h, (decimal v).length) := by
  obtain ⟨s, hs, hv⟩ : ∃ s : ℤ, (s = 1 ∨ s = -1) ∧ v = s * v.natAbs := by
    rcases Int.natAbs_eq v with hv | hv
    · exact ⟨1, .inl rfl, by omega⟩
    · exact ⟨-1, .inr rfl, by omega⟩
  have hdigit : ∀ d : ℕ, d < 10 → zero (s * d) = .ok (byteOf d.digitChar) := by
    intro d hd
    obtain ⟨h₁, h₂⟩ := zero_eq hd
    rcases hs with rfl | rfl
    · rwa [one_mul]
    · rwa [neg_one_mul]
  obtain ⟨D, hD⟩ : ∃ D, D = (Nat.toDigits 10 v.natAbs).map byteOf := ⟨_, rfl⟩
  have hdec := decimal_eq v
  rw [← hD] at hdec
  have hlen : D.length < (decimal v ++ [0]).length := by
    rw [hdec]
    simp only [List.length_append, List.length_singleton]
    omega
  have hdigits := writeDigits_first m buf (by decide : 1 < 10) hs hdigit hD
    (by rw [List.length_reverse]; omega)
  rw [← hv] at hdigits
  unfold convert
  rw [show (10 : ℤ) = ((10 : ℕ) : ℤ) from rfl, hdigits, ok_bind]
  dsimp only
  split_ifs at hdec ⊢ with hneg
  · have hw : decimal v = (D.reverse ++ [45]).reverse := by
      rw [hdec]
      simp [text]
    have hcount : (decimal v).length = (D.reverse ++ [45]).length := by
      rw [hw, List.length_reverse]
    simp only [hw] at h
    rw [Memory.store_put _ (by simp at h ⊢; omega), ok_bind, pure_eq_ok, ok_bind]
    dsimp only
    have hend : buf + D.reverse.length + 1 = buf + (D.reverse ++ [45]).length := by
      rw [List.length_append, List.length_singleton, Nat.add_assoc]
    rw [hend, terminate_eq h, hcount]
    simp only [hw]
  · have hw : decimal v = D.reverse.reverse := by
      rw [hdec, List.reverse_reverse, List.nil_append]
    have hcount : (decimal v).length = D.reverse.length := by rw [hw, List.length_reverse]
    simp only [hw] at h
    rw [pure_eq_ok, ok_bind]
    dsimp only
    rw [terminate_eq h, hcount]
    simp only [hw]

/-- The most negative number, in a buffer just large enough. -/
example : (convert ⟨List.replicate 21 1, rfl⟩ 0 (-2 ^ 63) : Checked (Memory UInt8 21 × ℕ)) =
    .ok (⟨text "-9223372036854775808" ++ [0], rfl⟩, 20) := by
  decide +kernel

theorem convertHex_eq (v : ℕ) (h : buf + (hexadecimal v ++ [0]).length ≤ n) :
    convertHex m buf v = .ok (m.put buf (hexadecimal v ++ [0]) h, (hexadecimal v).length) := by
  have hdigit : ∀ d : ℕ, d < 16 → hexDigit (1 * d) = .ok (byteOf d.digitChar.toUpper) := by
    intro d hd
    rw [one_mul, hexDigit_eq hd]
  obtain ⟨D, hD⟩ : ∃ D, D = hexadecimal v := ⟨_, rfl⟩
  have hlen : D.length < (hexadecimal v ++ [0]).length := by
    rw [hD]
    simp
  have hdigits := writeDigits_first m buf (f := fun c => byteOf c.toUpper)
    (by decide : 1 < 16) (.inl rfl) hdigit (hD.trans (hexadecimal_eq v))
    (by rw [List.length_reverse]; omega)
  rw [one_mul] at hdigits
  have hw : hexadecimal v = D.reverse.reverse := by rw [hD, List.reverse_reverse]
  have hcount : (hexadecimal v).length = D.reverse.length := by rw [hD, List.length_reverse]
  simp only [hw] at h
  unfold convertHex
  rw [show (16 : ℤ) = ((16 : ℕ) : ℤ) from rfl, hdigits, ok_bind]
  dsimp only
  rw [terminate_eq h, hcount]
  simp only [hw]

end

/-- Numerals of numbers of 64 bits have at most 20 characters. -/
theorem length_decimal_le {v : ℤ} (h : -2 ^ 63 ≤ v) (h' : v < 2 ^ 64) :
    (decimal v).length ≤ 20 := by
  rw [decimal_eq, List.length_append, List.length_map]
  split_ifs with hneg
  · have hdigits : (Nat.toDigits 10 v.natAbs).length ≤ 19 := by
      rw [Nat.length_toDigits_le_iff (by decide) (by decide)]
      omega
    have hsign : (text "-").length = 1 := rfl
    omega
  · have hdigits : (Nat.toDigits 10 v.natAbs).length ≤ 20 := by
      rw [Nat.length_toDigits_le_iff (by decide) (by decide)]
      omega
    rw [List.length_nil]
    omega

theorem length_hexadecimal_le {v : ℕ} (h : v < 2 ^ 64) : (hexadecimal v).length ≤ 16 := by
  rw [hexadecimal_eq, List.length_map, Nat.length_toDigits_le_iff (by decide) (by decide)]
  exact h

/-! ### Items -/

namespace Item

/-- The complete text of an item. -/
def rendering : Item → List UInt8
  | .bool v => if v then text "1" else text "0"
  | .short v => decimal v.toInt
  | .unsignedShort v => decimal v.toNat
  | .int v => decimal v.toInt
  | .unsignedInt v => decimal v.toNat
  | .long v => decimal v.toInt
  | .unsignedLong v => decimal v.toNat
  | .longLong v => decimal v.toInt
  | .unsignedLongLong v => decimal v.toNat
  | .pointer v => text "0x" ++ hexadecimal v.toNat
  | .char v => [v]
  | .cstr v => v.takeWhile (· ≠ 0)
  | .string v => v
  | .stringPiece v => v

def isNumeric : Item → Bool
  | .bool _ | .char _ | .cstr _ | .string _ | .stringPiece _ => false
  | _ => true

/-- The item fits behind `length` bytes. -/
def Fits (item : Item) (length : ℕ) : Prop :=
  if item.isNumeric then kMaxNumericSize ≤ kSmallBuffer - length
  else item.rendering.length < kSmallBuffer - length

instance (item : Item) (length : ℕ) : Decidable (item.Fits length) :=
  inferInstanceAs (Decidable (ite _ _ _))

end Item

/-- The items that fit, where `length` bytes have been written before the first one. -/
def kept : ℕ → List Item → List Item
  | _, [] => []
  | length, item :: items =>
    if item.Fits length then item :: kept (length + item.rendering.length) items
    else kept length items

/-- `b'` is `b` with `w` appended, and the cursor is before the end. -/
structure Extends (b b' : Buffer) (w : List UInt8) : Prop where
  cur_ : b'.cur_ = b.cur_ + w.length
  lt : b'.cur_ < kSmallBuffer
  asString : b'.asString = b.asString ++ w

variable {b : Buffer}

theorem avail_eq (h : b.cur_ < kSmallBuffer) : b.avail = (kSmallBuffer - b.cur_ : ℕ) := by
  unfold FixedBuffer.avail
  omega

/-- The test that the operators for numbers make. -/
theorem avail_ge_iff (h : b.cur_ < kSmallBuffer) :
    b.avail ≥ kMaxNumericSize ↔ kMaxNumericSize ≤ kSmallBuffer - b.cur_ := by
  rw [avail_eq h]
  exact Nat.cast_le

theorem append_eq (h : b.cur_ < kSmallBuffer) (buf : List UInt8) :
    (buf.length < kSmallBuffer - b.cur_ → Yields (b.append buf) fun b' => Extends b b' buf) ∧
      (¬buf.length < kSmallBuffer - b.cur_ → b.append buf = .ok b) := by
  have hsize : (b.avail % 2 ^ 64).toNat = kSmallBuffer - b.cur_ := by
    rw [avail_eq h]
    unfold kSmallBuffer
    omega
  unfold FixedBuffer.append
  rw [hsize]
  constructor
  · intro hlt
    have hle : b.cur_ + (buf ++ []).length ≤ kSmallBuffer := by
      rw [List.append_nil]
      omega
    have htake := Memory.take_put (m := b.data_) hle
    simp only [List.append_nil] at hle htake
    rw [if_pos hlt, Memory.copy_eq hle, ok_bind]
    exact yields_ok ⟨rfl, by dsimp only; omega, htake⟩
  · intro hge
    rw [if_neg hge]

/-- A text of less than 32 characters with the NUL behind it has room where 32 bytes
are left. -/
theorem put_eq {w : List UInt8} (h : kMaxNumericSize ≤ kSmallBuffer - b.cur_)
    (hw : w.length < kMaxNumericSize) : ∃ hle : b.cur_ + (w ++ [0]).length ≤ kSmallBuffer,
      Extends b { data_ := b.data_.put b.cur_ (w ++ [0]) hle, cur_ := b.cur_ + w.length } w := by
  unfold kMaxNumericSize at h hw
  have hle : b.cur_ + (w ++ [0]).length ≤ kSmallBuffer := by
    rw [List.length_append, List.length_singleton]
    omega
  exact ⟨hle, rfl, by dsimp only; omega, Memory.take_put hle⟩

theorem formatInteger_eq (h : b.cur_ < kSmallBuffer) {v : ℤ} (hv : -2 ^ 63 ≤ v)
    (hv' : v < 2 ^ 64) :
    (kMaxNumericSize ≤ kSmallBuffer - b.cur_ →
      Yields (formatInteger b v) fun b' => Extends b b' (decimal v)) ∧
    (¬kMaxNumericSize ≤ kSmallBuffer - b.cur_ → formatInteger b v = .ok b) := by
  unfold formatInteger
  constructor
  · intro hle
    obtain ⟨hput, hext⟩ := put_eq (w := decimal v) hle
      ((length_decimal_le hv hv').trans_lt (by decide))
    rw [if_pos ((avail_ge_iff h).mpr hle), convert_eq v hput, ok_bind]
    exact yields_ok hext
  · intro hgt
    rw [if_neg ((avail_ge_iff h).not.mpr hgt)]

theorem formatPointer_eq (h : b.cur_ < kSmallBuffer) {v : ℕ} (hv : v < 2 ^ 64) :
    (kMaxNumericSize ≤ kSmallBuffer - b.cur_ →
      Yields (formatPointer b v) fun b' => Extends b b' (text "0x" ++ hexadecimal v)) ∧
    (¬kMaxNumericSize ≤ kSmallBuffer - b.cur_ → formatPointer b v = .ok b) := by
  have hox : text "0x" = [48] ++ [120] := by decide
  have hlen := length_hexadecimal_le hv
  unfold formatPointer
  constructor
  · intro hle
    obtain ⟨hput, hext⟩ := put_eq (w := text "0x" ++ hexadecimal v) hle (by
      rw [hox]
      unfold kMaxNumericSize
      simp only [List.length_append, List.length_singleton]
      omega)
    have hroom := hput
    rw [hox] at hroom
    simp only [List.length_append, List.length_singleton] at hroom
    rw [if_pos ((avail_ge_iff h).mpr hle)]
    dsimp only
    have hzero : b.data_.store Assertion.fixedBufferOverrun b.cur_ 48 =
        .ok (b.data_.put b.cur_ [48] (by rw [List.length_singleton]; omega)) :=
      Memory.store_eq (by omega)
    have hx : (b.data_.put b.cur_ [48] (by rw [List.length_singleton]; omega)).store
        Assertion.fixedBufferOverrun (b.cur_ + 1) 120 =
          .ok (b.data_.put b.cur_ ([48] ++ [120]) (by simp; omega)) :=
      Memory.store_put _ (by rw [List.length_singleton]; omega)
    have hhex : convertHex (b.data_.put b.cur_ ([48] ++ [120]) (by simp; omega)) (b.cur_ + 2) v =
        .ok (b.data_.put b.cur_ ([48] ++ [120] ++ (hexadecimal v ++ [0])) (by simp; omega),
          (hexadecimal v).length) := by
      rw [convertHex_eq v (by simp; omega)]
      congr 2
      exact Memory.put_put _ _
    rw [hzero, ok_bind, hx, ok_bind, hhex, ok_bind]
    have hcur : (hexadecimal v).length + 2 = (text "0x" ++ hexadecimal v).length := by
      rw [hox, List.length_append, Nat.add_comm]
      rfl
    simp only [← List.append_assoc, ← hox, hcur]
    exact yields_ok hext
  · intro hgt
    rw [if_neg ((avail_ge_iff h).not.mpr hgt)]

/-- An operator appends the text of an item that fits, and does nothing for any other. -/
theorem stream_eq (h : b.cur_ < kSmallBuffer) (item : Item) :
    (item.Fits b.cur_ → Yields (stream b item) fun b' => Extends b b' item.rendering) ∧
      (¬item.Fits b.cur_ → stream b item = .ok b) := by
  cases item with
  | bool v =>
    have happend := append_eq h (if v then text "1" else text "0")
    exact happend
  | short v =>
    have hle := v.le_toInt
    have hlt := v.toInt_lt
    have hformat := formatInteger_eq h (v := v.toInt) (by omega) (by omega)
    unfold stream
    dsimp only
    rw [Int16.toInt_toInt32]
    exact hformat
  | unsignedShort v =>
    have hlt := v.toNat_lt
    have hformat := formatInteger_eq h (v := v.toNat) (by omega) (by omega)
    unfold stream
    dsimp only
    rw [UInt16.toNat_toUInt32]
    exact hformat
  | int v =>
    have hle := v.le_toInt
    have hlt := v.toInt_lt
    exact formatInteger_eq h (by omega) (by omega)
  | unsignedInt v =>
    have hlt := v.toNat_lt
    exact formatInteger_eq h (by omega) (by omega)
  | long v | longLong v =>
    have hlt := v.toInt_lt
    exact formatInteger_eq h v.le_toInt (by omega)
  | unsignedLong v | unsignedLongLong v =>
    have hlt := v.toNat_lt
    exact formatInteger_eq h (by omega) (by omega)
  | pointer v => exact formatPointer_eq h v.toNat_lt
  | char v => exact append_eq h [v]
  | cstr v => exact append_eq h (v.takeWhile (· ≠ 0))
  | string v | stringPiece v => exact append_eq h v

/-! ### Runs -/

def system : StepSystem.System Buffer Item Assertion where
  init b := ∃ data_, b = .new data_
  enabled _ _ := True
  step := stream

theorem exec_eq (h : b.cur_ < kSmallBuffer) (items : List Item) :
    Yields (StepSystem.exec system b items) fun b' =>
      b'.cur_ < kSmallBuffer ∧
        b'.asString = b.asString ++ (kept b.cur_ items).flatMap Item.rendering := by
  induction items generalizing b with
  | nil => exact yields_ok ⟨h, by simp [kept]⟩
  | cons item items ih =>
    obtain ⟨hfits, hnot⟩ := stream_eq h item
    unfold StepSystem.exec kept
    rw [show system.step = stream from rfl]
    split_ifs with hfit
    · obtain ⟨b', hb', hext⟩ := hfits hfit
      rw [hb']
      dsimp only
      refine (ih hext.lt).mono ?_
      rintro b'' ⟨hlt, hstring⟩
      refine ⟨hlt, ?_⟩
      rw [hstring, hext.asString, hext.cur_, List.flatMap_cons, List.append_assoc]
    · rw [hnot hfit]
      exact ih h

/-- From an empty buffer, no write goes past the end, the cursor stays before it, the
content is that of the items that fit, and an item that does not fit changes nothing. -/
theorem stream_complete (data_ : Memory UInt8 kSmallBuffer) (items : List Item) :
    Yields (StepSystem.exec system (.new data_) items) fun b =>
      b.cur_ < kSmallBuffer ∧ b.asString = (kept 0 items).flatMap Item.rendering ∧
        ∀ item, ¬item.Fits b.cur_ → stream b item = .ok b := by
  have hlt : (FixedBuffer.new data_).cur_ < kSmallBuffer := by
    show 0 < kSmallBuffer
    decide
  refine (exec_eq hlt items).mono ?_
  rintro b ⟨hb, hstring⟩
  exact ⟨hb, hstring, fun item => (stream_eq hb item).2⟩

end LogStream
end Muduo

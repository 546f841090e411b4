import Mathlib.Algebra.Order.Ring.Nat
import Mathlib.Tactic.Common

/-!
# Big-endian numbers

The `n` bytes of a number, the most significant one first, and the number that bytes are.
A signed number has the bytes of its two's complement.
-/
namespace BigEndian

def value (w : List UInt8) : ℕ := w.foldl (fun n b => n * 256 + b.toNat) 0

def bytes (n v : ℕ) : List UInt8 := (List.range n).reverse.map fun i => .ofNat (v / 256 ^ i)

@[simp] theorem length_bytes (n v : ℕ) : (bytes n v).length = n := by simp [bytes]

theorem value_concat (w : List UInt8) (b : UInt8) : value (w ++ [b]) = value w * 256 + b.toNat := by
  unfold value
  rw [List.foldl_append, List.foldl_cons, List.foldl_nil]

theorem bytes_succ (n v : ℕ) : bytes (n + 1) v = bytes n (v / 256) ++ [.ofNat v] := by
  unfold bytes
  rw [List.range_succ_eq_map, List.reverse_cons, List.map_append, ← List.map_reverse, List.map_map]
  congr 1
  · apply List.map_congr_left
    intro i _
    rw [Function.comp_apply, Nat.succ_eq_add_one, pow_succ', Nat.div_div_eq_div_mul]
  · simp

theorem value_bytes (n v : ℕ) : value (bytes n v) = v % 256 ^ n := by
  induction n generalizing v with
  | zero => rw [pow_zero, Nat.mod_one]; rfl
  | succ n ih =>
    rw [bytes_succ, value_concat, ih, pow_succ', Nat.mod_mul, UInt8.toNat_ofNat']
    omega

/-- The bytes of a signed number. -/
def signedBytes (n : ℕ) (v : ℤ) : List UInt8 := bytes n (v % 256 ^ n).toNat

@[simp] theorem length_signedBytes (n : ℕ) (v : ℤ) : (signedBytes n v).length = n :=
  length_bytes ..

theorem signedBytes_toInt {n : ℕ} (x : BitVec (8 * n)) :
    signedBytes n x.toInt = bytes n x.toNat := by
  have hcast : ((2 ^ (8 * n) : ℕ) : ℤ) = 256 ^ n := by push_cast; rw [pow_mul]; rfl
  have hmod : x.toInt % 256 ^ n = x.toNat := by
    rw [← hcast, BitVec.toInt_eq_toNat_bmod, Int.bmod_emod]
    exact Int.emod_eq_of_lt (Int.natCast_nonneg _) (Int.ofNat_lt.mpr x.isLt)
  unfold signedBytes
  rw [hmod, Int.toNat_natCast]

/-- A number in the range of `n` bytes is read back. -/
theorem toInt_signedBytes {n : ℕ} {v : ℤ} (h : -2 ^ (8 * n - 1) ≤ v) (h' : v < 2 ^ (8 * n - 1))
    (hn : 0 < n) : (BitVec.ofNat (8 * n) (value (signedBytes n v))).toInt = v := by
  have hpow : (256 : ℤ) ^ n = 2 ^ (8 * n) := by rw [pow_mul]; rfl
  have hhalf : (2 : ℤ) ^ (8 * n) = 2 * 2 ^ (8 * n - 1) := by
    rw [← pow_succ']
    congr 1
    omega
  have hpos : (0 : ℤ) < 2 ^ (8 * n - 1) := Int.pow_pos (by decide)
  have hnonneg : 0 ≤ v % 2 ^ (8 * n) := Int.emod_nonneg v (by omega)
  have hlt : v % 2 ^ (8 * n) < 2 ^ (8 * n) := Int.emod_lt_of_pos v (by omega)
  have hcast : ((2 ^ (8 * n) : ℕ) : ℤ) = 2 ^ (8 * n) := by push_cast; rfl
  have hbytes : (256 : ℕ) ^ n = 2 ^ (8 * n) := by rw [pow_mul]; rfl
  unfold signedBytes
  rw [value_bytes, hpow, hbytes, Nat.mod_eq_of_lt (by omega), BitVec.toInt_ofNat',
    Int.toNat_of_nonneg hnonneg, ← hcast, Int.emod_bmod, Int.bmod_eq_of_le_mul_two]
  · omega
  · omega

end BigEndian

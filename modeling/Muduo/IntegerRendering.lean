import Muduo.Library.Numeral
import Muduo.LogStream

/-!
# What `convert` and `convertHex` write

The numerals of the library, on bytes: the texts that `convert` and `convertHex` write are the
only ones without a zero in front that read back as the number. The remainders and the
quotients of the loop lie between zero and the number, so that nothing of the other sign, and
nothing outside the type, is ever computed.
-/
namespace Muduo

namespace LogStream

/-- The value of a digit, upper case; 16 for a byte that is none. -/
def digitValue (c : UInt8) : ℕ :=
  if 48 ≤ c.toNat ∧ c.toNat ≤ 57 then c.toNat - 48
  else if 65 ≤ c.toNat ∧ c.toNat ≤ 70 then c.toNat - 55
  else 16

theorem digitValue_injective {a b : UInt8} (ha : digitValue a < 16)
    (h : digitValue a = digitValue b) : a = b := by
  unfold digitValue at ha h
  apply UInt8.toNat_inj.mp
  split_ifs at ha h
  all_goals omega

/-- `w` is the decimal numeral of `v`: a sign before the digits of a negative number. -/
def IsDecimal (w : List UInt8) (v : ℤ) : Prop :=
  if v < 0 then ∃ digits, w = 45 :: digits ∧ Numeral.IsNumeral 10 digitValue digits v.natAbs
  else Numeral.IsNumeral 10 digitValue w v.natAbs

/-- `w` is the upper-case hexadecimal numeral of `v`. -/
def IsHexadecimal (w : List UInt8) (v : ℕ) : Prop := Numeral.IsNumeral 16 digitValue w v

theorem isDecimal_iff {w : List UInt8} {v : ℤ} : IsDecimal w v ↔ w = decimal v := by
  have hval : ∀ d < 10, digitValue (byteOf d.digitChar) = d := by
    intro d hd
    interval_cases d
    all_goals rfl
  have hdigits := Numeral.isNumeral_toDigits (by decide : 1 < 10) hval v.natAbs
  have hunique : ∀ digits, Numeral.IsNumeral 10 digitValue digits v.natAbs →
      digits = (Nat.toDigits 10 v.natAbs).map byteOf := by
    intro digits h
    exact h.unique (by decide) (fun a b ha => digitValue_injective (by omega)) hdigits
  rw [decimal_eq]
  unfold IsDecimal
  split_ifs with hneg
  · have hsign : text "-" = [45] := rfl
    rw [hsign]
    constructor
    · rintro ⟨digits, rfl, h⟩
      rw [hunique digits h]
      rfl
    · rintro rfl
      exact ⟨_, rfl, hdigits⟩
  · rw [List.nil_append]
    constructor
    · exact hunique w
    · rintro rfl
      exact hdigits

theorem isHexadecimal_iff {w : List UInt8} {v : ℕ} :
    IsHexadecimal w v ↔ w = hexadecimal v := by
  have hval : ∀ d < 16, digitValue (byteOf d.digitChar.toUpper) = d := by
    intro d hd
    interval_cases d
    all_goals rfl
  have hdigits := Numeral.isNumeral_toDigits (f := fun c => byteOf c.toUpper)
    (by decide : 1 < 16) hval v
  rw [hexadecimal_eq]
  unfold IsHexadecimal
  constructor
  · intro h
    exact h.unique (by decide) (fun a b ha => digitValue_injective ha) hdigits
  · rintro rfl
    exact hdigits

/-- A signed or unsigned integer type. -/
structure IntegerType where
  signed : Bool
  bits : ℕ

def IntegerType.InRange (T : IntegerType) (v : ℤ) : Prop :=
  if T.signed then -2 ^ (T.bits - 1) ≤ v ∧ v < 2 ^ (T.bits - 1) else 0 ≤ v ∧ v < 2 ^ T.bits

/-- What each iteration of the loop of `convert` computes: `i % base`, and `i / base`, the
next `i`. -/
def iterations (base : ℤ) : ℕ → ℤ → List (ℤ × ℤ)
  | 0, _ => []
  | fuel + 1, i =>
    (i.tmod base, i.tdiv base) ::
      if i.tdiv base ≠ 0 then iterations base fuel (i.tdiv base) else []

/-- One digit. -/
def writeDigit {n : ℕ} (digit : ℤ → Checked UInt8) (mp : Memory UInt8 n × ℕ) (x : ℤ × ℤ) :
    Checked (Memory UInt8 n × ℕ) := do
  let c ← digit x.1
  let m ← mp.1.store .fixedBufferOverrun mp.2 c
  return (m, mp.2 + 1)

/-- The loop computes nothing else. -/
theorem writeDigits_iterations {n : ℕ} (base : ℤ) (digit : ℤ → Checked UInt8) (fuel : ℕ)
    (m : Memory UInt8 n) (p : ℕ) (i : ℤ) :
    writeDigits base digit fuel m p i =
      (iterations base fuel i).foldlM (writeDigit digit) (m, p) := by
  induction fuel generalizing m p i with
  | zero => rfl
  | succ fuel ih =>
    have hdigit : writeDigit digit (m, p) (i.tmod base, i.tdiv base) = (do
        let c ← digit (i.tmod base)
        let m ← m.store .fixedBufferOverrun p c
        return (m, p + 1)) := rfl
    unfold writeDigits iterations
    rw [List.foldlM_cons, hdigit]
    dsimp only
    cases digit (i.tmod base) with
    | error e => rfl
    | ok c =>
      rw [ok_bind, ok_bind]
      cases m.store Assertion.fixedBufferOverrun p c with
      | error e => rfl
      | ok m' =>
        rw [ok_bind, ok_bind, pure_eq_ok, ok_bind]
        split_ifs with hmore
        · exact ih m' (p + 1) (i.tdiv base)
        · rfl

/-- `x` lies between zero and `v`. -/
def Between (x v : ℤ) : Prop := 0 ≤ x ∧ x ≤ v ∨ v ≤ x ∧ x ≤ 0

theorem Between.trans {x y z : ℤ} (h : Between x y) (h' : Between y z) : Between x z := by
  unfold Between at *
  omega

theorem Between.inRange {T : IntegerType} {x v : ℤ} (h : Between x v) (hv : T.InRange v) :
    T.InRange x := by
  have hpos : (0 : ℤ) < 2 ^ (T.bits - 1) := by positivity
  have hpos' : (0 : ℤ) < 2 ^ T.bits := by positivity
  unfold IntegerType.InRange at *
  unfold Between at h
  split_ifs at hv ⊢
  all_goals omega

theorem between_tdiv_tmod (i : ℤ) : Between (i.tmod 10) i ∧ Between (i.tdiv 10) i := by
  have hmod : i.natAbs % 10 ≤ i.natAbs := Nat.mod_le ..
  have hdiv : i.natAbs / 10 ≤ i.natAbs := Nat.div_le_self ..
  unfold Between
  rcases Int.natAbs_eq i with hi | hi
  · obtain ⟨h₁, h₂⟩ := tdiv_signed (.inl rfl) i.natAbs 10
    rw [one_mul, ← hi, one_mul] at h₁ h₂
    rw [show (10 : ℤ) = (10 : ℕ) from rfl, h₁, h₂]
    omega
  · obtain ⟨h₁, h₂⟩ := tdiv_signed (.inr rfl) i.natAbs 10
    rw [neg_one_mul, ← hi, neg_one_mul] at h₁ h₂
    rw [show (10 : ℤ) = (10 : ℕ) from rfl, h₁, h₂]
    omega

/-- The remainders and the quotients lie between zero and the number. -/
theorem between_iterations {fuel : ℕ} {i : ℤ} {x : ℤ × ℤ} (hx : x ∈ iterations 10 fuel i) :
    Between x.1 i ∧ Between x.2 i := by
  induction fuel generalizing i with
  | zero => cases hx
  | succ fuel ih =>
    obtain ⟨hmod, hdiv⟩ := between_tdiv_tmod i
    unfold iterations at hx
    rcases List.mem_cons.mp hx with rfl | hx
    · exact ⟨hmod, hdiv⟩
    · split_ifs at hx with hmore
      · obtain ⟨h₁, h₂⟩ := ih hx
        exact ⟨h₁.trans hdiv, h₂.trans hdiv⟩
      · cases hx

/-- A type of up to 64 bits holds no number outside those of `length_decimal_le`. -/
theorem IntegerType.InRange.bounds {T : IntegerType} {v : ℤ} (h : T.InRange v)
    (hbits : T.bits ≤ 64) : -2 ^ 63 ≤ v ∧ v < 2 ^ 64 := by
  have hhalf : (2 : ℤ) ^ (T.bits - 1) ≤ 2 ^ 63 := pow_le_pow_right₀ (by decide) (by omega)
  have hfull : (2 : ℤ) ^ T.bits ≤ 2 ^ 64 := pow_le_pow_right₀ (by decide) hbits
  unfold InRange at h
  split_ifs at h
  all_goals omega

variable {n : ℕ}

/-- Where there is room for 20 characters and the NUL, `convert` writes the decimal numeral,
of no more than that, and its loop computes only values of the type that are not of the
other sign. `convertHex` writes the hexadecimal one. The tables are read inside. -/
theorem convert_exact (m : Memory UInt8 n) (buf : ℕ) :
    (∀ (T : IntegerType) (value : ℤ), T.bits ≤ 64 → T.InRange value → buf + 21 ≤ n →
      ∃ w, (∀ w', IsDecimal w' value ↔ w' = w) ∧ w.length ≤ 20 ∧
        (∃ h, convert m buf value = .ok (m.put buf (w ++ [0]) h, w.length)) ∧
        ∀ x ∈ iterations 10 (value.natAbs + 1) value, T.InRange x.1 ∧ T.InRange x.2 ∧
          (0 ≤ value → 0 ≤ x.1 ∧ 0 ≤ x.2) ∧ (value ≤ 0 → x.1 ≤ 0 ∧ x.2 ≤ 0)) ∧
    ∀ value : UInt64, buf + 17 ≤ n →
      ∃ w, (∀ w', IsHexadecimal w' value.toNat ↔ w' = w) ∧
        ∃ h, convertHex m buf value.toNat = .ok (m.put buf (w ++ [0]) h, w.length) := by
  constructor
  · intro T value hbits hrange hroom
    obtain ⟨hlow, hhigh⟩ := hrange.bounds hbits
    have hlen := length_decimal_le hlow hhigh
    have hfit : buf + (decimal value ++ [0]).length ≤ n := by
      rw [List.length_append, List.length_singleton]
      omega
    refine ⟨decimal value, fun w' => isDecimal_iff, hlen, ⟨hfit, convert_eq value hfit⟩, ?_⟩
    intro x hx
    obtain ⟨hmod, hdiv⟩ := between_iterations hx
    refine ⟨hmod.inRange hrange, hdiv.inRange hrange, ?_⟩
    unfold Between at hmod hdiv
    omega
  · intro value hroom
    have hlen := length_hexadecimal_le value.toNat_lt
    have hfit : buf + (hexadecimal value.toNat ++ [0]).length ≤ n := by
      rw [List.length_append, List.length_singleton]
      omega
    exact ⟨hexadecimal value.toNat, fun w' => isHexadecimal_iff, hfit, convertHex_eq _ hfit⟩

/-- Twenty one cells. -/
def zeroes : Memory UInt8 21 := ⟨List.replicate 21 0, rfl⟩

theorem convert_exact_least :
    (∃ w, (∀ w', IsDecimal w' (-2 ^ 63) ↔ w' = w) ∧ w.length ≤ 20 ∧
      (∃ h, convert zeroes 0 (-2 ^ 63) = .ok (zeroes.put 0 (w ++ [0]) h, w.length)) ∧
      ∀ x ∈ iterations 10 ((-2 ^ 63 : ℤ).natAbs + 1) (-2 ^ 63),
        IntegerType.InRange ⟨true, 64⟩ x.1 ∧ IntegerType.InRange ⟨true, 64⟩ x.2 ∧
          (0 ≤ (-2 ^ 63 : ℤ) → 0 ≤ x.1 ∧ 0 ≤ x.2) ∧
          ((-2 ^ 63 : ℤ) ≤ 0 → x.1 ≤ 0 ∧ x.2 ≤ 0)) ∧
    ∃ w, (∀ w', IsHexadecimal w' (0xDEADBEEF : UInt64).toNat ↔ w' = w) ∧
      ∃ h, convertHex zeroes 0 (0xDEADBEEF : UInt64).toNat =
        .ok (zeroes.put 0 (w ++ [0]) h, w.length) :=
  ⟨(convert_exact zeroes 0).1 ⟨true, 64⟩ (-2 ^ 63) (by decide)
      (by unfold IntegerType.InRange; decide) (by decide),
    (convert_exact zeroes 0).2 0xDEADBEEF (by decide)⟩

end LogStream
end Muduo

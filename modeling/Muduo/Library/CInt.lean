import Mathlib.Tactic

/-!
# Arithmetic of C's `int`

A function that is written over the operators can be read with two meanings of
them: on integers of any size, and on 32 bits, where a value out of range makes
every later value undefined. Division truncates in both. Where the second reading
is defined, it is the first one.
-/
namespace CInt

/-- An `int` of any size. -/
structure Exact where
  val : ℤ
  deriving DecidableEq, Repr

namespace Exact

instance : Add Exact := ⟨fun a b => ⟨a.val + b.val⟩⟩
instance : Sub Exact := ⟨fun a b => ⟨a.val - b.val⟩⟩
instance : Mul Exact := ⟨fun a b => ⟨a.val * b.val⟩⟩
instance : Div Exact := ⟨fun a b => ⟨a.val.tdiv b.val⟩⟩
instance : Mod Exact := ⟨fun a b => ⟨a.val.tmod b.val⟩⟩
instance (n : ℕ) : OfNat Exact n := ⟨⟨n⟩⟩

@[simp] theorem val_add (a b : Exact) : (a + b).val = a.val + b.val := rfl
@[simp] theorem val_sub (a b : Exact) : (a - b).val = a.val - b.val := rfl
@[simp] theorem val_mul (a b : Exact) : (a * b).val = a.val * b.val := rfl
@[simp] theorem val_div (a b : Exact) : (a / b).val = a.val.tdiv b.val := rfl
@[simp] theorem val_mod (a b : Exact) : (a % b).val = a.val.tmod b.val := rfl
@[simp] theorem val_ofNat (n : ℕ) : (no_index (OfNat.ofNat n : Exact)).val = n := rfl

end Exact

def InRange (x : ℤ) : Prop := -2 ^ 31 ≤ x ∧ x < 2 ^ 31

instance (x : ℤ) : Decidable (InRange x) := inferInstanceAs (Decidable (_ ∧ _))

/-- An `int` of 32 bits, or no value after an overflow. -/
structure Word where
  val? : Option ℤ
  deriving DecidableEq, Repr

namespace Word

def of (x : ℤ) : Word := ⟨some x⟩

def fit (x : ℤ) : Word := ⟨if InRange x then some x else none⟩

def lift (f : ℤ → ℤ → Word) (a b : Word) : Word :=
  ⟨a.val?.bind fun x => b.val?.bind fun y => (f x y).val?⟩

instance : Add Word := ⟨lift fun x y => fit (x + y)⟩
instance : Sub Word := ⟨lift fun x y => fit (x - y)⟩
instance : Mul Word := ⟨lift fun x y => fit (x * y)⟩
instance : Div Word := ⟨lift fun x y => if y = 0 then ⟨none⟩ else fit (x.tdiv y)⟩
instance : Mod Word := ⟨lift fun x y => if y = 0 then ⟨none⟩ else fit (x.tmod y)⟩
instance (n : ℕ) : OfNat Word n := ⟨fit n⟩

theorem fit_of_inRange {x : ℤ} (h : InRange x) : fit x = of x := by
  rw [fit, if_pos h, of]

variable {x y : ℤ}

theorem of_add (h : InRange (x + y)) : of x + of y = of (x + y) := fit_of_inRange h

theorem of_sub (h : InRange (x - y)) : of x - of y = of (x - y) := fit_of_inRange h

theorem of_mul (h : InRange (x * y)) : of x * of y = of (x * y) := fit_of_inRange h

theorem of_div (hy : y ≠ 0) (h : InRange (x.tdiv y)) : of x / of y = of (x.tdiv y) := by
  change (if y = 0 then (⟨none⟩ : Word) else fit (x.tdiv y)) = of (x.tdiv y)
  rw [if_neg hy, fit_of_inRange h]

theorem of_mod (hy : y ≠ 0) (h : InRange (x.tmod y)) : of x % of y = of (x.tmod y) := by
  change (if y = 0 then (⟨none⟩ : Word) else fit (x.tmod y)) = of (x.tmod y)
  rw [if_neg hy, fit_of_inRange h]

theorem ofNat_eq {n : ℕ} (h : n < 2 ^ 31) : (no_index (OfNat.ofNat n : Word)) = of n :=
  fit_of_inRange ⟨by omega, by omega⟩

/-- A quotient of numbers that are not negative. -/
theorem of_ediv (hx : 0 ≤ x) (hy : 0 < y) (h : x < 2 ^ 31) : of x / of y = of (x / y) := by
  have hle : x / y ≤ x := Int.ediv_le_self y hx
  have hpos : 0 ≤ x / y := Int.ediv_nonneg hx hy.le
  rw [of_div hy.ne', Int.tdiv_eq_ediv_of_nonneg hx]
  rw [Int.tdiv_eq_ediv_of_nonneg hx]
  exact ⟨by omega, by omega⟩

end Word
end CInt

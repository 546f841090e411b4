import Mathlib.Data.List.Basic
import Mathlib.Order.Nat
import Mathlib.Tactic.Common

/-!
# Binary search for a lower bound

`lowerBound p l` is the position that `std::lower_bound` finds with the comparison `p`
of an element to the value that is looked for. On a list whose elements with `p` come
first, it is the number of these elements; on any list it is a position of the list
or its end.
-/
namespace BinarySearch

variable {α : Type*} (p : α → Bool) (l : List α)

/-- The halving loop: `len` positions from `first` on are left. -/
def loop : ℕ → ℕ → ℕ → ℕ
  | 0, first, _ => first
  | fuel + 1, first, len =>
    if len = 0 then first
    else
      let half := len / 2
      let middle := first + half
      if l[middle]?.any p then loop fuel (middle + 1) (len - half - 1)
      else loop fuel first half

def lowerBound : ℕ := loop p l l.length 0 l.length

variable {p l}

/-- The loop closes in on `k` when `k` separates the elements. -/
theorem loop_eq {k : ℕ} (hk : ∀ i (h : i < l.length), p l[i] = true ↔ i < k) {fuel first len : ℕ}
    (hfuel : len ≤ fuel) (hl : first + len ≤ l.length) (h₁ : first ≤ k) (h₂ : k ≤ first + len) :
    loop p l fuel first len = k := by
  induction fuel generalizing first len with
  | zero =>
    unfold loop
    omega
  | succ fuel ih =>
    unfold loop
    dsimp only
    split_ifs with hz hp
    · omega
    · have hlt : first + len / 2 < l.length := by omega
      rw [List.getElem?_eq_getElem hlt, Option.any_some, hk _ hlt] at hp
      exact ih (by omega) (by omega) (by omega) (by omega)
    · have hlt : first + len / 2 < l.length := by omega
      rw [List.getElem?_eq_getElem hlt, Option.any_some, hk _ hlt] at hp
      exact ih (by omega) (by omega) h₁ (by omega)

theorem lowerBound_eq {k : ℕ} (hle : k ≤ l.length)
    (hk : ∀ i (h : i < l.length), p l[i] = true ↔ i < k) : lowerBound p l = k :=
  loop_eq hk le_rfl (by omega) (Nat.zero_le k) (by omega)

theorem loop_le {fuel first len : ℕ} (h : first + len ≤ l.length) :
    loop p l fuel first len ≤ l.length := by
  induction fuel generalizing first len with
  | zero =>
    unfold loop
    omega
  | succ fuel ih =>
    unfold loop
    dsimp only
    split_ifs with hz hp
    · omega
    · exact ih (by omega)
    · exact ih (by omega)

theorem lowerBound_le : lowerBound p l ≤ l.length := loop_le (by omega)

theorem le_loop {fuel first len : ℕ} : first ≤ loop p l fuel first len := by
  induction fuel generalizing first len with
  | zero => exact le_rfl
  | succ fuel ih =>
    unfold loop
    dsimp only
    split_ifs
    · exact le_rfl
    · exact (Nat.le_add_right first (len / 2 + 1)).trans ih
    · exact ih

/-- The first position is found only if its element has been looked at. -/
theorem loop_eq_zero {fuel len : ℕ} (hfuel : len ≤ fuel) (hpos : 0 < len)
    (h : loop p l fuel 0 len = 0) : l[0]?.any p = false := by
  induction fuel generalizing len with
  | zero => omega
  | succ fuel ih =>
    unfold loop at h
    dsimp only at h
    split_ifs at h with hz hp
    · omega
    · have hlow : 0 + len / 2 + 1 ≤ loop p l fuel (0 + len / 2 + 1) (len - len / 2 - 1) := le_loop
      omega
    · by_cases hhalf : len / 2 = 0
      · simpa [hhalf] using hp
      · exact ih (by omega) (by omega) h

theorem of_lowerBound_eq_zero (hne : l ≠ []) (h : lowerBound p l = 0) : l[0]?.any p = false :=
  loop_eq_zero le_rfl (List.length_pos_of_ne_nil hne) h

theorem loop_map {β : Type*} (f : β → α) (l : List β) {fuel first len : ℕ} :
    loop p (l.map f) fuel first len = loop (p ∘ f) l fuel first len := by
  induction fuel generalizing first len with
  | zero => rfl
  | succ fuel ih =>
    unfold loop
    dsimp only
    rw [List.getElem?_map, Option.any_map, ih, ih]
    rfl

theorem lowerBound_map {β : Type*} (f : β → α) (l : List β) :
    lowerBound p (l.map f) = lowerBound (p ∘ f) l := by
  unfold lowerBound
  rw [List.length_map]
  exact loop_map f l

end BinarySearch

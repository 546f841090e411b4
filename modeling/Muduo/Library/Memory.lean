import Mathlib.Data.List.Basic
import Mathlib.Tactic.Common

/-!
# Arrays with checked writes

A fixed number of cells. Writes past the end fail with an error; `put` is a block that
has been written, and the writes are reduced to it.
-/

structure Memory (α : Type*) (n : ℕ) where
  cells : List α
  length_eq : cells.length = n
  deriving DecidableEq

namespace Memory

variable {α : Type*} {n : ℕ} {φ : Type*} {m : Memory α n} {e : φ} {p : ℕ} {w w' : List α} {c : α}

@[ext] theorem ext {m m' : Memory α n} (h : m.cells = m'.cells) : m = m' := by
  obtain ⟨cells, hlen⟩ := m
  obtain ⟨cells', hlen'⟩ := m'
  dsimp only at h
  subst h
  rfl

/-- The block `w` at `p`. -/
def put (m : Memory α n) (p : ℕ) (w : List α) (h : p + w.length ≤ n) : Memory α n where
  cells := m.cells.take p ++ w ++ m.cells.drop (p + w.length)
  length_eq := by
    have := m.length_eq
    simp only [List.length_append, List.length_take, List.length_drop]
    omega

/-- `*p = c` -/
def store (e : φ) (m : Memory α n) (p : ℕ) (c : α) : Except φ (Memory α n) :=
  if p < n then .ok ⟨m.cells.set p c, by rw [List.length_set, m.length_eq]⟩ else .error e

/-- `memcpy(p, w, len)` -/
def copy (e : φ) (m : Memory α n) (p : ℕ) (w : List α) : Except φ (Memory α n) :=
  if h : p + w.length ≤ n then .ok (m.put p w h) else .error e

/-- `std::reverse(first, last)` -/
def reverse (m : Memory α n) (first last : ℕ) : Memory α n where
  cells := m.cells.take first ++ ((m.cells.drop first).take (last - first)).reverse ++
    (m.cells.drop first).drop (last - first)
  length_eq := by
    have := m.length_eq
    simp only [List.length_append, List.length_take, List.length_drop, List.length_reverse]
    omega

theorem put_nil (h : p + 0 ≤ n) : m.put p [] h = m := by
  ext1
  simp [put]

/-- Two blocks, one after the other, are one. -/
theorem put_put (h : p + w.length ≤ n) (h' : p + w.length + w'.length ≤ n) :
    (m.put p w h).put (p + w.length) w' h' =
      m.put p (w ++ w') (by rw [List.length_append]; omega) := by
  have hm := m.length_eq
  have htake : (m.cells.take p).length = p := by
    rw [List.length_take]
    omega
  have hblock : (m.cells.take p ++ w).length = p + w.length := by
    rw [List.length_append, htake]
  ext1
  unfold put
  dsimp only
  rw [List.take_left' hblock, ← List.drop_drop, List.drop_left' hblock, List.drop_drop,
    List.append_assoc, List.append_assoc, List.append_assoc, List.length_append,
    ← List.append_assoc w, Nat.add_assoc]

theorem store_eq (h : p < n) : store e m p c = .ok (m.put p [c] h) := by
  have hm := m.length_eq
  unfold store
  rw [if_pos h]
  congr 1
  ext1
  unfold put
  dsimp only
  rw [List.set_eq_take_append_cons_drop, if_pos (by omega), List.append_assoc]
  rfl

/-- A block that grows by a store. -/
theorem store_put (h : p + w.length ≤ n) (h' : p + w.length < n) :
    store e (m.put p w h) (p + w.length) c =
      .ok (m.put p (w ++ [c]) (by rw [List.length_append]; exact h')) := by
  rw [store_eq h', put_put h]

theorem copy_eq (h : p + w.length ≤ n) : copy e m p w = .ok (m.put p w h) := dif_pos h

/-- The first part of a block reversed. -/
theorem reverse_put (h : p + (w ++ w').length ≤ n) :
    (m.put p (w ++ w') h).reverse p (p + w.length) =
      m.put p (w.reverse ++ w') (by simpa using h) := by
  have hm := m.length_eq
  have hlen : (m.cells.take p).length = p := by
    rw [List.length_take]
    rw [List.length_append] at h
    omega
  ext1
  unfold put reverse
  dsimp only
  simp only [List.append_assoc, List.length_append, List.length_reverse]
  rw [List.take_left' hlen, List.drop_left' hlen, Nat.add_sub_cancel_left, List.take_left,
    List.drop_left]

/-- What is before the end of a block. -/
theorem take_put (h : p + (w ++ w').length ≤ n) :
    (m.put p (w ++ w') h).cells.take (p + w.length) = m.cells.take p ++ w := by
  have hm := m.length_eq
  have hlen : (m.cells.take p ++ w).length = p + w.length := by
    rw [List.length_append, List.length_take]
    rw [List.length_append] at h
    omega
  unfold put
  dsimp only
  rw [← List.append_assoc, List.append_assoc, List.take_left' hlen]

end Memory

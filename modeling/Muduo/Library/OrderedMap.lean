import Mathlib.Order.Basic
import Mathlib.Tactic.Common

/-!
# Ordered maps

A map that is kept as the list of its entries in the order of their keys, as a balanced tree
presents it to an iterator.
-/

/-- The entries are in the strict order of their keys. -/
structure OrderedMap (κ α : Type*) [LT κ] where
  entries : List (κ × α)
  sorted : entries.Pairwise fun a b => a.1 < b.1

namespace OrderedMap
variable {κ α : Type*} [LT κ] [DecidableEq κ] {f : Option α → α} {k key : κ} {l : List (κ × α)}
  {m : OrderedMap κ α}

def empty : OrderedMap κ α := ⟨[], .nil⟩

def find (m : OrderedMap κ α) (key : κ) : Option α :=
  (m.entries.find? fun e => e.1 = key).map Prod.snd

@[simp] theorem find_empty : (empty : OrderedMap κ α).find key = none := rfl

variable [DecidableLT κ]

/-- The value at `key` becomes `f` of the one that is there. -/
def updateEntries (key : κ) (f : Option α → α) : List (κ × α) → List (κ × α)
  | [] => [(key, f none)]
  | (k, v) :: l =>
    if key < k then (key, f none) :: (k, v) :: l
    else if key = k then (key, f (some v)) :: l
    else (k, v) :: updateEntries key f l

theorem mem_updateEntries {e : κ × α} (h : e ∈ updateEntries key f l) : e.1 = key ∨ e ∈ l := by
  induction l with
  | nil =>
    rw [updateEntries, List.mem_singleton] at h
    rw [h]
    exact .inl rfl
  | cons a l ih =>
    unfold updateEntries at h
    split_ifs at h with hlt heq
    · rcases List.mem_cons.mp h with rfl | h
      · exact .inl rfl
      · exact .inr h
    · rcases List.mem_cons.mp h with rfl | h
      · exact .inl rfl
      · exact .inr (List.mem_cons_of_mem _ h)
    · rcases List.mem_cons.mp h with rfl | h
      · exact .inr List.mem_cons_self
      · exact (ih h).imp_right (List.mem_cons_of_mem _)

variable [LE κ] [Std.IsLinearOrder κ] [Std.LawfulOrderLT κ]

theorem sorted_updateEntries (h : l.Pairwise fun a b => a.1 < b.1) :
    (updateEntries key f l).Pairwise fun a b => a.1 < b.1 := by
  induction l with
  | nil => exact List.pairwise_singleton ..
  | cons a l ih =>
    obtain ⟨ha, hl⟩ := List.pairwise_cons.mp h
    unfold updateEntries
    split_ifs with hlt heq
    · refine List.pairwise_cons.mpr ⟨?_, h⟩
      intro e he
      rcases List.mem_cons.mp he with rfl | he
      · exact hlt
      · exact Std.lt_trans hlt (ha e he)
    · refine List.pairwise_cons.mpr ⟨?_, hl⟩
      intro e he
      rw [heq]
      exact ha e he
    · refine List.pairwise_cons.mpr ⟨?_, ih hl⟩
      intro e he
      rcases mem_updateEntries he with hkey | he
      · rw [hkey]
        exact Std.lt_of_le_of_ne (Std.not_lt.mp hlt) (Ne.symm heq)
      · exact ha e he

/-- `m[key] = f(m[key])`, where `f` is told of a key that is not there. -/
def update (m : OrderedMap κ α) (key : κ) (f : Option α → α) : OrderedMap κ α :=
  ⟨updateEntries key f m.entries, sorted_updateEntries m.sorted⟩

theorem find_update_of_ne (h : k ≠ key) : (m.update key f).find k = m.find k := by
  obtain ⟨l, hl⟩ := m
  unfold update find
  dsimp only
  clear hl
  congr 1
  induction l with
  | nil => simp [updateEntries, Ne.symm h]
  | cons a l ih =>
    unfold updateEntries
    split_ifs with hlt heq
    · rw [List.find?_cons_of_neg (by simpa using Ne.symm h)]
    · rw [List.find?_cons_of_neg (by simpa using Ne.symm h),
        List.find?_cons_of_neg (by rw [← heq]; simpa using Ne.symm h)]
    · rw [List.find?_cons, List.find?_cons, ih]

theorem find_update_self : (m.update key f).find key = some (f (m.find key)) := by
  obtain ⟨l, hl⟩ := m
  unfold update find
  dsimp only
  induction l with
  | nil => simp [updateEntries]
  | cons a l ih =>
    obtain ⟨ha, hl⟩ := List.pairwise_cons.mp hl
    unfold updateEntries
    split_ifs with hlt heq
    · -- no entry has the key, since all have greater ones
      have hnone : (a :: l).find? (fun e => e.1 = key) = none := by
        rw [List.find?_eq_none]
        intro e he hkey
        have hkey := of_decide_eq_true hkey
        rcases List.mem_cons.mp he with rfl | he
        · exact Std.lt_irrefl (hkey ▸ hlt)
        · exact Std.lt_irrefl (hkey ▸ Std.lt_trans hlt (ha e he))
      rw [hnone]
      simp
    · simp [heq]
    · have hne : ¬a.1 = key := Ne.symm heq
      rw [List.find?_cons_of_neg (by simpa using hne), List.find?_cons_of_neg (by simpa using hne)]
      exact ih hl

end OrderedMap

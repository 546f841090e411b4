import Mathlib.Data.List.Sort
import Mathlib.Data.List.TakeWhile
import Mathlib.Tactic.Common

/-!
# Ordered sets

A set that is kept as a list in increasing order, as a balanced tree presents it to an
iterator: insertion, removal, the least element, and the cut at a lower bound.
-/

structure OrderedSet (α : Type*) [LinearOrder α] where
  elements : List α
  sorted : elements.Pairwise (· < ·)

namespace OrderedSet
variable {α : Type*} [LinearOrder α]

instance : Membership α (OrderedSet α) := ⟨fun s a => a ∈ s.elements⟩

theorem mem_def {s : OrderedSet α} {a : α} : a ∈ s ↔ a ∈ s.elements := Iff.rfl

instance (s : OrderedSet α) (a : α) : Decidable (a ∈ s) := inferInstanceAs (Decidable (a ∈ s.elements))

def empty : OrderedSet α := ⟨[], .nil⟩

@[simp] theorem not_mem_empty (a : α) : a ∉ (empty : OrderedSet α) := List.not_mem_nil

def size (s : OrderedSet α) : ℕ := s.elements.length

@[simp] theorem size_empty : (empty : OrderedSet α).size = 0 := rfl

/-- The element at `begin()`. -/
def first (s : OrderedSet α) : Option α := s.elements.head?

theorem mem_of_first {s : OrderedSet α} {a : α} (h : s.first = some a) : a ∈ s :=
  List.mem_of_mem_head? h

theorem first_le {s : OrderedSet α} {a b : α} (h : s.first = some a) (hb : b ∈ s) : a ≤ b := by
  obtain ⟨elements, sorted⟩ := s
  cases elements with
  | nil => cases h
  | cons c rest =>
    obtain rfl : c = a := Option.some.inj h
    obtain rfl | hmem := List.mem_cons.mp hb
    · exact le_refl _
    · exact ((List.pairwise_cons.mp sorted).1 b hmem).le

theorem first_eq_none {s : OrderedSet α} : s.first = none ↔ ∀ a, a ∉ s := by
  simp only [first, List.head?_eq_none_iff, mem_def]
  exact List.eq_nil_iff_forall_not_mem

theorem exists_first {s : OrderedSet α} {b : α} (hb : b ∈ s) : ∃ a, s.first = some a ∧ a ≤ b := by
  cases h : s.first with
  | none => exact absurd hb (first_eq_none.mp h b)
  | some a => exact ⟨a, rfl, first_le h hb⟩

theorem sorted_orderedInsert {l : List α} {a : α} (h : l.Pairwise (· < ·)) (ha : a ∉ l) :
    (l.orderedInsert (· ≤ ·) a).Pairwise (· < ·) := by
  have hle : (l.orderedInsert (· ≤ ·) a).Pairwise (· ≤ ·) :=
    List.Pairwise.orderedInsert a l (h.imp le_of_lt)
  have hne : (l.orderedInsert (· ≤ ·) a).Nodup := by
    rw [(List.perm_orderedInsert (· ≤ ·) a l).nodup_iff, List.nodup_cons]
    exact ⟨ha, h.imp ne_of_lt⟩
  exact (hle.and hne).imp fun ⟨hle, hne⟩ => lt_of_le_of_ne hle hne

/-- An element that is there already is not inserted again. -/
def insert (s : OrderedSet α) (a : α) : OrderedSet α :=
  if h : a ∈ s.elements then s
  else ⟨s.elements.orderedInsert (· ≤ ·) a, sorted_orderedInsert s.sorted h⟩

@[simp] theorem mem_insert {s : OrderedSet α} {a b : α} : b ∈ s.insert a ↔ b = a ∨ b ∈ s := by
  unfold insert
  split_ifs with h
  · constructor
    · exact Or.inr
    · rintro (rfl | hb)
      · exact h
      · exact hb
  · exact List.mem_orderedInsert _

theorem size_insert {s : OrderedSet α} {a : α} (h : a ∉ s) : (s.insert a).size = s.size + 1 := by
  have hi : s.insert a = ⟨s.elements.orderedInsert (· ≤ ·) a, sorted_orderedInsert s.sorted h⟩ :=
    dif_neg h
  rw [hi]
  exact List.orderedInsert_length _ _ _

def erase (s : OrderedSet α) (a : α) : OrderedSet α :=
  ⟨s.elements.erase a, s.sorted.sublist List.erase_sublist⟩

theorem nodup (s : OrderedSet α) : s.elements.Nodup := s.sorted.imp ne_of_lt

@[simp] theorem mem_erase {s : OrderedSet α} {a b : α} : b ∈ s.erase a ↔ b ≠ a ∧ b ∈ s :=
  s.nodup.mem_erase_iff

theorem size_erase {s : OrderedSet α} {a : α} (h : a ∈ s) : (s.erase a).size + 1 = s.size :=
  List.length_erase_add_one h

/-- The elements before `lower_bound(a)`. -/
def below (s : OrderedSet α) (a : α) : List α := s.elements.takeWhile (· < a)

/-- The set once these are erased. -/
def eraseBelow (s : OrderedSet α) (a : α) : OrderedSet α :=
  ⟨s.elements.dropWhile (· < a), s.sorted.sublist (List.dropWhile_sublist _)⟩

theorem below_append (s : OrderedSet α) (a : α) :
    s.below a ++ (s.eraseBelow a).elements = s.elements := List.takeWhile_append_dropWhile

theorem sorted_below (s : OrderedSet α) (a : α) : (s.below a).Pairwise (· < ·) :=
  s.sorted.sublist (List.takeWhile_sublist _)

theorem size_below (s : OrderedSet α) (a : α) :
    (s.below a).length + (s.eraseBelow a).size = s.size := by
  rw [size, size, ← below_append s a, List.length_append]

theorem lt_of_mem_below {s : OrderedSet α} {a b : α} (h : b ∈ s.below a) : b < a := by
  simpa using List.mem_takeWhile_imp h

theorem le_of_mem_eraseBelow {s : OrderedSet α} {a b : α} (h : b ∈ s.eraseBelow a) : a ≤ b := by
  obtain ⟨c, hc, hcb⟩ := exists_first h
  have hstop : ¬(c < a) := by
    have hhead := List.head?_dropWhile_not (fun b => decide (b < a)) s.elements
    simp only [first, eraseBelow] at hc
    simpa [hc] using hhead
  exact (not_lt.mp hstop).trans hcb

theorem mem_below {s : OrderedSet α} {a b : α} : b ∈ s.below a ↔ b ∈ s ∧ b < a := by
  constructor
  · intro h
    exact ⟨(List.takeWhile_sublist _).mem h, lt_of_mem_below h⟩
  · rintro ⟨hb, hlt⟩
    rw [mem_def, ← below_append s a, List.mem_append] at hb
    exact hb.resolve_right fun hge => absurd hlt (not_lt.mpr (le_of_mem_eraseBelow hge))

theorem mem_eraseBelow {s : OrderedSet α} {a b : α} : b ∈ s.eraseBelow a ↔ b ∈ s ∧ a ≤ b := by
  constructor
  · intro h
    exact ⟨(List.dropWhile_sublist _).mem h, le_of_mem_eraseBelow h⟩
  · rintro ⟨hb, hle⟩
    rw [mem_def, ← below_append s a, List.mem_append] at hb
    exact hb.resolve_left fun hlt => absurd (lt_of_mem_below hlt) (not_lt.mpr hle)

end OrderedSet

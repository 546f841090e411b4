import Mathlib.Data.List.Sort
import Mathlib.Tactic.Common

/-!
# Segments

The parts of a list between separators. A segment is an interval of positions that is not
empty, holds no separator, and goes on in neither direction. Repeated separators, and those
at the ends, have no segment between them.
-/
namespace Segments

variable {α : Type*} {sep : α} {w : List α} {start stop : ℕ} {l : List (ℕ × ℕ)} {i j : ℕ × ℕ}

structure IsSegment (sep : α) (w : List α) (i : ℕ × ℕ) : Prop where
  nonempty : i.1 < i.2
  le_length : i.2 ≤ w.length
  free : ∀ k, i.1 ≤ k → k < i.2 → w[k]? ≠ some sep
  left : i.1 = 0 ∨ w[i.1 - 1]? = some sep
  right : i.2 = w.length ∨ w[i.2]? = some sep

/-- The elements of an interval. -/
def extract (w : List α) (i : ℕ × ℕ) : List α := (w.drop i.1).take (i.2 - i.1)

/-- `l` are the segments that end before `n`, in their order. -/
structure Lists (sep : α) (w : List α) (n : ℕ) (l : List (ℕ × ℕ)) : Prop where
  ordered : l.Pairwise fun i j => i.2 < j.1
  mem_iff : ∀ i, i ∈ l ↔ IsSegment sep w i ∧ i.2 < n

/-- `s` are the segments, in their order. -/
def AreSegments (sep : α) (w : List α) (s : List (List α)) : Prop :=
  ∃ l, Lists sep w (w.length + 1) l ∧ s = l.map (extract w)

theorem lists_nil (sep : α) (w : List α) : Lists sep w 0 [] where
  ordered := .nil
  mem_iff i := by simp

/-- Where a part without separators begins and ends like a segment, the segments that end in it
are the part itself, if it is not empty. -/
theorem isSegment_iff (hleft : start = 0 ∨ w[start - 1]? = some sep)
    (hfree : ∀ k, start ≤ k → k < stop → w[k]? ≠ some sep) (hle : stop ≤ w.length)
    (hright : stop = w.length ∨ w[stop]? = some sep) (hi : start ≤ i.2) (hi' : i.2 ≤ stop) :
    IsSegment sep w i ↔ i = (start, stop) ∧ start < stop := by
  constructor
  · intro h
    have hnonempty := h.nonempty
    have hstop : i.2 = stop := by
      rcases h.right with hend | hsep
      · omega
      · by_contra hne
        exact hfree i.2 hi (by omega) hsep
    have hstart : i.1 = start := by
      rcases Nat.lt_trichotomy i.1 start with hlt | heq | hgt
      · have hsep := hleft.resolve_left (by omega)
        exact absurd hsep (h.free (start - 1) (by omega) (by omega))
      · exact heq
      · have hsep := h.left.resolve_left (by omega)
        exact absurd hsep (hfree (i.1 - 1) (by omega) (by omega))
    exact ⟨Prod.ext hstart hstop, by omega⟩
  · rintro ⟨rfl, hlt⟩
    exact ⟨hlt, hle, hfree, hleft, hright⟩

/-- What a scan does at the end of a part. -/
theorem Lists.advance (h : Lists sep w start l) (hleft : start = 0 ∨ w[start - 1]? = some sep)
    (hstart : start ≤ stop) (hfree : ∀ k, start ≤ k → k < stop → w[k]? ≠ some sep)
    (hle : stop ≤ w.length) (hright : stop = w.length ∨ w[stop]? = some sep) :
    Lists sep w (stop + 1) (if start < stop then l ++ [(start, stop)] else l) := by
  have hiff : ∀ i, start ≤ i.2 → i.2 ≤ stop →
      (IsSegment sep w i ↔ i = (start, stop) ∧ start < stop) :=
    fun i => isSegment_iff hleft hfree hle hright
  split_ifs with hlt
  · constructor
    · refine List.pairwise_append.mpr ⟨h.ordered, List.pairwise_singleton _ _, ?_⟩
      intro i hi j hj
      rw [List.mem_singleton.mp hj]
      exact ((h.mem_iff i).mp hi).2
    · intro i
      rw [List.mem_append, List.mem_singleton, h.mem_iff]
      constructor
      · rintro (⟨hseg, hbefore⟩ | rfl)
        · exact ⟨hseg, by omega⟩
        · exact ⟨(hiff _ hstart le_rfl).mpr ⟨rfl, hlt⟩, Nat.lt_succ_self _⟩
      · rintro ⟨hseg, hbefore⟩
        by_cases hold : i.2 < start
        · exact .inl ⟨hseg, hold⟩
        · exact .inr ((hiff i (by omega) (by omega)).mp hseg).1
  · refine ⟨h.ordered, ?_⟩
    intro i
    rw [h.mem_iff]
    constructor
    · rintro ⟨hseg, hbefore⟩
      exact ⟨hseg, by omega⟩
    · rintro ⟨hseg, hbefore⟩
      refine ⟨hseg, ?_⟩
      by_contra hnew
      exact hlt ((hiff i (by omega) (by omega)).mp hseg).2

theorem Lists.unique {n : ℕ} {l' : List (ℕ × ℕ)} (h : Lists sep w n l) (h' : Lists sep w n l') :
    l = l' := by
  have hirrefl : Std.Irrefl fun i j : ℕ × ℕ => i.1 < j.1 := ⟨fun i => lt_irrefl i.1⟩
  have hantisymm : Std.Antisymm fun i j : ℕ × ℕ => i.1 < j.1 :=
    ⟨fun i j hij hji => absurd hij (lt_asymm hji)⟩
  have hstrict : ∀ {l}, Lists sep w n l → l.Pairwise fun i j => i.1 < j.1 := by
    intro l h
    refine h.ordered.imp_of_mem ?_
    intro i j hi _ hij
    exact (((h.mem_iff i).mp hi).1.nonempty).trans hij
  exact (hstrict h).eq_of_mem_iff (hstrict h') fun i => (h.mem_iff i).trans (h'.mem_iff i).symm

theorem AreSegments.unique {s s' : List (List α)} (h : AreSegments sep w s)
    (h' : AreSegments sep w s') : s = s' := by
  obtain ⟨l, hl, rfl⟩ := h
  obtain ⟨l', hl', rfl⟩ := h'
  rw [hl.unique hl']

end Segments

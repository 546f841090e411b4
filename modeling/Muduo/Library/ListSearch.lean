import Mathlib.Data.List.Chain
import Mathlib.Tactic.Common

/-!
# First occurrence of a pattern

`search pat l` is the position of the first occurrence of `pat` in `l`, as
`std::search` finds it. The results about two-element patterns are those a
reader of delimited lines needs: a delimiter is found at the end of its line, is
not found in an unfinished line, and is found at the same place when more arrives.
-/
namespace ListSearch

variable {α : Type*} [DecidableEq α]

def search (pat : List α) : List α → Option ℕ
  | [] => none
  | a :: l => if pat <+: a :: l then some 0 else (search pat l).map (· + 1)

theorem search_lt_length {pat l : List α} {i : ℕ} (h : search pat l = some i) :
    i + pat.length ≤ l.length := by
  induction l generalizing i with
  | nil => simp [search] at h
  | cons a l ih =>
    rw [search] at h
    split at h
    · rename_i hp
      obtain rfl := Option.some.inj h
      simpa using hp.length_le
    · obtain ⟨j, hj, rfl⟩ := Option.map_eq_some_iff.mp h
      have := ih hj
      simp only [List.length_cons]
      omega

/-- The list is split by the first occurrence. -/
theorem search_split {pat l : List α} {i : ℕ} (h : search pat l = some i) :
    l = l.take i ++ pat ++ l.drop (i + pat.length) := by
  induction l generalizing i with
  | nil => simp [search] at h
  | cons a l ih =>
    rw [search] at h
    split at h
    · rename_i hp
      obtain rfl := Option.some.inj h
      obtain ⟨t, ht⟩ := hp
      rw [← ht]
      simp
    · obtain ⟨j, hj, rfl⟩ := Option.map_eq_some_iff.mp h
      have := ih hj
      rw [List.take_succ_cons, Nat.succ_add_eq_add_succ, List.cons_append, List.cons_append,
        Nat.add_succ, List.drop_succ_cons, ← this]

/-- An occurrence is found at the same place when more elements follow. -/
theorem search_append_of_some {pat l : List α} {i : ℕ} (m : List α) (h : search pat l = some i) :
    search pat (l ++ m) = some i := by
  induction l generalizing i with
  | nil => simp [search] at h
  | cons a l ih =>
    rw [search] at h
    rw [List.cons_append, search]
    by_cases hp : pat <+: a :: l
    · rw [if_pos hp] at h
      have hp' : pat <+: a :: (l ++ m) := hp.trans ⟨m, rfl⟩
      rw [if_pos hp', h]
    · rw [if_neg hp] at h
      obtain ⟨j, hj, rfl⟩ := Option.map_eq_some_iff.mp h
      have hn : ¬pat <+: a :: (l ++ m) := by
        intro hp'
        have hlen := search_lt_length hj
        exact hp (List.prefix_of_prefix_length_le hp' ⟨m, rfl⟩ (by simp; omega))
      rw [if_neg hn, ih hj]
      rfl

/-- Before the first occurrence there is none. -/
theorem search_take_of_some {pat l : List α} {i : ℕ} (hpat : pat ≠ []) (h : search pat l = some i) :
    search pat (l.take i) = none := by
  by_contra hs
  obtain ⟨j, hj⟩ := Option.ne_none_iff_exists'.mp hs
  have h' := search_append_of_some (l.drop i) hj
  rw [List.take_append_drop, h] at h'
  have hlen := search_lt_length hj
  rw [Option.some.inj h', List.length_take] at hlen
  have := List.length_pos_of_ne_nil hpat
  omega

section Pair
variable {x y : α}

theorem search_pair_cons (a : α) (l : List α) :
    search [x, y] (a :: l) =
      if a = x ∧ l.head? = some y then some 0 else (search [x, y] l).map (· + 1) := by
  rw [search]
  congr 1
  cases l with
  | nil => simp
  | cons b l => simp [eq_comm]

theorem search_pair_eq_none_iff {l : List α} :
    search [x, y] l = none ↔ l.IsChain fun a b => ¬(a = x ∧ b = y) := by
  induction l with
  | nil => simp [search]
  | cons a l ih =>
    rw [search_pair_cons, List.isChain_cons, ← ih]
    split_ifs with h
    · obtain ⟨rfl, hy⟩ := h
      simp [hy]
    · rw [Option.map_eq_none_iff, iff_and_self]
      rintro - b hb ⟨rfl, rfl⟩
      exact h ⟨rfl, hb⟩

/-- Two pieces without the pair, and no pair where they meet. -/
theorem search_pair_append {l m : List α} (hl : search [x, y] l = none)
    (hm : search [x, y] m = none)
    (h : ∀ a ∈ l.getLast?, ∀ b ∈ m.head?, ¬(a = x ∧ b = y)) : search [x, y] (l ++ m) = none := by
  rw [search_pair_eq_none_iff] at hl hm ⊢
  exact List.isChain_append.mpr ⟨hl, hm, h⟩

theorem search_pair_of_notMem {l : List α} (h : x ∉ l) : search [x, y] l = none := by
  rw [search_pair_eq_none_iff]
  refine List.Pairwise.isChain (List.pairwise_of_forall_mem_list ?_)
  rintro a ha b - ⟨rfl, -⟩
  exact h ha

/-- The delimiter at the end of a line without delimiters is the first one. -/
theorem search_pair_line (hxy : x ≠ y) {l : List α} (h : search [x, y] l = none) (m : List α) :
    search [x, y] (l ++ x :: y :: m) = some l.length := by
  induction l with
  | nil => simp [search_pair_cons]
  | cons a l ih =>
    rw [search_pair_cons] at h
    split at h
    · cases h
    · rename_i hn
      rw [List.cons_append, search_pair_cons, if_neg, ih (Option.map_eq_none_iff.mp h)]
      · rfl
      · rintro ⟨rfl, hh⟩
        cases l with
        | nil => simp [hxy] at hh
        | cons b l => exact hn ⟨rfl, by simpa using hh⟩

/-- An unfinished line holds no delimiter. -/
theorem search_pair_unfinished (hxy : x ≠ y) {l p : List α} (h : search [x, y] l = none)
    (hp : p <+: l ++ [x]) : search [x, y] p = none := by
  by_contra hs
  obtain ⟨i, hi⟩ := Option.ne_none_iff_exists'.mp hs
  obtain ⟨t, ht⟩ := hp
  have h₁ := search_append_of_some (t ++ [y]) hi
  rw [← List.append_assoc, ht, List.append_assoc] at h₁
  have h₂ := search_pair_line hxy h []
  simp only [List.cons_append, List.nil_append] at h₁
  rw [h₂] at h₁
  have hlen := search_lt_length hi
  have := congrArg List.length ht
  simp only [Option.some.injEq, List.length_append, List.length_cons, List.length_nil] at *
  omega

end Pair
end ListSearch

import Mathlib.Data.List.Basic
import Mathlib.Tactic.Common

/-!
# Logs

A log is a list of what has happened, oldest first. Three patterns that a log can
show, and what keeps them when the log grows at its end.
-/
namespace Log

variable {α : Type*} {P Q : α → Prop} {log front tail : List α}

/-- Every `P` is followed by a `Q`. -/
def Followed (P Q : α → Prop) (log : List α) : Prop :=
  ∀ pre a post, log = pre ++ a :: post → P a → ∃ b ∈ post, Q b

/-- There has been a `Q` since the last `P`. -/
def Since (P Q : α → Prop) (log : List α) : Prop :=
  ∃ pre a post, log = pre ++ a :: post ∧ Q a ∧ ∀ b ∈ post, ¬P b

/-- Between two `Q` there is a `P`. -/
def Separated (P Q : α → Prop) (log : List α) : Prop :=
  ∀ pre a mid b post, log = pre ++ a :: (mid ++ b :: post) → Q a → Q b → ∃ c ∈ mid, P c

/-- An element of an appended list is in one of its parts. -/
theorem split_append {xs ys front back : List α} {a : α} (h : xs ++ ys = front ++ a :: back) :
    (∃ rest, xs = front ++ a :: rest ∧ back = rest ++ ys) ∨
      ∃ rest, front = xs ++ rest ∧ ys = rest ++ a :: back := by
  rw [List.append_eq_append_iff] at h
  rcases h with h | ⟨cs, hcs, hback⟩
  · exact .inr h
  · cases cs with
    | nil => exact .inr ⟨[], by simpa using hcs.symm, hback.symm⟩
    | cons c cs =>
      obtain ⟨rfl, rfl⟩ := List.cons.inj hback
      exact .inl ⟨cs, hcs, rfl⟩

theorem Followed.append (h : Followed P Q front) (hno : ∀ a ∈ tail, ¬P a) :
    Followed P Q (front ++ tail) := by
  intro pre a post heq ha
  rcases split_append heq with ⟨rest, hfront, rfl⟩ | ⟨rest, -, htail⟩
  · obtain ⟨b, hb, hq⟩ := h pre a rest hfront ha
    exact ⟨b, List.mem_append_left tail hb, hq⟩
  · exact absurd ha (hno a (by simp [htail]))

/-- A `Q` with no `P` behind it follows every `P`. -/
theorem followed_append_of_mem (hno : ∀ a ∈ tail, ¬P a) {b : α} (hb : b ∈ tail) (hq : Q b) :
    Followed P Q (front ++ tail) := by
  intro pre a post heq ha
  rcases split_append heq with ⟨rest, -, rfl⟩ | ⟨rest, -, htail⟩
  · exact ⟨b, List.mem_append_right rest hb, hq⟩
  · exact absurd ha (hno a (by simp [htail]))

theorem Since.append (h : Since P Q front) (hno : ∀ a ∈ tail, ¬P a) : Since P Q (front ++ tail) := by
  obtain ⟨pre, a, post, rfl, hq, hpost⟩ := h
  refine ⟨pre, a, post ++ tail, by simp, hq, fun b hb => ?_⟩
  rcases List.mem_append.mp hb with hb | hb
  · exact hpost b hb
  · exact hno b hb

theorem Separated.append (h : Separated P Q front) (hno : ∀ a ∈ tail, ¬Q a) :
    Separated P Q (front ++ tail) := by
  intro pre a mid b post heq ha hb
  rw [← List.cons_append, ← List.append_assoc] at heq
  rcases split_append heq with ⟨rest, hfront, -⟩ | ⟨rest, -, htail⟩
  · exact h pre a mid b rest (by rw [hfront, List.append_assoc, List.cons_append]) ha hb
  · exact absurd hb (hno b (by simp [htail]))

/-- One more `Q` is separated from those before if each of them is followed by a `P`. -/
theorem Separated.snoc (h : Separated P Q front) (hf : Followed Q P front) (x : α) :
    Separated P Q (front ++ [x]) := by
  intro pre a mid b post heq ha hb
  have heq' := heq
  rw [← List.cons_append, ← List.append_assoc] at heq'
  rcases split_append heq' with ⟨rest, hfront, -⟩ | ⟨rest, hpre, htail⟩
  · exact h pre a mid b rest (by rw [hfront, List.append_assoc, List.cons_append]) ha hb
  · cases rest with
    | nil =>
      rw [List.append_nil] at hpre
      exact hf pre a mid hpre.symm ha
    | cons c rest => simp at htail

end Log

import Mathlib.Logic.Function.Basic
import Mathlib.Tactic.Common

/-!
# Partial maps

A partial map is a function to `Option`. What is found in one after an update at a key is what
has been put there, or was found at another key before.
-/
namespace PartialMap

variable {κ α : Type*} [DecidableEq κ] {f : κ → Option α} {a b : κ} {o : Option α} {u v : α}

theorem of_update (h : Function.update f a o b = some u) :
    b = a ∧ o = some u ∨ b ≠ a ∧ f b = some u := by
  by_cases hba : b = a
  · subst hba
    rw [Function.update_self] at h
    exact .inl ⟨rfl, h⟩
  · rw [Function.update_of_ne hba] at h
    exact .inr ⟨hba, h⟩

theorem of_insert (h : Function.update f a (some v) b = some u) :
    b = a ∧ u = v ∨ b ≠ a ∧ f b = some u := by
  obtain ⟨hba, hv⟩ | hold := of_update h
  · exact .inl ⟨hba, (Option.some.inj hv).symm⟩
  · exact .inr hold

theorem of_erase (h : Function.update f a none b = some u) : b ≠ a ∧ f b = some u := by
  obtain ⟨-, hnone⟩ | hold := of_update h
  · cases hnone
  · exact hold

end PartialMap

import Mathlib.Tactic.Common

/-!
# Loops over lists

A `for` loop whose body may fail, as a monadic fold: the rule for its invariant, which speaks of
the elements that the loop has passed, and how nested and conditional loops become one loop over
the elements that count.
-/
namespace ForEach

section Rule
variable {α σ φ : Type*} {f : σ → α → Except φ σ}

theorem foldlM_rule (I : List α → σ → Prop) {l : List α} {s : σ}
    (hstep : ∀ done a s, done ++ [a] <+: l → I done s → ∃ t, f s a = .ok t ∧ I (done ++ [a]) t)
    (hs : I [] s) : ∃ t, l.foldlM f s = .ok t ∧ I l t := by
  suffices hrest : ∀ (rest done : List α) (s : σ), done ++ rest = l → I done s →
      ∃ t, rest.foldlM f s = .ok t ∧ I l t from hrest l [] s rfl hs
  intro rest
  induction rest with
  | nil =>
    intro done s hl hs
    rw [List.append_nil] at hl
    exact ⟨s, rfl, hl ▸ hs⟩
  | cons a rest ih =>
    intro done s hl hs
    obtain ⟨t, hf, ht⟩ := hstep done a s ⟨rest, by simpa using hl⟩ hs
    obtain ⟨u, hu, hdone⟩ := ih (done ++ [a]) t (by simpa using hl) ht
    refine ⟨u, ?_, hdone⟩
    rw [List.foldlM_cons, hf]
    exact hu

end Rule

section Shape
universe u
variable {α β : Type*} {σ : Type u} {m : Type u → Type*} [Monad m] [LawfulMonad m]

/-- A loop within a loop. -/
theorem foldlM_flatMap (f : σ → β → m σ) (g : α → List β) (l : List α) (s : σ) :
    (l.flatMap g).foldlM f s = l.foldlM (fun s a => (g a).foldlM f s) s := by
  induction l generalizing s with
  | nil => rfl
  | cons a l ih =>
    rw [List.flatMap_cons, List.foldlM_append, List.foldlM_cons]
    exact congrArg _ (funext fun t => ih t)

end Shape

end ForEach

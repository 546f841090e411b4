import Mathlib.Order.Basic
import Mathlib.Tactic.Common

/-!
# While loops

A loop body either hands the loop a next state or leaves it with a result.
`iterate` runs a body for at most a given number of iterations, so that the same
definition can be evaluated and can speak about loops that never end.
-/
namespace WhileLoop

inductive Exit (σ ρ : Type*)
  | next (s : σ)
  | done (r : ρ)
  deriving DecidableEq, Repr

variable {σ ρ : Type*} (body : σ → Exit σ ρ)

/-- The result of the loop, if it leaves within the given number of iterations. -/
def iterate : ℕ → σ → Option ρ
  | 0, _ => none
  | n + 1, s => match body s with
    | .next t => iterate n t
    | .done r => some r

def Terminates (s : σ) : Prop := ∃ n, (iterate body n s).isSome

theorem iterate_next {s t : σ} (h : body s = .next t) (n : ℕ) :
    iterate body (n + 1) s = iterate body n t := by
  simp only [iterate, h]

theorem iterate_done {s : σ} {r : ρ} (h : body s = .done r) (n : ℕ) :
    iterate body (n + 1) s = some r := by
  simp only [iterate, h]

theorem iterate_mono {m n : ℕ} (hmn : m ≤ n) {s : σ} {r : ρ} (h : iterate body m s = some r) :
    iterate body n s = some r := by
  induction m generalizing n s with
  | zero => simp [iterate] at h
  | succ m ih =>
    obtain ⟨k, rfl⟩ : ∃ k, n = k + 1 := ⟨n - 1, by omega⟩
    cases hb : body s with
    | next t =>
      rw [iterate_next body hb] at h ⊢
      exact ih (by omega) h
    | done r' => rwa [iterate_done body hb] at h ⊢

theorem terminates_next_iff {s t : σ} (h : body s = .next t) :
    Terminates body s ↔ Terminates body t := by
  constructor
  · rintro ⟨n, hn⟩
    cases n with
    | zero => simp [iterate] at hn
    | succ n => exact ⟨n, by rwa [iterate_next body h] at hn⟩
  · rintro ⟨n, hn⟩
    exact ⟨n + 1, by rwa [iterate_next body h]⟩

theorem terminates_done {s : σ} {r : ρ} (h : body s = .done r) : Terminates body s :=
  ⟨1, by rw [iterate_done body h]; rfl⟩

/-- The rule of total correctness: while `I` holds, an iteration either lowers the
variant `μ` and keeps `I`, or leaves with a result in `Q`. -/
theorem iterate_of_variant (I : σ → Prop) (Q : ρ → Prop) (μ : σ → ℕ)
    (h : ∀ s, I s → (∃ t, body s = .next t ∧ I t ∧ μ t < μ s) ∨ ∃ r, body s = .done r ∧ Q r)
    {n : ℕ} {s : σ} (hs : I s) (hn : μ s < n) : ∃ r, iterate body n s = some r ∧ Q r := by
  induction n generalizing s with
  | zero => exact absurd hn (Nat.not_lt_zero _)
  | succ n ih =>
    rcases h s hs with ⟨t, hb, ht, hlt⟩ | ⟨r, hb, hr⟩
    · obtain ⟨r, hr, hQ⟩ := ih ht (by omega)
      exact ⟨r, by rw [iterate_next body hb, hr], hQ⟩
    · exact ⟨r, iterate_done body hb n, hr⟩

/-- The divergence rule: a loop whose body keeps `I` and never leaves does not end. -/
theorem not_terminates_of_invariant (I : σ → Prop)
    (hI : ∀ s, I s → ∃ t, body s = .next t ∧ I t) {s : σ} (hs : I s) : ¬Terminates body s := by
  rintro ⟨n, hn⟩
  induction n generalizing s with
  | zero => simp [iterate] at hn
  | succ n ih =>
    obtain ⟨t, hb, ht⟩ := hI s hs
    exact ih ht (by rwa [iterate_next body hb] at hn)

end WhileLoop

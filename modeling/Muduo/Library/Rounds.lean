import Mathlib.Tactic.Common

/-!
# One job a round

`arrived j` jobs have arrived by the end of round `j`, and each round does at most
one job, if one is waiting. `done arrived j` is the number of jobs done by then.
-/
namespace Rounds

variable (arrived : ℕ → ℕ)

def done : ℕ → ℕ
  | 0 => 0
  | j + 1 => min (done j + 1) (arrived (j + 1))

theorem done_le_arrived (j : ℕ) : done arrived j ≤ arrived j := by
  cases j with
  | zero => exact Nat.zero_le _
  | succ j => exact Nat.min_le_right ..

/-- A round does a job exactly if one is waiting. -/
theorem done_succ (hmono : ∀ j, arrived j ≤ arrived (j + 1)) (j : ℕ) :
    done arrived (j + 1) =
      if done arrived j < arrived (j + 1) then done arrived j + 1 else done arrived j := by
  have hle := Nat.le_trans (done_le_arrived arrived j) (hmono j)
  rw [show done arrived (j + 1) = min (done arrived j + 1) (arrived (j + 1)) from rfl]
  split_ifs with h
  · exact Nat.min_eq_left h
  · omega

/-- Jobs are done in time exactly if from every round on there are rounds enough
for those that had not arrived by then. -/
theorem le_done_iff (h0 : arrived 0 = 0) (n m : ℕ) :
    n ≤ done arrived m ↔ ∀ j ≤ m, n ≤ arrived j + (m - j) := by
  induction m generalizing n with
  | zero =>
    constructor
    · intro h j hj
      have hn : n = 0 := Nat.le_zero.mp h
      omega
    · intro h
      have := h 0 (Nat.le_refl _)
      rw [h0] at this
      exact this
  | succ m ih =>
    have hstep : n ≤ done arrived (m + 1) ↔ n - 1 ≤ done arrived m ∧ n ≤ arrived (m + 1) := by
      rw [done, Nat.le_min]
      omega
    rw [hstep, ih]
    constructor
    · rintro ⟨h, hlast⟩ j hj
      rcases Nat.lt_or_ge m j with hlt | hge
      · have hjm : j = m + 1 := by omega
        rw [hjm]
        omega
      · have := h j hge
        omega
    · intro h
      refine ⟨fun j hj => ?_, ?_⟩
      · have := h j (by omega)
        omega
      · have := h (m + 1) (Nat.le_refl _)
        omega

end Rounds

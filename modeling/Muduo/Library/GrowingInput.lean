import Mathlib.Data.List.Basic
import Mathlib.Tactic.Common

/-!
# Consumers of growing input

A consumer takes elements off the front of what has arrived and goes on, or stops
for good. What it can do does not change when more arrives. `Runs` says how far it
gets with what is there: it stops with a verdict, or waits for more.
-/
namespace GrowingInput

inductive Move (σ ρ α : Type*)
  | next (t : σ) (rest : List α)
  | stop (r : ρ) (t : σ) (rest : List α)

variable {σ ρ α : Type*}

/-- The same move with `more` behind what is left. -/
def Move.extend (more : List α) : Move σ ρ α → Move σ ρ α
  | next t rest => next t (rest ++ more)
  | stop r t rest => stop r t (rest ++ more)

structure Consumer (σ ρ α : Type*) where
  Step : σ → List α → Move σ ρ α → Prop
  det : ∀ {s l m m'}, Step s l m → Step s l m' → m = m'
  extend : ∀ {s l m} (more : List α), Step s l m → Step s (l ++ more) (m.extend more)

/-- Where a consumer ends: without a verdict it waits. -/
structure End (σ ρ α : Type*) where
  verdict : Option ρ
  state : σ
  rest : List α

inductive Runs (C : Consumer σ ρ α) : σ → List α → End σ ρ α → Prop
  | wait {s : σ} {l : List α} : (∀ m, ¬C.Step s l m) → Runs C s l ⟨none, s, l⟩
  | stop {s t : σ} {l rest : List α} {r : ρ} :
      C.Step s l (.stop r t rest) → Runs C s l ⟨some r, t, rest⟩
  | next {s t : σ} {l rest : List α} {e : End σ ρ α} :
      C.Step s l (.next t rest) → Runs C t rest e → Runs C s l e

variable {C : Consumer σ ρ α} {s : σ} {l : List α} {e e' : End σ ρ α}

theorem Runs.det (h : Runs C s l e) (h' : Runs C s l e') : e = e' := by
  induction h with
  | wait hn =>
    cases h' with
    | wait => rfl
    | stop hs => exact absurd hs (hn _)
    | next hs => exact absurd hs (hn _)
  | stop hs =>
    cases h' with
    | wait hn => exact absurd hs (hn _)
    | stop hs' => cases C.det hs hs'; rfl
    | next hs' => cases C.det hs hs'
  | next hs _ ih =>
    cases h' with
    | wait hn => exact absurd hs (hn _)
    | stop hs' => cases C.det hs hs'
    | next hs' ht =>
      cases C.det hs hs'
      exact ih ht

/-- What arrives after the consumer has stopped is left over. -/
theorem Runs.extend {r : ρ} (more : List α) (h : Runs C s l e) (hv : e.verdict = some r) :
    Runs C s (l ++ more) ⟨some r, e.state, e.rest ++ more⟩ := by
  induction h with
  | wait => cases hv
  | stop hs =>
    obtain rfl := Option.some.inj hv
    exact .stop (C.extend more hs)
  | next hs _ ih => exact .next (C.extend more hs) (ih hv)

/-- A consumer that waits takes up its work where it has left it. -/
theorem Runs.resume {more : List α} (h : Runs C s l e) (hv : e.verdict = none)
    (h' : Runs C e.state (e.rest ++ more) e') : Runs C s (l ++ more) e' := by
  induction h with
  | wait => exact h'
  | stop => cases hv
  | next hs _ ih => exact .next (C.extend more hs) (ih hv h')

end GrowingInput

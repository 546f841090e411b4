import Mathlib.Data.List.Basic
import Mathlib.Data.List.Induction
import Mathlib.Tactic.Common

/-!
# Step systems

An environment offers events and a program executes them. `enabled` says which
events the environment may offer in a state, `step` is the executed program.
A step that ends in `Except.error` is a failed assertion: the run stops there,
so a run relates only states between which every step succeeded.
-/
namespace StepSystem

structure System (σ ε φ : Type*) where
  init : σ → Prop
  enabled : σ → ε → Prop
  step : σ → ε → Except φ σ

variable {σ ε φ : Type*} (S : System σ ε φ)

/-- `Run S s es t`: the events `es`, oldest first, lead from `s` to `t`. -/
inductive Run : σ → List ε → σ → Prop
  | nil (s : σ) : Run s [] s
  | snoc {s t u : σ} {es : List ε} {e : ε} :
      Run s es t → S.enabled t e → S.step t e = .ok u → Run s (es ++ [e]) u

def Reachable (t : σ) : Prop := ∃ s es, S.init s ∧ Run S s es t

/-- No offered event fails an assertion in a reachable state. -/
def Safe : Prop := ∀ t, Reachable S t → ∀ e, S.enabled t e → ∃ u, S.step t e = .ok u

theorem reachable_init {s : σ} (h : S.init s) : Reachable S s := ⟨s, [], h, .nil s⟩

theorem reachable_step {s t : σ} (e : ε) (h : Reachable S s) (he : S.enabled s e)
    (hs : S.step s e = .ok t) : Reachable S t := by
  obtain ⟨s₀, es, hi, hr⟩ := h
  exact ⟨s₀, es ++ [e], hi, .snoc hr he hs⟩

theorem run_append {s t u : σ} {es fs : List ε} (h₁ : Run S s es t) (h₂ : Run S t fs u) :
    Run S s (es ++ fs) u := by
  induction h₂ with
  | nil => simpa using h₁
  | snoc _ he hs ih => simpa [List.append_assoc] using Run.snoc ih he hs

theorem run_cons {s t u : σ} {e : ε} {es : List ε} (he : S.enabled s e)
    (hs : S.step s e = .ok t) (h : Run S t es u) : Run S s (e :: es) u :=
  run_append S (.snoc (.nil s) he hs) h

theorem run_nil_iff {s t : σ} : Run S s [] t ↔ t = s := by
  constructor
  · intro h
    generalize hes : ([] : List ε) = es at h
    cases h with
    | nil => rfl
    | snoc => simp at hes
  · rintro rfl
    exact .nil t

/-- A nonempty run ends with its last event. -/
theorem run_snoc_iff {s u : σ} {es : List ε} {e : ε} :
    Run S s (es ++ [e]) u ↔ ∃ t, Run S s es t ∧ S.enabled t e ∧ S.step t e = .ok u := by
  constructor
  · intro h
    generalize hfs : es ++ [e] = fs at h
    cases h with
    | nil => simp at hfs
    | snoc hr he hs =>
      obtain ⟨rfl, h⟩ := List.append_inj' hfs rfl
      cases h
      exact ⟨_, hr, he, hs⟩
  · rintro ⟨t, hr, he, hs⟩
    exact .snoc hr he hs

/-- Steps are functions, so a run has one final state. -/
theorem run_deterministic {s t u : σ} {es : List ε} (h₁ : Run S s es t) (h₂ : Run S s es u) :
    t = u := by
  induction h₁ generalizing u with
  | nil => exact ((run_nil_iff S).mp h₂).symm
  | snoc _ _ hs ih =>
    obtain ⟨v, hr, _, hv⟩ := (run_snoc_iff S).mp h₂
    rw [ih hr, hv] at hs
    exact (Except.ok.inj hs).symm

/-- A property that holds initially and that every successful step keeps. -/
structure Invariant (I : σ → Prop) : Prop where
  init : ∀ s, S.init s → I s
  step : ∀ s e t, I s → S.enabled s e → S.step s e = .ok t → I t

/-- What every successful step keeps, a run keeps from wherever it begins. -/
theorem run_keeps {I : σ → Prop}
    (h : ∀ s e t, I s → S.enabled s e → S.step s e = .ok t → I t) {s t : σ} {es : List ε}
    (hs : I s) (hr : Run S s es t) : I t := by
  induction hr with
  | nil => exact hs
  | snoc _ he hst ih => exact h _ _ _ ih he hst

theorem Invariant.run {I : σ → Prop} (h : Invariant S I) {s t : σ} {es : List ε} (hs : I s)
    (hr : Run S s es t) : I t := run_keeps S h.step hs hr

theorem Invariant.reachable {I : σ → Prop} (h : Invariant S I) {t : σ} (ht : Reachable S t) :
    I t := by
  obtain ⟨s, es, hi, hr⟩ := ht
  exact h.run S (h.init s hi) hr

/-- An invariant under which, moreover, no offered step fails. -/
structure TotalInvariant (I : σ → Prop) : Prop where
  init : ∀ s, S.init s → I s
  step : ∀ s e, I s → S.enabled s e → ∃ t, S.step s e = .ok t ∧ I t

theorem TotalInvariant.invariant {I : σ → Prop} (h : TotalInvariant S I) : Invariant S I where
  init := h.init
  step s e t hs he hst := by
    obtain ⟨u, hu, hI⟩ := h.step s e hs he
    rw [hu] at hst
    exact Except.ok.inj hst ▸ hI

theorem TotalInvariant.safe {I : σ → Prop} (h : TotalInvariant S I) : Safe S := by
  intro t ht e he
  obtain ⟨u, hu, _⟩ := h.step t e ((h.invariant S).reachable S ht) he
  exact ⟨u, hu⟩

/-- The same program, offered only the events that meet `C`. -/
def restrict (C : σ → ε → Prop) : System σ ε φ :=
  { S with enabled := fun s e => S.enabled s e ∧ C s e }

instance {C : σ → ε → Prop} [∀ s e, Decidable (S.enabled s e)] [∀ s e, Decidable (C s e)]
    (s : σ) (e : ε) : Decidable ((restrict S C).enabled s e) :=
  inferInstanceAs (Decidable (_ ∧ _))

theorem run_of_restrict {C : σ → ε → Prop} {s t : σ} {es : List ε}
    (h : Run (restrict S C) s es t) : Run S s es t := by
  induction h with
  | nil => exact .nil _
  | snoc _ he hs ih => exact .snoc ih he.1 hs

/-- `P` holds in every state the run `es` from `s` passes through. -/
def Throughout (P : σ → Prop) (s : σ) (es : List ε) : Prop :=
  ∀ fs gs t, es = fs ++ gs → Run S s fs t → P t

/-- Every step of the run `es` from `s` is taken in a state and with an event that meet `C`. -/
def Guarded (C : σ → ε → Prop) (s : σ) (es : List ε) : Prop :=
  ∀ fs e gs t, es = fs ++ e :: gs → Run S s fs t → C t e

theorem throughout_nil {P : σ → Prop} {s : σ} : Throughout S P s [] ↔ P s := by
  constructor
  · intro h
    exact h [] [] s rfl (.nil s)
  · intro h fs gs t hes hr
    obtain ⟨hf, _⟩ := List.append_eq_nil_iff.mp hes.symm
    subst hf
    exact (run_nil_iff S).mp hr ▸ h

theorem throughout_snoc {P : σ → Prop} {s u : σ} {es : List ε} {e : ε}
    (hr : Run S s (es ++ [e]) u) :
    Throughout S P s (es ++ [e]) ↔ Throughout S P s es ∧ P u := by
  constructor
  · intro h
    refine ⟨fun fs gs t hes hf => h fs (gs ++ [e]) t (by simp [hes]) hf, ?_⟩
    exact h (es ++ [e]) [] u (by simp) hr
  · rintro ⟨h, hu⟩ fs gs t hes hf
    rcases List.eq_nil_or_concat gs with rfl | ⟨gs', g, rfl⟩
    · rw [List.append_nil] at hes
      subst hes
      exact run_deterministic S hr hf ▸ hu
    · rw [List.concat_eq_append, ← List.append_assoc] at hes
      exact h fs gs' t (List.append_inj' hes rfl).1 hf

theorem guarded_nil {C : σ → ε → Prop} {s : σ} : Guarded S C s [] := by
  intro fs e gs t hes
  simp at hes

theorem guarded_snoc {C : σ → ε → Prop} {s t : σ} {es : List ε} {e : ε} (hr : Run S s es t) :
    Guarded S C s (es ++ [e]) ↔ Guarded S C s es ∧ C t e := by
  constructor
  · intro h
    refine ⟨fun fs f gs u hes hf => h fs f (gs ++ [e]) u (by simp [hes]) hf, ?_⟩
    exact h es e [] t rfl hr
  · rintro ⟨h, ht⟩ fs f gs u hes hf
    rcases List.eq_nil_or_concat gs with rfl | ⟨gs', g, rfl⟩
    · obtain ⟨rfl, hfe⟩ := List.append_inj' hes rfl
      cases hfe
      exact run_deterministic S hr hf ▸ ht
    · rw [List.concat_eq_append, ← List.cons_append, ← List.append_assoc] at hes
      exact h fs f gs' u (List.append_inj' hes rfl).1 hf

theorem restrict_guarded {C : σ → ε → Prop} {s t : σ} {es : List ε}
    (hr : Run (restrict S C) s es t) : Guarded S C s es := by
  induction hr with
  | nil => exact guarded_nil S
  | snoc hr he _ ih => exact (guarded_snoc S (run_of_restrict S hr)).mpr ⟨ih, he.2⟩

theorem guarded_of_append {C : σ → ε → Prop} {s : σ} {es fs : List ε}
    (h : Guarded S C s (es ++ fs)) : Guarded S C s es := by
  intro gs e hs t hes hr
  exact h gs e (hs ++ fs) t (by simp [hes]) hr

/-- The events of a run were offered. -/
theorem guarded_enabled {s t : σ} {es : List ε} (hr : Run S s es t) : Guarded S S.enabled s es := by
  induction hr with
  | nil => exact guarded_nil S
  | snoc hr he _ ih => exact (guarded_snoc S hr).mpr ⟨ih, he⟩

/-- Where every step keeps `I`, and two guards agree on what is offered under `I`, they agree on
events that are offered as long as they execute. -/
theorem guarded_congr_of_keeps {I : σ → Prop} {C D : σ → ε → Prop}
    (h : ∀ s e t, I s → S.enabled s e → S.step s e = .ok t → I t)
    (hCD : ∀ s e, I s → S.enabled s e → (C s e ↔ D s e)) {s : σ} {es : List ε} (hs : I s)
    (hoffered : Guarded S S.enabled s es) : Guarded S C s es ↔ Guarded S D s es := by
  have hpoint : ∀ fs e gs t, es = fs ++ e :: gs → Run S s fs t → (C t e ↔ D t e) := by
    intro fs e gs t hes hr
    exact hCD t e (run_keeps S h hs hr) (hoffered fs e gs t hes hr)
  constructor
  · intro hC fs e gs t hes hr
    exact (hpoint fs e gs t hes hr).mp (hC fs e gs t hes hr)
  · intro hD fs e gs t hes hr
    exact (hpoint fs e gs t hes hr).mpr (hD fs e gs t hes hr)

theorem guarded_congr {I : σ → Prop} {C D : σ → ε → Prop} (h : Invariant S I)
    (hCD : ∀ s e, I s → S.enabled s e → (C s e ↔ D s e)) {s : σ} {es : List ε} (hs : S.init s)
    (hoffered : Guarded S S.enabled s es) : Guarded S C s es ↔ Guarded S D s es :=
  guarded_congr_of_keeps S h.step hCD (h.init s hs) hoffered

/-- A property that holds initially and that every successful step keeps that meets `C`. -/
structure GuardedInvariant (I : σ → Prop) (C : σ → ε → Prop) : Prop where
  init : ∀ s, S.init s → I s
  keeps : ∀ s e t, I s → C s e → S.enabled s e → S.step s e = .ok t → I t

theorem GuardedInvariant.run {I : σ → Prop} {C : σ → ε → Prop} (h : GuardedInvariant S I C)
    {s t : σ} {es : List ε} (hs : S.init s) (hr : Run S s es t) (hg : Guarded S C s es) : I t := by
  induction hr with
  | nil => exact h.init _ hs
  | snoc hr he hst ih =>
    obtain ⟨hg, hC⟩ := (guarded_snoc S hr).mp hg
    exact h.keeps _ _ _ (ih hg) hC he hst

theorem GuardedInvariant.throughout {I P : σ → Prop} {C : σ → ε → Prop}
    (h : GuardedInvariant S I C) (hP : ∀ s, I s → P s) {s : σ} {es : List ε} (hs : S.init s)
    (hg : Guarded S C s es) : Throughout S P s es := by
  intro fs gs t hes hr
  rw [hes] at hg
  exact hP t (h.run S hs hr (guarded_of_append S hg))

/-- Where the invariant of `C` implies `D`, events that are offered, and meet `C`, meet `D`, the
last one included, which need not succeed. -/
theorem GuardedInvariant.guarded {I : σ → Prop} {C D : σ → ε → Prop} (h : GuardedInvariant S I C)
    (hD : ∀ s e, I s → S.enabled s e → C s e → D s e) {s : σ} {es : List ε} (hs : S.init s)
    (hoffered : Guarded S S.enabled s es) (hC : Guarded S C s es) : Guarded S D s es := by
  intro fs e gs t hes hr
  have hfs : Guarded S C s fs := by
    rw [hes] at hC
    exact guarded_of_append S hC
  exact hD t e (h.run S hs hr hfs) (hoffered fs e gs t hes hr) (hC fs e gs t hes hr)

/-- The exact guard of a property: steps that meet `C` keep an `I` that implies `P`,
and a step that misses `C` leads from a state with `I` to one without `P`. -/
structure ExactGuard (I P : σ → Prop) (C : σ → ε → Prop) : Prop where
  init : ∀ s, S.init s → I s
  sound : ∀ s, I s → P s
  keeps : ∀ s e t, I s → C s e → S.enabled s e → S.step s e = .ok t → I t
  breaks : ∀ s e t, I s → ¬C s e → S.enabled s e → S.step s e = .ok t → ¬P t

theorem ExactGuard.guardedInvariant {I P : σ → Prop} {C : σ → ε → Prop}
    (h : ExactGuard S I P C) : GuardedInvariant S I C := ⟨h.init, h.keeps⟩

/-- A run keeps `P` throughout exactly when each of its steps meets the guard. -/
theorem ExactGuard.throughout_iff {I P : σ → Prop} {C : σ → ε → Prop}
    (h : ExactGuard S I P C) {s t : σ} {es : List ε} (hs : S.init s) (hr : Run S s es t) :
    Throughout S P s es ↔ Guarded S C s es := by
  induction hr with
  | nil => exact iff_of_true ((throughout_nil S).mpr (h.sound _ (h.init _ hs))) (guarded_nil S)
  | @snoc t u es e hr he hst ih =>
    rw [throughout_snoc S (.snoc hr he hst), guarded_snoc S hr, ih]
    apply and_congr_right
    intro hg
    have hI : I t := h.guardedInvariant.run S hs hr hg
    constructor
    · intro hu
      by_contra hC
      exact h.breaks t e u hI hC he hst hu
    · intro hC
      exact h.sound u (h.keeps t e u hI hC he hst)

/-- Steps that meet `C` keep `I`, a step that misses `C` leads from `I` to `J`, and every
step keeps `J`. -/
structure Dichotomy (I J : σ → Prop) (C : σ → ε → Prop) : Prop where
  init : ∀ s, S.init s → I s
  keeps : ∀ s e t, I s → C s e → S.enabled s e → S.step s e = .ok t → I t
  falls : ∀ s e t, I s → ¬C s e → S.enabled s e → S.step s e = .ok t → J t
  stays : ∀ s e t, J s → S.enabled s e → S.step s e = .ok t → J t

theorem Dichotomy.guardedInvariant {I J : σ → Prop} {C : σ → ε → Prop} (h : Dichotomy S I J C) :
    GuardedInvariant S I C := ⟨h.init, h.keeps⟩

/-- A run that is not guarded ends in `J`. -/
theorem Dichotomy.run {I J : σ → Prop} {C : σ → ε → Prop} (h : Dichotomy S I J C) {s t : σ}
    {es : List ε} (hs : S.init s) (hr : Run S s es t) (hnot : ¬Guarded S C s es) : J t := by
  induction hr with
  | nil => exact absurd (guarded_nil S) hnot
  | @snoc t u es e hr he hst ih =>
    rw [guarded_snoc S hr] at hnot
    by_cases hg : Guarded S C s es
    · have hI : I t := h.guardedInvariant.run S hs hr hg
      exact h.falls t e u hI (fun hC => hnot ⟨hg, hC⟩) he hst
    · exact h.stays t e u (ih hg) he hst

/-- Execute all events; the result is the failed assertion if a step fails. -/
def exec : σ → List ε → Except φ σ
  | s, [] => .ok s
  | s, e :: es => match S.step s e with
    | .ok t => exec t es
    | .error a => .error a

theorem exec_append (s : σ) (es fs : List ε) :
    exec S s (es ++ fs) = (match exec S s es with
      | .ok t => exec S t fs
      | .error a => .error a) := by
  induction es generalizing s with
  | nil => rfl
  | cons e es ih =>
    simp only [List.cons_append, exec]
    cases S.step s e with
    | ok t => exact ih t
    | error a => rfl

/-- After events that execute, one more event is one more step. -/
theorem exec_snoc {s t : σ} {es : List ε} (h : exec S s es = .ok t) (e : ε) :
    exec S s (es ++ [e]) = S.step t e := by
  rw [exec_append, h]
  simp only [exec]
  cases S.step t e with
  | ok u => rfl
  | error a => rfl

theorem run_of_exec (hen : ∀ s e, S.enabled s e) {s t : σ} {es : List ε}
    (h : exec S s es = .ok t) : Run S s es t := by
  induction es generalizing s with
  | nil => rw [← Except.ok.inj h]; exact .nil s
  | cons e es ih =>
    simp only [exec] at h
    cases hs : S.step s e with
    | ok u => rw [hs] at h; exact run_cons S (hen s e) hs (ih h)
    | error a => rw [hs] at h; cases h

/-- Execute the events that are offered; `none` if one is not, or fails. -/
def replay [∀ s e, Decidable (S.enabled s e)] : σ → List ε → Option σ
  | s, [] => some s
  | s, e :: es => if S.enabled s e then (S.step s e).toOption.bind fun t => replay t es else none

theorem run_of_replay [∀ s e, Decidable (S.enabled s e)] {s t : σ} {es : List ε}
    (h : replay S s es = some t) : Run S s es t := by
  induction es generalizing s with
  | nil => rw [← Option.some.inj h]; exact .nil s
  | cons e es ih =>
    simp only [replay] at h
    split at h
    · rename_i he
      cases hs : S.step s e with
      | ok u => rw [hs] at h; exact run_cons S he hs (ih h)
      | error a => rw [hs] at h; cases h
    · cases h

/-- A replayed run whose last state passes the test `p`. -/
theorem exists_run_of_replay [∀ s e, Decidable (S.enabled s e)] {p : σ → Bool} {s : σ}
    {es : List ε} (h : (replay S s es).any p = true) : ∃ t, Run S s es t ∧ p t = true := by
  cases hr : replay S s es with
  | none => simp [hr] at h
  | some t => exact ⟨t, run_of_replay S hr, by simpa [hr] using h⟩

section ExactFailure
variable {I : σ → Prop} {C : σ → ε → Prop} {a : φ} (hen : ∀ s e, S.enabled s e)
  (hok : ∀ s e, I s → C s e → ∃ t, S.step s e = .ok t ∧ I t)
  (herr : ∀ s e, I s → ¬C s e → S.step s e = .error a)
include hen hok

/-- Where every event is offered, events that meet `C` execute to their end. -/
theorem exec_ok_of_guarded {s : σ} (hs : I s) {es : List ε} (hg : Guarded S C s es) :
    ∃ t, exec S s es = .ok t ∧ I t := by
  induction es using List.reverseRecOn with
  | nil => exact ⟨s, rfl, hs⟩
  | append_singleton es e ih =>
    have hg' : Guarded S C s es := fun fs f gs u hes hf => hg fs f (gs ++ [e]) u (by simp [hes]) hf
    obtain ⟨t, ht, hI⟩ := ih hg'
    have hC := ((guarded_snoc S (run_of_exec S hen ht)).mp hg).2
    obtain ⟨u, hu, hIu⟩ := hok t e hI hC
    exact ⟨u, by rw [exec_snoc S ht, hu], hIu⟩

include herr

/-- Where moreover a step that misses `C` fails with `a`, so do the events. -/
theorem exec_error_of_not_guarded {s : σ} (hs : I s) {es : List ε} (hg : ¬Guarded S C s es) :
    exec S s es = .error a := by
  induction es using List.reverseRecOn with
  | nil => exact absurd (guarded_nil S) hg
  | append_singleton es e ih =>
    by_cases hg' : Guarded S C s es
    · obtain ⟨t, ht, hI⟩ := exec_ok_of_guarded S hen hok hs hg'
      have hr := run_of_exec S hen ht
      rw [guarded_snoc S hr, not_and] at hg
      rw [exec_snoc S ht]
      exact herr t e hI (hg hg')
    · rw [exec_append, ih hg']

end ExactFailure

end StepSystem

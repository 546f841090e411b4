import Mathlib.Data.List.Perm.Basic
import Mathlib.Data.List.Nodup
import Mathlib.Tactic.Common

/-!
# Exact covers

Options that each take up some columns. A selection covers the columns exactly when every column
is taken up once. The choice of a column with which a search begins does not matter: some option
of the selection takes it up, and the others cover what that option leaves.
-/
namespace ExactCover

variable {ι κ : Type*} {cols : ι → List κ} {A B : List κ} {sel rest : List ι} {o : ι} {c : κ}

/-- The options `sel` take up each of the columns `A` once, and no other column. -/
def IsCover (cols : ι → List κ) (A : List κ) (sel : List ι) : Prop := (sel.flatMap cols).Perm A

theorem isCover_nil : IsCover cols [] [] := List.Perm.refl []

theorem IsCover.columns_perm (h : IsCover cols A sel) (hAB : A.Perm B) : IsCover cols B sel :=
  List.Perm.trans h hAB

theorem IsCover.perm (h : IsCover cols A sel) (hsel : sel.Perm rest) : IsCover cols A rest :=
  (hsel.flatMap_right cols).symm.trans h

theorem isCover_cons : IsCover cols (cols o ++ B) (o :: rest) ↔ IsCover cols B rest := by
  rw [IsCover, List.flatMap_cons, List.perm_append_left_iff]
  rfl

section
variable [DecidableEq κ]

/-- What is left of the columns after those of an option have been taken out. -/
theorem perm_append_diff (hnodup : B.Nodup) (hsub : ∀ c ∈ B, c ∈ A) :
    A.Perm (B ++ A.diff B) := by
  induction B generalizing A with
  | nil => simp
  | cons b B ih =>
    obtain ⟨hb, hnodup⟩ := List.nodup_cons.mp hnodup
    rw [List.diff_cons]
    have hsub' : ∀ c ∈ B, c ∈ A.erase b := by
      intro c hc
      have hcb : c ≠ b := fun heq => hb (heq ▸ hc)
      exact (List.mem_erase_of_ne hcb).mpr (hsub c (List.mem_cons_of_mem b hc))
    exact (List.perm_cons_erase (hsub b (by simp))).trans ((ih hnodup hsub').cons b)

theorem IsCover.cons (h : IsCover cols (A.diff (cols o)) rest) (hnodup : (cols o).Nodup)
    (hsub : ∀ c ∈ cols o, c ∈ A) : IsCover cols A (o :: rest) :=
  (isCover_cons.mpr h).columns_perm (perm_append_diff hnodup hsub).symm

/-- Some option takes up the column `c`, and the others cover what it leaves. -/
theorem IsCover.exists_option (h : IsCover cols A sel) (hA : A.Nodup) (hc : c ∈ A) :
    ∃ o ∈ sel, c ∈ cols o ∧ (∀ d ∈ cols o, d ∈ A) ∧
      ∃ rest, (∀ p ∈ rest, p ∈ sel) ∧ IsCover cols (A.diff (cols o)) rest := by
  obtain ⟨o, ho, hco⟩ := List.mem_flatMap.mp (h.mem_iff.mpr hc)
  obtain ⟨front, back, hsel⟩ := List.append_of_mem ho
  have hperm : sel.Perm (o :: (front ++ back)) := by
    rw [hsel]
    exact List.perm_middle
  have hcover : (cols o ++ (front ++ back).flatMap cols).Perm A := h.perm hperm
  have hsub : ∀ d ∈ cols o, d ∈ A := fun d hd =>
    hcover.mem_iff.mp (List.mem_append_left _ hd)
  have hnodup : (cols o).Nodup := (List.nodup_append.mp (hcover.nodup_iff.mpr hA)).1
  have hrest := hcover.trans (perm_append_diff hnodup hsub)
  refine ⟨o, ho, hco, hsub, front ++ back, ?_, (List.perm_append_left_iff _).mp hrest⟩
  intro p hp
  rw [hsel]
  rcases List.mem_append.mp hp with hp | hp
  · exact List.mem_append_left _ hp
  · exact List.mem_append_right _ (List.mem_cons_of_mem o hp)

end
end ExactCover

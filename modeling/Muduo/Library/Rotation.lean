import Mathlib.Data.List.Basic
import Mathlib.Tactic.Common

/-!
# Rotated logs

A log is kept in several files, one after the other. `Whole records files` says that the
files hold the records in order, and each record in one file.
-/
namespace Rotation

variable {α : Type*} {records : List (List α)} {files : List (List α)} {file : List α}

def Whole (records files : List (List α)) : Prop :=
  ∃ groups : List (List (List α)), groups.flatten = records ∧ files = groups.map List.flatten

theorem whole_nil : Whole ([] : List (List α)) [] := ⟨[], rfl, rfl⟩

theorem Whole.rotate (h : Whole records files) : Whole records (files ++ [[]]) := by
  obtain ⟨groups, rfl, rfl⟩ := h
  exact ⟨groups ++ [[]], by simp, by simp⟩

theorem Whole.append (h : Whole records (files ++ [file])) (record : List α) :
    Whole (records ++ [record]) (files ++ [file ++ record]) := by
  obtain ⟨groups, rfl, hfiles⟩ := h
  obtain ⟨front, rest, rfl, hfront, hrest⟩ := List.map_eq_append_iff.mp hfiles.symm
  obtain ⟨last, rfl, hlast⟩ := List.map_eq_singleton_iff.mp hrest
  refine ⟨front ++ [last ++ [record]], by simp, ?_⟩
  rw [List.map_append, hfront, List.map_singleton, List.flatten_append, hlast]
  simp

/-- The files are the records. -/
theorem Whole.flatten (h : Whole records files) : files.flatten = records.flatten := by
  obtain ⟨groups, rfl, rfl⟩ := h
  exact List.flatten_flatten.symm

end Rotation

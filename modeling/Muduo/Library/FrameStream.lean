import Mathlib.Data.List.Basic
import Mathlib.Tactic.Common

/-!
# Streams of frames

A stream is the concatenation of frames, and a reader has received the front of it: a number
of whole frames, and the beginning of the next.
-/
namespace FrameStream

variable {α : Type*}

/-- `tail` is a beginning of the first of `frames`, but not all of it; where there is no frame
it is empty. -/
def Front (tail : List α) : List (List α) → Prop
  | [] => tail = []
  | frame :: _ => tail <+: frame ∧ tail ≠ frame

theorem front_nil {frames : List (List α)} (h : ∀ frame ∈ frames, frame ≠ []) :
    Front [] frames := by
  cases frames with
  | nil => rfl
  | cons frame frames => exact ⟨List.nil_prefix, (h frame List.mem_cons_self).symm⟩

theorem Front.length_lt {tail frame : List α} {frames : List (List α)}
    (h : Front tail (frame :: frames)) : tail.length < frame.length := by
  have hle : tail.length ≤ frame.length := h.1.length_le
  have hne : tail.length ≠ frame.length := fun heq => h.2 (h.1.eq_of_length heq)
  omega

/-- A beginning that is all that is left is nothing. -/
theorem Front.eq_nil {tail : List α} {frames : List (List α)} (h : Front tail frames)
    (hall : tail = frames.flatten) : frames = [] := by
  cases frames with
  | nil => rfl
  | cons frame frames =>
    have hlt : tail.length < frame.length := h.length_lt
    rw [hall, List.flatten_cons, List.length_append] at hlt
    omega

/-- The front of a stream is cut into whole frames and the beginning of the next. -/
theorem exists_cut {frames : List (List α)} (hne : ∀ frame ∈ frames, frame ≠ [])
    {received : List α} (h : received <+: frames.flatten) :
    ∃ done rest tail, frames = done ++ rest ∧ received = done.flatten ++ tail ∧
      Front tail rest := by
  induction frames generalizing received with
  | nil =>
    have hnil : received = [] := by simpa using h
    exact ⟨[], [], [], rfl, by simpa using hnil, rfl⟩
  | cons frame frames ih =>
    by_cases hle : frame.length ≤ received.length
    · have hframe : frame <+: received :=
        List.prefix_of_prefix_length_le (List.prefix_append frame frames.flatten) h hle
      obtain ⟨received', rfl⟩ := hframe
      have hrest : received' <+: frames.flatten := by
        rw [List.flatten_cons] at h
        exact (List.prefix_append_right_inj frame).mp h
      obtain ⟨done, rest, tail, hframes, hreceived, hfront⟩ :=
        ih (fun f hf => hne f (List.mem_cons_of_mem _ hf)) hrest
      refine ⟨frame :: done, rest, tail, ?_, ?_, hfront⟩
      · rw [hframes, List.cons_append]
      · rw [hreceived, List.flatten_cons, List.append_assoc]
    · have hprefix : received <+: frame :=
        List.prefix_of_prefix_length_le h (List.prefix_append frame frames.flatten) (by omega)
      refine ⟨[], frame :: frames, received, rfl, rfl, hprefix, ?_⟩
      rintro rfl
      omega

end FrameStream

import Mathlib.Data.List.Chain
import Mathlib.Data.List.Nodup
import Mathlib.Logic.Function.Basic
import Mathlib.Tactic.Common

/-!
# Rings of cells

Cells linked in both directions to a ring around a sentinel, as in the circular doubly linked
lists of C. A cell that is unlinked keeps its own links, so linking it in again between the
same neighbours gives the memory back exactly as it was.
-/
namespace Ring

variable {α : Type*} {next prev next' prev' : α → α} {h x y : α} {xs ys as bs : List α}

/-- From `a` the next cell is `b`, and from `b` the previous one is `a`. -/
def Linked (next prev : α → α) (a b : α) : Prop := next a = b ∧ prev b = a

/-- Once around from the sentinel `h` stand the cells `xs`. -/
structure IsRing (next prev : α → α) (h : α) (xs : List α) : Prop where
  nodup : (h :: xs).Nodup
  linked : (h :: (xs ++ [h])).IsChain (Linked next prev)

theorem isRing_nil : IsRing next prev h [] ↔ next h = h ∧ prev h = h := by
  constructor
  · intro hr
    simpa [Linked] using hr.linked
  · intro hl
    exact ⟨List.nodup_singleton h, by simpa [Linked] using hl⟩

theorem isRing_cons : IsRing next prev h (x :: xs) ↔
    (h :: x :: xs).Nodup ∧ Linked next prev h x ∧ (x :: (xs ++ [h])).IsChain (Linked next prev) := by
  constructor
  · intro hr
    exact ⟨hr.nodup, List.isChain_cons_cons.mp hr.linked⟩
  · intro hr
    exact ⟨hr.1, List.isChain_cons_cons.mpr hr.2⟩

/-- The ring as it is seen in the other direction. -/
theorem IsRing.reverse (hr : IsRing next prev h xs) : IsRing prev next h xs.reverse where
  nodup := by simpa using hr.nodup
  linked := by
    have hlist : h :: (xs.reverse ++ [h]) = (h :: (xs ++ [h])).reverse := by simp
    rw [hlist, List.isChain_reverse]
    exact hr.linked.imp fun _ _ hl => ⟨hl.2, hl.1⟩

/-- Any cell of the ring may be taken for its sentinel. -/
theorem IsRing.rotate (hr : IsRing next prev h (as ++ x :: bs)) :
    IsRing next prev x (bs ++ h :: as) where
  nodup := by
    have hperm : (h :: (as ++ x :: bs)).Perm (x :: (bs ++ h :: as)) := by
      have hap : (h :: as ++ x :: bs).Perm (x :: bs ++ h :: as) := List.perm_append_comm
      exact hap
    exact hperm.nodup_iff.mp hr.nodup
  linked := by
    have hl := hr.linked
    rw [List.append_assoc, List.cons_append, ← List.cons_append, List.isChain_split] at hl
    obtain ⟨hfront, hback⟩ := hl
    rw [List.append_assoc, List.cons_append, ← List.cons_append, List.isChain_split]
    exact ⟨hback, hfront⟩

/-- On the way from `y` to `h`, `next` is read at all cells but the last and `prev` at all but
the first. -/
theorem chain_congr (hc : (y :: (ys ++ [h])).IsChain (Linked next prev))
    (hn : ∀ p ∈ y :: ys, next' p = next p) (hp : ∀ p ∈ ys ++ [h], prev' p = prev p) :
    (y :: (ys ++ [h])).IsChain (Linked next' prev') := by
  induction ys generalizing y with
  | nil =>
    obtain ⟨hyh, hhy⟩ : Linked next prev y h := by simpa using hc
    have hl : Linked next' prev' y h :=
      ⟨by rw [hn y (by simp), hyh], by rw [hp h (by simp), hhy]⟩
    simpa using hl
  | cons z zs ih =>
    obtain ⟨⟨hyz, hzy⟩, hc⟩ := List.isChain_cons_cons.mp hc
    have hl : Linked next' prev' y z :=
      ⟨by rw [hn y (by simp), hyz], by rw [hp z (by simp), hzy]⟩
    have hrest := ih hc (fun p hmem => hn p (List.mem_cons_of_mem y hmem))
      (fun p hmem => hp p (List.mem_cons_of_mem z hmem))
    exact List.isChain_cons_cons.mpr ⟨hl, hrest⟩

theorem IsRing.congr (hr : IsRing next prev h xs) (hn : ∀ p ∈ h :: xs, next' p = next p)
    (hp : ∀ p ∈ h :: xs, prev' p = prev p) : IsRing next' prev' h xs where
  nodup := hr.nodup
  linked := chain_congr hr.linked hn fun p hmem => hp p (by simpa [or_comm] using hmem)

theorem IsRing.next_sentinel (hr : IsRing next prev h xs) : next h = xs.headD h := by
  cases xs with
  | nil => exact (isRing_nil.mp hr).1
  | cons x xs => exact (isRing_cons.mp hr).2.1.1

theorem IsRing.next_cell (hr : IsRing next prev h (as ++ x :: bs)) : next x = bs.headD h := by
  cases bs with
  | nil => simpa using hr.rotate.next_sentinel
  | cons b bs => simpa using hr.rotate.next_sentinel

/-- Two cells that follow each other, the sentinel being one of them or not. -/
theorem IsRing.next_of_split (hr : IsRing next prev h xs) (hxs : h :: xs = as ++ x :: y :: bs) :
    next x = y := by
  cases as with
  | nil =>
    simp only [List.nil_append, List.cons.injEq] at hxs
    obtain ⟨rfl, rfl⟩ := hxs
    exact hr.next_sentinel
  | cons a as =>
    simp only [List.cons_append, List.cons.injEq] at hxs
    rw [hxs.2] at hr
    exact hr.next_cell

theorem IsRing.next_mem (hr : IsRing next prev h xs) (hx : x ∈ h :: xs) : next x ∈ h :: xs := by
  rcases List.mem_cons.mp hx with rfl | hx
  · rw [hr.next_sentinel]
    cases xs with
    | nil => simp
    | cons y ys => simp
  · obtain ⟨as, bs, rfl⟩ := List.append_of_mem hx
    rw [hr.next_cell]
    cases bs with
    | nil => simp
    | cons b bs => simp

theorem IsRing.prev_mem (hr : IsRing next prev h xs) (hx : x ∈ h :: xs) : prev x ∈ h :: xs := by
  have hx' : x ∈ h :: xs.reverse := by simpa using hx
  simpa using hr.reverse.next_mem hx'

theorem IsRing.prev_next (hr : IsRing next prev h xs) (hx : x ∈ h :: xs) :
    prev (next x) = x := by
  have hpair : ∀ {h xs}, IsRing next prev h xs → prev (next h) = h := by
    intro h xs hr
    cases xs with
    | nil =>
      obtain ⟨hn, hp⟩ := isRing_nil.mp hr
      rw [hn, hp]
    | cons y ys =>
      obtain ⟨hn, hp⟩ := (isRing_cons.mp hr).2.1
      rw [hn, hp]
  rcases List.mem_cons.mp hx with rfl | hx
  · exact hpair hr
  · obtain ⟨as, bs, rfl⟩ := List.append_of_mem hx
    exact hpair hr.rotate

theorem IsRing.next_prev (hr : IsRing next prev h xs) (hx : x ∈ h :: xs) :
    next (prev x) = x := by
  have hx' : x ∈ h :: xs.reverse := by simpa using hx
  exact hr.reverse.prev_next hx'

theorem IsRing.next_ne (hr : IsRing next prev h xs) (hx : x ∈ xs) : next x ≠ x := by
  obtain ⟨as, bs, rfl⟩ := List.append_of_mem hx
  have hnodup := hr.rotate.nodup
  have hnext := hr.rotate.next_sentinel
  intro heq
  cases bs with
  | nil =>
    rw [heq] at hnext
    simp only [List.nil_append, List.headD_cons] at hnext
    simp [hnext] at hnodup
  | cons b bs =>
    rw [heq] at hnext
    simp only [List.cons_append, List.headD_cons] at hnext
    simp [hnext] at hnodup

theorem IsRing.prev_ne (hr : IsRing next prev h xs) (hx : x ∈ xs) : prev x ≠ x :=
  hr.reverse.next_ne (List.mem_reverse.mpr hx)

section Update
variable [DecidableEq α]

/-- `next` after the cell `x` has been unlinked. -/
def unlinkNext (next prev : α → α) (x : α) : α → α := Function.update next (prev x) (next x)

/-- `prev` after the cell `x` has been unlinked. -/
def unlinkPrev (next prev : α → α) (x : α) : α → α := Function.update prev (next x) (prev x)

/-- `next` after the cell `x` has been linked in between the neighbours it remembers. -/
def relinkNext (next prev : α → α) (x : α) : α → α := Function.update next (prev x) x

/-- `prev` after the cell `x` has been linked in between the neighbours it remembers. -/
def relinkPrev (next prev : α → α) (x : α) : α → α := Function.update prev (next x) x

/-- The cell after the sentinel is unlinked. -/
theorem IsRing.unlink_first (hr : IsRing next prev h (x :: xs)) :
    IsRing (unlinkNext next prev x) (unlinkPrev next prev x) h xs := by
  obtain ⟨hnodup, ⟨-, hp⟩, hchain⟩ := isRing_cons.mp hr
  unfold unlinkNext unlinkPrev
  rw [hp]
  cases xs with
  | nil =>
    have hn : next x = h := (by simpa [Linked] using hchain : next x = h ∧ prev h = x).1
    rw [hn]
    exact isRing_nil.mpr ⟨Function.update_self .., Function.update_self ..⟩
  | cons y ys =>
    obtain ⟨⟨hn, -⟩, hchain⟩ := List.isChain_cons_cons.mp hchain
    rw [hn]
    have hnodup' : (h :: y :: ys).Nodup := by
      rw [List.nodup_cons, List.nodup_cons] at hnodup
      exact List.nodup_cons.mpr ⟨fun hmem => hnodup.1 (List.mem_cons_of_mem x hmem), hnodup.2.2⟩
    have hchain' : (y :: (ys ++ [h])).IsChain
        (Linked (Function.update next h y) (Function.update prev y h)) := by
      -- the two links that were written are not read on the way from `y` to the sentinel
      apply chain_congr hchain
      · intro p hmem
        apply Function.update_of_ne
        intro heq
        exact (List.nodup_cons.mp hnodup').1 (heq ▸ hmem)
      · intro p hmem
        apply Function.update_of_ne
        intro heq
        subst heq
        rcases List.mem_append.mp hmem with hmem | hmem
        · exact (List.nodup_cons.mp (List.nodup_cons.mp hnodup').2).1 hmem
        · rw [List.mem_singleton.mp hmem] at hnodup'
          simp at hnodup'
    exact isRing_cons.mpr
      ⟨hnodup', ⟨Function.update_self .., Function.update_self ..⟩, hchain'⟩

/-- Unlinking a cell takes it out of the ring. -/
theorem IsRing.unlink (hr : IsRing next prev h xs) (hx : x ∈ xs) :
    IsRing (unlinkNext next prev x) (unlinkPrev next prev x) h (xs.erase x) := by
  obtain ⟨as, bs, hnot, hxs, herase⟩ := List.exists_erase_eq hx
  rw [herase]
  subst hxs
  rcases List.eq_nil_or_concat as with has | ⟨as', a, has⟩
  · subst has
    exact hr.unlink_first
  · rw [has, List.concat_eq_append, List.append_assoc, List.singleton_append] at hr ⊢
    -- seen from its predecessor, the cell is the first one
    have hfirst : IsRing (unlinkNext next prev x) (unlinkPrev next prev x) a (bs ++ h :: as') :=
      hr.rotate.unlink_first
    exact hfirst.rotate

/-- Linking an unlinked cell in again undoes the writes of both. -/
theorem relinkNext_unlink (hr : IsRing next prev h xs) (hx : x ∈ xs) :
    relinkNext (unlinkNext next prev x) (unlinkPrev next prev x) x = next := by
  have hprev : unlinkPrev next prev x x = prev x :=
    Function.update_of_ne (hr.next_ne hx).symm ..
  unfold relinkNext
  rw [hprev, unlinkNext, Function.update_idem]
  exact Function.update_eq_self_iff.mpr (hr.next_prev (List.mem_cons_of_mem h hx)).symm

theorem relinkPrev_unlink (hr : IsRing next prev h xs) (hx : x ∈ xs) :
    relinkPrev (unlinkNext next prev x) (unlinkPrev next prev x) x = prev := by
  have hnext : unlinkNext next prev x x = next x :=
    Function.update_of_ne (hr.prev_ne hx).symm ..
  unfold relinkPrev
  rw [hnext, unlinkPrev, Function.update_idem]
  exact Function.update_eq_self_iff.mpr (hr.prev_next (List.mem_cons_of_mem h hx)).symm

/-- A cell is linked in after the sentinel. -/
theorem IsRing.insert_first (hr : IsRing next prev h xs) (hx : x ∉ h :: xs) :
    IsRing (Function.update (Function.update next x (next h)) h x)
      (Function.update (Function.update prev x h) (next h) x) h (x :: xs) := by
  have hxh : x ≠ h := fun heq => hx (by simp [heq])
  have hmem : next h ∈ h :: xs := hr.next_mem (by simp)
  have hxn : x ≠ next h := fun heq => hx (heq ▸ hmem)
  have hnodup : (h :: x :: xs).Nodup := by
    have hn := hr.nodup
    simp_all [List.nodup_cons, eq_comm]
  refine isRing_cons.mpr ⟨hnodup, ⟨by simp, by simp [hxn]⟩, ?_⟩
  cases xs with
  | nil =>
    have hn : next h = h := (isRing_nil.mp hr).1
    simp [Linked, hn, hxh]
  | cons y ys =>
    obtain ⟨hold, ⟨hn, -⟩, hchain⟩ := isRing_cons.mp hr
    rw [hn]
    have hl : Linked (Function.update (Function.update next x y) h x)
        (Function.update (Function.update prev x h) y x) x y :=
      ⟨by simp [hxh], by simp⟩
    refine List.isChain_cons_cons.mpr ⟨hl, ?_⟩
    apply chain_congr hchain
    · intro p hp
      have hph : p ≠ h := fun heq => (List.nodup_cons.mp hold).1 (heq ▸ hp)
      have hpx : p ≠ x := fun heq => hx (List.mem_cons_of_mem h (heq ▸ hp))
      rw [Function.update_of_ne hph, Function.update_of_ne hpx]
    · intro p hp
      have hpx : p ≠ x := by
        intro heq
        apply hx
        subst heq
        rcases List.mem_append.mp hp with hp | hp
        · simp [hp]
        · simp [List.mem_singleton.mp hp]
      have hpy : p ≠ y := by
        intro heq
        subst heq
        rcases List.mem_append.mp hp with hp | hp
        · exact (List.nodup_cons.mp (List.nodup_cons.mp hold).2).1 hp
        · rw [List.mem_singleton.mp hp] at hold
          simp at hold
      rw [Function.update_of_ne hpy, Function.update_of_ne hpx]

/-- A cell is linked in before the sentinel. -/
theorem IsRing.insert_last (hr : IsRing next prev h xs) (hx : x ∉ h :: xs) :
    IsRing (Function.update (Function.update next x h) (prev h) x)
      (Function.update (Function.update prev x (prev h)) h x) h (xs ++ [x]) := by
  have hx' : x ∉ h :: xs.reverse := by simpa using hx
  simpa using (hr.reverse.insert_first hx').reverse

end Update

section Loop
variable {σ : Type*}

/-- `for (p = ..; p != stop; p = step(p)) body(p)`, with at most `n` tests of the condition. The
links that `step` follows are read in the state that the body leaves. -/
def forLoop (step : σ → α → α) (stop : α) [DecidableEq α] (body : σ → α → Option σ) :
    ℕ → σ → α → Option σ
  | 0, _, _ => none
  | n + 1, s, p => if p = stop then some s else do
    let t ← body s p
    forLoop step stop body n t (step t p)

/-- The rule of total correctness: `I` speaks of the cells still to come. -/
theorem forLoop_rule [DecidableEq α] (step : σ → α → α) (stop : α) (body : σ → α → Option σ)
    (I : List α → σ → Prop) (ps : List α) (s : σ)
    (hI : ∀ p ps s, I (p :: ps) s → p ≠ stop ∧
      ∃ t, body s p = some t ∧ I ps t ∧ step t p = ps.headD stop)
    {n : ℕ} (hs : I ps s) (hn : ps.length < n) :
    ∃ t, forLoop step stop body n s (ps.headD stop) = some t ∧ I [] t := by
  induction ps generalizing n s with
  | nil =>
    obtain ⟨n, rfl⟩ : ∃ m, n = m + 1 := ⟨n - 1, by simp at hn; omega⟩
    exact ⟨s, by simp [forLoop], hs⟩
  | cons p ps ih =>
    obtain ⟨n, rfl⟩ : ∃ m, n = m + 1 := ⟨n - 1, by simp at hn; omega⟩
    obtain ⟨hne, t, hbody, ht, hstep⟩ := hI p ps s hs
    obtain ⟨u, hu, hdone⟩ := ih t ht (by simpa using hn)
    refine ⟨u, ?_, hdone⟩
    rw [List.headD_cons, forLoop, if_neg hne, hbody, Option.bind_eq_bind, Option.bind_some, hstep]
    exact hu

/-- A body that writes none of the links of the ring is run once at each cell, in order. -/
theorem forLoop_ring [DecidableEq α] {step : σ → α → α} {f : σ → α → σ}
    (hkeep : ∀ s p, step (f s p) = step s) {s : σ} (hr : IsRing (step s) prev h xs) {n : ℕ}
    (hn : xs.length < n) :
    forLoop step h (fun s p => some (f s p)) n s (step s h) = some (xs.foldl f s) := by
  have hfold : ∀ ps s, step (List.foldl f s ps) = step s := by
    intro ps
    induction ps with
    | nil => exact fun _ => rfl
    | cons p ps ih => exact fun s => (ih (f s p)).trans (hkeep s p)
  obtain ⟨t, ht, done, hxs, heq⟩ := forLoop_rule step h (fun s p => some (f s p))
    (fun ps t => ∃ done, xs = done ++ ps ∧ t = done.foldl f s) xs s
    (by
      intro p ps t hall
      obtain ⟨done, hxs, ht⟩ := hall
      have hp : p ∈ xs := by simp [hxs]
      have hne : p ≠ h := fun heq => (List.nodup_cons.mp hr.nodup).1 (heq ▸ hp)
      refine ⟨hne, f t p, rfl, ⟨done ++ [p], by simp [hxs], by rw [ht, List.foldl_concat]⟩, ?_⟩
      rw [hkeep, ht, hfold]
      exact (hxs ▸ hr).next_cell) ⟨[], rfl, rfl⟩ hn
  rw [List.append_nil] at hxs
  rw [hr.next_sentinel, ht, heq, hxs]

end Loop

end Ring

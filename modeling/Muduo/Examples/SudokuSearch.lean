import Muduo.Examples.DancingLinks
import Muduo.Library.ExactCover

/-!
# The search

`solve` of the sudoku solver, over any matrix that the memory shows. It covers the columns of one
option after the other and takes them back when it fails. So it returns `true` with a selection of
options that covers every column exactly, or `false` with every byte of the solver as it was.
-/
namespace Muduo.Sudoku
open Ring ExactCover

namespace Matrix

variable {M : Matrix} {m m' : Nodes} {A : List Ptr} {c d i j r : Ptr} {ds : List Ptr}

section
variable (wf : M.Wf)
include wf

/-- Columns covered one after the other. -/
theorem Shows.coverAll (h : M.Shows m A) (hnodup : ds.Nodup) (hsub : ∀ d ∈ ds, d ∈ A) :
    ∃ m', ds.foldlM Nodes.cover m = some m' ∧ M.Shows m' (A.diff ds) := by
  induction ds generalizing m A with
  | nil => exact ⟨m, rfl, h⟩
  | cons d ds ih =>
    obtain ⟨hd, hnodup⟩ := List.nodup_cons.mp hnodup
    obtain ⟨m₁, hcover, h₁, -, -⟩ := h.cover_uncover wf (hsub d (by simp))
    have hsub' : ∀ e ∈ ds, e ∈ A.erase d := by
      intro e he
      have hed : e ≠ d := fun heq => hd (heq ▸ he)
      exact (List.mem_erase_of_ne hed).mpr (hsub e (List.mem_cons_of_mem d he))
    obtain ⟨m₂, hall, h₂⟩ := ih h₁ hnodup hsub'
    refine ⟨m₂, ?_, by rwa [List.diff_cons]⟩
    rw [List.foldlM_cons, hcover]
    exact hall

/-- One more column is covered, and `uncover` takes that back. -/
theorem Shows.coverAll_concat (h : M.Shows m A) (hnodup : (ds ++ [d]).Nodup)
    (hsub : ∀ e ∈ ds ++ [d], e ∈ A) (hall : ds.foldlM Nodes.cover m = some m') :
    ∃ m'', m'.cover d = some m'' ∧ (ds ++ [d]).foldlM Nodes.cover m = some m'' ∧
      m''.uncover d = some m' := by
  have hds : ds.Nodup := (List.nodup_append.mp hnodup).1
  have hd : d ∉ ds := fun hmem => List.disjoint_of_nodup_append hnodup hmem (by simp)
  obtain ⟨m₁, hall', h₁⟩ := h.coverAll wf hds fun e he => hsub e (by simp [he])
  have hm₁ : m₁ = m' := Option.some.inj (hall'.symm.trans hall)
  subst hm₁
  have hdA : d ∈ A.diff ds := (h.nodup.mem_sdiff_iff).mpr ⟨hsub d (by simp), hd⟩
  obtain ⟨m₂, hcover, -, -, huncover⟩ := h₁.cover_uncover wf hdA
  refine ⟨m₂, hcover, ?_, huncover⟩
  rw [List.foldlM_append, hall]
  simpa using hcover

variable (h : M.Shows m A) (hnodup : ((M.row r).map M.col).Nodup)
  (hsub : ∀ d ∈ (M.row r).map M.col, d ∈ A)
include h hnodup hsub

/-- Every first part of the row can be covered. -/
theorem Shows.coverMates {js : List Ptr} (hjs : js <+: M.row r) :
    ∃ m', (js.map M.col).foldlM Nodes.cover m = some m' ∧ M.Shows m' (A.diff (js.map M.col)) := by
  have hfront : js.map M.col <+: (M.row r).map M.col := hjs.map M.col
  exact h.coverAll wf (hnodup.sublist hfront.sublist) fun d hd => hsub d (hfront.subset hd)

theorem Shows.coverMates_concat {js : List Ptr} (hjs : js ++ [j] <+: M.row r)
    (hall : (js.map M.col).foldlM Nodes.cover m = some m') :
    ∃ m'', m'.cover (M.col j) = some m'' ∧
      ((js ++ [j]).map M.col).foldlM Nodes.cover m = some m'' ∧
      m''.uncover (M.col j) = some m' := by
  have hfront : (js ++ [j]).map M.col <+: (M.row r).map M.col := hjs.map M.col
  rw [List.map_append, List.map_singleton] at hfront ⊢
  exact h.coverAll_concat wf (hnodup.sublist hfront.sublist)
    (fun d hd => hsub d (hfront.subset hd)) hall

variable (hr : M.IsNode r)
include hr

/-- The loop of `solve` that covers the columns of the other nodes of a row. -/
theorem Shows.coverRow_loop : ∃ m',
    forLoop Nodes.right r (fun m j => m.cover (m.col j)) kMaxNodes m (m.right r) = some m' ∧
      ((M.row r).map M.col).foldlM Nodes.cover m = some m' := by
  have hring := h.rows r hr
  obtain ⟨m', hloop, done, hrow, hall⟩ := forLoop_rule Nodes.right r
    (fun m j => m.cover (m.col j))
    (fun js m' => ∃ done, M.row r = done ++ js ∧
      (done.map M.col).foldlM Nodes.cover m = some m') (M.row r) m
    (by
      intro j js m₁ hall'
      obtain ⟨done, hrow, hall⟩ := hall'
      have hrow' : M.row r = (done ++ [j]) ++ js := by simp [hrow]
      have hnot : j ≠ r := by
        intro heq
        exact (List.nodup_cons.mp hring.nodup).1 (by simp [hrow, heq])
      obtain ⟨m₂, hcover, hall₂, -⟩ :=
        h.coverMates_concat wf hnodup hsub ⟨js, hrow'.symm⟩ hall
      obtain ⟨m₁', hall', h₁⟩ := h.coverMates wf hnodup hsub ⟨j :: js, hrow.symm⟩
      have hm₁ : m₁' = m₁ := Option.some.inj (hall'.symm.trans hall)
      subst hm₁
      obtain ⟨m₂', hall₂', h₂⟩ := h.coverMates wf hnodup hsub ⟨js, hrow'.symm⟩
      have hm₂ : m₂' = m₂ := Option.some.inj (hall₂'.symm.trans hall₂)
      subst hm₂
      have hring₂ := h₂.rows r hr
      rw [hrow] at hring₂
      exact ⟨hnot, m₂', by rw [h₁.col]; exact hcover, ⟨done ++ [j], hrow', hall₂⟩,
        hring₂.next_cell⟩)
    ⟨[], rfl, rfl⟩ (Nodes.length_lt_of_nodup hring.nodup)
  rw [List.append_nil] at hrow
  rw [hring.next_sentinel]
  exact ⟨m', hloop, hrow ▸ hall⟩

/-- The loop of `solve` that uncovers them in the opposite order. -/
theorem Shows.uncoverRow_loop
    (hall : ((M.row r).map M.col).foldlM Nodes.cover m = some m') :
    forLoop Nodes.left r (fun m j => m.uncover (m.col j)) kMaxNodes m' (m'.left r) = some m := by
  have hshown : ∀ {js m₁}, js <+: M.row r → (js.map M.col).foldlM Nodes.cover m = some m₁ →
      M.Shows m₁ (A.diff (js.map M.col)) := by
    intro js m₁ hjs hall₁
    obtain ⟨m₂, hall₂, h₂⟩ := h.coverMates wf hnodup hsub hjs
    exact (Option.some.inj (hall₂.symm.trans hall₁)) ▸ h₂
  have hring := ((hshown (List.prefix_refl _) hall).rows r hr).reverse
  obtain ⟨m₀, hloop, -, hm₀⟩ := forLoop_rule Nodes.left r (fun m j => m.uncover (m.col j))
    (fun js m' => js.reverse <+: M.row r ∧
      (js.reverse.map M.col).foldlM Nodes.cover m = some m') (M.row r).reverse m'
    (by
      intro j js m₁ hall
      obtain ⟨hfront, hall₁⟩ := hall
      have h₁ := hshown hfront hall₁
      rw [List.reverse_cons] at hfront hall₁
      have hfront' : js.reverse <+: M.row r := (List.prefix_append _ [j]).trans hfront
      obtain ⟨m₂, hall₂, h₂⟩ := h.coverMates wf hnodup hsub hfront'
      obtain ⟨m₁', -, hall₁', huncover⟩ :=
        h.coverMates_concat wf hnodup hsub hfront hall₂
      have hm₁ : m₁' = m₁ := Option.some.inj (hall₁'.symm.trans hall₁)
      subst hm₁
      have hring₂ := (h₂.rows r hr).reverse
      obtain ⟨rest, hrest⟩ := hfront
      have hlist : (M.row r).reverse = rest.reverse ++ j :: js := by simp [← hrest]
      rw [hlist] at hring₂
      have hnot : j ≠ r := fun heq => (List.nodup_cons.mp hring₂.nodup).1 (by simp [heq])
      exact ⟨hnot, m₂, by rw [h₁.col]; exact huncover, ⟨hfront', hall₂⟩, hring₂.next_cell⟩)
    ⟨by simp, by simpa using hall⟩ (Nodes.length_lt_of_nodup hring.nodup)
  rw [hring.next_sentinel, hloop, ← hm₀]
  rfl

end

/-- The column that the loop of `get_min_column` returns, after the columns `front`. -/
theorem Shows.findMinColumn (h : M.Shows m A) {front back : List Ptr} {n : ℕ}
    (hA : A = front ++ back) (hc : c ∈ A) (hmin : ∀ d ∈ front, m.size c ≤ m.size d)
    (hn : back.length < n) :
    ∃ e ∈ A, m.findMinColumn M.root n c (m.size c) (back.headD M.root) = some e ∧
      (m.size e ≤ 1 ∨ ∀ d ∈ A, m.size e ≤ m.size d) := by
  induction back generalizing n front c with
  | nil =>
    obtain ⟨n, hn⟩ : ∃ k, n = k + 1 := ⟨n - 1, by simp at hn; omega⟩
    subst hn
    rw [List.append_nil] at hA
    exact ⟨c, hc, by simp [Nodes.findMinColumn], Or.inr (hA ▸ hmin)⟩
  | cons b back ih =>
    obtain ⟨n, hn'⟩ : ∃ k, n = k + 1 := ⟨n - 1, by simp at hn; omega⟩
    subst hn'
    have hb : b ∈ A := by simp [hA]
    have hA' : A = (front ++ [b]) ++ back := by simp [hA]
    have hbr : b ≠ M.root := fun heq =>
      (List.nodup_cons.mp h.headers.nodup).1 (heq ▸ hb)
    have hnext : m.right b = back.headD M.root := by
      have hring := h.headers
      rw [hA] at hring
      exact hring.next_cell
    have hlen : back.length < n := by simpa using hn
    rw [List.headD_cons, Nodes.findMinColumn, if_neg hbr, hnext]
    by_cases hless : m.size c > m.size b
    · rw [if_pos hless]
      by_cases hone : m.size b ≤ 1
      · rw [if_pos hone]
        exact ⟨b, hb, rfl, Or.inl hone⟩
      · rw [if_neg hone]
        apply ih hA' hb _ hlen
        intro d hd
        rcases List.mem_append.mp hd with hd | hd
        · exact hless.le.trans (hmin d hd)
        · exact (congrArg m.size (List.mem_singleton.mp hd)).ge
    · rw [if_neg hless]
      apply ih hA' hc _ hlen
      intro d hd
      rcases List.mem_append.mp hd with hd | hd
      · exact hmin d hd
      · exact (not_lt.mp hless).trans_eq (congrArg m.size (List.mem_singleton.mp hd)).symm

/-- `get_min_column` returns a column with at most one option, or one with the fewest. -/
theorem Shows.getMinColumn (h : M.Shows m A) (hne : A ≠ []) :
    ∃ c ∈ A, m.getMinColumn M.root = some c ∧
      (m.size c ≤ 1 ∨ ∀ d ∈ A, m.size c ≤ m.size d) := by
  obtain ⟨b, back, hA⟩ := List.exists_cons_of_ne_nil hne
  have hring := h.headers
  rw [hA] at hring
  have hfirst : m.right M.root = b := hring.next_sentinel
  have hnext : m.right b = back.headD M.root := by
    have hring' : IsRing m.right m.left M.root ([] ++ b :: back) := hring
    exact hring'.next_cell
  rw [Nodes.getMinColumn, hfirst, hnext]
  by_cases hone : m.size b > 1
  · rw [if_pos hone]
    have hA' : A = [b] ++ back := hA
    apply h.findMinColumn hA' (by simp [hA])
    · intro d hd
      exact (congrArg m.size (List.mem_singleton.mp hd)).ge
    · have hlen := Nodes.length_lt_of_nodup hring.nodup
      simp only [List.length_cons] at hlen
      omega
  · rw [if_neg hone]
    exact ⟨b, by simp [hA], rfl, Or.inl (not_lt.mp hone)⟩

/-- The option of a node is to put the digit `val` into `cell`: the names in the row say so. -/
structure Labels (M : Matrix) (cell : Ptr → Fin kCells) (val : Ptr → ℕ) : Prop where
  cell_name : ∀ j, M.IsNode j → ∀ i ∈ j :: M.row j, M.name i < 100 → M.name i = cell j
  val_name : ∀ j, M.IsNode j → ∀ i ∈ j :: M.row j, ¬ M.name i < 100 → M.name i % 10 = val j
  has_cell : ∀ j, M.IsNode j → ∃ i ∈ j :: M.row j, M.name i < 100
  has_val : ∀ j, M.IsNode j → ∃ i ∈ j :: M.row j, ¬ M.name i < 100

variable {cell : Ptr → Fin kCells} {val : Ptr → ℕ}

/-- The loop of `solve` over a row, with what it has read already; `ps` are the nodes to come. -/
theorem Labels.readRow (labels : M.Labels cell val) (h : M.Shows m A) (hj : M.IsNode j)
    {front ps : List Ptr} {p : Ptr} {n : ℕ} {a b : ℤ} (hrow : j :: M.row j = front ++ ps)
    (hp : ∀ q ∈ ps.head?, p = q) (hn : ps.length < n)
    (ha : a = -1 ∨ a = (cell j).val) (hb : b = -1 ∨ b = val j)
    (ha' : a = -1 → ∃ i ∈ ps, M.name i < 100) (hb' : b = -1 → ∃ i ∈ ps, ¬ M.name i < 100) :
    m.readRow n a b p = some (((cell j).val : ℤ), (val j : ℤ)) := by
  induction ps generalizing front p n a b with
  | nil =>
    obtain ⟨n, hn'⟩ : ∃ k, n = k + 1 := ⟨n - 1, by simp at hn; omega⟩
    subst hn'
    have ha : a = (cell j).val := ha.resolve_left fun heq => by simpa using ha' heq
    have hb : b = val j := hb.resolve_left fun heq => by simpa using hb' heq
    rw [Nodes.readRow, if_neg (by omega), ha, hb]
  | cons q ps ih =>
    obtain ⟨n, hn'⟩ : ∃ k, n = k + 1 := ⟨n - 1, by simp at hn; omega⟩
    subst hn'
    have hpq : p = q := hp q (by simp)
    subst hpq
    have hmem : p ∈ j :: M.row j := by simp [hrow]
    have hname : m.name p = M.name p := congrFun h.name p
    have hrow' : j :: M.row j = (front ++ [p]) ++ ps := by simp [hrow]
    have hnext : ∀ q ∈ ps.head?, m.right p = q := by
      intro q hq
      obtain ⟨qs, hqs⟩ : ∃ qs, ps = q :: qs := List.head?_eq_some_iff.mp hq
      rw [hqs] at hrow
      exact (h.rows j hj).next_of_split hrow
    have hlen : ps.length < n := by simpa using hn
    rw [Nodes.readRow, hname]
    by_cases hopen : a = -1 ∨ b = -1
    · rw [if_pos hopen]
      by_cases hcell : M.name p < 100
      · rw [if_pos hcell, labels.cell_name j hj p hmem hcell]
        refine ih hrow' hnext hlen (Or.inr rfl) hb (fun heq => by omega) fun heq => ?_
        obtain ⟨i, hi, hval⟩ := hb' heq
        have hip : i ≠ p := by
          intro hip
          rw [hip] at hval
          exact hval hcell
        exact ⟨i, List.mem_of_ne_of_mem hip hi, hval⟩
      · rw [if_neg hcell, labels.val_name j hj p hmem hcell]
        refine ih hrow' hnext hlen ha (Or.inr rfl) (fun heq => ?_) fun heq => by omega
        obtain ⟨i, hi, hlt⟩ := ha' heq
        have hip : i ≠ p := by
          intro hip
          rw [hip] at hlt
          exact hcell hlt
        exact ⟨i, List.mem_of_ne_of_mem hip hi, hlt⟩
    · rw [if_neg hopen]
      have ha : a = (cell j).val := ha.resolve_left fun heq => hopen (Or.inl heq)
      have hb : b = val j := hb.resolve_left fun heq => hopen (Or.inr heq)
      rw [ha, hb]

/-- The board after the options `js` have been written into it. -/
def fill {ι : Type*} (cell : ι → Fin kCells) (val : ι → ℕ) (board : Board) (js : List ι) : Board :=
  js.foldl (fun b j => b.set (cell j).val (val j)) board

/-- The root lies outside of the row, so a row fills less than the memory. -/
theorem Wf.row_length_lt (wf : M.Wf) (hj : M.IsNode j) : (j :: M.row j).length < kMaxNodes := by
  apply Nodes.length_lt_of_nodup (c := M.root)
  apply List.nodup_cons.mpr
  refine ⟨fun hmem => ?_, wf.row_nodup hj⟩
  rcases List.mem_cons.mp hmem with heq | hmem
  · exact wf.node_root j hj heq.symm
  · exact wf.node_root _ (wf.row_node j hj _ hmem) rfl

/-- The loop of `solve` over `stack_`. -/
theorem Labels.readStack (labels : M.Labels cell val) (wf : M.Wf) {s : SudokuSolver}
    (h : M.Shows s.nodes A) (hstack : ∀ j ∈ s.stack, M.IsNode j) :
    s.readStack = some { s with inout := fill cell val s.inout s.stack } := by
  suffices hfold : ∀ (js : List Ptr) (t : SudokuSolver), (∀ j ∈ js, M.IsNode j) →
      M.Shows t.nodes A →
      js.foldlM SudokuSolver.readNode t = some { t with inout := fill cell val t.inout js } from
    hfold s.stack s hstack h
  intro js
  induction js with
  | nil => exact fun t _ _ => rfl
  | cons j js ih =>
    intro t hjs ht
    have hj : M.IsNode j := hjs j (by simp)
    have hread : t.nodes.readRow kMaxNodes (-1) (-1) j =
        some (((cell j).val : ℤ), (val j : ℤ)) := by
      have hrow : j :: M.row j = [] ++ (j :: M.row j) := rfl
      apply labels.readRow ht hj hrow
      · intro q hq
        simpa using hq
      · exact wf.row_length_lt hj
      · exact Or.inl rfl
      · exact Or.inl rfl
      · exact fun _ => labels.has_cell j hj
      · exact fun _ => labels.has_val j hj
    have hset : t.setCell ((cell j).val : ℤ) (val j) =
        some { t with inout := t.inout.set (cell j).val (val j) } := by
      rw [SudokuSolver.setCell, dif_pos (by simp)]
      rfl
    rw [List.foldlM_cons, SudokuSolver.readNode, hread]
    simp only [Option.bind_eq_bind, Option.bind_some, hset]
    exact ih _ (fun i hi => hjs i (List.mem_cons_of_mem j hi)) ht

/-- A selection of options that takes up each of the columns `A` once. -/
def Covers (M : Matrix) (A sel : List Ptr) : Prop :=
  (∀ j ∈ sel, M.IsNode j) ∧ IsCover M.columns A sel

/-- What `solve` gives back for the solver `s` that shows the columns `A`. -/
def Solved (M : Matrix) (cell : Ptr → Fin kCells) (val : Ptr → ℕ) (A : List Ptr)
    (s : SudokuSolver) (result : Option (Bool × SudokuSolver)) : Prop :=
  (∃ sel s', M.Covers A sel ∧ result = some (true, s') ∧
      s'.inout = fill cell val s.inout (s.stack ++ sel)) ∨
    ((∀ sel, ¬ M.Covers A sel) ∧ result = some (false, s))

section
variable (wf : M.Wf)
include wf

/-- The columns that are left after an option that `c` shows. -/
theorem Wf.diff_columns (hA : ∀ c ∈ A, c ∈ M.headers) (hc : c ∈ A) (hr : r ∈ M.visible A c) :
    A.diff (M.columns r) = (A.erase c).diff ((M.row r).map M.col) := by
  rw [columns, List.map_cons, (wf.node_of_visible hA hc hr).2, List.diff_cons]

/-- An option that `c` shows begins a cover when the rest can be covered. -/
theorem Wf.covers_cons (hA : ∀ c ∈ A, c ∈ M.headers) (hc : c ∈ A) (hr : r ∈ M.visible A c)
    {sel : List Ptr} (hsel : M.Covers (A.diff (M.columns r)) sel) : M.Covers A (r :: sel) := by
  have hnode := (wf.node_of_visible hA hc hr).1
  constructor
  · intro j hj
    rcases List.mem_cons.mp hj with heq | hj
    · exact heq ▸ hnode
    · exact hsel.1 j hj
  · exact hsel.2.cons (wf.columns_nodup r hnode) (mem_visible.mp hr).2

/-- Every cover uses one of the options that `c` shows. -/
theorem Wf.covers_option (hnodup : A.Nodup) (hc : c ∈ A)
    {sel : List Ptr} (hsel : M.Covers A sel) :
    ∃ r ∈ M.visible A c, ∃ rest, M.Covers (A.diff (M.columns r)) rest := by
  obtain ⟨o, ho, hco, hsub, rest, hrest, hcover⟩ := hsel.2.exists_option hnodup hc
  have honode := hsel.1 o ho
  obtain ⟨i, hi, hicol⟩ := List.mem_map.mp hco
  have hperm : (M.columns i).Perm (M.columns o) := by
    rcases List.mem_cons.mp hi with heq | hi
    · exact heq ▸ List.Perm.refl _
    · exact wf.columns_perm honode hi
  have hinode : M.IsNode i := by
    rcases List.mem_cons.mp hi with heq | hi
    · exact heq ▸ honode
    · exact wf.row_node o honode i hi
  refine ⟨i, mem_visible.mpr ⟨hicol ▸ hinode.2, fun d hd => hsub d (hperm.mem_iff.mp hd)⟩,
    rest, fun p hp => hsel.1 p (hrest p hp), ?_⟩
  rw [hperm.diff_left]
  exact hcover

theorem Wf.mates_nodup (hj : M.IsNode j) : ((M.row j).map M.col).Nodup := by
  have hcolumns := wf.columns_nodup j hj
  rw [columns, List.map_cons] at hcolumns
  exact (List.nodup_cons.mp hcolumns).2

theorem Wf.mates_sub (h : M.Shows m A) (hc : c ∈ A) (hr : r ∈ M.visible A c) :
    ∀ d ∈ (M.row r).map M.col, d ∈ A.erase c := by
  intro d hd
  obtain ⟨j, hj, hcol⟩ := List.mem_map.mp hd
  obtain ⟨-, hjA, hjc, -⟩ := wf.visible_mate h.sub hc hr hj
  subst hcol
  exact h.nodup.mem_erase_iff.mpr ⟨hjc, hjA⟩

theorem Shows.diff_length_lt (h : M.Shows m A) (hc : c ∈ A) (hr : r ∈ M.visible A c) :
    (A.diff (M.columns r)).length < A.length := by
  rw [wf.diff_columns h.sub hc hr]
  have hle := ((A.erase c).diff_sublist ((M.row r).map M.col)).length_le
  have hlt := List.length_erase_of_mem hc
  have hpos := List.length_pos_of_mem hc
  omega

/-- One option in the loop of `solve`: its columns are covered, the call is made, and after a
failed call they are uncovered again. -/
theorem Wf.tryRow {solve : SudokuSolver → Option (Bool × SudokuSolver)} {s : SudokuSolver}
    (hm : M.Shows m A) (hc : c ∈ A) (h : M.Shows m' (A.erase c)) (hr : r ∈ M.visible A c)
    (hsolve : ∀ t, t.root = s.root → t.inout = s.inout → t.stack = s.stack ++ [r] →
      M.Shows t.nodes (A.diff (M.columns r)) →
      M.Solved cell val (A.diff (M.columns r)) t (solve t)) (n : ℕ) :
    (∃ sel s', M.Covers (A.diff (M.columns r)) sel ∧
      SudokuSolver.tryRows solve c (n + 1) { s with nodes := m' } r = some (true, s') ∧
      s'.inout = fill cell val s.inout (s.stack ++ r :: sel)) ∨
    ((∀ sel, ¬ M.Covers (A.diff (M.columns r)) sel) ∧
      SudokuSolver.tryRows solve c (n + 1) { s with nodes := m' } r =
        SudokuSolver.tryRows solve c n { s with nodes := m' } (m'.down r)) := by
  obtain ⟨hnode, hcol⟩ := wf.node_of_visible hm.sub hc hr
  have hrc : r ≠ c := by
    intro heq
    exact wf.node_header r hnode (heq ▸ hm.sub c hc)
  have hnodup := wf.mates_nodup hnode
  have hsub := wf.mates_sub hm hc hr
  obtain ⟨m₂, hloop, hall⟩ := h.coverRow_loop wf hnodup hsub hnode
  obtain ⟨m₂', hall', h₂⟩ := h.coverMates wf hnodup hsub (List.prefix_refl _)
  have hm₂ : m₂' = m₂ := Option.some.inj (hall'.symm.trans hall)
  subst hm₂
  rw [← wf.diff_columns hm.sub hc hr] at h₂
  have hback := h.uncoverRow_loop wf hnodup hsub hnode hall
  have hcover : SudokuSolver.coverRow { s with stack := s.stack ++ [r], nodes := m' } r =
      some { s with stack := s.stack ++ [r], nodes := m₂' } := by
    simp only [SudokuSolver.coverRow, hloop]
    rfl
  have huncover : SudokuSolver.uncoverRow { s with nodes := m₂' } r =
      some { s with nodes := m' } := by
    simp only [SudokuSolver.uncoverRow, hback]
    rfl
  rw [SudokuSolver.tryRows, if_neg hrc]
  simp only [hcover, Option.bind_eq_bind, Option.bind_some]
  rcases hsolve { s with stack := s.stack ++ [r], nodes := m₂' } rfl rfl rfl h₂ with
    ⟨sel, s', hsel, hresult, hboard⟩ | ⟨hnone, hresult⟩
  · refine Or.inl ⟨sel, s', hsel, ?_, ?_⟩
    · simp only [hresult, Option.bind_some, if_true]
      rfl
    · simpa using hboard
  · refine Or.inr ⟨hnone, ?_⟩
    simp only [hresult, Option.bind_some, Bool.false_eq_true, if_false, List.dropLast_concat,
      huncover]

/-- The loop of `solve` over the options of the column `c`, of which `ps` are still to come. -/
theorem Wf.tryRows {solve : SudokuSolver → Option (Bool × SudokuSolver)} {s : SudokuSolver}
    (hm : M.Shows s.nodes A) (hc : c ∈ A) (h : M.Shows m' (A.erase c))
    (hring : IsRing m'.down m'.up c (M.visible A c)) (huncover : m'.uncover c = some s.nodes)
    (hsolve : ∀ r ∈ M.visible A c, ∀ t, t.root = s.root → t.inout = s.inout →
      t.stack = s.stack ++ [r] → M.Shows t.nodes (A.diff (M.columns r)) →
      M.Solved cell val (A.diff (M.columns r)) t (solve t))
    {done ps : List Ptr} {n : ℕ} (hps : M.visible A c = done ++ ps)
    (hdone : ∀ r ∈ done, ∀ sel, ¬ M.Covers (A.diff (M.columns r)) sel) (hn : ps.length < n) :
    M.Solved cell val A s (SudokuSolver.tryRows solve c n { s with nodes := m' } (ps.headD c)) := by
  induction ps generalizing done n with
  | nil =>
    obtain ⟨n, hn'⟩ : ∃ k, n = k + 1 := ⟨n - 1, by simp at hn; omega⟩
    subst hn'
    refine Or.inr ⟨fun sel hsel => ?_, ?_⟩
    · obtain ⟨r, hr, rest, hrest⟩ := wf.covers_option hm.nodup hc hsel
      rw [hps, List.append_nil] at hr
      exact hdone r hr rest hrest
    · rw [List.headD_nil, SudokuSolver.tryRows, if_pos rfl, huncover]
      rfl
  | cons r ps ih =>
    obtain ⟨n, hn'⟩ : ∃ k, n = k + 1 := ⟨n - 1, by simp at hn; omega⟩
    subst hn'
    have hr : r ∈ M.visible A c := by simp [hps]
    have hnext : m'.down r = ps.headD c := by
      rw [hps] at hring
      exact hring.next_cell
    rw [List.headD_cons]
    rcases wf.tryRow hm hc h hr (hsolve r hr) n with
      ⟨sel, s', hsel, hresult, hboard⟩ | ⟨hnone, hresult⟩
    · exact Or.inl ⟨r :: sel, s', wf.covers_cons hm.sub hc hr hsel, hresult, hboard⟩
    · rw [hresult, hnext]
      have hps' : M.visible A c = (done ++ [r]) ++ ps := by simp [hps]
      apply ih hps' _ (by simpa using hn)
      intro i hi
      rcases List.mem_append.mp hi with hi | hi
      · exact hdone i hi
      · exact List.mem_singleton.mp hi ▸ hnone

variable (labels : M.Labels cell val)
include labels

/-- `solve` terminates with an exact cover of the columns that are shown, written into the board,
or with no cover to be found and the solver as it was. -/
theorem Labels.solve_covers {s : SudokuSolver} (hroot : s.root = M.root) (h : M.Shows s.nodes A)
    (hstack : ∀ j ∈ s.stack, M.IsNode j) {depth : ℕ} (hdepth : A.length < depth) :
    M.Solved cell val A s (s.solve depth) := by
  induction depth generalizing s A with
  | zero => omega
  | succ depth ih =>
    rw [SudokuSolver.solve]
    by_cases hA : A = []
    · subst hA
      have hleft : s.nodes.left s.root = s.root := by
        rw [hroot]
        exact h.headers.reverse.next_sentinel
      rw [if_pos hleft, labels.readStack wf h hstack]
      exact Or.inl ⟨[], _, ⟨by simp, isCover_nil⟩, rfl, by simp⟩
    · have hleft : s.nodes.left s.root ≠ s.root := by
        rw [hroot]
        intro heq
        have hlast := h.headers.reverse.next_sentinel
        rw [heq] at hlast
        obtain ⟨b, bs, hbs⟩ := List.exists_cons_of_ne_nil (List.reverse_ne_nil_iff.mpr hA)
        rw [hbs, List.headD_cons] at hlast
        apply (List.nodup_cons.mp h.headers.nodup).1
        rw [hlast]
        exact List.mem_reverse.mp (by simp [hbs])
      obtain ⟨c, hc, hmin, -⟩ := h.getMinColumn hA
      obtain ⟨m', hcover, h', hring, huncover⟩ := h.cover_uncover wf hc
      rw [← hroot] at hmin
      rw [if_neg hleft, hmin]
      simp only [Option.bind_eq_bind, Option.bind_some, hcover]
      rw [hring.next_sentinel]
      have hrows : M.visible A c = [] ++ M.visible A c := rfl
      apply wf.tryRows h hc h' hring huncover _ hrows (by simp)
        (Nodes.length_lt_of_nodup hring.nodup)
      intro r hr t hroot' hinout hstack' ht
      apply ih (hroot'.trans hroot) ht
      · rw [hstack']
        intro j hj
        rcases List.mem_append.mp hj with hj | hj
        · exact hstack j hj
        · exact List.mem_singleton.mp hj ▸ (wf.node_of_visible h.sub hc hr).1
      · have hlt := Shows.diff_length_lt wf h hc hr
        omega

end

end Matrix
end Muduo.Sudoku

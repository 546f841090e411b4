import Muduo.Assertion
import Muduo.Examples.SudokuMatrix
import Muduo.Library.ForEach

/-!
# The constructor of the solver

`SudokuSolver(int board[kCells])` runs its loops without a failed assertion: it takes no more
nodes than `nodes_` has, sets no entry of `columns_` twice and finds every column an option needs.
-/
namespace Muduo.Sudoku
open Ring

/-- The numbers of the columns that the option to put `v` into the cell `i` takes up. -/
def optionNames (i v : ℕ) : List ℕ :=
  [i, SudokuSolver.getRowCol (rowOf i) v, SudokuSolver.getColCol (colOf i) v,
    SudokuSolver.getBoxCol (boxOf i) v]

/-- The four numbers of an option lie in different ranges. -/
theorem optionNames_nodup {i v : ℕ} (hi : i < kCells) (hv : v < 10) :
    (optionNames i v).Nodup := by
  simp only [kCells] at hi
  simp only [optionNames, SudokuSolver.getRowCol, SudokuSolver.getColCol, SudokuSolver.getBoxCol,
    kRow, kCol, kBox, rowOf, colOf, boxOf, List.nodup_cons, List.mem_cons, List.not_mem_nil,
    or_false, not_or, List.nodup_nil, not_false_eq_true, and_true]
  omega

theorem optionNames_lt {i v : ℕ} (hi : i < kCells) (hv : v < 10) :
    ∀ n ∈ optionNames i v, n < kMaxColumns := by
  simp only [kCells] at hi
  simp only [optionNames, SudokuSolver.getRowCol, SudokuSolver.getColCol, SudokuSolver.getBoxCol,
    kRow, kCol, kBox, rowOf, colOf, boxOf, kMaxColumns, List.mem_cons, List.not_mem_nil, or_false]
  omega

namespace Matrix

variable {M M' : Matrix} {m : Nodes} {s : SudokuSolver} {board : Board} {c d i j p r : Ptr}
  {n : ℕ} {rs : List Ptr} {ns : List ℕ}

/-- The solver after some steps of the constructor, with the matrix that it has built. -/
structure Built (board : Board) (s : SudokuSolver) (M : Matrix) : Prop where
  root : s.root = M.root
  wf : M.Wf
  stores : M.Stores s.nodes
  fresh : ∀ p : Ptr, s.curNode ≤ p.val → M.Fresh p
  table : ∀ n (h : n < kMaxColumns) c, s.columns[n] = some c ↔ c ∈ M.headers ∧ M.name c = n
  node_name : ∀ j, M.IsNode j → M.name j = M.name (M.col j)
  inout : s.inout = board
  stack : s.stack = []

theorem Built.column_none (h : Built board s M) (hn : n < kMaxColumns)
    (hnew : n ∉ M.headers.map M.name) : s.columns[n] = none := by
  rw [Option.eq_none_iff_forall_ne_some]
  intro c hc
  obtain ⟨hmem, hname⟩ := (h.table n hn c).mp hc
  exact hnew (List.mem_map.mpr ⟨c, hmem, hname⟩)

/-- `append_column` adds a column whose number is not in use. -/
theorem Built.appendColumn (h : Built board s M) (hn : n < kMaxColumns)
    (hnew : n ∉ M.headers.map M.name) (hcur : s.curNode < kMaxNodes) :
    ∃ s', s.appendColumn n = .ok s' ∧ s'.curNode = s.curNode + 1 ∧
      Built board s' (M.addColumn ⟨s.curNode, hcur⟩ n) := by
  have hp : M.Fresh ⟨s.curNode, hcur⟩ := h.fresh _ le_rfl
  generalize hpe : (⟨s.curNode, hcur⟩ : Ptr) = p at hp
  have hpval : p.val = s.curNode := by rw [← hpe]
  have hroot : s.root ≠ p := by
    rw [h.root]
    exact hp.root.symm
  refine ⟨{ (SudokuSolver.putLeft { s with
      nodes := s.nodes.put p ⟨p, p, p, p, p, n, 0⟩, curNode := s.curNode + 1 } s.root p) with
      columns := s.columns.set n (some p) }, ?_, rfl, ?_⟩
  · simp only [SudokuSolver.appendColumn, SudokuSolver.column, dif_pos hn,
      h.column_none hn hnew, SudokuSolver.newColumn, dif_pos hcur, hpe]
    simp [SudokuSolver.putLeft, SudokuSolver.setColumn, dif_pos hn, bind, Except.bind]
  · have hfields := Nodes.fields_putLeft (s := { s with
      nodes := s.nodes.put p ⟨p, p, p, p, p, n, 0⟩, curNode := s.curNode + 1 }) hroot
    refine ⟨h.root, h.wf.addColumn hp, h.stores.addColumn h.wf hp (hfields.trans ?_), ?_, ?_, ?_,
      h.inout, h.stack⟩
    · rw [← h.root]
      simp [Nodes.fields_put, Nodes.left_put, Nodes.right_put, Function.update_of_ne hroot]
    · intro q hq
      have hqp : q ≠ p := by
        intro heq
        have hle : s.curNode + 1 ≤ q.val := hq
        rw [heq, hpval] at hle
        omega
      have hfresh := h.fresh q ((Nat.le_succ _).trans hq)
      refine ⟨hfresh.root, ?_, ?_⟩
      · simp [addColumn, hqp, hfresh.headers]
      · intro c hc
        by_cases hcp : c = p
        · simp [addColumn, hcp]
        · have hc : c ∈ M.headers := by simpa [addColumn, hcp] using hc
          simpa [addColumn, hcp] using hfresh.nodes c hc
    · intro k hk c
      by_cases hkn : k = n
      · subst hkn
        simp only [addColumn, Vector.getElem_set_self, Option.some.injEq, List.mem_append,
          List.mem_singleton]
        constructor
        · intro heq
          subst heq
          exact ⟨Or.inr rfl, Function.update_self ..⟩
        · intro hall
          obtain ⟨hmem, hname⟩ := hall
          by_contra hcp
          have hmem : c ∈ M.headers := hmem.resolve_right fun heq => hcp heq.symm
          rw [Function.update_of_ne (Ne.symm hcp)] at hname
          exact hnew (List.mem_map.mpr ⟨c, hmem, hname⟩)
      · simp only [addColumn, Vector.getElem_set_ne _ _ (Ne.symm hkn), h.table k hk, List.mem_append,
          List.mem_singleton]
        constructor
        · intro hall
          obtain ⟨hmem, hname⟩ := hall
          have hcp : c ≠ p := fun heq => hp.headers (heq ▸ hmem)
          exact ⟨Or.inl hmem, (Function.update_of_ne hcp ..).trans hname⟩
        · intro hall
          obtain ⟨hmem, hname⟩ := hall
          by_cases hcp : c = p
          · subst hcp
            rw [Function.update_self] at hname
            exact absurd hname.symm hkn
          · rw [Function.update_of_ne hcp] at hname
            exact ⟨hmem.resolve_right hcp, hname⟩
    · intro j hj
      have hj := (isNode_addColumn hp).mp hj
      have hcol : (M.addColumn p n).col j = M.col j := Function.update_of_ne (hp.ne_node hj) ..
      have hcp : M.col j ≠ p := fun heq => hp.headers (heq ▸ hj.1)
      rw [hcol]
      simpa [addColumn, hp.ne_node hj, hcp] using h.node_name j hj

/-- The names of the row of a node. -/
def names (M : Matrix) (j : Ptr) : List ℕ := (j :: M.row j).map M.name

theorem Built.names_eq (h : Built board s M) (hj : M.IsNode j) :
    M.names j = (M.columns j).map M.name := by
  rw [names, columns, List.map_map]
  apply List.map_congr_left
  intro i hi
  rcases List.mem_cons.mp hi with heq | hi
  · exact heq ▸ h.node_name j hj
  · exact h.node_name i (h.wf.row_node j hj i hi)

/-- `M'` is `M` with the further nodes `rs`, which are named `ns` and alone in their rows. -/
structure Extends (M M' : Matrix) (rs : List Ptr) (ns : List ℕ) : Prop where
  headers : M'.headers = M.headers
  header_name : ∀ c ∈ M.headers, M'.name c = M.name c
  isNode : ∀ j, M'.IsNode j ↔ M.IsNode j ∨ j ∈ rs
  old : ∀ j, M.IsNode j → j ∉ rs ∧ M'.names j = M.names j
  row : ∀ r ∈ rs, M'.row r = []
  names : rs.map M'.name = ns

theorem Extends.refl (M : Matrix) : Extends M M [] [] where
  headers := rfl
  header_name := fun _ _ => rfl
  isNode := by simp
  old := by simp
  row := by simp
  names := rfl

theorem Extends.addNode (hext : Extends M M' rs ns) (wf' : M'.Wf) (hc : c ∈ M'.headers)
    (hr : M'.Fresh r) : Extends M (M'.addNode c r n) (rs ++ [r]) (ns ++ [n]) where
  headers := hext.headers
  header_name := by
    intro d hd
    have hdr : d ≠ r := fun heq => hr.headers (hext.headers ▸ heq ▸ hd)
    exact (Function.update_of_ne hdr ..).trans (hext.header_name d hd)
  isNode := by
    intro j
    rw [isNode_addNode hc hr, hext.isNode]
    simp [or_assoc]
  old := by
    intro j hj
    obtain ⟨hold, hnames⟩ := hext.old j hj
    have hj' : M'.IsNode j := (hext.isNode j).mpr (Or.inl hj)
    have hjr := hr.ne_node hj'
    refine ⟨by simp [hold, hjr], ?_⟩
    rw [← hnames, Matrix.names, Matrix.names]
    have hrow : (M'.addNode c r n).row j = M'.row j := Function.update_of_ne hjr ..
    rw [hrow]
    apply List.map_congr_left
    intro i hi
    apply Function.update_of_ne
    intro heq
    exact hr.not_mem_row wf' hj' (heq ▸ hi)
  row := by
    intro i hi
    by_cases hir : i = r
    · subst hir
      exact Function.update_self ..
    · have hi : i ∈ rs := by simpa [hir] using hi
      exact (Function.update_of_ne hir ..).trans (hext.row i hi)
  names := by
    have hold : rs.map (M'.addNode c r n).name = rs.map M'.name := by
      apply List.map_congr_left
      intro i hi
      have hi' : M'.IsNode i := (hext.isNode i).mpr (Or.inr hi)
      exact Function.update_of_ne (hr.ne_node hi') ..
    have hnew : (M'.addNode c r n).name r = n := Function.update_self ..
    rw [List.map_append, hold, hext.names, List.map_singleton, hnew]

/-- `new_row` adds a node to a column that there is. -/
theorem Built.newRow (h : Built board s M') (hext : Extends M M' rs ns) (hn : n < kMaxColumns)
    (hmem : n ∈ M.headers.map M.name) (hcur : s.curNode < kMaxNodes) :
    ∃ r s' M'', s.newRow n = .ok (r, s') ∧ s'.curNode = s.curNode + 1 ∧ Built board s' M'' ∧
      Extends M M'' (rs ++ [r]) (ns ++ [n]) := by
  obtain ⟨c, hc, hname⟩ := List.mem_map.mp hmem
  have hc' : c ∈ M'.headers := hext.headers ▸ hc
  have hname' : M'.name c = n := (hext.header_name c hc).trans hname
  have hcolumn : s.columns[n] = some c := (h.table n hn c).mpr ⟨hc', hname'⟩
  have hr : M'.Fresh ⟨s.curNode, hcur⟩ := h.fresh _ le_rfl
  generalize hre : (⟨s.curNode, hcur⟩ : Ptr) = r at hr
  have hrval : r.val = s.curNode := by rw [← hre]
  have hcr : c ≠ r := fun heq => hr.headers (heq ▸ hc')
  refine ⟨r, SudokuSolver.putUp { s with
      nodes := s.nodes.put r ⟨r, r, r, r, c, n, 0⟩, curNode := s.curNode + 1 } c r,
    M'.addNode c r n, ?_, rfl, ?_, hext.addNode h.wf hc' hr⟩
  · simp only [SudokuSolver.newRow, SudokuSolver.column, dif_pos hn, hcolumn, dif_pos hcur, hre,
      bind, Except.bind]
    rfl
  · have hfields := Nodes.fields_putUp (s := { s with
      nodes := s.nodes.put r ⟨r, r, r, r, c, n, 0⟩, curNode := s.curNode + 1 }) hcr
    refine ⟨h.root, h.wf.addNode hc' hr, h.stores.addNode h.wf hc' hr (hfields.trans ?_), ?_, ?_,
      ?_, h.inout, h.stack⟩
    · simp [Nodes.fields_put, Nodes.up_put, Nodes.down_put, Nodes.col_put, Nodes.size_put,
        Function.update_of_ne hcr]
    · intro q hq
      have hqr : q ≠ r := by
        intro heq
        have hle : s.curNode + 1 ≤ q.val := hq
        rw [heq, hrval] at hle
        omega
      have hfresh := h.fresh q ((Nat.le_succ _).trans hq)
      refine ⟨hfresh.root, hfresh.headers, ?_⟩
      intro d hd
      by_cases hdc : d = c
      · subst hdc
        simpa [addNode, hqr] using hfresh.nodes d hd
      · simpa [addNode, hdc] using hfresh.nodes d hd
    · intro k hk d
      rw [show (SudokuSolver.putUp { s with
        nodes := s.nodes.put r ⟨r, r, r, r, c, n, 0⟩, curNode := s.curNode + 1 } c r).columns =
        s.columns from rfl, h.table k hk]
      constructor
      · intro hall
        obtain ⟨hd, hdname⟩ := hall
        have hdr : d ≠ r := fun heq => hr.headers (heq ▸ hd)
        exact ⟨hd, (Function.update_of_ne hdr ..).trans hdname⟩
      · intro hall
        obtain ⟨hd, hdname⟩ := hall
        have hdr : d ≠ r := fun heq => hr.headers (heq ▸ hd)
        exact ⟨hd, (Function.update_of_ne hdr ..).symm.trans hdname⟩
    · intro j hj
      rcases (isNode_addNode hc' hr).mp hj with hj | heq
      · have hjr := hr.ne_node hj
        have hcolr : M'.col j ≠ r := fun heq => hr.headers (heq ▸ hj.1)
        simpa [addNode, hjr, hcolr] using h.node_name j hj
      · subst heq
        simp [addNode, hcr, hname']

/-- The nodes `js` are linked to the left of `p`, one after the other. -/
theorem putLefts {js xs : List Ptr} (hr : IsRing s.nodes.right s.nodes.left p xs)
    (hnodup : (p :: (xs ++ js)).Nodup) :
    ∃ m', js.foldl (fun s q => s.putLeft p q) s = { s with nodes := m' } ∧
      IsRing m'.right m'.left p (xs ++ js) ∧
      (∀ i ∉ p :: (xs ++ js), m'.right i = s.nodes.right i ∧ m'.left i = s.nodes.left i) ∧
      m'.up = s.nodes.up ∧ m'.down = s.nodes.down ∧ m'.col = s.nodes.col ∧
      m'.name = s.nodes.name ∧ m'.size = s.nodes.size := by
  induction js generalizing s xs with
  | nil =>
    rw [List.append_nil]
    exact ⟨s.nodes, rfl, hr, fun _ _ => ⟨rfl, rfl⟩, rfl, rfl, rfl, rfl, rfl⟩
  | cons q js ih =>
    have hlist : xs ++ q :: js = (xs ++ [q]) ++ js := by simp
    have hq : q ∉ p :: xs := by
      have hnodup' : ((p :: xs) ++ q :: js).Nodup := hnodup
      exact fun hmem => List.disjoint_of_nodup_append hnodup' hmem (by simp)
    have hpq : p ≠ q := fun heq => hq (by simp [heq])
    have hfields := Nodes.fields_putLeft (s := s) hpq
    simp only [Nodes.fields, Nodes.Fields.mk.injEq] at hfields
    obtain ⟨hleft, hright, hup, hdown, hcol, hname, hsize⟩ := hfields
    have hring : IsRing (s.putLeft p q).nodes.right (s.putLeft p q).nodes.left p (xs ++ [q]) := by
      rw [hleft, hright]
      exact hr.insert_last hq
    rw [hlist] at hnodup ⊢
    obtain ⟨m', hfold, hring', hout, hup', hdown', hcol', hname', hsize'⟩ := ih hring hnodup
    refine ⟨m', hfold, hring', ?_, hup'.trans hup, hdown'.trans hdown, hcol'.trans hcol,
      hname'.trans hname, hsize'.trans hsize⟩
    intro i hi
    have hip : i ≠ p := fun heq => hi (by simp [heq])
    have hiq : i ≠ q := fun heq => hi (by simp [heq])
    have hil : i ≠ s.nodes.left p := by
      intro heq
      have hmem := hr.prev_mem (x := p) (by simp)
      rw [← heq] at hmem
      exact hi (List.cons_subset_cons p (by simp) hmem)
    obtain ⟨hri, hle⟩ := hout i hi
    rw [hri, hle, hright, hleft, Function.update_of_ne hil, Function.update_of_ne hiq,
      Function.update_of_ne hip, Function.update_of_ne hiq]
    exact ⟨rfl, rfl⟩

/-- The new nodes are linked to one row. -/
theorem Built.joinRow {js : List Ptr} (h : Built board s M') (hext : Extends M M' (r :: js) ns)
    (hns : ns.Nodup) :
    ∃ m', js.foldl (fun s q => s.putLeft r q) s = { s with nodes := m' } ∧
      Built board { s with nodes := m' } (M'.joinRow (r :: js)) := by
  have halone : ∀ j ∈ r :: js, M'.IsNode j ∧ M'.row j = [] := fun j hj =>
    ⟨(hext.isNode j).mpr (Or.inr hj), hext.row j hj⟩
  have hcols : ((r :: js).map M'.col).Nodup := by
    apply List.Nodup.of_map M'.name
    rw [List.map_map]
    have hnames : (r :: js).map (M'.name ∘ M'.col) = (r :: js).map M'.name :=
      List.map_congr_left fun j hj => (h.node_name j (halone j hj).1).symm
    rw [hnames, hext.names]
    exact hns
  have hring := h.stores.rows r (halone r (by simp)).1
  rw [(halone r (by simp)).2] at hring
  have hnodup : (r :: ([] ++ js)).Nodup := hcols.of_map _
  obtain ⟨m', hfold, hring', hout, hrest⟩ := putLefts hring hnodup
  have hwf := h.wf.joinRow halone hcols
  exact ⟨m', hfold, h.root, hwf, h.stores.joinRow h.wf halone rfl hring' hout hrest,
    fun p hp => ⟨(h.fresh p hp).root, (h.fresh p hp).headers, (h.fresh p hp).nodes⟩, h.table,
    h.node_name, h.inout, h.stack⟩

/-- The rows of the matrix are the options `os`. -/
structure Placed (M : Matrix) (os : List (ℕ × ℕ)) : Prop where
  option : ∀ j, M.IsNode j → ∃ o ∈ os, (M.names j).Perm (optionNames o.1 o.2)
  node : ∀ o ∈ os, ∃ j, M.IsNode j ∧ (M.names j).Perm (optionNames o.1 o.2)

theorem Placed.joinRow {js : List Ptr} {os : List (ℕ × ℕ)} {o : ℕ × ℕ} (hM : Placed M os)
    (hext : Extends M M' js (optionNames o.1 o.2)) :
    Placed (M'.joinRow js) (os ++ [o]) := by
  have halone : ∀ j ∈ js, M'.IsNode j ∧ M'.row j = [] := fun j hj =>
    ⟨(hext.isNode j).mpr (Or.inr hj), hext.row j hj⟩
  have hold : ∀ j, M.IsNode j → (M'.joinRow js).names j = M.names j := by
    intro j hj
    obtain ⟨hmem, hnames⟩ := hext.old j hj
    rw [names, joinRow_row hmem]
    exact hnames
  have hnew : ∀ j ∈ js, ((M'.joinRow js).names j).Perm (optionNames o.1 o.2) := by
    intro j hj
    rw [← hext.names]
    exact (joinRow_perm hj).map M'.name
  constructor
  · intro j hj
    rcases (hext.isNode j).mp hj with hj | hj
    · obtain ⟨o', ho', hperm⟩ := hM.option j hj
      exact ⟨o', by simp [ho'], hold j hj ▸ hperm⟩
    · exact ⟨o, by simp, hnew j hj⟩
  · intro o' ho'
    rcases List.mem_append.mp ho' with ho' | ho'
    · obtain ⟨j, hj, hperm⟩ := hM.node o' ho'
      exact ⟨j, (hext.isNode j).mpr (Or.inl hj), hold j hj ▸ hperm⟩
    · have heq := List.mem_singleton.mp ho'
      subst heq
      have hlen := congrArg List.length hext.names
      obtain ⟨j, hj⟩ : ∃ j, j ∈ js := by
        cases js with
        | nil => simp [optionNames] at hlen
        | cons j js => exact ⟨j, by simp⟩
      exact ⟨j, (halone j hj).1, hnew j hj⟩

/-- The constructor places one more option. -/
theorem Built.addOption {i v : ℕ} {os : List (ℕ × ℕ)} (h : Built board s M) (hM : Placed M os)
    (hi : i < kCells) (hv : v < 10) (hcols : ∀ n ∈ optionNames i v, n ∈ M.headers.map M.name)
    (hcur : s.curNode + 4 ≤ kMaxNodes) :
    ∃ s' M', s.addOption i v = .ok s' ∧ s'.curNode = s.curNode + 4 ∧ Built board s' M' ∧
      Placed M' (os ++ [(i, v)]) ∧ M'.headers.map M'.name = M.headers.map M.name := by
  have hlt := optionNames_lt hi hv
  simp only [optionNames, List.mem_cons, List.not_mem_nil, or_false, forall_eq_or_imp,
    forall_eq] at hlt hcols
  obtain ⟨hlt₀, hltr, hltc, hltb⟩ := hlt
  obtain ⟨hcols₀, hcolsr, hcolsc, hcolsb⟩ := hcols
  obtain ⟨n₀, s₁, M₁, hrow₁, hcur₁, h₁, hext₁⟩ :=
    h.newRow (Extends.refl M) hlt₀ hcols₀ (by omega)
  obtain ⟨nr, s₂, M₂, hrow₂, hcur₂, h₂, hext₂⟩ := h₁.newRow hext₁ hltr hcolsr (by omega)
  obtain ⟨nc, s₃, M₃, hrow₃, hcur₃, h₃, hext₃⟩ := h₂.newRow hext₂ hltc hcolsc (by omega)
  obtain ⟨nb, s₄, M₄, hrow₄, hcur₄, h₄, hext₄⟩ := h₃.newRow hext₃ hltb hcolsb (by omega)
  have hext : Extends M M₄ [n₀, nr, nc, nb] (optionNames i v) := hext₄
  obtain ⟨m', hfold, h₅⟩ := h₄.joinRow hext (optionNames_nodup hi hv)
  refine ⟨{ s₄ with nodes := m' }, M₄.joinRow [n₀, nr, nc, nb], ?_, ?_, h₅,
    hM.joinRow (o := (i, v)) hext, ?_⟩
  · rw [← hfold]
    simp only [SudokuSolver.addOption, hrow₁, hrow₂, hrow₃, hrow₄, bind, Except.bind]
    rfl
  · show s₄.curNode = s.curNode + 4
    omega
  · show M₄.headers.map M₄.name = M.headers.map M.name
    rw [hext.headers]
    exact List.map_congr_left hext.header_name

end Matrix

namespace Used
open ForEach

/-- A clue of the board with the digit `v` lies in the row, column or box `i`. -/
def Clue (unit : ℕ → ℕ) (board : Board) (i v : ℕ) : Prop :=
  ∃ k : Fin kCells, unit k = i ∧ (board.get k).toNat = v

instance (unit : ℕ → ℕ) (board : Board) (i v : ℕ) : Decidable (Clue unit board i v) :=
  inferInstanceAs (Decidable (∃ _, _))

/-- What the first loop of the constructor computes. -/
def clues (board : Board) : Used where
  rows := fun i v => decide (Clue rowOf board i v)
  cols := fun i v => decide (Clue colOf board i v)
  boxes := fun i v => decide (Clue boxOf board i v)

theorem mark_iff {table : ℕ → ℕ → Bool} {i v j w : ℕ} :
    mark table i v j w = true ↔ table j w = true ∨ j = i ∧ w = v := by
  by_cases hj : j = i
  · subst hj
    by_cases hw : w = v
    · subst hw
      simp [mark]
    · simp [mark, hw]
  · simp [mark, hj]

/-- The table of one kind of unit, after the cells `done`. -/
def Marked (unit : ℕ → ℕ) (board : Board) (done : List (Fin kCells)) (table : ℕ → ℕ → Bool) :
    Prop := ∀ i v, table i v = true ↔ ∃ k ∈ done, unit k = i ∧ (board.get k).toNat = v

theorem Marked.mark {unit : ℕ → ℕ} {board : Board} {done : List (Fin kCells)}
    {table : ℕ → ℕ → Bool} (h : Marked unit board done table) (k : Fin kCells) :
    Marked unit board (done ++ [k]) (mark table (unit k) (board.get k).toNat) := by
  intro i v
  rw [mark_iff, h i v]
  constructor
  · intro hor
    rcases hor with ⟨k', hk', hunit⟩ | ⟨hi, hv⟩
    · exact ⟨k', by simp [hk'], hunit⟩
    · exact ⟨k, by simp, hi.symm, hv.symm⟩
  · intro hall
    obtain ⟨k', hk', hi, hv⟩ := hall
    rcases List.mem_append.mp hk' with hk' | hk'
    · exact Or.inl ⟨k', hk', hi, hv⟩
    · have heq := List.mem_singleton.mp hk'
      subst heq
      exact Or.inr ⟨hi.symm, hv.symm⟩

theorem ofBoard_eq {board : Board} (hboard : ∀ i : Fin kCells, 0 ≤ board.get i ∧ board.get i ≤ 9) :
    ofBoard board = .ok (clues board) := by
  obtain ⟨u, hu, hrows, hcols, hboxes⟩ := foldlM_rule (f := markCell board)
    (fun done u => Marked rowOf board done u.rows ∧ Marked colOf board done u.cols ∧
      Marked boxOf board done u.boxes) (l := List.finRange kCells)
    (s := ⟨fun _ _ => false, fun _ _ => false, fun _ _ => false⟩)
    (by
      intro done k u _ hall
      obtain ⟨hrows, hcols, hboxes⟩ := hall
      exact ⟨_, if_pos (hboard k), hrows.mark k, hcols.mark k, hboxes.mark k⟩)
    ⟨by simp [Marked], by simp [Marked], by simp [Marked]⟩
  have htable : ∀ {unit : ℕ → ℕ} {table : ℕ → ℕ → Bool},
      Marked unit board (List.finRange kCells) table →
        table = fun i v => decide (Clue unit board i v) := by
    intro unit table h
    ext i v
    rw [Bool.eq_iff_iff, h i v, decide_eq_true_iff, Clue]
    simp only [List.mem_finRange, true_and]
  rw [ofBoard, hu, clues, ← htable hrows, ← htable hcols, ← htable hboxes]

end Used

/-- The numbers of the columns that the constructor appends for a cell. -/
def cellNames (board : Board) (i : Fin kCells) : List ℕ := if board.get i = 0 then [i.val] else []

/-- The numbers that it appends for the row, column and box `i` and the digit `v`. -/
def unitNames (u : Used) (i v : ℕ) : List ℕ :=
  (if !u.rows i v then [SudokuSolver.getRowCol i v] else []) ++
  (if !u.cols i v then [SudokuSolver.getColCol i v] else []) ++
  (if !u.boxes i v then [SudokuSolver.getBoxCol i v] else [])

/-- The pairs that the third loop of the constructor runs through. -/
def unitPairs : List (ℕ × ℕ) := (List.range 9).flatMap fun i => (List.range' 1 9).map (Prod.mk i)

def columnNames (board : Board) (u : Used) : List ℕ :=
  (List.finRange kCells).flatMap (cellNames board) ++ unitPairs.flatMap fun p => unitNames u p.1 p.2

/-- The digits that no clue excludes from an empty cell. -/
def cellOptions (board : Board) (u : Used) (i : Fin kCells) : List (ℕ × ℕ) :=
  if board.get i = 0 then
    ((List.range' 1 9).filter fun v =>
      !(u.rows (rowOf i) v || u.cols (colOf i) v || u.boxes (boxOf i) v)).map (Prod.mk i.val)
  else []

/-- The numbers of all columns there could be. -/
def allNames : List ℕ :=
  (List.finRange kCells).flatMap (fun i => [i.val]) ++ unitPairs.flatMap fun p =>
    [SudokuSolver.getRowCol p.1 p.2, SudokuSolver.getColCol p.1 p.2, SudokuSolver.getBoxCol p.1 p.2]

theorem mem_unitPairs {p : ℕ × ℕ} : p ∈ unitPairs ↔ p.1 < 9 ∧ 1 ≤ p.2 ∧ p.2 ≤ 9 := by
  simp only [unitPairs, List.mem_flatMap, List.mem_range, List.mem_map, List.mem_range'_1]
  constructor
  · intro hall
    obtain ⟨i, hi, v, hv, hp⟩ := hall
    subst hp
    exact ⟨hi, hv.1, by omega⟩
  · intro hall
    obtain ⟨hi, hv, hv'⟩ := hall
    exact ⟨p.1, hi, p.2, ⟨hv, by omega⟩, rfl⟩

theorem unitPairs_nodup : unitPairs.Nodup := by decide

/-- Cells, rows, columns and boxes are numbered in ranges of their own. -/
theorem allNames_nodup : allNames.Nodup := by
  rw [allNames, List.nodup_append, List.nodup_flatMap, List.nodup_flatMap]
  simp only [SudokuSolver.getRowCol, SudokuSolver.getColCol, SudokuSolver.getBoxCol, kRow, kCol,
    kBox]
  refine ⟨⟨by simp, (List.nodup_finRange kCells).imp fun hne => ?_⟩, ⟨fun p hp => ?_, ?_⟩, ?_⟩
  · simpa [Function.onFun] using Fin.val_ne_of_ne hne.symm
  · have hp := mem_unitPairs.mp hp
    simp only [List.nodup_cons, List.mem_cons, List.not_mem_nil, or_false, not_false_eq_true,
      List.nodup_nil, and_true]
    omega
  · apply unitPairs_nodup.imp_of_mem
    intro p q hp hq hne n hn hn'
    have hp := mem_unitPairs.mp hp
    have hq := mem_unitPairs.mp hq
    simp only [List.mem_cons, List.not_mem_nil, or_false] at hn hn'
    apply hne
    ext
    · omega
    · omega
  · intro n hn n' hn' heq
    obtain ⟨i, -, hi⟩ := List.mem_flatMap.mp hn
    obtain ⟨p, -, hp⟩ := List.mem_flatMap.mp hn'
    have hlt : i.val < 81 := i.isLt
    simp only [List.mem_cons, List.not_mem_nil, or_false] at hi hp
    omega

theorem allNames_lt : ∀ n ∈ allNames, n < kMaxColumns := by decide +kernel

theorem allNames_length : allNames.length = 324 := by decide +kernel

theorem columnNames_sublist (board : Board) (u : Used) :
    (columnNames board u).Sublist allNames := by
  apply List.Sublist.append
  · apply List.Sublist.flatMap_right
    intro i _
    by_cases hi : board.get i = 0
    · rw [cellNames, if_pos hi]
    · rw [cellNames, if_neg hi]
      exact List.nil_sublist _
  · apply List.Sublist.flatMap_right
    intro p _
    have hopt : ∀ (b : Bool) (n : ℕ), (if b then [n] else []).Sublist [n] := by
      intro b n
      cases b with
      | false => simp
      | true => simp
    exact ((hopt _ _).append (hopt _ _)).append (hopt _ _)

/-- While the columns are appended: those named `ns` are there, and no option yet. -/
structure Appended (board : Board) (ns : List ℕ) (s : SudokuSolver) : Prop where
  built : ∃ M : Matrix, M.Built board s ∧ M.headers.map M.name = ns ∧ ∀ j, ¬ M.IsNode j
  curNode : s.curNode = 1 + ns.length

/-- While the options are added: `os` are there, and the columns named `ns`. -/
structure Added (board : Board) (ns : List ℕ) (os : List (ℕ × ℕ)) (s : SudokuSolver) : Prop where
  built : ∃ M : Matrix, M.Built board s ∧ M.headers.map M.name = ns ∧ M.Placed os
  curNode : s.curNode = 1 + ns.length + 4 * os.length

section
variable {board : Board} {u : Used} {s : SudokuSolver} {ns : List ℕ} {os : List (ℕ × ℕ)} {n : ℕ}

/-- The root is the first node taken. -/
theorem appended_nil (board : Board) : ∃ root s,
    (SudokuSolver.blank board).newColumn 0 = .ok (root, s) ∧ Appended board [] { s with root } := by
  have hcur : (SudokuSolver.blank board).curNode < kMaxNodes := by
    simp [SudokuSolver.blank, kMaxNodes]
  refine ⟨_, _, dif_pos hcur, ⟨?_, rfl⟩⟩
  generalize hp : (⟨(SudokuSolver.blank board).curNode, hcur⟩ : Ptr) = p
  generalize hm : (SudokuSolver.blank board).nodes.put p ⟨p, p, p, p, p, 0, 0⟩ = m
  have hnode : ∀ {nodes row col name j},
      ¬ Matrix.IsNode ⟨p, [], nodes, row, col, name⟩ j := fun hj => List.not_mem_nil hj.1
  have hleft : m.left p = p := by rw [← hm, Nodes.left_put, Function.update_self]
  have hright : m.right p = p := by rw [← hm, Nodes.right_put, Function.update_self]
  refine ⟨⟨p, [], fun _ => [], fun _ => [], m.col, m.name⟩, ?_, rfl, fun _ => hnode⟩
  refine ⟨rfl, ⟨?_, ?_, ?_, ?_, ?_, ?_, ?_, ?_, ?_⟩, ⟨rfl, rfl, ?_, ?_, ?_, ?_⟩, ?_, ?_, ?_, rfl, rfl⟩
  · exact List.not_mem_nil
  · simp
  · simp
  · simp
  · exact fun _ hj => absurd hj hnode
  · exact fun _ hj => absurd hj hnode
  · exact fun _ hj => absurd hj hnode
  · exact fun _ hj => absurd hj hnode
  · exact fun _ hj => absurd hj hnode
  · exact fun _ hj => absurd hj hnode
  · exact isRing_nil.mpr ⟨hright, hleft⟩
  · simp
  · simp
  · intro q hq
    refine ⟨?_, List.not_mem_nil, by simp⟩
    intro heq
    have hle : 0 + 1 ≤ q.val := hq
    have hval : q.val = 0 := by rw [heq, ← hp]; rfl
    omega
  · intro k hk c
    simp [SudokuSolver.blank]
  · exact fun _ hj => absurd hj hnode

theorem Appended.append (h : Appended board ns s) (hns : ns ++ [n] <+: columnNames board u) :
    ∃ s', s.appendColumn n = .ok s' ∧ Appended board (ns ++ [n]) s' := by
  obtain ⟨M, hM, hnames, hnodes⟩ := h.built
  have hsub : (ns ++ [n]).Sublist allNames := hns.sublist.trans (columnNames_sublist board u)
  have hnew : n ∉ M.headers.map M.name := by
    rw [hnames]
    exact fun hmem => List.disjoint_of_nodup_append (allNames_nodup.sublist hsub) hmem (by simp)
  have hlen := hsub.length_le
  rw [allNames_length, List.length_append, List.length_singleton] at hlen
  have hcur : s.curNode < kMaxNodes := by
    rw [h.curNode, kMaxNodes]
    omega
  obtain ⟨s', happend, hcur', hM'⟩ :=
    hM.appendColumn (allNames_lt n (hsub.subset (by simp))) hnew hcur
  have hp : M.Fresh ⟨s.curNode, hcur⟩ := hM.fresh _ le_rfl
  refine ⟨s', happend, ⟨_, hM', ?_, ?_⟩, ?_⟩
  · have hold : M.headers.map (Function.update M.name ⟨s.curNode, hcur⟩ n) =
        M.headers.map M.name := by
      apply List.map_congr_left
      intro c hc
      apply Function.update_of_ne
      exact fun heq => hp.headers (heq ▸ hc)
    simp only [Matrix.addColumn, List.map_append, hold, hnames, List.map_singleton,
      Function.update_self]
  · exact fun j hj => hnodes j ((Matrix.isNode_addColumn hp).mp hj)
  · rw [hcur', h.curNode, List.length_append, List.length_singleton, Nat.add_assoc]

/-- A column that is appended if `b` says so. -/
theorem Appended.append_if (h : Appended board ns s) (b : Bool)
    (hns : ns ++ (if b then [n] else []) <+: columnNames board u) :
    ∃ s', (if b then s.appendColumn n else .ok s) = .ok s' ∧
      Appended board (ns ++ if b then [n] else []) s' := by
  cases b with
  | false => exact ⟨s, rfl, by simpa using h⟩
  | true => exact h.append hns

open ForEach

/-- The three columns of a pair, one after the other. -/
theorem addUnitColumns_eq (s : SudokuSolver) (i v : ℕ) : s.addUnitColumns u i v =
    (if !u.rows i v then s.appendColumn (SudokuSolver.getRowCol i v) else .ok s) >>= fun s =>
    (if !u.cols i v then s.appendColumn (SudokuSolver.getColCol i v) else .ok s) >>= fun s =>
    if !u.boxes i v then s.appendColumn (SudokuSolver.getBoxCol i v) else .ok s := by
  rw [SudokuSolver.addUnitColumns]
  cases u.rows i v with
  | false =>
    cases u.cols i v with
    | false => rfl
    | true => rfl
  | true =>
    cases u.cols i v with
    | false => rfl
    | true => rfl

/-- The loops of the constructor that append columns. -/
theorem Appended.columns (h : Appended board [] s) (u : Used) :
    ∃ s' s'', (List.finRange kCells).foldlM SudokuSolver.addCellColumn s = .ok s' ∧
      (List.range 9).foldlM (fun s i =>
        (List.range' 1 9).foldlM (fun s v => s.addUnitColumns u i v) s) s' = .ok s'' ∧
      Appended board (columnNames board u) s'' := by
  obtain ⟨s', hcells, h'⟩ := foldlM_rule (f := SudokuSolver.addCellColumn)
    (fun done s => Appended board (done.flatMap (cellNames board)) s) (l := List.finRange kCells)
    (by
      intro done i s hfront hdone
      obtain ⟨M, hM, -, -⟩ := hdone.built
      obtain ⟨rest, hrest⟩ := hfront
      have hns : done.flatMap (cellNames board) ++ cellNames board i <+: columnNames board u := by
        rw [columnNames, ← hrest]
        refine ⟨rest.flatMap (cellNames board) ++ unitPairs.flatMap fun p => unitNames u p.1 p.2, ?_⟩
        simp
      rw [List.flatMap_append, List.flatMap_singleton, SudokuSolver.addCellColumn, hM.inout]
      rw [cellNames] at hns ⊢
      by_cases hi : board.get i = 0
      · rw [if_pos hi] at hns ⊢
        rw [if_pos hi]
        exact hdone.append hns
      · rw [if_neg hi, if_neg hi, List.append_nil]
        exact ⟨s, rfl, hdone⟩) h
  obtain ⟨s'', hunits, h''⟩ := foldlM_rule
    (f := fun s (p : ℕ × ℕ) => SudokuSolver.addUnitColumns u s p.1 p.2)
    (fun done s => Appended board ((List.finRange kCells).flatMap (cellNames board) ++
      done.flatMap fun p => unitNames u p.1 p.2) s) (l := unitPairs) (s := s')
    (by
      intro done p s hall hdone
      obtain ⟨rest, hrest⟩ := hall
      generalize hns : (List.finRange kCells).flatMap (cellNames board) ++
        done.flatMap (fun p => unitNames u p.1 p.2) = ns at hdone
      have hfront : ns ++ unitNames u p.1 p.2 <+: columnNames board u := by
        rw [columnNames, ← hrest, ← hns]
        refine ⟨rest.flatMap fun p => unitNames u p.1 p.2, ?_⟩
        simp
      have hlist : (List.finRange kCells).flatMap (cellNames board) ++
          (done ++ [p]).flatMap (fun p => unitNames u p.1 p.2) = ns ++ unitNames u p.1 p.2 := by
        rw [List.flatMap_append, List.flatMap_singleton, ← List.append_assoc, hns]
      rw [hlist]
      rw [unitNames, ← List.append_assoc, ← List.append_assoc] at hfront ⊢
      obtain ⟨s₁, hrow, h₁⟩ := hdone.append_if _
        (((List.prefix_append _ _).trans (List.prefix_append _ _)).trans hfront)
      obtain ⟨s₂, hcol, h₂⟩ := h₁.append_if _ ((List.prefix_append _ _).trans hfront)
      obtain ⟨s₃, hbox, h₃⟩ := h₂.append_if _ hfront
      refine ⟨s₃, ?_, h₃⟩
      rw [addUnitColumns_eq, hrow, ok_bind, hcol, ok_bind, hbox])
    (by simpa using h')
  refine ⟨s', s'', hcells, ?_, h''⟩
  rw [← hunits, unitPairs, foldlM_flatMap]
  simp only [List.foldlM_map]

theorem kept_iff {u : Used} {i v : ℕ} :
    (!(u.rows (rowOf i) v || u.cols (colOf i) v || u.boxes (boxOf i) v)) = true ↔
      u.rows (rowOf i) v = false ∧ u.cols (colOf i) v = false ∧ u.boxes (boxOf i) v = false := by
  simp [and_assoc]

theorem mem_cellOptions {o : ℕ × ℕ} {i : Fin kCells} : o ∈ cellOptions board u i ↔
    board.get i = 0 ∧ o.1 = i ∧ (1 ≤ o.2 ∧ o.2 ≤ 9) ∧
      u.rows (rowOf i) o.2 = false ∧ u.cols (colOf i) o.2 = false ∧
        u.boxes (boxOf i) o.2 = false := by
  rw [cellOptions]
  by_cases hi : board.get i = 0
  · rw [if_pos hi]
    simp only [List.mem_map, List.mem_filter, List.mem_range'_1, kept_iff, hi, true_and]
    constructor
    · intro hall
      obtain ⟨v, ⟨hv, hkept⟩, ho⟩ := hall
      subst ho
      exact ⟨rfl, ⟨hv.1, by omega⟩, hkept⟩
    · intro hall
      obtain ⟨hoi, hv, hkept⟩ := hall
      exact ⟨o.2, ⟨⟨hv.1, by omega⟩, hkept⟩, Prod.ext hoi.symm rfl⟩
  · rw [if_neg hi]
    simp only [List.not_mem_nil, hi, false_and]

/-- The columns that the options of a cell need have all been appended. -/
theorem optionNames_sub {o : ℕ × ℕ} {i : Fin kCells} (ho : o ∈ cellOptions board u i) :
    ∀ n ∈ optionNames o.1 o.2, n ∈ columnNames board u := by
  obtain ⟨hi, hoi, hv, hrow, hcol, hbox⟩ := mem_cellOptions.mp ho
  have hlt : i.val < 81 := i.isLt
  have hunit : ∀ (k : ℕ), k < 9 → ∀ n ∈ unitNames u k o.2, n ∈ columnNames board u := by
    intro k hk n hn
    apply List.mem_append_right
    refine List.mem_flatMap.mpr ⟨(k, o.2), ?_, hn⟩
    exact mem_unitPairs.mpr ⟨hk, hv⟩
  simp only [optionNames, List.mem_cons, List.not_mem_nil, or_false, hoi, forall_eq_or_imp,
    forall_eq]
  refine ⟨?_, ?_, ?_, ?_⟩
  · apply List.mem_append_left
    refine List.mem_flatMap.mpr ⟨i, List.mem_finRange i, ?_⟩
    rw [cellNames, if_pos hi]
    simp
  · exact hunit (rowOf i) (by rw [rowOf]; omega) _ (by simp [unitNames, hrow])
  · exact hunit (colOf i) (by rw [colOf]; omega) _ (by simp [unitNames, hcol])
  · exact hunit (boxOf i) (by rw [boxOf]; omega) _ (by simp [unitNames, hbox])

/-- All options of the empty cells. -/
def allOptions (board : Board) (u : Used) : List (ℕ × ℕ) :=
  (List.finRange kCells).flatMap (cellOptions board u)

theorem allOptions_length (board : Board) (u : Used) : (allOptions board u).length ≤ 729 := by
  have hsub : (allOptions board u).Sublist
      ((List.finRange kCells).flatMap fun i => (List.range' 1 9).map (Prod.mk i.val)) := by
    apply List.Sublist.flatMap_right
    intro i _
    rw [cellOptions]
    by_cases hi : board.get i = 0
    · rw [if_pos hi]
      exact List.filter_sublist.map _
    · rw [if_neg hi]
      exact List.nil_sublist _
  apply hsub.length_le.trans
  simp [List.length_flatMap, kCells]

theorem Added.add {o : ℕ × ℕ} {i : Fin kCells} (h : Added board (columnNames board u) os s)
    (ho : o ∈ cellOptions board u i) (hos : os ++ [o] <+: allOptions board u) :
    ∃ s', s.addOption o.1 o.2 = .ok s' ∧ Added board (columnNames board u) (os ++ [o]) s' := by
  obtain ⟨M, hM, hnames, hplaced⟩ := h.built
  obtain ⟨-, hoi, hv, -⟩ := mem_cellOptions.mp ho
  have hlen := hos.length_le.trans (allOptions_length board u)
  have hcols := (columnNames_sublist board u).length_le
  rw [allNames_length] at hcols
  rw [List.length_append, List.length_singleton] at hlen
  have hcur : s.curNode + 4 ≤ kMaxNodes := by
    rw [h.curNode, kMaxNodes]
    omega
  obtain ⟨s', M', hadd, hcur', hM', hplaced', hnames'⟩ := hM.addOption (v := o.2) hplaced
    (hoi ▸ i.isLt) (by omega) (hnames ▸ optionNames_sub ho) hcur
  refine ⟨s', hadd, ⟨M', hM', hnames'.trans hnames, hplaced'⟩, ?_⟩
  rw [hcur', h.curNode, List.length_append, List.length_singleton]
  omega

/-- The last loop of the constructor. -/
theorem Added.options (h : Added board (columnNames board u) [] s) :
    ∃ s', (List.finRange kCells).foldlM (SudokuSolver.addOptions u) s = .ok s' ∧
      Added board (columnNames board u) (allOptions board u) s' := by
  apply foldlM_rule (fun done s => Added board (columnNames board u)
    (done.flatMap (cellOptions board u)) s) _ h
  intro done i s hall hdone
  obtain ⟨rest, hrest⟩ := hall
  obtain ⟨M, hM, -, -⟩ := hdone.built
  generalize hos : done.flatMap (cellOptions board u) = os at hdone
  have hfront : os ++ cellOptions board u i <+: allOptions board u := by
    rw [allOptions, ← hrest, ← hos]
    refine ⟨rest.flatMap (cellOptions board u), ?_⟩
    simp
  rw [List.flatMap_append, List.flatMap_singleton, hos, SudokuSolver.addOptions, hM.inout]
  by_cases hi : board.get i = 0
  · rw [if_pos hi]
    obtain ⟨s', hloop, h'⟩ := foldlM_rule
      (f := fun s (o : ℕ × ℕ) => SudokuSolver.addOption s o.1 o.2)
      (fun done s => Added board (columnNames board u) (os ++ done) s)
      (l := cellOptions board u i) (s := s)
      (by
        intro done o s hdone hs
        rw [← List.append_assoc]
        apply hs.add (hdone.subset (by simp))
        rw [List.append_assoc]
        exact ((List.prefix_append_right_inj os).mpr hdone).trans hfront)
      (by simpa using hdone)
    refine ⟨s', ?_, h'⟩
    rw [← hloop, cellOptions, if_pos hi, List.foldlM_map, List.foldlM_filter]
    rfl
  · rw [if_neg hi, cellOptions, if_neg hi, List.append_nil]
    exact ⟨s, rfl, hdone⟩

/-- The constructor completes. Its matrix has the columns for the empty cells and for the digits
that units still miss, and for each digit that no clue excludes from an empty cell an option. -/
theorem SudokuSolver.new_eq (hboard : ∀ i : Fin kCells, 0 ≤ board.get i ∧ board.get i ≤ 9) :
    ∃ s, new board = .ok s ∧ ∃ M : Matrix, M.Built board s ∧
      M.headers.map M.name = columnNames board (.clues board) ∧
      M.Placed (allOptions board (.clues board)) := by
  obtain ⟨root, s₀, hroot, h₀⟩ := appended_nil board
  obtain ⟨s₁, s₂, hcells, hunits, h₂⟩ := h₀.columns (.clues board)
  obtain ⟨M, hM, hnames, hnodes⟩ := h₂.built
  have hplaced : M.Placed [] :=
    ⟨fun j hj => absurd hj (hnodes j), fun o ho => absurd ho List.not_mem_nil⟩
  obtain ⟨s₃, hoptions, h₃⟩ := Added.options ⟨⟨M, hM, hnames, hplaced⟩, by simpa using h₂.curNode⟩
  refine ⟨s₃, ?_, h₃.built⟩
  rw [new, hroot, ok_bind, Used.ofBoard_eq hboard]
  dsimp only
  rw [ok_bind, hcells, ok_bind, hunits, ok_bind, hoptions]

end

end Muduo.Sudoku

import Mathlib.Data.List.Rotate
import Muduo.Examples.DancingLinks

/-!
# The matrix of a puzzle

What the constructor of the sudoku solver builds. Nodes are taken from `nodes_` one after the
other. Each of `append_column`, `new_row` and the linking of a row leaves the memory showing a
well-formed matrix with all of its columns.
-/
namespace Muduo.Sudoku
open Ring

namespace Nodes

variable {m : Nodes} {p q c : Ptr}

section
variable (m : Nodes) (p : Ptr) (n : Node)

theorem left_put : (m.put p n).left = Function.update m.left p n.left := m.field_put p _ n
theorem right_put : (m.put p n).right = Function.update m.right p n.right := m.field_put p _ n
theorem up_put : (m.put p n).up = Function.update m.up p n.up := m.field_put p _ n
theorem down_put : (m.put p n).down = Function.update m.down p n.down := m.field_put p _ n
theorem col_put : (m.put p n).col = Function.update m.col p n.col := m.field_put p _ n
theorem size_put : (m.put p n).size = Function.update m.size p n.size := m.field_put p _ n

end

@[simp] theorem fields_setCol : (m.put p { m.node p with col := q }).fields =
    { m.fields with col := Function.update m.fields.col p q } := by
  rw [fields_put]
  simp [fields, left, right, up, down, name, size]

theorem fields_putLeft {s : SudokuSolver} (h : p ≠ q) : (s.putLeft p q).nodes.fields =
    { s.nodes.fields with
      left := Function.update (Function.update s.nodes.left q (s.nodes.left p)) p q
      right := Function.update (Function.update s.nodes.right q p) (s.nodes.left p) q } := by
  simp [SudokuSolver.putLeft, left_eq, right_eq, Function.update_of_ne h]

theorem fields_putUp {s : SudokuSolver} (h : p ≠ q) : (s.putUp p q).nodes.fields =
    { s.nodes.fields with
      up := Function.update (Function.update s.nodes.up q (s.nodes.up p)) p q
      down := Function.update (Function.update s.nodes.down q p) (s.nodes.up p) q
      col := Function.update s.nodes.col q p
      size := Function.update s.nodes.size p (s.nodes.size p + 1) } := by
  simp [SudokuSolver.putUp, up_eq, down_eq, col_eq, size_eq, Function.update_of_ne h]

end Nodes

namespace Matrix

/-- The memory shows all columns of the matrix, and all its nodes. -/
structure Stores (M : Matrix) (m : Nodes) : Prop where
  col : m.col = M.col
  name : m.name = M.name
  rows : ∀ j, M.IsNode j → IsRing m.right m.left j (M.row j)
  headers : IsRing m.right m.left M.root M.headers
  columns : ∀ c ∈ M.headers, IsRing m.down m.up c (M.nodes c)
  sizes : ∀ c ∈ M.headers, m.size c = (M.nodes c).length

variable {M : Matrix} {m : Nodes} {c d i j p r : Ptr} {n : ℕ}

theorem Wf.visible_headers (wf : M.Wf) (hc : c ∈ M.headers) :
    M.visible M.headers c = M.nodes c := by
  apply List.filter_eq_self.mpr
  intro j hj
  have hnode := wf.isNode hc hj
  suffices ∀ d ∈ M.columns j, d ∈ M.headers by simpa
  intro d hd
  obtain ⟨i, hi, hcol⟩ := List.mem_map.mp hd
  subst hcol
  rcases List.mem_cons.mp hi with heq | hi
  · exact heq ▸ hnode.1
  · exact (wf.row_node j hnode i hi).1

theorem Stores.shows (h : M.Stores m) (wf : M.Wf) : M.Shows m M.headers where
  sub := fun _ hc => hc
  col := h.col
  name := h.name
  rows := h.rows
  headers := h.headers
  columns := by
    intro c hc
    rw [wf.visible_headers hc]
    exact h.columns c hc
  sizes := by
    intro c hc
    rw [wf.visible_headers hc]
    exact h.sizes c hc

/-- The matrix with one more column, which has no nodes yet. -/
def addColumn (M : Matrix) (p : Ptr) (n : ℕ) : Matrix where
  root := M.root
  headers := M.headers ++ [p]
  nodes := Function.update M.nodes p []
  row := M.row
  col := Function.update M.col p p
  name := Function.update M.name p n

/-- The matrix with one more node in the column `c`, alone in its row. -/
def addNode (M : Matrix) (c r : Ptr) (n : ℕ) : Matrix where
  root := M.root
  headers := M.headers
  nodes := Function.update M.nodes c (M.nodes c ++ [r])
  row := Function.update M.row r []
  col := Function.update M.col r c
  name := Function.update M.name r n

/-- The matrix where the nodes `js` make up one row. -/
def joinRow (M : Matrix) (js : List Ptr) : Matrix where
  root := M.root
  headers := M.headers
  nodes := M.nodes
  row := fun j => if j ∈ js then (js.rotate (js.idxOf j)).tail else M.row j
  col := M.col
  name := M.name

/-- The cell `p` is not part of the matrix. -/
structure Fresh (M : Matrix) (p : Ptr) : Prop where
  root : p ≠ M.root
  headers : p ∉ M.headers
  nodes : ∀ c ∈ M.headers, p ∉ M.nodes c

theorem Fresh.ne_node (hp : M.Fresh p) (hj : M.IsNode j) : j ≠ p := by
  intro heq
  exact hp.nodes _ hj.1 (heq ▸ hj.2)

section
variable (wf : M.Wf)
include wf

theorem Fresh.not_mem_row (hp : M.Fresh p) (hj : M.IsNode j) : p ∉ j :: M.row j := by
  intro hmem
  rcases List.mem_cons.mp hmem with heq | hmem
  · exact hp.ne_node hj heq.symm
  · exact hp.ne_node (wf.row_node j hj p hmem) rfl

omit wf in
theorem isNode_addColumn (hp : M.Fresh p) : (M.addColumn p n).IsNode j ↔ M.IsNode j := by
  by_cases hj : j = p
  · subst hj
    have hnot : ¬ M.IsNode j := fun hj => hp.ne_node hj rfl
    simp only [hnot, iff_false]
    intro hnode
    simpa [addColumn] using hnode.2
  · have hcol : (M.addColumn p n).col j = M.col j := Function.update_of_ne hj ..
    by_cases hjp : M.col j = p
    · have hnot : ¬ M.IsNode j := fun hnode => hp.headers (hjp ▸ hnode.1)
      simp only [hnot, iff_false]
      intro hnode
      have hmem := hnode.2
      rw [hcol, hjp] at hmem
      simp [addColumn] at hmem
    · rw [IsNode, IsNode, hcol]
      simp [addColumn, hjp]

theorem columns_addColumn (hp : M.Fresh p) (hj : M.IsNode j) :
    (M.addColumn p n).columns j = M.columns j := by
  apply List.map_congr_left
  intro i hi
  apply Function.update_of_ne
  intro heq
  exact hp.not_mem_row wf hj (heq ▸ hi)

theorem Wf.addColumn (hp : M.Fresh p) : (M.addColumn p n).Wf where
  root_header := by
    intro hmem
    rcases List.mem_append.mp hmem with hmem | hmem
    · exact wf.root_header hmem
    · exact hp.root (List.mem_singleton.mp hmem).symm
  col_header := by
    intro c hc
    by_cases hcp : c = p
    · subst hcp
      exact Function.update_self ..
    · have hc : c ∈ M.headers := by simpa [Matrix.addColumn, hcp] using hc
      exact (Function.update_of_ne hcp ..).trans (wf.col_header c hc)
  nodes_nodup := by
    intro c hc
    by_cases hcp : c = p
    · subst hcp
      simp [Matrix.addColumn]
    · have hc : c ∈ M.headers := by simpa [Matrix.addColumn, hcp] using hc
      simpa [Matrix.addColumn, hcp] using wf.nodes_nodup c hc
  col_node := by
    intro c hc j hj
    by_cases hcp : c = p
    · subst hcp
      simp [Matrix.addColumn] at hj
    · have hc : c ∈ M.headers := by simpa [Matrix.addColumn, hcp] using hc
      have hj : j ∈ M.nodes c := by simpa [Matrix.addColumn, hcp] using hj
      have hjp : j ≠ p := fun heq => hp.nodes c hc (heq ▸ hj)
      exact (Function.update_of_ne hjp ..).trans (wf.col_node c hc j hj)
  node_header := by
    intro j hj hmem
    have hj := (isNode_addColumn hp).mp hj
    rcases List.mem_append.mp hmem with hmem | hmem
    · exact wf.node_header j hj hmem
    · exact hp.ne_node hj (List.mem_singleton.mp hmem)
  node_root := fun j hj => wf.node_root j ((isNode_addColumn hp).mp hj)
  row_node := by
    intro j hj i hi
    exact (isNode_addColumn hp).mpr (wf.row_node j ((isNode_addColumn hp).mp hj) i hi)
  row_perm := fun j hj => wf.row_perm j ((isNode_addColumn hp).mp hj)
  columns_nodup := by
    intro j hj
    have hj := (isNode_addColumn hp).mp hj
    rw [columns_addColumn wf hp hj]
    exact wf.columns_nodup j hj

/-- What `append_column` writes, but for the table of the columns. -/
theorem Stores.addColumn {m' : Nodes} (h : M.Stores m) (hp : M.Fresh p)
    (hm' : m'.fields = {
      left := Function.update (Function.update m.left p (m.left M.root)) M.root p
      right := Function.update (Function.update m.right p M.root) (m.left M.root) p
      up := Function.update m.up p p
      down := Function.update m.down p p
      col := Function.update m.col p p
      name := Function.update m.name p n
      size := Function.update m.size p 0 }) : (M.addColumn p n).Stores m' := by
  simp only [Nodes.fields, Nodes.Fields.mk.injEq] at hm'
  obtain ⟨hleft, hright, hup, hdown, hcol, hname, hsize⟩ := hm'
  have hpring : p ∉ M.root :: M.headers := by
    intro hmem
    rcases List.mem_cons.mp hmem with heq | hmem
    · exact hp.root heq
    · exact hp.headers hmem
  have hlast : m.left M.root ∈ M.root :: M.headers := h.headers.prev_mem (by simp)
  refine ⟨?_, ?_, ?_, ?_, ?_, ?_⟩
  · exact hcol.trans (by rw [h.col]; rfl)
  · exact hname.trans (by rw [h.name]; rfl)
  · intro j hj
    have hj := (isNode_addColumn hp).mp hj
    have hout : ∀ i ∈ j :: M.row j, i ≠ p ∧ i ∉ M.root :: M.headers := by
      intro i hi
      refine ⟨fun heq => hp.not_mem_row wf hj (heq ▸ hi), fun hmem => ?_⟩
      have hinode : M.IsNode i := by
        rcases List.mem_cons.mp hi with heq | hi
        · exact heq ▸ hj
        · exact wf.row_node j hj i hi
      rcases List.mem_cons.mp hmem with heq | hmem
      · exact wf.node_root i hinode heq
      · exact wf.node_header i hinode hmem
    apply (h.rows j hj).congr
    · intro i hi
      obtain ⟨hip, hir⟩ := hout i hi
      have hil : i ≠ m.left M.root := fun heq => hir (heq ▸ hlast)
      rw [hright, Function.update_of_ne hil, Function.update_of_ne hip]
    · intro i hi
      obtain ⟨hip, hir⟩ := hout i hi
      have hiroot : i ≠ M.root := fun heq => hir (by simp [heq])
      rw [hleft, Function.update_of_ne hiroot, Function.update_of_ne hip]
  · rw [hright, hleft]
    exact h.headers.insert_last hpring
  · intro c hc
    rw [hdown, hup]
    by_cases hcp : c = p
    · subst hcp
      simp [Matrix.addColumn, isRing_nil]
    · have hc : c ∈ M.headers := by simpa [Matrix.addColumn, hcp] using hc
      have hnodes : (M.addColumn p n).nodes c = M.nodes c := Function.update_of_ne hcp ..
      rw [hnodes]
      have hout : ∀ i ∈ c :: M.nodes c, i ≠ p := by
        intro i hi heq
        rcases List.mem_cons.mp hi with hic | hi
        · exact hcp (hic.symm.trans heq)
        · exact hp.nodes c hc (heq ▸ hi)
      apply (h.columns c hc).congr
      · exact fun i hi => Function.update_of_ne (hout i hi) ..
      · exact fun i hi => Function.update_of_ne (hout i hi) ..
  · intro c hc
    rw [hsize]
    by_cases hcp : c = p
    · subst hcp
      simp [Matrix.addColumn]
    · have hc : c ∈ M.headers := by simpa [Matrix.addColumn, hcp] using hc
      simpa [Matrix.addColumn, hcp] using h.sizes c hc

variable (hc : c ∈ M.headers) (hr : M.Fresh r)
include hc hr

omit wf in
theorem isNode_addNode : (M.addNode c r n).IsNode j ↔ M.IsNode j ∨ j = r := by
  by_cases hj : j = r
  · subst hj
    simp [IsNode, addNode, hc]
  · have hcol : (M.addNode c r n).col j = M.col j := Function.update_of_ne hj ..
    simp only [hj, or_false]
    rw [IsNode, IsNode, hcol]
    by_cases hjc : M.col j = c
    · subst hjc
      simp [addNode, hj]
    · simp [addNode, hjc]

omit hc in
theorem columns_addNode (hj : M.IsNode j) : (M.addNode c r n).columns j = M.columns j := by
  have hjr : j ≠ r := hr.ne_node hj
  have hrow : (M.addNode c r n).row j = M.row j := Function.update_of_ne hjr ..
  rw [columns, columns, hrow]
  apply List.map_congr_left
  intro i hi
  apply Function.update_of_ne
  intro heq
  exact hr.not_mem_row wf hj (heq ▸ hi)

theorem Wf.addNode : (M.addNode c r n).Wf where
  root_header := wf.root_header
  col_header := by
    intro d hd
    have hdr : d ≠ r := fun heq => hr.headers (heq ▸ hd)
    exact (Function.update_of_ne hdr ..).trans (wf.col_header d hd)
  nodes_nodup := by
    intro d hd
    by_cases hdc : d = c
    · subst hdc
      simpa [Matrix.addNode, List.nodup_append] using
        ⟨wf.nodes_nodup d hd, fun a ha heq => hr.nodes d hd (heq ▸ ha)⟩
    · simpa [Matrix.addNode, hdc] using wf.nodes_nodup d hd
  col_node := by
    intro d hd j hj
    by_cases hjr : j = r
    · subst hjr
      by_cases hdc : d = c
      · subst hdc
        exact Function.update_self ..
      · have hj : j ∈ M.nodes d := by simpa [Matrix.addNode, hdc] using hj
        exact absurd hj (hr.nodes d hd)
    · have hj : j ∈ M.nodes d := by
        by_cases hdc : d = c
        · subst hdc
          simpa [Matrix.addNode, hjr] using hj
        · simpa [Matrix.addNode, hdc] using hj
      exact (Function.update_of_ne hjr ..).trans (wf.col_node d hd j hj)
  node_header := by
    intro j hj
    rcases (isNode_addNode hc hr).mp hj with hj | heq
    · exact wf.node_header j hj
    · exact heq ▸ hr.headers
  node_root := by
    intro j hj
    rcases (isNode_addNode hc hr).mp hj with hj | heq
    · exact wf.node_root j hj
    · exact heq ▸ hr.root
  row_node := by
    intro j hj i hi
    rcases (isNode_addNode hc hr).mp hj with hj | heq
    · have hrow : (M.addNode c r n).row j = M.row j := Function.update_of_ne (hr.ne_node hj) ..
      exact (isNode_addNode hc hr).mpr (Or.inl (wf.row_node j hj i (hrow ▸ hi)))
    · subst heq
      simp [Matrix.addNode] at hi
  row_perm := by
    intro j hj i hi
    rcases (isNode_addNode hc hr).mp hj with hj | heq
    · have hrow : (M.addNode c r n).row j = M.row j := Function.update_of_ne (hr.ne_node hj) ..
      rw [hrow] at hi ⊢
      have hirow : (M.addNode c r n).row i = M.row i :=
        Function.update_of_ne (hr.ne_node (wf.row_node j hj i hi)) ..
      rw [hirow]
      exact wf.row_perm j hj i hi
    · subst heq
      simp [Matrix.addNode] at hi
  columns_nodup := by
    intro j hj
    rcases (isNode_addNode hc hr).mp hj with hj | heq
    · rw [columns_addNode wf hr hj]
      exact wf.columns_nodup j hj
    · subst heq
      simp [columns, Matrix.addNode]

/-- What `new_row` writes. -/
theorem Stores.addNode {m' : Nodes} (h : M.Stores m)
    (hm' : m'.fields = {
      left := Function.update m.left r r
      right := Function.update m.right r r
      up := Function.update (Function.update m.up r (m.up c)) c r
      down := Function.update (Function.update m.down r c) (m.up c) r
      col := Function.update m.col r c
      name := Function.update m.name r n
      size := Function.update (Function.update m.size r 0) c (m.size c + 1) }) :
    (M.addNode c r n).Stores m' := by
  simp only [Nodes.fields, Nodes.Fields.mk.injEq] at hm'
  obtain ⟨hleft, hright, hup, hdown, hcol, hname, hsize⟩ := hm'
  have hring : r ∉ c :: M.nodes c := by
    intro hmem
    rcases List.mem_cons.mp hmem with heq | hmem
    · exact hr.headers (heq ▸ hc)
    · exact hr.nodes c hc hmem
  have hlast : m.up c ∈ c :: M.nodes c := (h.columns c hc).prev_mem (by simp)
  refine ⟨?_, ?_, ?_, ?_, ?_, ?_⟩
  · exact hcol.trans (by rw [h.col]; rfl)
  · exact hname.trans (by rw [h.name]; rfl)
  · intro j hj
    rw [hright, hleft]
    rcases (isNode_addNode hc hr).mp hj with hj | heq
    · have hrow : (M.addNode c r n).row j = M.row j := Function.update_of_ne (hr.ne_node hj) ..
      rw [hrow]
      have hout : ∀ i ∈ j :: M.row j, i ≠ r := fun i hi heq => hr.not_mem_row wf hj (heq ▸ hi)
      apply (h.rows j hj).congr
      · exact fun i hi => Function.update_of_ne (hout i hi) ..
      · exact fun i hi => Function.update_of_ne (hout i hi) ..
    · subst heq
      simp [Matrix.addNode, isRing_nil]
  · rw [hright, hleft]
    have hout : ∀ i ∈ M.root :: M.headers, i ≠ r := by
      intro i hi heq
      rcases List.mem_cons.mp hi with hroot | hi
      · exact hr.root (heq.symm.trans hroot)
      · exact hr.headers (heq ▸ hi)
    apply h.headers.congr
    · exact fun i hi => Function.update_of_ne (hout i hi) ..
    · exact fun i hi => Function.update_of_ne (hout i hi) ..
  · intro d hd
    rw [hdown, hup]
    by_cases hdc : d = c
    · subst hdc
      have hnodes : (M.addNode d r n).nodes d = M.nodes d ++ [r] := Function.update_self ..
      rw [hnodes]
      exact (h.columns d hd).insert_last hring
    · have hnodes : (M.addNode c r n).nodes d = M.nodes d := Function.update_of_ne hdc ..
      rw [hnodes]
      have hout : ∀ i ∈ d :: M.nodes d, i ≠ r ∧ i ∉ c :: M.nodes c := by
        intro i hi
        have hcol : M.col i = d := by
          rcases List.mem_cons.mp hi with heq | hi
          · exact heq ▸ wf.col_header d hd
          · exact wf.col_node d hd i hi
        constructor
        · intro heq
          rcases List.mem_cons.mp hi with hid | hi
          · exact hr.headers (heq ▸ hid ▸ hd)
          · exact hr.nodes d hd (heq ▸ hi)
        · intro hmem
          apply hdc
          rcases List.mem_cons.mp hmem with heq | hmem
          · exact hcol.symm.trans (heq ▸ wf.col_header c hc)
          · exact hcol.symm.trans (wf.col_node c hc i hmem)
      apply (h.columns d hd).congr
      · intro i hi
        obtain ⟨hir, hic⟩ := hout i hi
        have hiup : i ≠ m.up c := fun heq => hic (heq ▸ hlast)
        rw [Function.update_of_ne hiup, Function.update_of_ne hir]
      · intro i hi
        obtain ⟨hir, hic⟩ := hout i hi
        have hicol : i ≠ c := fun heq => hic (by simp [heq])
        rw [Function.update_of_ne hicol, Function.update_of_ne hir]
  · intro d hd
    rw [hsize]
    by_cases hdc : d = c
    · subst hdc
      simp [Matrix.addNode, h.sizes d hd]
    · have hdr : d ≠ r := fun heq => hr.headers (heq ▸ hd)
      simp [Matrix.addNode, hdc, hdr, h.sizes d hd]

end

variable {js xs : List Ptr}

/-- The nodes `js`, begun at one of them. -/
theorem joinRow_rotate {as bs : List Ptr} (hjs : js = as ++ j :: bs) (hj : j ∉ as) :
    (M.joinRow js).row j = bs ++ as := by
  have hmem : j ∈ js := by simp [hjs]
  have hidx : js.idxOf j = as.length := by
    rw [hjs, List.idxOf_append_of_notMem hj, List.idxOf_cons_self, Nat.add_zero]
  have hrow : (M.joinRow js).row j = (js.rotate (js.idxOf j)).tail := if_pos hmem
  rw [hrow, hidx, hjs, List.rotate_append_length_eq]
  rfl

theorem joinRow_perm (hj : j ∈ js) : (j :: (M.joinRow js).row j).Perm js := by
  obtain ⟨as, bs, hjs, hnot⟩ := List.eq_append_cons_of_mem hj
  rw [joinRow_rotate hjs hnot, hjs]
  exact @List.perm_append_comm _ (j :: bs) as

theorem joinRow_row (hj : j ∉ js) : (M.joinRow js).row j = M.row j := if_neg hj

section
variable (wf : M.Wf) (hjs : ∀ j ∈ js, M.IsNode j ∧ M.row j = [])
include wf hjs

/-- The row of another node has none of the nodes that are alone in their rows. -/
theorem Wf.alone (hj : M.IsNode j) (hi : i ∈ M.row j) : i ∉ js := by
  intro hmem
  have hlen := (wf.row_perm j hj i hi).length_eq
  rw [(hjs i hmem).2] at hlen
  have hpos := List.length_pos_of_mem hi
  simp only [List.length_cons, List.length_nil] at hlen
  omega

theorem Wf.joinRow (hnodup : (js.map M.col).Nodup) : (M.joinRow js).Wf where
  root_header := wf.root_header
  col_header := wf.col_header
  nodes_nodup := wf.nodes_nodup
  col_node := wf.col_node
  node_header := wf.node_header
  node_root := wf.node_root
  row_node := by
    intro j hj i hi
    by_cases hmem : j ∈ js
    · have hi : i ∈ js := (joinRow_perm hmem).subset (List.mem_cons_of_mem j hi)
      exact (hjs i hi).1
    · rw [joinRow_row hmem] at hi
      exact wf.row_node j hj i hi
  row_perm := by
    intro j hj i hi
    by_cases hmem : j ∈ js
    · have hi : i ∈ js := (joinRow_perm hmem).subset (List.mem_cons_of_mem j hi)
      exact (joinRow_perm hi).trans (joinRow_perm hmem).symm
    · rw [joinRow_row hmem] at hi ⊢
      rw [joinRow_row (wf.alone hjs hj hi)]
      exact wf.row_perm j hj i hi
  columns_nodup := by
    intro j hj
    by_cases hmem : j ∈ js
    · exact ((joinRow_perm hmem).map M.col).nodup_iff.mpr hnodup
    · rw [columns, joinRow_row hmem]
      exact wf.columns_nodup j hj

/-- What the three calls of `put_left` write for the row of an option. -/
theorem Stores.joinRow {m' : Nodes} (h : M.Stores m) (hjx : js = r :: xs)
    (hring : IsRing m'.right m'.left r xs)
    (hout : ∀ p ∉ js, m'.right p = m.right p ∧ m'.left p = m.left p)
    (hrest : m'.up = m.up ∧ m'.down = m.down ∧ m'.col = m.col ∧ m'.name = m.name ∧
      m'.size = m.size) : (M.joinRow js).Stores m' := by
  obtain ⟨hup, hdown, hcol, hname, hsize⟩ := hrest
  refine ⟨hcol.trans h.col, hname.trans h.name, ?_, ?_, ?_, ?_⟩
  · intro j hj
    by_cases hmem : j ∈ js
    · rcases List.mem_cons.mp (hjx ▸ hmem) with heq | hjxs
      · subst heq
        have hlist : js = [] ++ j :: xs := hjx
        rw [joinRow_rotate hlist List.not_mem_nil, List.append_nil]
        exact hring
      · obtain ⟨as, bs, hxs⟩ := List.append_of_mem hjxs
        have hlist : js = (r :: as) ++ j :: bs := by simp [hjx, hxs]
        have hnot : j ∉ r :: as := by
          have hnodup := hring.nodup
          rw [← hjx, hlist] at hnodup
          exact fun hin => List.disjoint_of_nodup_append hnodup hin (by simp)
        rw [joinRow_rotate hlist hnot]
        exact (hxs ▸ hring).rotate
    · rw [joinRow_row hmem]
      have hnot : ∀ i ∈ j :: M.row j, i ∉ js := by
        intro i hi
        rcases List.mem_cons.mp hi with heq | hi
        · exact heq ▸ hmem
        · exact wf.alone hjs hj hi
      apply (h.rows j hj).congr
      · exact fun i hi => (hout i (hnot i hi)).1
      · exact fun i hi => (hout i (hnot i hi)).2
  · have hnot : ∀ i ∈ M.root :: M.headers, i ∉ js := by
      intro i hi hmem
      rcases List.mem_cons.mp hi with heq | hi
      · exact wf.node_root i (hjs i hmem).1 heq
      · exact wf.node_header i (hjs i hmem).1 hi
    apply h.headers.congr
    · exact fun i hi => (hout i (hnot i hi)).1
    · exact fun i hi => (hout i (hnot i hi)).2
  · rw [hdown, hup]
    exact h.columns
  · rw [hsize]
    exact h.sizes

end

end Matrix
end Muduo.Sudoku

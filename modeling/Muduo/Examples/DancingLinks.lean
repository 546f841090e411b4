import Mathlib.Data.List.Perm.Basic
import Muduo.Examples.SudokuSolver

/-!
# Dancing links

What `cover` and `uncover` of the sudoku solver do to the linked matrix. The matrix itself never
changes: its columns, the nodes of each column, the other nodes of a node's row. What changes is
which columns are shown, and with a column vanish the rows that meet it. `cover` hides a column,
and `uncover` gives back the very memory from before.
-/
namespace Muduo.Sudoku
open Ring

namespace Nodes

/-- The memory, read field by field. -/
structure Fields where
  left : Ptr → Ptr
  right : Ptr → Ptr
  up : Ptr → Ptr
  down : Ptr → Ptr
  col : Ptr → Ptr
  name : Ptr → ℕ
  size : Ptr → ℤ

def fields (m : Nodes) : Fields := ⟨m.left, m.right, m.up, m.down, m.col, m.name, m.size⟩

theorem fields_injective : Function.Injective fields := by
  intro m m' h
  have hnode : ∀ p, m.node p = m'.node p := by
    intro p
    have hl := congrFun (congrArg Fields.left h) p
    have hr := congrFun (congrArg Fields.right h) p
    have hu := congrFun (congrArg Fields.up h) p
    have hd := congrFun (congrArg Fields.down h) p
    have hc := congrFun (congrArg Fields.col h) p
    have hn := congrFun (congrArg Fields.name h) p
    have hs := congrFun (congrArg Fields.size h) p
    simp only [fields, left, right, up, down, col, name, size] at hl hr hu hd hc hn hs
    cases hm : m.node p
    cases hm' : m'.node p
    simp_all
  obtain ⟨cells⟩ := m
  obtain ⟨cells'⟩ := m'
  congr 1
  apply Vector.ext
  intro i hi
  exact hnode ⟨i, hi⟩

variable (m : Nodes) (p q : Ptr)

/-- One field of one cell is written: the other fields stay. -/
theorem field_put {β : Type*} (f : Node → β) (n : Node) :
    (fun r => f ((m.put p n).node r)) = Function.update (fun r => f (m.node r)) p (f n) := by
  ext r
  rw [node_put]
  by_cases hr : r = p
  · subst hr
    simp
  · simp [hr]

theorem fields_put (n : Node) : (m.put p n).fields =
    { left := Function.update m.left p n.left
      right := Function.update m.right p n.right
      up := Function.update m.up p n.up
      down := Function.update m.down p n.down
      col := Function.update m.col p n.col
      name := Function.update m.name p n.name
      size := Function.update m.size p n.size } := by
  simp only [fields, Fields.mk.injEq]
  exact ⟨m.field_put p Node.left n, m.field_put p Node.right n, m.field_put p Node.up n,
    m.field_put p Node.down n, m.field_put p Node.col n, m.field_put p Node.name n,
    m.field_put p Node.size n⟩

theorem left_eq : m.left = m.fields.left := rfl
theorem right_eq : m.right = m.fields.right := rfl
theorem up_eq : m.up = m.fields.up := rfl
theorem down_eq : m.down = m.fields.down := rfl
theorem col_eq : m.col = m.fields.col := rfl
theorem size_eq : m.size = m.fields.size := rfl

@[simp] theorem fields_setLeft :
    (m.setLeft p q).fields = { m.fields with left := Function.update m.fields.left p q } := by
  rw [setLeft, fields_put]
  simp [fields, right, up, down, col, name, size]

@[simp] theorem fields_setRight :
    (m.setRight p q).fields = { m.fields with right := Function.update m.fields.right p q } := by
  rw [setRight, fields_put]
  simp [fields, left, up, down, col, name, size]

@[simp] theorem fields_setUp :
    (m.setUp p q).fields = { m.fields with up := Function.update m.fields.up p q } := by
  rw [setUp, fields_put]
  simp [fields, left, right, down, col, name, size]

@[simp] theorem fields_setDown :
    (m.setDown p q).fields = { m.fields with down := Function.update m.fields.down p q } := by
  rw [setDown, fields_put]
  simp [fields, left, right, up, col, name, size]

@[simp] theorem fields_setSize (n : ℤ) :
    (m.setSize p n).fields = { m.fields with size := Function.update m.fields.size p n } := by
  rw [setSize, fields_put]
  simp [fields, left, right, up, down, col, name]

variable {m} {j c : Ptr}

theorem fields_unlinkHeader (h : m.right c ≠ c) : (m.unlinkHeader c).fields =
    { m.fields with
      left := unlinkPrev m.right m.left c
      right := unlinkNext m.right m.left c } := by
  rw [right_eq] at h
  simp [unlinkHeader, unlinkPrev, unlinkNext, left_eq, right_eq, Function.update_of_ne h.symm]

theorem fields_relinkHeader (h : m.right c ≠ c) : (m.relinkHeader c).fields =
    { m.fields with
      left := relinkPrev m.right m.left c
      right := relinkNext m.right m.left c } := by
  rw [right_eq] at h
  simp [relinkHeader, relinkPrev, relinkNext, left_eq, right_eq, Function.update_of_ne h.symm]

theorem fields_hide (h : m.down j ≠ j) : (m.hide j).fields =
    { m.fields with
      up := unlinkPrev m.down m.up j
      down := unlinkNext m.down m.up j
      size := Function.update m.size (m.col j) (m.size (m.col j) - 1) } := by
  rw [down_eq] at h
  simp [hide, unlinkPrev, unlinkNext, up_eq, down_eq, col_eq, size_eq, Function.update_of_ne h.symm]

theorem fields_unhide (h : m.down j ≠ j) : (m.unhide j).fields =
    { m.fields with
      up := relinkPrev m.down m.up j
      down := relinkNext m.down m.up j
      size := Function.update m.size (m.col j) (m.size (m.col j) + 1) } := by
  rw [down_eq] at h
  simp [unhide, relinkPrev, relinkNext, up_eq, down_eq, col_eq, size_eq,
    Function.update_of_ne h.symm]

/-- `hide` and `unhide` write no links within rows. -/
theorem left_hide : (m.hide j).left = m.left := by simp [hide, left_eq]

theorem right_hide : (m.hide j).right = m.right := by simp [hide, right_eq]

theorem left_unhide : (m.unhide j).left = m.left := by simp [unhide, left_eq]

theorem right_unhide : (m.unhide j).right = m.right := by simp [unhide, right_eq]

variable {xs : List Ptr}

/-- A node that was hidden from the ring of a column is linked in again. -/
theorem unhide_hide (hr : IsRing m.down m.up c xs) (hj : j ∈ xs) : (m.hide j).unhide j = m := by
  have hfields := fields_hide (hr.next_ne hj)
  have hdown : (m.hide j).down = unlinkNext m.down m.up j := congrArg Fields.down hfields
  have hup : (m.hide j).up = unlinkPrev m.down m.up j := congrArg Fields.up hfields
  have hcol : (m.hide j).col = m.col := congrArg Fields.col hfields
  have hsize : (m.hide j).size = Function.update m.size (m.col j) (m.size (m.col j) - 1) :=
    congrArg Fields.size hfields
  have hne : (m.hide j).down j ≠ j := by
    rw [hdown, unlinkNext, Function.update_of_ne (hr.prev_ne hj).symm]
    exact hr.next_ne hj
  apply fields_injective
  rw [fields_unhide hne, hfields, hdown, hup, hcol, hsize, relinkPrev_unlink hr hj,
    relinkNext_unlink hr hj]
  simp [fields]

/-- The header of a column that was unlinked is linked in again. -/
theorem relinkHeader_unlinkHeader (hr : IsRing m.right m.left j xs) (hc : c ∈ xs) :
    (m.unlinkHeader c).relinkHeader c = m := by
  have hfields := fields_unlinkHeader (hr.next_ne hc)
  have hright : (m.unlinkHeader c).right = unlinkNext m.right m.left c :=
    congrArg Fields.right hfields
  have hleft : (m.unlinkHeader c).left = unlinkPrev m.right m.left c :=
    congrArg Fields.left hfields
  have hne : (m.unlinkHeader c).right c ≠ c := by
    rw [hright, unlinkNext, Function.update_of_ne (hr.prev_ne hc).symm]
    exact hr.next_ne hc
  apply fields_injective
  rw [fields_relinkHeader hne, hfields, hright, hleft, relinkPrev_unlink hr hc,
    relinkNext_unlink hr hc]
  rfl

/-- The nodes `js`, hidden one after the other. -/
def hideAll (m : Nodes) (js : List Ptr) : Nodes := js.foldl hide m

theorem hideAll_append (js ks : List Ptr) : m.hideAll (js ++ ks) = (m.hideAll js).hideAll ks :=
  List.foldl_append

theorem hideAll_concat (js : List Ptr) (j : Ptr) :
    m.hideAll (js ++ [j]) = (m.hideAll js).hide j := by
  rw [hideAll_append]
  rfl

theorem length_lt_of_nodup (hr : (c :: xs).Nodup) : xs.length < kMaxNodes := by
  have hlen := hr.length_le_card
  simpa [Nat.succ_le_iff] using hlen

theorem links_hideAll (js : List Ptr) :
    (m.hideAll js).left = m.left ∧ (m.hideAll js).right = m.right := by
  induction js generalizing m with
  | nil => exact ⟨rfl, rfl⟩
  | cons j js ih =>
    obtain ⟨hl, hr⟩ := ih (m := m.hide j)
    exact ⟨hl.trans left_hide, hr.trans right_hide⟩

/-- The inner loop of `cover`. -/
theorem hideRow_eq (hr : IsRing m.right m.left j xs) : m.hideRow j = some (m.hideAll xs) :=
  forLoop_ring (fun _ _ => right_hide) hr (length_lt_of_nodup hr.nodup)

/-- The inner loop of `uncover` goes round the row the other way. -/
theorem unhideRow_eq (hr : IsRing m.right m.left j xs) :
    m.unhideRow j = some (xs.reverse.foldl unhide m) :=
  forLoop_ring (fun _ _ => left_unhide) hr.reverse (length_lt_of_nodup hr.reverse.nodup)

end Nodes

/-- The matrix that the memory stores: the columns around `root`, the nodes of each column from
top to bottom, the other nodes of a node's row from left to right, the column and the name of a node. -/
structure Matrix where
  root : Ptr
  headers : List Ptr
  nodes : Ptr → List Ptr
  row : Ptr → List Ptr
  col : Ptr → Ptr
  name : Ptr → ℕ

namespace Matrix

variable (M : Matrix)

/-- The columns that the row of the node `j` meets. -/
def columns (j : Ptr) : List Ptr := (j :: M.row j).map M.col

def IsNode (j : Ptr) : Prop := M.col j ∈ M.headers ∧ j ∈ M.nodes (M.col j)

instance (j : Ptr) (js : List Ptr) : Decidable (j ∈ js) := List.instDecidableMemOfLawfulBEq j js

/-- The nodes of the column `c` whose row meets only the columns `A`. -/
def visible (A : List Ptr) (c : Ptr) : List Ptr :=
  (M.nodes c).filter fun j => ∀ d ∈ M.columns j, d ∈ A

structure Wf : Prop where
  root_header : M.root ∉ M.headers
  col_header : ∀ c ∈ M.headers, M.col c = c
  nodes_nodup : ∀ c ∈ M.headers, (M.nodes c).Nodup
  col_node : ∀ c ∈ M.headers, ∀ j ∈ M.nodes c, M.col j = c
  node_header : ∀ j, M.IsNode j → j ∉ M.headers
  node_root : ∀ j, M.IsNode j → j ≠ M.root
  row_node : ∀ j, M.IsNode j → ∀ i ∈ M.row j, M.IsNode i
  row_perm : ∀ j, M.IsNode j → ∀ i ∈ M.row j, (i :: M.row i).Perm (j :: M.row j)
  columns_nodup : ∀ j, M.IsNode j → (M.columns j).Nodup

/-- The memory `m` shows the columns `A` of the matrix, from left to right, and the rows that
meet no other column. -/
structure Shows (m : Nodes) (A : List Ptr) : Prop where
  sub : ∀ c ∈ A, c ∈ M.headers
  col : m.col = M.col
  name : m.name = M.name
  rows : ∀ j, M.IsNode j → IsRing m.right m.left j (M.row j)
  headers : IsRing m.right m.left M.root A
  columns : ∀ c ∈ A, IsRing m.down m.up c (M.visible A c)
  sizes : ∀ c ∈ A, m.size c = (M.visible A c).length

variable {M} {m : Nodes} {A : List Ptr} {c d i j r : Ptr}

theorem mem_visible : j ∈ M.visible A c ↔ j ∈ M.nodes c ∧ ∀ d ∈ M.columns j, d ∈ A := by
  simp [visible]

theorem Shows.nodup (h : M.Shows m A) : A.Nodup := (List.nodup_cons.mp h.headers.nodup).2

/-- The nodes that `cover` takes out of the other columns, in its order. -/
def hidden (M : Matrix) (A : List Ptr) (c : Ptr) : List Ptr := (M.visible A c).flatMap M.row

theorem mem_hidden : j ∈ M.hidden A c ↔ ∃ r ∈ M.visible A c, j ∈ M.row r := by
  simp [hidden]

section
variable (wf : M.Wf)
include wf

theorem Wf.isNode (hc : c ∈ M.headers) (hj : j ∈ M.nodes c) : M.IsNode j := by
  have hcol := wf.col_node c hc j hj
  exact ⟨hcol ▸ hc, hcol ▸ hj⟩

theorem Wf.columns_perm (hj : M.IsNode j) (hi : i ∈ M.row j) :
    (M.columns i).Perm (M.columns j) :=
  (wf.row_perm j hj i hi).map M.col

theorem Wf.row_nodup (hj : M.IsNode j) : (j :: M.row j).Nodup :=
  List.Nodup.of_map _ (wf.columns_nodup j hj)

/-- A row meets a column in one node. -/
theorem Wf.eq_of_col (hj : M.IsNode j) (hi : i ∈ j :: M.row j) (hr : r ∈ j :: M.row j)
    (hcol : M.col i = M.col r) : i = r :=
  List.inj_on_of_nodup_map (wf.columns_nodup j hj) hi hr hcol

/-- The row of a node, begun at another node of it. -/
theorem Wf.mem_row (hj : M.IsNode j) (hi : i ∈ M.row j) : j ∈ M.row i := by
  have hmem : j ∈ i :: M.row i := (wf.row_perm j hj i hi).mem_iff.mpr (by simp)
  rcases List.mem_cons.mp hmem with heq | hmem
  · subst heq
    exact absurd hi (List.nodup_cons.mp (wf.row_nodup hj)).1
  · exact hmem

variable (hA : ∀ c ∈ A, c ∈ M.headers)
include hA

theorem Wf.node_of_visible (hc : c ∈ A) (hj : j ∈ M.visible A c) : M.IsNode j ∧ M.col j = c :=
  have hmem := (mem_visible.mp hj).1
  ⟨wf.isNode (hA c hc) hmem, wf.col_node c (hA c hc) j hmem⟩

/-- A row mate of a node that is shown is shown as well, in another column. -/
theorem Wf.visible_mate (hc : c ∈ A) (hr : r ∈ M.visible A c) (hj : j ∈ M.row r) :
    M.IsNode j ∧ M.col j ∈ A ∧ M.col j ≠ c ∧ j ∈ M.visible A (M.col j) := by
  obtain ⟨hnode, hcol⟩ := wf.node_of_visible hA hc hr
  have hshown := (mem_visible.mp hr).2
  have hj' : M.IsNode j := wf.row_node r hnode j hj
  refine ⟨hj', hshown _ (List.mem_map_of_mem (List.mem_cons_of_mem r hj)), ?_, ?_⟩
  · intro heq
    have hjr : j = r :=
      wf.eq_of_col hnode (List.mem_cons_of_mem r hj) (by simp) (heq.trans hcol.symm)
    exact (List.nodup_cons.mp (wf.row_nodup hnode)).1 (hjr ▸ hj)
  · exact mem_visible.mpr ⟨hj'.2, fun d hd => hshown d ((wf.columns_perm hnode hj).mem_iff.mp hd)⟩

/-- Covering `c` hides the rows that meet `c`. -/
theorem Wf.mem_hidden_iff (hc : c ∈ A) (hd : d ∈ A) (hdc : d ≠ c) (hj : j ∈ M.visible A d) :
    j ∈ M.hidden A c ↔ c ∈ M.columns j := by
  obtain ⟨hnode, hcol⟩ := wf.node_of_visible hA hd hj
  rw [mem_hidden]
  constructor
  · rintro ⟨r, hr, hjr⟩
    obtain ⟨hrnode, hrcol⟩ := wf.node_of_visible hA hc hr
    rw [(wf.columns_perm hrnode hjr).mem_iff, ← hrcol]
    simp [columns]
  · intro hmem
    obtain ⟨i, hi, hicol⟩ := List.mem_map.mp hmem
    have hij : i ∈ M.row j := by
      rcases List.mem_cons.mp hi with heq | hi
      · subst heq
        exact absurd (hcol.symm.trans hicol) hdc
      · exact hi
    have hinode : M.IsNode i := wf.row_node j hnode i hij
    refine ⟨i, mem_visible.mpr ⟨hicol ▸ hinode.2, fun e he => ?_⟩, wf.mem_row hnode hij⟩
    exact (mem_visible.mp hj).2 e ((wf.columns_perm hnode hij).mem_iff.mp he)

theorem Wf.visible_erase (hnodup : A.Nodup) (hc : c ∈ A) (hd : d ∈ A) (hdc : d ≠ c) :
    M.visible (A.erase c) d = (M.visible A d).filter (· ∉ M.hidden A c) := by
  rw [visible, visible, List.filter_filter]
  apply List.filter_congr
  intro j hj
  have hcover : (∀ e ∈ M.columns j, e ∈ A) → (j ∈ M.hidden A c ↔ c ∈ M.columns j) :=
    fun hall => wf.mem_hidden_iff hA hc hd hdc (mem_visible.mpr ⟨hj, hall⟩)
  have hiff : (∀ e ∈ M.columns j, e ∈ A.erase c) ↔
      j ∉ M.hidden A c ∧ ∀ e ∈ M.columns j, e ∈ A := by
    constructor
    · intro hall
      have hall' : ∀ e ∈ M.columns j, e ∈ A := fun e he => List.mem_of_mem_erase (hall e he)
      refine ⟨fun hmem => ?_, hall'⟩
      exact absurd rfl (hnodup.mem_erase_iff.mp (hall c ((hcover hall').mp hmem))).1
    · intro hall' e he
      obtain ⟨hnot, hall⟩ := hall'
      apply hnodup.mem_erase_iff.mpr
      exact ⟨fun heq => hnot ((hcover hall).mpr (heq ▸ he)), hall e he⟩
  rw [Bool.eq_iff_iff]
  simpa using hiff

/-- The cells of the ring of a column belong to that column. -/
theorem Wf.col_of_ring (hd : d ∈ A) {p : Ptr} (hp : p ∈ d :: M.visible A d) : M.col p = d := by
  rcases List.mem_cons.mp hp with heq | hp
  · subst heq
    exact wf.col_header p (hA p hd)
  · exact (wf.node_of_visible hA hd hp).2

theorem Wf.hidden_nodup (hc : c ∈ A) : (M.hidden A c).Nodup := by
  have hnodup : (M.visible A c).Nodup := (wf.nodes_nodup c (hA c hc)).filter _
  rw [hidden, List.nodup_flatMap]
  constructor
  · intro r hr
    exact (List.nodup_cons.mp (wf.row_nodup (wf.node_of_visible hA hc hr).1)).2
  · apply hnodup.imp_of_mem
    intro r r' hr hr' hne j hj hj'
    obtain ⟨hnode, hcol⟩ := wf.node_of_visible hA hc hr
    obtain ⟨hnode', hcol'⟩ := wf.node_of_visible hA hc hr'
    -- both rows are the row of `j`, which meets `c` once
    have hmem : r ∈ j :: M.row j := List.mem_cons_of_mem j (wf.mem_row hnode hj)
    have hmem' : r' ∈ j :: M.row j := List.mem_cons_of_mem j (wf.mem_row hnode' hj')
    exact hne (wf.eq_of_col (wf.row_node r hnode j hj) hmem hmem' (hcol.trans hcol'.symm))

end

/-- The memory in the middle of `cover c`: the header has been unlinked from `m`, and of the
nodes to be hidden, those of `js` are. -/
structure Hiding (M : Matrix) (m : Nodes) (A : List Ptr) (c : Ptr) (js : List Ptr)
    (m' : Nodes) : Prop where
  left : m'.left = (m.unlinkHeader c).left
  right : m'.right = (m.unlinkHeader c).right
  col : m'.col = M.col
  name : m'.name = M.name
  covered : IsRing m'.down m'.up c (M.visible A c)
  columns : ∀ d ∈ A, d ≠ c → IsRing m'.down m'.up d ((M.visible A d).filter (· ∉ js))
  sizes : ∀ d ∈ A, d ≠ c → m'.size d = ((M.visible A d).filter (· ∉ js)).length

section
variable (wf : M.Wf) (h : M.Shows m A) (hc : c ∈ A)
include wf h hc

omit wf in
theorem Shows.fields_unlinkHeader : (m.unlinkHeader c).fields =
    { m.fields with
      left := unlinkPrev m.right m.left c
      right := unlinkNext m.right m.left c } :=
  Nodes.fields_unlinkHeader (h.headers.next_ne hc)

omit wf in
theorem Shows.hiding_nil : Hiding M m A c [] (m.unlinkHeader c) := by
  have hfields := h.fields_unlinkHeader hc
  have hdown : (m.unlinkHeader c).down = m.down := congrArg Nodes.Fields.down hfields
  have hup : (m.unlinkHeader c).up = m.up := congrArg Nodes.Fields.up hfields
  have hcol : (m.unlinkHeader c).col = m.col := congrArg Nodes.Fields.col hfields
  have hname : (m.unlinkHeader c).name = m.name := congrArg Nodes.Fields.name hfields
  have hsize : (m.unlinkHeader c).size = m.size := congrArg Nodes.Fields.size hfields
  refine ⟨rfl, rfl, hcol.trans h.col, hname.trans h.name, by rw [hdown, hup]; exact h.columns c hc, ?_, ?_⟩
  · intro d hd _
    rw [hdown, hup]
    simpa using h.columns d hd
  · intro d hd _
    rw [hsize]
    simpa using h.sizes d hd

omit wf h hc in
theorem filter_concat_self {xs js : List Ptr} (hnodup : xs.Nodup) :
    xs.filter (· ∉ js ++ [j]) = (xs.filter (· ∉ js)).erase j := by
  rw [(hnodup.filter _).erase_eq_filter, List.filter_filter]
  apply List.filter_congr
  intro p _
  rw [Bool.eq_iff_iff]
  simp [and_comm]

omit wf h hc in
theorem filter_concat_other {xs js : List Ptr} (hj : j ∉ xs) :
    xs.filter (· ∉ js ++ [j]) = xs.filter (· ∉ js) := by
  apply List.filter_congr
  intro p hp
  have hpj : p ≠ j := fun heq => hj (heq ▸ hp)
  simp [hpj]

omit hc in
/-- The links that `hide` writes belong to the ring of its own column. -/
theorem Hiding.links_other {js : List Ptr} {m' : Nodes} (hm' : Hiding M m A c js m')
    (hjA : M.col j ∈ A) (hjc : M.col j ≠ c)
    (hj : j ∈ (M.visible A (M.col j)).filter (· ∉ js)) (hd : d ∈ A) (hne : d ≠ M.col j) {p : Ptr}
    (hp : p ∈ d :: M.visible A d) :
    (m'.hide j).down p = m'.down p ∧ (m'.hide j).up p = m'.up p := by
  have hring := hm'.columns (M.col j) hjA hjc
  have hfields := Nodes.fields_hide (hring.next_ne hj)
  have hdown : (m'.hide j).down = unlinkNext m'.down m'.up j := congrArg Nodes.Fields.down hfields
  have hup : (m'.hide j).up = unlinkPrev m'.down m'.up j := congrArg Nodes.Fields.up hfields
  have hmem : j ∈ M.col j :: (M.visible A (M.col j)).filter (· ∉ js) := List.mem_cons_of_mem _ hj
  have hout : p ∉ M.col j :: (M.visible A (M.col j)).filter (· ∉ js) := by
    intro hin
    have hin' := List.cons_subset_cons (M.col j) (List.filter_subset_self _) hin
    exact hne ((wf.col_of_ring h.sub hd hp).symm.trans (wf.col_of_ring h.sub hjA hin'))
  have hprev : p ≠ m'.up j := by
    intro heq
    rw [heq] at hout
    exact hout (hring.prev_mem hmem)
  have hnext : p ≠ m'.down j := by
    intro heq
    rw [heq] at hout
    exact hout (hring.next_mem hmem)
  rw [hdown, hup]
  exact ⟨Function.update_of_ne hprev .., Function.update_of_ne hnext ..⟩

/-- One more node is hidden, and could be linked in again. -/
theorem Hiding.hide {js : List Ptr} {m' : Nodes} (hm' : Hiding M m A c js m')
    (hj : j ∈ M.hidden A c) (hnew : j ∉ js) :
    Hiding M m A c (js ++ [j]) (m'.hide j) ∧ (m'.hide j).unhide j = m' := by
  obtain ⟨r, hr, hjr⟩ := mem_hidden.mp hj
  obtain ⟨hnode, hjA, hjc, hvis⟩ := wf.visible_mate h.sub hc hr hjr
  have hring := hm'.columns (M.col j) hjA hjc
  have hjring : j ∈ (M.visible A (M.col j)).filter (· ∉ js) := by simp [hvis, hnew]
  have hfields := Nodes.fields_hide (hring.next_ne hjring)
  have hdown : (m'.hide j).down = unlinkNext m'.down m'.up j := congrArg Nodes.Fields.down hfields
  have hup : (m'.hide j).up = unlinkPrev m'.down m'.up j := congrArg Nodes.Fields.up hfields
  have hcol : (m'.hide j).col = m'.col := congrArg Nodes.Fields.col hfields
  have hname : (m'.hide j).name = m'.name := congrArg Nodes.Fields.name hfields
  have hsize : (m'.hide j).size = Function.update m'.size (m'.col j) (m'.size (m'.col j) - 1) :=
    congrArg Nodes.Fields.size hfields
  have hother : ∀ d ∈ A, d ≠ M.col j → ∀ p ∈ d :: M.visible A d,
      (m'.hide j).down p = m'.down p ∧ (m'.hide j).up p = m'.up p :=
    fun d hd hne p hp => hm'.links_other wf h hjA hjc hjring hd hne hp
  have hself : (M.visible A (M.col j)).filter (· ∉ js ++ [j]) =
      ((M.visible A (M.col j)).filter (· ∉ js)).erase j :=
    filter_concat_self ((wf.nodes_nodup _ (h.sub _ hjA)).filter _)
  have hkept : ∀ d ∈ A, d ≠ M.col j →
      (M.visible A d).filter (· ∉ js ++ [j]) = (M.visible A d).filter (· ∉ js) := by
    intro d hd hne
    apply filter_concat_other
    intro hmem
    exact hne (wf.col_of_ring h.sub hd (List.mem_cons_of_mem d hmem)).symm
  refine ⟨⟨by rw [Nodes.left_hide, hm'.left], by rw [Nodes.right_hide, hm'.right],
    hcol.trans hm'.col, hname.trans hm'.name, ?_, ?_, ?_⟩, Nodes.unhide_hide hring hjring⟩
  · apply hm'.covered.congr
    · exact fun p hp => (hother c hc hjc.symm p hp).1
    · exact fun p hp => (hother c hc hjc.symm p hp).2
  · intro d hd hdc
    by_cases hdj : d = M.col j
    · subst hdj
      rw [hself, hdown, hup]
      exact hring.unlink hjring
    · rw [hkept d hd hdj]
      apply (hm'.columns d hd hdc).congr
      · intro p hp
        exact (hother d hd hdj p (List.cons_subset_cons d (List.filter_subset_self _) hp)).1
      · intro p hp
        exact (hother d hd hdj p (List.cons_subset_cons d (List.filter_subset_self _) hp)).2
  · intro d hd hdc
    rw [hsize, hm'.col]
    by_cases hdj : d = M.col j
    · subst hdj
      rw [hself, Function.update_self, hm'.sizes _ hd hdc, List.length_erase_of_mem hjring]
      have hpos : 0 < ((M.visible A (M.col j)).filter (· ∉ js)).length :=
        List.length_pos_of_mem hjring
      omega
    · rw [Function.update_of_ne hdj, hkept d hd hdj, hm'.sizes d hd hdc]

/-- After any first part of the hidden nodes. -/
theorem Shows.hiding {js : List Ptr} (hjs : js <+: M.hidden A c) :
    Hiding M m A c js ((m.unlinkHeader c).hideAll js) := by
  induction js using List.reverseRecOn with
  | nil => exact h.hiding_nil hc
  | append_singleton js j ih =>
    have hnodup := (wf.hidden_nodup h.sub hc).sublist hjs.sublist
    have hj : j ∉ js := fun hmem => List.disjoint_of_nodup_append hnodup hmem (by simp)
    rw [Nodes.hideAll_concat]
    exact ((ih ((List.prefix_append js [j]).trans hjs)).hide wf h hc (hjs.subset (by simp)) hj).1

/-- The nodes that were hidden last, linked in again in the opposite order. -/
theorem Shows.unhideAll {js ks : List Ptr} (hjs : js ++ ks <+: M.hidden A c) :
    ks.reverse.foldl Nodes.unhide ((m.unlinkHeader c).hideAll (js ++ ks)) =
      (m.unlinkHeader c).hideAll js := by
  induction ks using List.reverseRecOn with
  | nil => simp
  | append_singleton ks k ih =>
    rw [← List.append_assoc] at hjs ⊢
    have hfront : js ++ ks <+: M.hidden A c := (List.prefix_append _ [k]).trans hjs
    have hnodup := (wf.hidden_nodup h.sub hc).sublist hjs.sublist
    have hk : k ∉ js ++ ks := fun hmem => List.disjoint_of_nodup_append hnodup hmem (by simp)
    have hundo := ((h.hiding wf hc hfront).hide wf h hc (hjs.subset (by simp)) hk).2
    rw [Nodes.hideAll_concat, List.reverse_concat, List.foldl_cons, hundo]
    exact ih hfront

/-- A row lies apart from the headers. -/
theorem Shows.rows_unlinkHeader (hj : M.IsNode j) :
    IsRing (m.unlinkHeader c).right (m.unlinkHeader c).left j (M.row j) := by
  have hfields := h.fields_unlinkHeader hc
  have hright : (m.unlinkHeader c).right = unlinkNext m.right m.left c :=
    congrArg Nodes.Fields.right hfields
  have hleft : (m.unlinkHeader c).left = unlinkPrev m.right m.left c :=
    congrArg Nodes.Fields.left hfields
  have hcmem : c ∈ M.root :: A := List.mem_cons_of_mem _ hc
  have hout : ∀ p ∈ j :: M.row j, ∀ q ∈ M.root :: A, p ≠ q := by
    intro p hp q hq heq
    have hnode : M.IsNode p := by
      rcases List.mem_cons.mp hp with heq | hp
      · exact heq ▸ hj
      · exact wf.row_node j hj p hp
    rcases List.mem_cons.mp hq with hroot | hq
    · exact wf.node_root p hnode (heq.trans hroot)
    · exact wf.node_header p hnode (heq ▸ h.sub q hq)
  rw [hright, hleft]
  apply (h.rows j hj).congr
  · exact fun p hp => Function.update_of_ne (hout p hp _ (h.headers.prev_mem hcmem)) ..
  · exact fun p hp => Function.update_of_ne (hout p hp _ (h.headers.next_mem hcmem)) ..

theorem Shows.rows_hideAll (js : List Ptr) (hj : M.IsNode j) :
    IsRing ((m.unlinkHeader c).hideAll js).right ((m.unlinkHeader c).hideAll js).left j
      (M.row j) := by
  obtain ⟨hleft, hright⟩ := Nodes.links_hideAll (m := m.unlinkHeader c) js
  rw [hleft, hright]
  exact h.rows_unlinkHeader wf hc hj

omit wf h hc in
theorem prefix_flatMap {rows rest : List Ptr} (hrows : M.visible A c = rows ++ rest) :
    rows.flatMap M.row <+: M.hidden A c :=
  ⟨rest.flatMap M.row, by rw [hidden, hrows, List.flatMap_append]⟩

/-- The outer loop of `cover` hides what is to be hidden. -/
theorem Shows.cover_eq :
    m.cover c = some ((m.unlinkHeader c).hideAll (M.hidden A c)) := by
  have hstart := (h.hiding_nil hc).covered
  obtain ⟨t, ht, done, hrows, heq⟩ := forLoop_rule Nodes.down c Nodes.hideRow
    (fun rows s => ∃ done, M.visible A c = done ++ rows ∧
      s = (m.unlinkHeader c).hideAll (done.flatMap M.row)) (M.visible A c) (m.unlinkHeader c)
    (by
      intro p rows s hall
      obtain ⟨done, hrows, hs⟩ := hall
      have hp : p ∈ M.visible A c := by simp [hrows]
      have hrows' : M.visible A c = (done ++ [p]) ++ rows := by simp [hrows]
      have hring := (h.hiding wf hc (prefix_flatMap hrows')).covered
      have hrow := Nodes.hideRow_eq
        (h.rows_hideAll wf hc (done.flatMap M.row) (wf.node_of_visible h.sub hc hp).1)
      rw [← Nodes.hideAll_append] at hrow
      have hdone : done.flatMap M.row ++ M.row p = (done ++ [p]).flatMap M.row := by simp
      rw [hdone] at hrow
      rw [hrows] at hring
      refine ⟨fun heq => (List.nodup_cons.mp hring.nodup).1 (by simp [heq]), _, hs ▸ hrow,
        ⟨done ++ [p], hrows', rfl⟩, hring.next_cell⟩)
    ⟨[], rfl, rfl⟩ (Nodes.length_lt_of_nodup hstart.nodup)
  rw [List.append_nil] at hrows
  rw [Nodes.cover, hstart.next_sentinel, ht, heq, hidden, hrows]

/-- `uncover` undoes `cover`, write by write. -/
theorem Shows.uncover_eq :
    ((m.unlinkHeader c).hideAll (M.hidden A c)).uncover c = some m := by
  have hstart := (h.hiding wf hc (List.prefix_refl _)).covered.reverse
  obtain ⟨t, ht, -, heq⟩ := forLoop_rule Nodes.up c Nodes.unhideRow
    (fun rows s => rows.reverse <+: M.visible A c ∧
      s = (m.unlinkHeader c).hideAll (rows.reverse.flatMap M.row))
    (M.visible A c).reverse ((m.unlinkHeader c).hideAll (M.hidden A c))
    (by
      intro p rows s hall
      obtain ⟨⟨rest, hrows⟩, hs⟩ := hall
      rw [List.reverse_cons] at hrows
      have hrows' : M.visible A c = rows.reverse ++ ([p] ++ rest) := by simp [← hrows]
      have hp : p ∈ M.visible A c := by simp [← hrows]
      have hring := (h.hiding wf hc (prefix_flatMap hrows')).covered.reverse
      have hlist : (M.visible A c).reverse = rest.reverse ++ p :: rows := by simp [← hrows]
      rw [hlist] at hring
      have hfront : rows.reverse.flatMap M.row ++ M.row p <+: M.hidden A c := by
        have hflat := prefix_flatMap hrows.symm
        rwa [List.flatMap_append, List.flatMap_singleton] at hflat
      have hrow := Nodes.unhideRow_eq
        (h.rows_hideAll wf hc (rows.reverse.flatMap M.row ++ M.row p)
          (wf.node_of_visible h.sub hc hp).1)
      rw [h.unhideAll wf hc hfront] at hrow
      have hs' : s = (m.unlinkHeader c).hideAll (rows.reverse.flatMap M.row ++ M.row p) := by
        rw [hs, List.reverse_cons, List.flatMap_append, List.flatMap_singleton]
      refine ⟨fun heq => (List.nodup_cons.mp hring.nodup).1 (by simp [heq]), _, hs' ▸ hrow,
        ⟨⟨[p] ++ rest, hrows'.symm⟩, rfl⟩, hring.next_cell⟩)
    ⟨by simp, by simp [hidden]⟩ (Nodes.length_lt_of_nodup hstart.nodup)
  have hloop : forLoop Nodes.up c Nodes.unhideRow kMaxNodes
      ((m.unlinkHeader c).hideAll (M.hidden A c))
      (((m.unlinkHeader c).hideAll (M.hidden A c)).up c) = some (m.unlinkHeader c) := by
    rw [hstart.next_sentinel, ht, heq]
    rfl
  rw [Nodes.uncover, hloop]
  simp only [Option.bind_eq_bind, Option.bind_some, Option.pure_def, Option.some.injEq]
  exact Nodes.relinkHeader_unlinkHeader h.headers hc

/-- `cover` takes the column `c` and the rows that meet it out of what the memory shows, but for
the ring of `c` itself, and `uncover` restores the memory. -/
theorem Shows.cover_uncover : ∃ m', m.cover c = some m' ∧ M.Shows m' (A.erase c) ∧
    IsRing m'.down m'.up c (M.visible A c) ∧ m'.uncover c = some m := by
  have hm' := h.hiding wf hc (List.prefix_refl _)
  refine ⟨_, h.cover_eq wf hc, ?_, hm'.covered, h.uncover_eq wf hc⟩
  have hfields := h.fields_unlinkHeader hc
  have hright : (m.unlinkHeader c).right = unlinkNext m.right m.left c :=
    congrArg Nodes.Fields.right hfields
  have hleft : (m.unlinkHeader c).left = unlinkPrev m.right m.left c :=
    congrArg Nodes.Fields.left hfields
  have herase : ∀ d ∈ A.erase c, d ∈ A ∧ d ≠ c := fun d hd =>
    ⟨List.mem_of_mem_erase hd, (h.nodup.mem_erase_iff.mp hd).1⟩
  refine ⟨fun d hd => h.sub d (herase d hd).1, hm'.col, hm'.name,
    fun j hj => h.rows_hideAll wf hc _ hj, ?_, ?_, ?_⟩
  · rw [hm'.right, hm'.left, hright, hleft]
    exact h.headers.unlink hc
  · intro d hd
    obtain ⟨hdA, hdc⟩ := herase d hd
    rw [wf.visible_erase h.sub h.nodup hc hdA hdc]
    exact hm'.columns d hdA hdc
  · intro d hd
    obtain ⟨hdA, hdc⟩ := herase d hd
    rw [wf.visible_erase h.sub h.nodup hc hdA hdc]
    exact hm'.sizes d hdA hdc

end
end Matrix
end Muduo.Sudoku

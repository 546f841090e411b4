import Mathlib.Data.Finset.Card
import Mathlib.Data.Int.Interval
import Muduo.Examples.SudokuConstructor
import Muduo.Examples.SudokuSearch

/-!
# Sudoku as exact cover

A puzzle has a solution exactly when its columns have an exact cover. The clues need not be
consistent: a unit with a digit twice among its clues misses more digits than it has empty cells,
and then there is no cover. With the search this makes `solveSudoku` right for every puzzle.
-/
namespace Muduo.Sudoku
open ExactCover

/-- No two cells of a row, column or box have the same digit. -/
def Distinct (unit : ℕ → ℕ) (g : Board) : Prop :=
  ∀ i k : Fin kCells, unit i = unit k → g.get i = g.get k → i = k

/-- The board `g` completes the puzzle `board` by the rules of sudoku. -/
structure IsSolution (board g : Board) : Prop where
  digit : ∀ i : Fin kCells, 1 ≤ g.get i ∧ g.get i ≤ 9
  clue : ∀ i : Fin kCells, board.get i ≠ 0 → g.get i = board.get i
  rows : Distinct rowOf g
  cols : Distinct colOf g
  boxes : Distinct boxOf g

/-- The kinds of units, with the number from which their columns are numbered. -/
def units : List ((ℕ → ℕ) × ℕ) := [(rowOf, kRow), (colOf, kCol), (boxOf, kBox)]

theorem isSolution_iff {board g : Board} : IsSolution board g ↔
    (∀ i : Fin kCells, 1 ≤ g.get i ∧ g.get i ≤ 9) ∧
      (∀ i : Fin kCells, board.get i ≠ 0 → g.get i = board.get i) ∧ ∀ q ∈ units, Distinct q.1 g := by
  simp only [units, List.mem_cons, List.not_mem_nil, or_false, forall_eq_or_imp, forall_eq]
  constructor
  · exact fun h => ⟨h.digit, h.clue, h.rows, h.cols, h.boxes⟩
  · intro h
    obtain ⟨hd, hc, hrows, hcols, hboxes⟩ := h
    exact ⟨hd, hc, hrows, hcols, hboxes⟩

/-- The cells of one unit. -/
def unitCells (unit : ℕ → ℕ) (i : ℕ) : Finset (Fin kCells) :=
  Finset.univ.filter fun k => unit k = i

theorem unitCells_card : ∀ q ∈ units, ∀ i < 9, (unitCells q.1 i).card = 9 := by
  have hrow : ∀ i < 9, (unitCells rowOf i).card = 9 := by decide
  have hcol : ∀ i < 9, (unitCells colOf i).card = 9 := by decide
  have hbox : ∀ i < 9, (unitCells boxOf i).card = 9 := by decide
  simp only [units, List.mem_cons, List.not_mem_nil, or_false, forall_eq_or_imp, forall_eq]
  exact ⟨hrow, hcol, hbox⟩

theorem unit_lt : ∀ q ∈ units, ∀ k : Fin kCells, q.1 k < 9 := by
  simp only [units, List.mem_cons, List.not_mem_nil, or_false, forall_eq_or_imp, forall_eq]
  refine ⟨fun k => ?_, fun k => ?_, fun k => ?_⟩
  · have hk : k.val < 81 := k.isLt
    rw [rowOf]
    omega
  · rw [colOf]
    omega
  · have hk : k.val < 81 := k.isLt
    rw [boxOf]
    omega

/-- Nine digits in nine cells: none is there twice exactly when all are there. -/
theorem distinct_iff {g : Board} (hdigit : ∀ i : Fin kCells, 1 ≤ g.get i ∧ g.get i ≤ 9)
    {q : (ℕ → ℕ) × ℕ} (hq : q ∈ units) : Distinct q.1 g ↔
      ∀ i < 9, ∀ v : ℤ, 1 ≤ v ∧ v ≤ 9 → ∃ k : Fin kCells, q.1 k = i ∧ g.get k = v := by
  have hmaps : ∀ i, Set.MapsTo (fun k : Fin kCells => g.get k) (unitCells q.1 i)
      (Finset.Icc (1 : ℤ) 9) := by
    intro i k _
    exact Finset.mem_coe.mpr (Finset.mem_Icc.mpr (hdigit k))
  have hcard : (Finset.Icc (1 : ℤ) 9).card = 9 := by decide
  constructor
  · intro hdist i hi v hv
    have hinj : Set.InjOn (fun k : Fin kCells => g.get k) (unitCells q.1 i) := by
      intro k hk k' hk' heq
      have hk : q.1 k = i := by simpa [unitCells] using hk
      have hk' : q.1 k' = i := by simpa [unitCells] using hk'
      exact hdist k k' (hk.trans hk'.symm) heq
    have hsurj := Finset.surjOn_of_injOn_of_card_le _ (hmaps i) hinj
      (by rw [hcard, unitCells_card q hq i hi])
    obtain ⟨k, hk, hv⟩ := hsurj (Finset.mem_coe.mpr (Finset.mem_Icc.mpr hv))
    exact ⟨k, by simpa [unitCells] using hk, hv⟩
  · intro hall k k' hunit heq
    have hi := unit_lt q hq k
    have hsurj : Set.SurjOn (fun k : Fin kCells => g.get k) (unitCells q.1 (q.1 k))
        (Finset.Icc (1 : ℤ) 9) := by
      intro v hv
      obtain ⟨k, hk, hv⟩ := hall _ hi v (Finset.mem_Icc.mp (Finset.mem_coe.mp hv))
      exact ⟨k, by simpa [unitCells] using hk, hv⟩
    have hinj := Finset.injOn_of_surjOn_of_card_le _ (hmaps _) hsurj
      (by rw [hcard, unitCells_card q hq _ hi])
    exact hinj (by simp [unitCells]) (by simp [unitCells, hunit]) heq

/-! The columns of a puzzle and of an option, by the kinds of units. -/

theorem mem_optionNames {n i v : ℕ} : n ∈ optionNames i v ↔
    n = i ∨ ∃ q ∈ units, n = q.2 + q.1 i * 10 + v := by
  simp [optionNames, units, SudokuSolver.getRowCol, SudokuSolver.getColCol,
    SudokuSolver.getBoxCol]

theorem mem_unitNames {board : Board} {n i v : ℕ} : n ∈ unitNames (.clues board) i v ↔
    ∃ q ∈ units, ¬ Used.Clue q.1 board i v ∧ n = q.2 + i * 10 + v := by
  have hopt : ∀ (b : Bool) (k : ℕ), n ∈ (if b then [k] else []) ↔ b = true ∧ n = k := by
    intro b k
    cases b with
    | false => simp
    | true => simp
  have hmissing : ∀ (unit : ℕ → ℕ),
      (!decide (Used.Clue unit board i v)) = true ↔ ¬ Used.Clue unit board i v := by
    intro unit
    rw [Bool.not_eq_true', decide_eq_false_iff_not]
  rw [unitNames, List.mem_append, List.mem_append, hopt, hopt, hopt]
  simp only [Used.clues, hmissing, units, List.mem_cons, List.not_mem_nil, or_false,
    exists_eq_or_imp, exists_eq_left, or_assoc]
  rfl

theorem mem_columnNames {board : Board} {n : ℕ} : n ∈ columnNames board (.clues board) ↔
    (∃ i : Fin kCells, board.get i = 0 ∧ n = i) ∨
      ∃ q ∈ units, ∃ i v, i < 9 ∧ (1 ≤ v ∧ v ≤ 9) ∧ ¬ Used.Clue q.1 board i v ∧
        n = q.2 + i * 10 + v := by
  rw [columnNames, List.mem_append]
  apply or_congr
  · simp only [List.mem_flatMap, List.mem_finRange, true_and]
    apply exists_congr
    intro i
    rw [cellNames]
    by_cases hi : board.get i = 0
    · rw [if_pos hi]
      simp only [List.mem_singleton, hi, true_and]
    · rw [if_neg hi]
      simp only [List.not_mem_nil, hi, false_and]
  · rw [List.mem_flatMap]
    constructor
    · intro hall
      obtain ⟨p, hp, hn⟩ := hall
      obtain ⟨hi, hv⟩ := mem_unitPairs.mp hp
      obtain ⟨q, hq, hclue, hn⟩ := mem_unitNames.mp hn
      exact ⟨q, hq, p.1, p.2, hi, hv, hclue, hn⟩
    · intro hall
      obtain ⟨q, hq, i, v, hi, hv, hclue, hn⟩ := hall
      exact ⟨(i, v), mem_unitPairs.mpr ⟨hi, hv⟩, mem_unitNames.mpr ⟨q, hq, hclue, hn⟩⟩

/-- The number of a column tells the unit and the digit. -/
theorem unit_number_inj {q q' : (ℕ → ℕ) × ℕ} (hq : q ∈ units) (hq' : q' ∈ units) {i k v w : ℕ}
    (hi : i < 9) (hk : k < 9) (hv : v ≤ 9) (hw : w ≤ 9)
    (h : q.2 + i * 10 + v = q'.2 + k * 10 + w) : q = q' ∧ i = k ∧ v = w := by
  have hbase : ∀ {q : (ℕ → ℕ) × ℕ}, q ∈ units →
      q = (rowOf, 100) ∨ q = (colOf, 200) ∨ q = (boxOf, 300) := by
    intro q hq
    simpa [units, kRow, kCol, kBox] using hq
  rcases hbase hq with heq | heq | heq <;> rcases hbase hq' with heq' | heq' | heq' <;>
    subst heq <;> subst heq' <;> simp only [Prod.mk.injEq, true_and] at h ⊢ <;> omega

theorem cell_ne_unit {q : (ℕ → ℕ) × ℕ} (hq : q ∈ units) (i : Fin kCells) {k v : ℕ} :
    i.val ≠ q.2 + k * 10 + v := by
  have hi : i.val < 81 := i.isLt
  have hbase : 100 ≤ q.2 := by
    simp only [units, List.mem_cons, List.not_mem_nil, or_false] at hq
    rcases hq with heq | heq | heq <;> simp [heq, kRow, kCol, kBox]
  omega

section Fill
variable {ι : Type*} {cell : ι → Fin kCells} {val : ι → ℕ} {board : Board} {sel : List ι} {j : ι}

theorem fill_getElem_of_notMem {k : Fin kCells} (h : ∀ j ∈ sel, cell j ≠ k) :
    (Matrix.fill cell val board sel).get k = board.get k := by
  induction sel generalizing board with
  | nil => rfl
  | cons j sel ih =>
    have hne : (cell j).val ≠ k.val := fun heq => h j (by simp) (Fin.ext heq)
    have hrest : (Matrix.fill cell val (board.set (cell j).val (val j)) sel).get k = _ :=
      ih fun i hi => h i (List.mem_cons_of_mem j hi)
    rw [Matrix.fill, List.foldl_cons]
    exact hrest.trans (Vector.getElem_set_ne _ _ hne)

theorem fill_getElem_of_mem (hnodup : (sel.map cell).Nodup) (hj : j ∈ sel) :
    (Matrix.fill cell val board sel).get (cell j) = val j := by
  induction sel generalizing board with
  | nil => exact absurd hj List.not_mem_nil
  | cons i sel ih =>
    rw [List.map_cons, List.nodup_cons] at hnodup
    rw [Matrix.fill, List.foldl_cons]
    rcases List.mem_cons.mp hj with heq | hj
    · subst heq
      have hnot : ∀ i ∈ sel, cell i ≠ cell j :=
        fun i hi heq => hnodup.1 (heq ▸ List.mem_map_of_mem hi)
      exact (fill_getElem_of_notMem hnot).trans (Vector.getElem_set_self ..)
    · exact ih hnodup.2 hj

end Fill

/-- A selection of options that may be chosen, as an exact cover of the columns of the puzzle. -/
def CoversPuzzle {ι : Type*} (board : Board) (cell : ι → Fin kCells) (val : ι → ℕ)
    (sel : List ι) : Prop :=
  (∀ j ∈ sel, ((cell j).val, val j) ∈ cellOptions board (.clues board) (cell j)) ∧
    IsCover (fun j => optionNames (cell j) (val j)) (columnNames board (.clues board)) sel

section
variable {ι : Type*} {board : Board} {cell : ι → Fin kCells} {val : ι → ℕ} {sel : List ι}
  (hboard : ∀ i : Fin kCells, 0 ≤ board.get i ∧ board.get i ≤ 9)
include hboard

/-- An exact cover, written into the board, is a solution. -/
theorem CoversPuzzle.isSolution (h : CoversPuzzle board cell val sel) :
    IsSolution board (Matrix.fill cell val board sel) := by
  obtain ⟨hoption, hcover⟩ := h
  have hnames : (sel.flatMap fun j => optionNames (cell j) (val j)).Nodup :=
    hcover.nodup_iff.mpr (allNames_nodup.sublist (columnNames_sublist board _))
  have hcells : (sel.map cell).Nodup := by
    apply List.Nodup.of_map Fin.val
    rw [List.map_map]
    refine List.Nodup.sublist ?_ hnames
    rw [← List.flatMap_pure_eq_map]
    apply List.Sublist.flatMap_right
    intro j _
    simp [optionNames, pure]
  have hfilled : ∀ j ∈ sel, (Matrix.fill cell val board sel).get (cell j) = val j :=
    fun j hj => fill_getElem_of_mem hcells hj
  have hempty : ∀ j ∈ sel, board.get (cell j) = 0 := fun j hj => (mem_cellOptions.mp (hoption j hj)).1
  have hkept : ∀ i : Fin kCells, board.get i ≠ 0 →
      (Matrix.fill cell val board sel).get i = board.get i := by
    intro i hi
    apply fill_getElem_of_notMem
    intro j hj heq
    exact hi (heq ▸ hempty j hj)
  have htaken : ∀ n ∈ columnNames board (.clues board),
      ∃ j ∈ sel, n ∈ optionNames (cell j) (val j) := by
    intro n hn
    exact List.mem_flatMap.mp (hcover.mem_iff.mpr hn)
  have hdigit : ∀ i : Fin kCells, 1 ≤ (Matrix.fill cell val board sel).get i ∧
      (Matrix.fill cell val board sel).get i ≤ 9 := by
    intro i
    by_cases hi : board.get i = 0
    · obtain ⟨j, hj, hn⟩ := htaken i (mem_columnNames.mpr (Or.inl ⟨i, hi, rfl⟩))
      have hij : cell j = i := by
        rcases mem_optionNames.mp hn with heq | ⟨q, hq, heq⟩
        · exact (Fin.ext heq).symm
        · exact absurd heq (cell_ne_unit hq i)
      obtain ⟨-, -, hv, -⟩ := mem_cellOptions.mp (hoption j hj)
      rw [← hij, hfilled j hj]
      omega
    · rw [hkept i hi]
      have hrange := hboard i
      omega
  refine isSolution_iff.mpr ⟨hdigit, hkept, fun q hq => (distinct_iff hdigit hq).mpr ?_⟩
  intro i hi v hv
  by_cases hclue : Used.Clue q.1 board i v.toNat
  · obtain ⟨k, hk, hkv⟩ := hclue
    have hkv' : board.get k = v := by
      have hrange := hboard k
      omega
    exact ⟨k, hk, by rw [hkept k (by omega), hkv']⟩
  · obtain ⟨j, hj, hn⟩ := htaken _
      (mem_columnNames.mpr (Or.inr ⟨q, hq, i, v.toNat, hi, by omega, hclue, rfl⟩))
    obtain ⟨-, -, hvj, -⟩ := mem_cellOptions.mp (hoption j hj)
    rcases mem_optionNames.mp hn with heq | ⟨q', hq', heq⟩
    · exact absurd heq.symm (cell_ne_unit hq (cell j))
    · obtain ⟨hqq, hunit, hval⟩ := unit_number_inj hq hq' hi (unit_lt q' hq' (cell j))
        (by omega) hvj.2 heq
      refine ⟨cell j, by rw [hqq, ← hunit], ?_⟩
      rw [hfilled j hj]
      omega

omit hboard in
/-- The digits of a solution in the empty cells are an exact cover. -/
theorem IsSolution.coversPuzzle {g : Board} (h : IsSolution board g) :
    CoversPuzzle board id (fun i => (g.get i).toNat)
      ((List.finRange kCells).filter fun i => board.get i = 0) := by
  obtain ⟨hdigit, hclue, hdistinct⟩ := isSolution_iff.mp h
  have hdigit' : ∀ i : Fin kCells, 1 ≤ (g.get i).toNat ∧ (g.get i).toNat ≤ 9 := by
    intro i
    have hrange := hdigit i
    omega
  have hunused : ∀ i : Fin kCells, board.get i = 0 → ∀ q ∈ units,
      ¬ Used.Clue q.1 board (q.1 i) (g.get i).toNat := by
    intro i hi q hq hall
    obtain ⟨k, hk, hkv⟩ := hall
    have hrange := hdigit i
    have hne : board.get k ≠ 0 := by omega
    have hgk : g.get i = g.get k := by
      rw [hclue k hne]
      omega
    have hik := hdistinct q hq i k hk.symm hgk
    exact hne (hik ▸ hi)
  have hoption : ∀ i : Fin kCells, board.get i = 0 →
      (i.val, (g.get i).toNat) ∈ cellOptions board (.clues board) i := by
    intro i hi
    have hunits := hunused i hi
    simp only [units, List.mem_cons, List.not_mem_nil, or_false, forall_eq_or_imp, forall_eq]
      at hunits
    obtain ⟨hrow, hcol, hbox⟩ := hunits
    refine mem_cellOptions.mpr ⟨hi, rfl, hdigit' i, ?_⟩
    simp only [Used.clues, decide_eq_false_iff_not]
    exact ⟨hrow, hcol, hbox⟩
  have hmem : ∀ {i : Fin kCells},
      i ∈ (List.finRange kCells).filter (fun i => board.get i = 0) ↔ board.get i = 0 := by
    intro i
    rw [List.mem_filter, decide_eq_true_iff]
    simp only [List.mem_finRange, true_and]
  refine ⟨fun i hi => hoption i (hmem.mp hi), ?_⟩
  rw [IsCover, List.perm_ext_iff_of_nodup]
  · intro n
    rw [List.mem_flatMap, mem_columnNames]
    constructor
    · intro hall
      obtain ⟨i, hi, hn⟩ := hall
      exact mem_columnNames.mp (optionNames_sub (hoption i (hmem.mp hi)) n hn)
    · intro hn
      rcases hn with ⟨i, hi, hn⟩ | ⟨q, hq, i, v, hi, hv, hclue', hn⟩
      · exact ⟨i, hmem.mpr hi, mem_optionNames.mpr (Or.inl hn)⟩
      · obtain ⟨k, hk, hkv⟩ := (distinct_iff hdigit hq).mp (hdistinct q hq) i hi v (by omega)
        have hempty : board.get k = 0 := by
          by_contra hne
          have hgk := hclue k hne
          exact hclue' ⟨k, hk, by omega⟩
        refine ⟨k, hmem.mpr hempty, mem_optionNames.mpr (Or.inr ⟨q, hq, ?_⟩)⟩
        rw [hn, id, hk]
        show q.2 + i * 10 + v = q.2 + i * 10 + (g.get k).toNat
        rw [hkv, Int.toNat_natCast]
  · rw [List.nodup_flatMap]
    refine ⟨fun i _ => optionNames_nodup i.isLt (Nat.lt_succ_of_le (hdigit' i).2), ?_⟩
    apply ((List.nodup_finRange kCells).filter _).imp_of_mem
    intro i k hi hk hne n hn hn'
    rcases mem_optionNames.mp hn with heq | ⟨q, hq, heq⟩
    · rcases mem_optionNames.mp hn' with heq' | ⟨q', hq', heq'⟩
      · exact hne (Fin.ext (heq.symm.trans heq'))
      · exact cell_ne_unit hq' i (heq.symm.trans heq')
    · rcases mem_optionNames.mp hn' with heq' | ⟨q', hq', heq'⟩
      · exact cell_ne_unit hq k (heq'.symm.trans heq)
      · obtain ⟨hqq, hunit, hval⟩ := unit_number_inj hq hq' (unit_lt q hq i) (unit_lt q' hq' k)
          (hdigit' i).2 (hdigit' k).2 (heq.symm.trans heq')
        have hi := hdigit i
        have hk := hdigit k
        exact hne (hdistinct q hq i k (hqq ▸ hunit) (by omega))
  · exact allNames_nodup.sublist (columnNames_sublist board _)

end

section
variable {board : Board} {s : SudokuSolver} {M : Matrix} {cell : Ptr → Fin kCells}
  {val : Ptr → ℕ} {sel : List Ptr} {j : Ptr}

/-- The label of each node is the option that its row was built for. -/
structure Labelled (board : Board) (M : Matrix) (cell : Ptr → Fin kCells) (val : Ptr → ℕ) :
    Prop where
  option : ∀ j, M.IsNode j →
    ((cell j).val, val j) ∈ cellOptions board (.clues board) (cell j)
  names : ∀ j, M.IsNode j → (M.names j).Perm (optionNames (cell j) (val j))

theorem mem_allOptions {u : Used} {o : ℕ × ℕ} (ho : o ∈ allOptions board u) :
    ∃ i : Fin kCells, i.val = o.1 ∧ o ∈ cellOptions board u i := by
  obtain ⟨i, -, ho⟩ := List.mem_flatMap.mp ho
  exact ⟨i, (mem_cellOptions.mp ho).2.1.symm, ho⟩

theorem exists_labelled (h : M.Placed (allOptions board (.clues board))) :
    ∃ cell val, Labelled board M cell val := by
  have hlabel : ∀ j, ∃ o : Fin kCells × ℕ, M.IsNode j →
      (o.1.val, o.2) ∈ cellOptions board (.clues board) o.1 ∧
        (M.names j).Perm (optionNames o.1 o.2) := by
    intro j
    by_cases hj : M.IsNode j
    · obtain ⟨o, ho, hnames⟩ := h.option j hj
      obtain ⟨i, hi, ho⟩ := mem_allOptions ho
      refine ⟨(i, o.2), fun _ => ⟨?_, ?_⟩⟩
      · rw [hi]
        exact ho
      · rw [hi]
        exact hnames
    · exact ⟨(⟨0, by decide⟩, 0), fun hj' => absurd hj' hj⟩
  choose label hlabel using hlabel
  exact ⟨fun j => (label j).1, fun j => (label j).2, fun j hj => (hlabel j hj).1,
    fun j hj => (hlabel j hj).2⟩

theorem Labelled.labels (h : Labelled board M cell val) : M.Labels cell val := by
  have hname : ∀ j, M.IsNode j → ∀ i ∈ j :: M.row j, M.name i = cell j ∨
      ∃ q ∈ units, M.name i = q.2 + q.1 (cell j) * 10 + val j := by
    intro j hj i hi
    exact mem_optionNames.mp ((h.names j hj).mem_iff.mp (List.mem_map_of_mem hi))
  have hbase : ∀ q ∈ units, 100 ≤ q.2 ∧ q.2 % 10 = 0 := by decide
  have hval : ∀ j, M.IsNode j → val j ≤ 9 := fun j hj =>
    (mem_cellOptions.mp (h.option j hj)).2.2.1.2
  have hback : ∀ j, M.IsNode j → ∀ n ∈ optionNames (cell j) (val j),
      ∃ i ∈ j :: M.row j, M.name i = n := by
    intro j hj n hn
    exact List.mem_map.mp ((h.names j hj).mem_iff.mpr hn)
  refine ⟨?_, ?_, ?_, ?_⟩
  · intro j hj i hi hlt
    rcases hname j hj i hi with heq | ⟨q, hq, heq⟩
    · exact heq
    · have hge := (hbase q hq).1
      omega
  · intro j hj i hi hge
    rcases hname j hj i hi with heq | ⟨q, hq, heq⟩
    · have hlt : (cell j).val < 81 := (cell j).isLt
      omega
    · have hmod := (hbase q hq).2
      have hle := hval j hj
      omega
  · intro j hj
    obtain ⟨i, hi, hn⟩ := hback j hj _ (mem_optionNames.mpr (Or.inl rfl))
    have hlt : (cell j).val < 81 := (cell j).isLt
    exact ⟨i, hi, by omega⟩
  · intro j hj
    obtain ⟨i, hi, hn⟩ := hback j hj _
      (mem_optionNames.mpr (Or.inr ⟨(rowOf, kRow), by simp [units], rfl⟩))
    exact ⟨i, hi, by rw [hn]; simp only [kRow]; omega⟩

variable (hM : M.Built board s)
  (hnames : M.headers.map M.name = columnNames board (.clues board))
include hM hnames

/-- A cover of the matrix is one of the puzzle. -/
theorem Matrix.Covers.coversPuzzle (hlabelled : Labelled board M cell val)
    (h : M.Covers M.headers sel) : CoversPuzzle board cell val sel := by
  refine ⟨fun j hj => hlabelled.option j (h.1 j hj), ?_⟩
  have hperm : (sel.flatMap fun j => optionNames (cell j) (val j)).Perm
      (sel.flatMap fun j => (M.columns j).map M.name) := by
    apply List.Perm.flatMap_left
    intro j hj
    rw [← hM.names_eq (h.1 j hj)]
    exact (hlabelled.names j (h.1 j hj)).symm
  rw [IsCover, ← hnames]
  apply hperm.trans
  rw [← List.map_flatMap]
  exact h.2.map M.name

/-- A cover of the puzzle is one of the matrix. -/
theorem CoversPuzzle.covers {ι : Type*} {cell : ι → Fin kCells} {val : ι → ℕ} {sel : List ι}
    (hplaced : M.Placed (allOptions board (.clues board))) (h : CoversPuzzle board cell val sel) :
    ∃ js, M.Covers M.headers js := by
  have hnode : ∀ i, ∃ j, i ∈ sel → M.IsNode j ∧
      (M.names j).Perm (optionNames (cell i) (val i)) := by
    intro i
    by_cases hi : i ∈ sel
    · obtain ⟨j, hj⟩ := hplaced.node _
        (List.mem_flatMap.mpr ⟨cell i, List.mem_finRange _, h.1 i hi⟩)
      exact ⟨j, fun _ => hj⟩
    · exact ⟨M.root, fun hi' => absurd hi' hi⟩
  choose node hnode using hnode
  have hnodup : (M.headers.map M.name).Nodup := by
    rw [hnames]
    exact allNames_nodup.sublist (columnNames_sublist board _)
  have hperm : (((sel.map node).flatMap M.columns).map M.name).Perm (M.headers.map M.name) := by
    rw [hnames]
    refine List.Perm.trans ?_ h.2
    rw [List.flatMap_map, List.map_flatMap]
    apply List.Perm.flatMap_left
    intro i hi
    rw [← hM.names_eq (hnode i hi).1]
    exact (hnode i hi).2
  refine ⟨sel.map node, ?_, ?_⟩
  · intro j hj
    obtain ⟨i, hi, heq⟩ := List.mem_map.mp hj
    exact heq ▸ (hnode i hi).1
  · have hsub : ∀ d ∈ (sel.map node).flatMap M.columns, d ∈ M.headers := by
      intro d hd
      obtain ⟨j, hj, hd⟩ := List.mem_flatMap.mp hd
      obtain ⟨i, hi, heq⟩ := List.mem_map.mp hj
      obtain ⟨k, hk, hcol⟩ := List.mem_map.mp hd
      subst heq hcol
      have hjnode := (hnode i hi).1
      rcases List.mem_cons.mp hk with heq | hk
      · exact heq ▸ hjnode.1
      · exact (hM.wf.row_node _ hjnode k hk).1
    rw [IsCover, List.perm_ext_iff_of_nodup]
    · intro d
      refine ⟨hsub d, fun hd => ?_⟩
      obtain ⟨e, he, hname⟩ := List.mem_map.mp (hperm.mem_iff.mpr (List.mem_map_of_mem hd))
      have hed : e = d := List.inj_on_of_nodup_map hnodup (hsub e he) hd hname
      exact hed ▸ he
    · exact (hperm.nodup_iff.mpr hnodup).of_map _
    · exact hnodup.of_map _

end

/-- The solver finds a solution of a board of digits, or there is none. -/
theorem solve_board {board : Board} (hboard : ∀ i : Fin kCells, 0 ≤ board.get i ∧ board.get i ≤ 9) :
    ∃ s, SudokuSolver.new board = .ok s ∧
      ((∃ s', IsSolution board s'.inout ∧ s.solve kMaxNodes = some (true, s')) ∨
        ((∀ g, ¬ IsSolution board g) ∧ s.solve kMaxNodes = some (false, s))) := by
  obtain ⟨s, hnew, M, hM, hnames, hplaced⟩ := SudokuSolver.new_eq hboard
  obtain ⟨cell, val, hlabelled⟩ := exists_labelled hplaced
  have hdepth := Nodes.length_lt_of_nodup hM.stores.headers.nodup
  have hsolved := hlabelled.labels.solve_covers hM.wf hM.root (hM.stores.shows hM.wf)
    (by simp [hM.stack]) hdepth
  refine ⟨s, hnew, ?_⟩
  rcases hsolved with ⟨sel, s', hcovers, hsolve, hinout⟩ | ⟨hnone, hsolve⟩
  · refine Or.inl ⟨s', ?_, hsolve⟩
    rw [hinout, hM.stack, hM.inout, List.nil_append]
    exact (hcovers.coversPuzzle hM hnames hlabelled).isSolution hboard
  · refine Or.inr ⟨fun g hg => ?_, hsolve⟩
    obtain ⟨js, hjs⟩ := hg.coversPuzzle.covers hM hnames hplaced
    exact hnone js hjs

/-- The matrix that the constructor leaves for the grid without clues. -/
theorem exists_emptyGrid : ∃ (s : SudokuSolver) (M : Matrix) (c : Ptr), M.Wf ∧
    M.Shows s.nodes M.headers ∧ c ∈ M.headers ∧ s.root = M.root ∧ s.stack = [] ∧
    ∃ cell val, M.Labels cell val := by
  obtain ⟨s, -, M, hM, hnames, hplaced⟩ :=
    @SudokuSolver.new_eq (Vector.replicate kCells 0) fun _ => by simp
  obtain ⟨cell, val, hlabelled⟩ := exists_labelled hplaced
  have hfirst : 0 ∈ M.headers.map M.name := by
    rw [hnames, mem_columnNames]
    exact Or.inl ⟨⟨0, by decide⟩, by simp, rfl⟩
  obtain ⟨c, hc, -⟩ := List.mem_map.mp hfirst
  exact ⟨s, M, c, hM.wf, hM.stores.shows hM.wf, hc, hM.root, hM.stack, cell, val, hlabelled.labels⟩

theorem cover_uncover_emptyGrid : ∃ (m m' : Nodes) (M : Matrix) (c : Ptr), c ∈ M.headers ∧
    m.cover c = some m' ∧ M.Shows m' (M.headers.erase c) ∧ m'.uncover c = some m := by
  obtain ⟨s, M, c, wf, h, hc, -⟩ := exists_emptyGrid
  obtain ⟨m', hcover, h', -, huncover⟩ := Matrix.Shows.cover_uncover wf h hc
  exact ⟨s.nodes, m', M, c, hc, hcover, h', huncover⟩

theorem solve_covers_emptyGrid : ∃ (s : SudokuSolver) (M : Matrix) (cell : Ptr → Fin kCells)
    (val : Ptr → ℕ), M.Solved cell val M.headers s (s.solve (M.headers.length + 1)) := by
  obtain ⟨s, M, -, wf, h, -, hroot, hstack, cell, val, labels⟩ := exists_emptyGrid
  have hnone : ∀ j ∈ s.stack, M.IsNode j := by simp [hstack]
  exact ⟨s, M, cell, val,
    Matrix.Labels.solve_covers wf labels hroot h hnone (Nat.lt_succ_self _)⟩

/-- For every puzzle of 81 bytes `solveSudoku` returns, with no failed assertion: a solution if
there is one, and otherwise `NoSolution`. -/
theorem solveSudoku_correct (puzzle : List UInt8) (h : puzzle.length = kCells) :
    (∃ g, IsSolution (boardOf puzzle h) g ∧
      solveSudoku puzzle = .ok (g.toList.map charOf)) ∨
    ((∀ g, ¬ IsSolution (boardOf puzzle h) g) ∧ solveSudoku puzzle = .ok kNoSolution) := by
  rw [solveSudoku, dif_pos h]
  dsimp only
  generalize boardOf puzzle h = board
  by_cases hboard : ∀ i : Fin kCells, 0 ≤ board.get i ∧ board.get i ≤ 9
  · rw [if_pos hboard]
    obtain ⟨s, hnew, hsolve⟩ := solve_board hboard
    rw [hnew, ok_bind]
    rcases hsolve with ⟨s', hsolution, hsolve⟩ | ⟨hnone, hsolve⟩
    · rw [hsolve]
      exact Or.inl ⟨s'.inout, hsolution, rfl⟩
    · rw [hsolve]
      exact Or.inr ⟨hnone, rfl⟩
  · rw [if_neg hboard]
    refine Or.inr ⟨fun g hg => hboard fun i => ?_, rfl⟩
    by_cases hi : board.get i = 0
    · omega
    · have hdigit := hg.digit i
      rw [hg.clue i hi] at hdigit
      omega

theorem solveSudoku_correct_zeros :
    (∃ g, IsSolution (boardOf (List.replicate kCells 48) (List.length_replicate ..)) g ∧
      solveSudoku (List.replicate kCells 48) = .ok (g.toList.map charOf)) ∨
    ((∀ g, ¬ IsSolution (boardOf (List.replicate kCells 48) (List.length_replicate ..)) g) ∧
      solveSudoku (List.replicate kCells 48) = .ok kNoSolution) :=
  solveSudoku_correct _ _

end Muduo.Sudoku

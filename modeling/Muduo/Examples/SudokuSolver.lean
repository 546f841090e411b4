import Mathlib
import Muduo.Assertion
import Muduo.Library.Ring

/-!
# The sudoku solver

`examples/sudoku/sudoku.cc`: exact cover by dancing links. A `Node*` is an index into `nodes_`.
The loops that follow links make at most `kMaxNodes` tests of their condition, and `none` is a
loop that has not ended by then.
-/
namespace Muduo.Sudoku
open Ring

def kCells : ℕ := 81

def kMaxNodes : ℕ := 1 + 81 * 4 + 9 * 9 * 9 * 4

def kMaxColumns : ℕ := 400

def kRow : ℕ := 100

def kCol : ℕ := 200

def kBox : ℕ := 300

inductive Fault
  /-- `SudokuSolver::new_column`: `cur_node_ < kMaxNodes` -/
  | newColumnNode
  /-- `SudokuSolver::append_column`: `columns_[n] == NULL` -/
  | appendColumnNull
  /-- `SudokuSolver::new_row`: `columns_[col] != NULL` -/
  | newRowColumn
  /-- `SudokuSolver::new_row`: `cur_node_ < kMaxNodes` -/
  | newRowNode
  /-- `solveSudoku`: `puzzle.size() == kCells` -/
  | puzzleSize
  /-- `columns_[n]` out of range; not asserted, but undefined -/
  | columnsIndex
  /-- `rows[row][val]` out of range; not asserted, but undefined -/
  | usedIndex
  /-- `solve` does not return, or writes outside of the board; not asserted -/
  | solveHangs
  deriving DecidableEq, Repr

/-- A pointer into `nodes_`. -/
abbrev Ptr := Fin kMaxNodes

/-- A `Node`, or a `Column`; `name` and `size` are used as the source does. -/
structure Node where
  left : Ptr
  right : Ptr
  up : Ptr
  down : Ptr
  col : Ptr
  name : ℕ
  size : ℤ
  deriving Repr

/-- `nodes_` -/
structure Nodes where
  cells : Vector Node kMaxNodes

namespace Nodes

def node (m : Nodes) (p : Ptr) : Node := m.cells[p.val]

def put (m : Nodes) (p : Ptr) (n : Node) : Nodes := ⟨m.cells.set p.val n⟩

@[simp] theorem node_put (m : Nodes) (p q : Ptr) (n : Node) :
    (m.put p n).node q = if q = p then n else m.node q := by
  simp only [node, put, Vector.getElem_set, Fin.ext_iff, eq_comm]

variable (m : Nodes) (p q : Ptr)

def left : Ptr := (m.node p).left
def right : Ptr := (m.node p).right
def up : Ptr := (m.node p).up
def down : Ptr := (m.node p).down
def col : Ptr := (m.node p).col
def name : ℕ := (m.node p).name
def size : ℤ := (m.node p).size

def setLeft : Nodes := m.put p { m.node p with left := q }
def setRight : Nodes := m.put p { m.node p with right := q }
def setUp : Nodes := m.put p { m.node p with up := q }
def setDown : Nodes := m.put p { m.node p with down := q }
def setSize (n : ℤ) : Nodes := m.put p { m.node p with size := n }

/-- `cover`: `c->right->left = c->left; c->left->right = c->right;` -/
def unlinkHeader (c : Ptr) : Nodes :=
  let m := m.setLeft (m.right c) (m.left c)
  m.setRight (m.left c) (m.right c)

/-- `uncover`: `c->right->left = c; c->left->right = c;` -/
def relinkHeader (c : Ptr) : Nodes :=
  let m := m.setLeft (m.right c) c
  m.setRight (m.left c) c

/-- The body of the inner loop of `cover`. -/
def hide (j : Ptr) : Nodes :=
  let m := m.setUp (m.down j) (m.up j)
  let m := m.setDown (m.up j) (m.down j)
  m.setSize (m.col j) (m.size (m.col j) - 1)

/-- The body of the inner loop of `uncover`. -/
def unhide (j : Ptr) : Nodes :=
  let m := m.setSize (m.col j) (m.size (m.col j) + 1)
  let m := m.setUp (m.down j) j
  m.setDown (m.up j) j

/-- The inner loop of `cover`: all nodes of the row but `row` itself. -/
def hideRow (row : Ptr) : Option Nodes :=
  forLoop right row (fun m j => some (m.hide j)) kMaxNodes m (m.right row)

def unhideRow (row : Ptr) : Option Nodes :=
  forLoop left row (fun m j => some (m.unhide j)) kMaxNodes m (m.left row)

def cover (c : Ptr) : Option Nodes :=
  let m := m.unlinkHeader c
  forLoop down c hideRow kMaxNodes m (m.down c)

def uncover (c : Ptr) : Option Nodes := do
  let m ← forLoop up c unhideRow kMaxNodes m (m.up c)
  return m.relinkHeader c

/-- The loop of `get_min_column` with its locals `c`, `min_size` and `cc`. -/
def findMinColumn (root : Ptr) : ℕ → Ptr → ℤ → Ptr → Option Ptr
  | 0, _, _, _ => none
  | n + 1, c, minSize, cc =>
    if cc = root then some c
    else if minSize > m.size cc then
      if m.size cc ≤ 1 then some cc else findMinColumn root n cc (m.size cc) (m.right cc)
    else findMinColumn root n c minSize (m.right cc)

def getMinColumn (root : Ptr) : Option Ptr :=
  let c := m.right root
  if m.size c > 1 then m.findMinColumn root kMaxNodes c (m.size c) (m.right c) else some c

/-- The loop of `solve` over the nodes of a row, with its locals `cell`, `val` and `n`. -/
def readRow : ℕ → ℤ → ℤ → Ptr → Option (ℤ × ℤ)
  | 0, _, _, _ => none
  | n + 1, cell, val, p =>
    if cell = -1 ∨ val = -1 then
      if m.name p < 100 then readRow n (m.name p) val (m.right p)
      else readRow n cell (m.name p % 10 : ℕ) (m.right p)
    else some (cell, val)

end Nodes

/-- `int board[kCells]` -/
abbrev Board := Vector ℤ kCells

structure SudokuSolver where
  root : Ptr
  inout : Board
  columns : Vector (Option Ptr) kMaxColumns
  stack : List Ptr
  nodes : Nodes
  curNode : ℕ

namespace SudokuSolver

/-- `inout_[cell] = val` -/
def setCell (s : SudokuSolver) (cell val : ℤ) : Option SudokuSolver :=
  if h : cell.toNat < kCells then some { s with inout := s.inout.set cell.toNat val } else none

/-- One iteration of the loop of `solve` over `stack_`. -/
def readNode (s : SudokuSolver) (n : Ptr) : Option SudokuSolver := do
  let (cell, val) ← s.nodes.readRow kMaxNodes (-1) (-1) n
  s.setCell cell val

/-- The loop of `solve` over `stack_`, when no column is left. -/
def readStack (s : SudokuSolver) : Option SudokuSolver := s.stack.foldlM readNode s

/-- `solve`: cover the columns of the other nodes of `row`. -/
def coverRow (s : SudokuSolver) (row : Ptr) : Option SudokuSolver := do
  let nodes ← forLoop Nodes.right row (fun m j => m.cover (m.col j)) kMaxNodes s.nodes
    (s.nodes.right row)
  return { s with nodes }

def uncoverRow (s : SudokuSolver) (row : Ptr) : Option SudokuSolver := do
  let nodes ← forLoop Nodes.left row (fun m j => m.uncover (m.col j)) kMaxNodes s.nodes
    (s.nodes.left row)
  return { s with nodes }

/-- The loop of `solve` over the rows of `col`, and what follows it; `solve` is the call in it. -/
def tryRows (solve : SudokuSolver → Option (Bool × SudokuSolver)) (col : Ptr) :
    ℕ → SudokuSolver → Ptr → Option (Bool × SudokuSolver)
  | 0, _, _ => none
  | n + 1, s, row =>
    if row = col then do
      let nodes ← s.nodes.uncover col
      return (false, { s with nodes })
    else do
      let s := { s with stack := s.stack ++ [row] }
      let s ← s.coverRow row
      let (solved, s) ← solve s
      if solved then return (true, s)
      let s := { s with stack := s.stack.dropLast }
      let s ← s.uncoverRow row
      tryRows solve col n s (s.nodes.down row)

/-- `solve`, to the given depth of recursion. -/
def solve : ℕ → SudokuSolver → Option (Bool × SudokuSolver)
  | 0, _ => none
  | depth + 1, s =>
    if s.nodes.left s.root = s.root then do
      let s ← s.readStack
      return (true, s)
    else do
      let col ← s.nodes.getMinColumn s.root
      let nodes ← s.nodes.cover col
      tryRows (solve depth) col kMaxNodes { s with nodes } (nodes.down col)

/-- `columns_[n]` -/
def column (s : SudokuSolver) (n : ℕ) : Except Fault (Option Ptr) :=
  if h : n < kMaxColumns then .ok s.columns[n] else .error .columnsIndex

/-- `columns_[n] = c` -/
def setColumn (s : SudokuSolver) (n : ℕ) (c : Ptr) : Except Fault SudokuSolver :=
  if h : n < kMaxColumns then .ok { s with columns := s.columns.set n (some c) }
  else .error .columnsIndex

def newColumn (s : SudokuSolver) (n : ℕ) : Except Fault (Ptr × SudokuSolver) :=
  if h : s.curNode < kMaxNodes then
    let c : Ptr := ⟨s.curNode, h⟩
    .ok (c, { s with nodes := s.nodes.put c ⟨c, c, c, c, c, n, 0⟩, curNode := s.curNode + 1 })
  else .error .newColumnNode

def putLeft (s : SudokuSolver) (old nnew : Ptr) : SudokuSolver :=
  let m := s.nodes.setLeft nnew (s.nodes.left old)
  let m := m.setRight nnew old
  let m := m.setRight (m.left old) nnew
  { s with nodes := m.setLeft old nnew }

def putUp (s : SudokuSolver) (old nnew : Ptr) : SudokuSolver :=
  let m := s.nodes.setUp nnew (s.nodes.up old)
  let m := m.setDown nnew old
  let m := m.setDown (m.up old) nnew
  let m := m.setUp old nnew
  let m := m.setSize old (m.size old + 1)
  { s with nodes := m.put nnew { m.node nnew with col := old } }

def appendColumn (s : SudokuSolver) (n : ℕ) : Except Fault SudokuSolver := do
  let old ← s.column n
  if old ≠ none then throw .appendColumnNull
  let (c, s) ← s.newColumn n
  (s.putLeft s.root c).setColumn n c

def newRow (s : SudokuSolver) (col : ℕ) : Except Fault (Ptr × SudokuSolver) := do
  match ← s.column col with
  | none => throw .newRowColumn
  | some c =>
    if h : s.curNode < kMaxNodes then
      let r : Ptr := ⟨s.curNode, h⟩
      let s := { s with nodes := s.nodes.put r ⟨r, r, r, r, c, col, 0⟩, curNode := s.curNode + 1 }
      return (r, s.putUp c r)
    else throw .newRowNode

def getRowCol (row val : ℕ) : ℕ := kRow + row * 10 + val

def getColCol (col val : ℕ) : ℕ := kCol + col * 10 + val

def getBoxCol (box val : ℕ) : ℕ := kBox + box * 10 + val

end SudokuSolver

/-- The row, the column and the box of the cell `i`. -/
def rowOf (i : ℕ) : ℕ := i / 9
def colOf (i : ℕ) : ℕ := i % 9
def boxOf (i : ℕ) : ℕ := i / 9 / 3 * 3 + i % 9 / 3

/-- `bool rows[kCells][10]`, `cols` and `boxes` -/
structure Used where
  rows : ℕ → ℕ → Bool
  cols : ℕ → ℕ → Bool
  boxes : ℕ → ℕ → Bool

namespace Used

/-- `table[i][v] = true` -/
def mark (table : ℕ → ℕ → Bool) (i v : ℕ) : ℕ → ℕ → Bool :=
  Function.update table i (Function.update (table i) v true)

/-- The first loop of the constructor, at one cell. -/
def markCell (board : Board) (u : Used) (i : Fin kCells) : Except Fault Used :=
  let val := board.get i
  if 0 ≤ val ∧ val ≤ 9 then .ok {
    rows := mark u.rows (rowOf i) val.toNat
    cols := mark u.cols (colOf i) val.toNat
    boxes := mark u.boxes (boxOf i) val.toNat }
  else .error .usedIndex

def ofBoard (board : Board) : Except Fault Used :=
  (List.finRange kCells).foldlM (markCell board)
    ⟨fun _ _ => false, fun _ _ => false, fun _ _ => false⟩

end Used

namespace SudokuSolver

/-- The solver before the constructor has created any node. -/
def blank (board : Board) : SudokuSolver where
  root := ⟨0, by decide⟩
  inout := board
  columns := Vector.replicate kMaxColumns none
  stack := []
  nodes := ⟨Vector.replicate kMaxNodes
    ⟨⟨0, by decide⟩, ⟨0, by decide⟩, ⟨0, by decide⟩, ⟨0, by decide⟩, ⟨0, by decide⟩, 0, 0⟩⟩
  curNode := 0

/-- The second loop of the constructor, at one cell. -/
def addCellColumn (s : SudokuSolver) (i : Fin kCells) : Except Fault SudokuSolver :=
  if s.inout.get i = 0 then s.appendColumn i else .ok s

/-- The third loop of the constructor, for the row, column and box `i` and the value `v`. -/
def addUnitColumns (u : Used) (s : SudokuSolver) (i v : ℕ) : Except Fault SudokuSolver := do
  let s ← if !u.rows i v then s.appendColumn (getRowCol i v) else .ok s
  let s ← if !u.cols i v then s.appendColumn (getColCol i v) else .ok s
  if !u.boxes i v then s.appendColumn (getBoxCol i v) else .ok s

/-- The nodes of the option to put `v` into the cell `i`. -/
def addOption (s : SudokuSolver) (i v : ℕ) : Except Fault SudokuSolver := do
  let (n₀, s) ← s.newRow i
  let (nr, s) ← s.newRow (getRowCol (rowOf i) v)
  let (nc, s) ← s.newRow (getColCol (colOf i) v)
  let (nb, s) ← s.newRow (getBoxCol (boxOf i) v)
  return ((s.putLeft n₀ nr).putLeft n₀ nc).putLeft n₀ nb

/-- The last loop of the constructor, at one cell. -/
def addOptions (u : Used) (s : SudokuSolver) (i : Fin kCells) : Except Fault SudokuSolver :=
  if s.inout.get i = 0 then
    (List.range' 1 9).foldlM (fun s v =>
      if !(u.rows (rowOf i) v || u.cols (colOf i) v || u.boxes (boxOf i) v) then s.addOption i v
      else .ok s) s
  else .ok s

/-- `SudokuSolver(int board[kCells])` -/
def new (board : Board) : Except Fault SudokuSolver := do
  let (root, s) ← (blank board).newColumn 0
  let s := { s with root }
  let u ← Used.ofBoard board
  let s ← (List.finRange kCells).foldlM addCellColumn s
  let s ← (List.range 9).foldlM (fun s i =>
    (List.range' 1 9).foldlM (fun s v => s.addUnitColumns u i v) s) s
  (List.finRange kCells).foldlM (addOptions u) s

end SudokuSolver

def kNoSolution : List UInt8 := "NoSolution".toUTF8.toList

/-- `puzzle[i] - '0'`; a `char` is signed. -/
def digitOf (c : UInt8) : ℤ := c.toInt8.toInt - 48

/-- `static_cast<char>(board[i] + '0')` -/
def charOf (d : ℤ) : UInt8 := UInt8.ofInt (d + 48)

/-- `board[i] = puzzle[i] - '0'` -/
def boardOf (puzzle : List UInt8) (h : puzzle.length = kCells) : Board :=
  Vector.ofFn fun i => digitOf (puzzle.get (i.cast h.symm))

def solveSudoku (puzzle : List UInt8) : Except Fault (List UInt8) :=
  if h : puzzle.length = kCells then
    let board := boardOf puzzle h
    if ∀ i : Fin kCells, 0 ≤ board.get i ∧ board.get i ≤ 9 then do
      let s ← SudokuSolver.new board
      match s.solve kMaxNodes with
      | none => throw .solveHangs
      | some (true, s) => return s.inout.toList.map charOf
      | some (false, _) => return kNoSolution
    else .ok kNoSolution
  else .error .puzzleSize

end Muduo.Sudoku

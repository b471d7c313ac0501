import TensorKit.Sparsity.Matrix
/-!
Pruning masks.

In every run of `m` entries the one-dimensional mask drops the `n` entries of least absolute value.  The greedy
two-dimensional mask goes through the entries of a block from the largest absolute value down and keeps an entry unless
its row or its column already keeps `n`.  The best two-dimensional mask takes, for every block, the pattern with `n`
kept entries in each row and at most `n` in each column whose kept entries have the largest sum.

The order of equal entries is left open: the first two masks are defined for any way to sort.
-/

namespace TensorKit.Sparsity

variable {α : Type} [Weight α]

variable (order : List α → List Nat) (n : Int)

/-- The first items of a list; a negative number leaves that many out at the end. -/
def takeInt (xs : List Nat) : List Nat :=
  if 0 ≤ n then xs.take n.toNat else xs.take (xs.length - n.natAbs)

/-! ## 1. Runs -/

variable (m : Nat) (xs : List α)

/-- The mask of a run: the first `n` positions in the order of absolute values are dropped. -/
def runMask : List Bool :=
  let dropped := takeInt n (order (xs.map Weight.abs))
  (List.range xs.length).map fun i => !dropped.elem i

variable (a : Matrix α)

def mask1 (n : Int) (m : Nat) : Matrix Bool :=
  let masks := (a.runs m).map (runMask order n)
  let perRow := a.paddedWidth m / m
  ⟨a.width, (List.range a.rows.length).map fun r =>
    ((((masks.drop (r * perRow)).take perRow).flatten).take a.width)⟩

/-! ## 2. Blocks, greedily -/

/-- How many kept positions are in the row, and in the column, of a position. -/
def keptBeside (kept : List Nat) (i : Nat) : Nat × Nat :=
  (kept.countP fun k => k / m == i / m, kept.countP fun k => k % m == i % m)

def keepStep (kept : List Nat) (i : Nat) : List Nat :=
  let (row, column) := keptBeside m kept i
  if (row : Int) = n || (column : Int) = n then kept else kept ++ [i]

def greedyKept : List Nat :=
  (order (xs.map Weight.abs)).reverse.foldl (keepStep n m) []

def blockMask : List Bool :=
  let kept := greedyKept order n m xs
  (List.range xs.length).map fun i => kept.elem i

/-- The greedy mask of a matrix.  A block of a single entry has no row and column to mark it by, so such blocks
are refused unless nothing is kept. -/
def maskGreedy (n : Int) (m : Nat) : Fallible (Matrix Bool) :=
  let bs := a.blocks m
  if m = 1 && n ≠ 0 && !bs.isEmpty then .error .index
  else .ok (.ofBlocks a.rows.length a.width m (a.paddedWidth m / m) (bs.map (blockMask order n m)) false)

/-! ## 3. Blocks, at best -/

def rowPatterns : Nat → Nat → List (List Bool)
  | 0, 0 => [[]]
  | 0, _ + 1 => []
  | m + 1, 0 => (rowPatterns m 0).map (false :: ·)
  | m + 1, k + 1 => (rowPatterns m (k + 1)).map (false :: ·) ++ (rowPatterns m k).map (true :: ·)

def columnCounts (rows : List (List Bool)) : List Nat :=
  (List.range m).map fun c => rows.countP fun r => r[c]?.getD false

/-- Lists of `count` rows, each row at most twice and no column with more than `n` kept entries. -/
def boundedRowLists (m : Nat) (n : Int) (rows : List (List Bool)) : Nat → List (List (List Bool))
  | 0 => [[]]
  | count + 1 => (boundedRowLists m n rows count).flatMap fun above =>
      ((rows.filter fun r => above.count r < 2).map fun r => above ++ [r]).filter fun rs =>
        (columnCounts m rs).all fun k => (k : Int) ≤ n

/-- How many entries of a row are kept: `n` of `m`, where a negative `n` counts from the end. -/
def keptPerRow : Nat := if 0 ≤ n then min n.toNat m else m - n.natAbs

/-- The patterns of a block.  Fails when there are not enough different rows to fill a block, each at most
twice. -/
def patterns : Fallible (List (List Bool)) :=
  let rows := rowPatterns m (keptPerRow n m)
  if 2 * rows.length < m || m = 0 then .error .axis
  else .ok ((boundedRowLists m n rows m).map List.flatten)

def keptSum (pattern : List Bool) : α :=
  (xs.zip pattern).foldl (fun s (x, keep) => if keep then Weight.add s x else s) Weight.zero

def bestPattern : List (List Bool) → Option (List Bool)
  | [] => none
  | p :: ps => some (ps.foldl (fun best q => if Weight.le (keptSum xs q) (keptSum xs best) then best else q) p)

def maskBest (n : Int) (m : Nat) : Fallible (Matrix Bool) := do
  let ps ← patterns n m
  if ps.isEmpty then .error .value
  let bs := a.blocks m
  return .ofBlocks a.rows.length a.width m (a.paddedWidth m / m)
    (bs.map fun xs => (bestPattern xs ps).getD []) false

/-! ## 4. Checks -/

def check1 (n : Int) (m : Nat) : Bool :=
  (a.runs m).all fun xs => (xs.countP fun x => !Weight.isZero x : Int) ≤ m - n

/-- Do the rows of a block, or do its columns, each have at least `n` zeros? -/
def checkBlock : Bool :=
  let filled := xs.map fun x => !Weight.isZero x
  let rows := Tensor.rowsOf m m filled
  (rows.all fun r => (r.count true : Int) ≤ m - n) ||
    (columnCounts m rows).all fun k => (k : Int) ≤ m - n

/-- Is every block of a matrix sparse by rows or by columns?  A block of a single entry has no rows. -/
def check2 (n : Int) (m : Nat) : Fallible Bool :=
  let bs := a.blocks m
  if m = 1 && !bs.isEmpty then .error .axis else .ok (bs.all (checkBlock n m))

end TensorKit.Sparsity

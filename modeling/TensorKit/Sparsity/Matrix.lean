import TensorKit.Value.Array
/-!
Matrices cut into runs and blocks.

A matrix is a list of rows of one length.  Filled up with zeros, its rows are cut into runs of `m` entries, or
the whole matrix into square blocks of `m` rows and columns, which are listed row by row.
-/

namespace TensorKit.Sparsity

/-- Numbers with the operations that pruning needs. -/
class Weight (α : Type) where
  zero : α
  one : α
  isZero : α → Bool
  /-- the absolute value -/
  abs : α → α
  le : α → α → Bool
  add : α → α → α

instance : Weight Float where
  zero := 0.0
  one := 1.0
  isZero x := x == 0.0
  abs := Float.abs
  le x y := x ≤ y
  add := (· + ·)

structure Matrix (α : Type) where
  /-- the length of the rows -/
  width : Nat
  rows : List (List α)

variable {α : Type}

def filling (k m : Nat) : Nat := (m - k % m) % m

def padTo (n : Nat) (x : α) (xs : List α) : List α := xs ++ List.replicate (n - xs.length) x

variable (a : Matrix α) (m : Nat)

namespace Matrix

def paddedWidth : Nat := a.width + filling a.width m

def paddedHeight : Nat := a.rows.length + filling a.rows.length m

def padRows [Weight α] : Matrix α :=
  ⟨a.paddedWidth m, a.rows.map (padTo (a.paddedWidth m) Weight.zero)⟩

def padBoth [Weight α] : Matrix α :=
  let b := a.padRows m
  ⟨b.width, padTo (a.paddedHeight m) (List.replicate b.width Weight.zero) b.rows⟩

def runs [Weight α] : List (List α) :=
  let b := a.padRows m
  b.rows.flatMap fun row => Tensor.rowsOf m (b.width / m) row

def block (m i j : Nat) : List α :=
  ((a.rows.drop (i * m)).take m).flatMap fun row => (row.drop (j * m)).take m

def blocks [Weight α] : List (List α) :=
  let b := a.padBoth m
  (List.range (b.rows.length / m)).flatMap fun i =>
    (List.range (b.width / m)).map fun j => b.block m i j

/-- The upper left part of the matrix that is put together from blocks of `m` rows and columns, of which
`perRow` stand side by side. -/
def ofBlocks (height width m perRow : Nat) (bs : List (List α)) (default : α) : Matrix α :=
  ⟨width, (List.range height).map fun r => (List.range width).map fun c =>
    ((bs[r / m * perRow + c / m]?).bind fun b => b[r % m * m + c % m]?).getD default⟩

end Matrix

/-- Positions of a list in increasing order of their entries; equal entries keep their order. -/
def sortedPositions [Weight α] (xs : List α) : List Nat :=
  let entry (i : Nat) : α := (xs[i]?).getD Weight.zero
  (List.range xs.length).mergeSort fun i j => Weight.le (entry i) (entry j)

end TensorKit.Sparsity

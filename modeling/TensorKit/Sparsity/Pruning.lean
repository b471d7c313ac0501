import TensorKit.Arguments
import TensorKit.Sparsity.Mask
import TensorKit.Value.Arithmetic
/-!
Pruning tensors and arrays.

A tensor is pruned as a matrix: one with one axis as a single row, one with three axes with the first two joined, one
with four axes with the last two exchanged and all but the last joined.  An array is pruned as a tensor of floating
numbers; the mask has the shape and the element type of the array.
-/

namespace TensorKit.Sparsity

/-! ## 1. Causes of failure -/

inductive Error where
  | fault (kind : FailureKind)
  | notMatrix
  | algorithmClass
  | maskClass (name : String)
  | checkClass (name : String)
  | axes (n : Nat)
  deriving DecidableEq

instance : Faulty Error where
  fault := .fault
  kind
    | .fault k => k
    | .axes _ => .value
    | _ => .assertion
  message
    | .fault _ => none
    | .notMatrix => some "The input mat should be a 2D matrix!"
    | .algorithmClass => some "mask_algo should be MaskAlgo type"
    | .maskClass c => some s!"func_name argumet of create_mask is only accepted as type MaskAlgo. But got {c}"
    | .checkClass c => some s!"func_name argumet of check_sparsity is only accepted as type CheckMethod. But got {c}"
    | .axes n => some ("The dimension of input tensor is not supported in create_mask, " ++
        s!"Only dimension < 4 is supported but got {n}")

/-! ## 2. Masks and checks of matrices -/

variable {α : Type}

def widthOf (m : Int) : Except Error Nat :=
  if m = 0 then .error (.fault .zeroDivision) else if m < 0 then .error (.fault .value) else .ok m.toNat

inductive Algorithm where
  | runs
  | greedy
  | best
  deriving DecidableEq

inductive Method where
  | runs
  | blocks
  deriving DecidableEq

def Algorithm.method : Algorithm → Method
  | runs => .runs
  | _ => .blocks

def Algorithm.mask [Weight α] (order : List α → List Nat) (g : Algorithm) (a : Matrix α) (n m : Int) :
    Except Error (Matrix Bool) := do
  match g with
  | runs => return mask1 order a n (← widthOf m)
  | greedy => maskGreedy order a n (← widthOf m)
  | best =>
    if m < 0 then .error (.fault .value)
    maskBest a n m.toNat

variable (g : Method)

def Method.check [Weight α] (a : Matrix α) (n m : Int) : Except Error Bool := do
  match g with
  | runs => return check1 a n (← widthOf m)
  | blocks => check2 a n (← widthOf m)

def marks [Weight α] (a : Matrix Bool) : List α := a.rows.flatten.map fun b => if b then Weight.one else Weight.zero

/-! ## 3. Tensors -/

def matrixOf (height width : Nat) (xs : List α) : Matrix α := ⟨width, Tensor.rowsOf width height xs⟩

/-- The elements of a matrix of `height` rows and `width` columns, column by column. -/
def transposed (height width : Nat) (xs : List α) : List α :=
  (List.range width).flatMap fun j => (List.range height).filterMap fun i => xs[i * width + j]?

/-- The elements of a tensor, those of one with four axes with its last two axes exchanged. -/
def exchanged (shape : List Nat) (xs : List α) : List α :=
  match shape with
  | [b, c, h, w] => (Tensor.rowsOf (h * w) (b * c) xs).flatMap (transposed h w)
  | _ => xs

/-- The elements of a tensor that has these elements with its axes exchanged. -/
def exchangedBack (shape : List Nat) (xs : List α) : List α :=
  match shape with
  | [b, c, h, w] => exchanged [b, c, w, h] xs
  | _ => xs

def unfolded (a : Tensor α) : Except Error (Matrix α) :=
  match a.shape with
  | [k] => .ok (matrixOf 1 k a.data)
  | [h, w] => .ok (matrixOf h w a.data)
  | [b, h, w] => .ok (matrixOf (b * h) w a.data)
  | [b, c, h, w] => .ok (matrixOf (b * c * w) h (exchanged a.shape a.data))
  | s => .error (.axes s.length)

/-- The mask of a tensor: one where an element is kept, zero elsewhere. -/
def tensorMask [Weight α] (order : List α → List Nat) (g : Algorithm) (a : Tensor α) (n m : Int) :
    Except Error (Tensor α) := do
  return ⟨a.shape, exchangedBack a.shape (marks (← g.mask order (← unfolded a) n m))⟩

def tensorSparse [Weight α] (a : Tensor α) (n m : Int) : Except Error Bool := do
  g.check (← unfolded a) n m

/-! ## 4. Arrays as tensors -/

variable (a : NdArray)

def floats : Tensor Float := a.toTensor.map Scalar.toFloat

def matrix : Except Error (Matrix Float) :=
  match a.shape with
  | [h, w] => .ok (matrixOf h w (floats a).data)
  | _ => .error .notMatrix

def arrayOf (shape : List Nat) (xs : List Float) : NdArray := ⟨⟨shape, xs.map .float⟩, .float64⟩

def runsArray (m : Int) : Except Error (NdArray × List Nat) := do
  let b ← matrix a
  let m ← widthOf m
  let runs := b.runs m
  let array := arrayOf [runs.length, m] runs.flatten
  let array := if filling b.width m = 0 then array.as a.type else array
  return (array, [b.rows.length, b.paddedWidth m])

def blocksArray (m : Int) : Except Error (NdArray × List Nat) := do
  let b ← matrix a
  let m ← widthOf m
  let blocks := b.blocks m
  return (arrayOf [blocks.length, m * m] blocks.flatten, [b.paddedHeight m, b.paddedWidth m])

/-! ## 5. Masks and checks of arrays -/

/-- The mask of an array with two axes.  Only the mask by runs keeps the element type. -/
def maskOf (g : Algorithm) (a : NdArray) (n m : Int) : Except Error NdArray := do
  let b ← matrix a
  let mask := arrayOf a.shape (marks (← g.mask sortedPositions b n m))
  return if g = .runs then mask.as a.type else mask

/-- Is an array sparse?  For runs one axis will do. -/
def checkOf (a : NdArray) (n m : Int) : Except Error Bool := do
  match g, a.shape with
  | .runs, [] => .error (.fault .index)
  | .runs, [k] => g.check (matrixOf 1 k (floats a).data) n m
  | g, _ => g.check (← matrix a) n m

def createMask (g : Algorithm) (a : NdArray) (n m : Int) : Except Error NdArray := do
  let mask ← tensorMask sortedPositions g (floats a) n m
  return (arrayOf mask.shape mask.data).as a.type

def checkSparsity (a : NdArray) (n m : Int) : Except Error Bool := tensorSparse g (floats a) n m

/-- The mask of an array by an algorithm that may be given as data; only null is accepted as one. -/
def createMaskBy (g : Algorithm) (a : NdArray) (given : Value) (n m : Int) : Except Error NdArray :=
  match given with
  | .null => createMask g a n m
  | v => .error (.maskClass v.classText)

/-- Is an array sparse, by a method that may be given as data; only null is accepted as one. -/
def checkSparsityBy (a : NdArray) (given : Value) (n m : Int) : Except Error Bool :=
  match given with
  | .null => checkSparsity g a n m
  | v => .error (.checkClass v.classText)

/-- The patterns of a block as rows of digits, sorted. -/
def patternTexts (n m : Int) : Fallible (List String) := do
  let text (p : List Bool) : String := .ofList (p.map fun b => if b then '1' else '0')
  return ((← patterns n m.toNat).map text).mergeSort fun a b => !(b < a)

def density : Fallible Float :=
  if a.data.isEmpty then .error .zeroDivision
  else .ok (Number.ofInt (a.data.countP Scalar.truthy) / Number.ofInt a.data.length)

end TensorKit.Sparsity

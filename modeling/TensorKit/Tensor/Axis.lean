import TensorKit.Tensor.Basic
/-!
Tensors along one axis.

Two tensors whose sizes agree on all other axes are pasted along an axis, and a tensor is cut along an axis at
given positions.  Elements are selected by positions on every axis.
-/

namespace TensorKit.Tensor

variable {α : Type}

def around (shape : List Nat) (axis : Nat) : Nat × Nat := (volume (shape.take axis), volume (shape.drop (axis + 1)))

def joinRows : List (List α) → List (List α) → List α
  | a :: as, b :: bs => a ++ b ++ joinRows as bs
  | _, _ => []

def paste (axis : Nat) (a b : Tensor α) : Tensor α :=
  let (before, after) := around a.shape axis
  let n := a.shape[axis]?.getD 0
  let m := b.shape[axis]?.getD 0
  ⟨a.shape.set axis (n + m), joinRows (rowsOf (n * after) before a.data) (rowsOf (m * after) before b.data)⟩

/-- The part of a tensor from `lo` on and below `hi` along an axis; both are at most the size. -/
def part (axis lo hi : Nat) (t : Tensor α) : Tensor α :=
  let (before, after) := around t.shape axis
  let n := t.shape[axis]?.getD 0
  ⟨t.shape.set axis (hi - lo), (rowsOf (n * after) before t.data).flatMap fun row =>
    (row.drop (lo * after)).take ((hi - lo) * after)⟩

def cutFrom (axis lo : Nat) (t : Tensor α) : List Nat → List (Tensor α)
  | [] => [t.part axis (Nat.min lo (t.shape[axis]?.getD 0)) (t.shape[axis]?.getD 0)]
  | c :: cs =>
    let n := t.shape[axis]?.getD 0
    t.part axis (Nat.min lo n) (Nat.min c n) :: cutFrom axis c t cs

def cut (axis : Nat) (cs : List Nat) (t : Tensor α) : List (Tensor α) := cutFrom axis 0 t cs

def cutAll (axis : Nat) : List (List Nat) → Tensor α → List (Tensor α)
  | [], t => [t]
  | cs :: rest, t => (t.cut axis cs).flatMap (cutAll (axis + 1) rest)

/-- All choices of one position from each of some lists, the last one changing fastest. -/
def choices : List (List Nat) → List (List Nat)
  | [] => [[]]
  | ps :: rest => ps.flatMap fun p => (choices rest).map (p :: ·)

def select (ps : List (List Nat)) (t : Tensor α) : List α := (choices ps).filterMap t.get?

end TensorKit.Tensor

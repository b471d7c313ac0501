/-!
Tensors: the lengths of the axes and the elements in row-major order.

The last axis runs fastest.  A position is a list of coordinates, one for each axis; `linear` sends a
position to its place in the list of elements and `position` goes back.
-/

namespace TensorKit

structure Tensor (α : Type) where
  /-- the lengths of the axes -/
  shape : List Nat
  /-- the elements in row-major order -/
  data : List α

namespace Tensor

def volume : List Nat → Nat
  | [] => 1
  | n :: ns => n * volume ns

def linear : List Nat → List Nat → Nat
  | _ :: ns, i :: is => i * volume ns + linear ns is
  | _, _ => 0

def position : List Nat → Nat → List Nat
  | [], _ => []
  | _ :: ns, k => k / volume ns :: position ns (k % volume ns)

def positions : List Nat → List (List Nat)
  | [] => [[]]
  | n :: ns => (List.range n).flatMap fun i => (positions ns).map (i :: ·)

variable {α β : Type}

def get? (t : Tensor α) (p : List Nat) : Option α := t.data[linear t.shape p]?

/-- The tensor with a shape whose elements are given by their positions. -/
def generate (shape : List Nat) (f : List Nat → α) : Tensor α := ⟨shape, (positions shape).map f⟩

def map (f : α → β) (t : Tensor α) : Tensor β := ⟨t.shape, t.data.map f⟩

def rank (t : Tensor α) : Nat := t.shape.length

def rowsOf (width : Nat) : Nat → List α → List (List α)
  | 0, _ => []
  | n + 1, xs => xs.take width :: rowsOf width n (xs.drop width)

def parts (t : Tensor α) : List (Tensor α) :=
  match t.shape with
  | [] => []
  | n :: ns => (rowsOf (volume ns) n t.data).map fun xs => ⟨ns, xs⟩

end Tensor

end TensorKit

import TensorKit.Value.Document
import TensorKit.Value.Elementwise
/-!
Arrays made of data, and positions in data.

A list of numbers becomes an array with one axis, a list of arrays of one shape an array with one axis more.
The element type is the smallest that holds all elements; numbers next to texts become texts.
-/

namespace TensorKit

/-! ## 1. Element types of texts -/

def ElementType.texts (n : Nat) : ElementType := .other s!"<U{n}"

/-- How many characters a number of this type may have, or the width of a text type. -/
def ElementType.textWidth : ElementType → Nat
  | bool => 5
  | other n => ((String.ofList (n.toList.drop 2)).toNat?).getD 0
  | t => if t.isFloat then 32 else 21

def ElementType.isText : ElementType → Bool
  | other n => "<U".toList.isPrefixOf n.toList
  | _ => false

/-- The smallest element type that holds the elements of both, texts included. -/
def ElementType.joinAll (a b : ElementType) : ElementType :=
  if a.isText || b.isText then .texts (Nat.max a.textWidth b.textWidth) else a.join b

def ElementType.convertAll (t : ElementType) (s : Scalar) : Scalar :=
  if t.isText then match s with
    | .text x => .text x
    | s => .text (Value.scalarText s)
  else t.convert s

namespace NdArray

/-! ## 2. Arrays of arrays -/

def as (t : ElementType) (a : NdArray) : NdArray := ⟨a.toTensor.map t.convertAll, t⟩

/-- The element type that holds the elements of all arrays; floating if there are none. -/
def commonType : List NdArray → ElementType
  | [] => .float64
  | a :: as => as.foldl (fun t b => t.joinAll b.type) a.type

/-- Arrays of one shape as the parts of an array with one axis more. -/
def stack : List NdArray → Fallible NdArray
  | [] => .ok ⟨⟨[0], []⟩, .float64⟩
  | a :: as =>
    if as.all fun b => b.shape == a.shape then
      let t := commonType (a :: as)
      .ok ⟨⟨(as.length + 1) :: a.shape, (a :: as).flatMap fun b => b.data.map t.convertAll⟩, t⟩
    else .error .value

mutual

def ofValue : Value → Fallible NdArray
  | .bool b => .ok (single .bool (.bool b))
  | .int i => .ok (single .int64 (.int i))
  | .float x => .ok (single .float64 (.float x))
  | .str s => .ok (single (.texts s.length) (.text s))
  | .array a => .ok a
  | .list xs | .tuple xs | .labelled _ xs => do stack (← ofValues xs)
  | _ => .error .type

def ofValues : List Value → Fallible (List NdArray)
  | [] => .ok []
  | x :: xs => do return (← ofValue x) :: (← ofValues xs)

end

/-- The sum of all elements, an array with no axes.  Whole numbers and truth values are summed as long whole
numbers, floating numbers in their own type. -/
def total (a : NdArray) : NdArray :=
  if a.type.isFloat then
    single a.type (.float (a.data.foldl (fun x s => a.type.round (x + s.toFloat)) 0.0))
  else single .int64 (.int (a.data.foldl (fun i s => match s.quantity with
    | .whole j => i + j
    | .real _ => i) 0))

def zeros (a : NdArray) : NdArray := ⟨a.toTensor.map fun _ => a.type.convert (.int 0), a.type⟩

def toData (a : NdArray) : Value :=
  match a.shape, a.data with
  | [], [s] => .ofScalar s
  | _, _ => .array a

end NdArray

instance : ToValue NdArray := ⟨Value.array⟩

namespace Value

/-! ## 3. Positions -/

/-- The item at a position; negative positions count from the end. -/
def itemAt {α : Type} (xs : List α) (i : Int) : Option α :=
  let j := if i < 0 then i + xs.length else i
  if 0 ≤ j then xs[j.toNat]? else none

def isKey : Value → Bool
  | list _ | dict _ | set _ | array _ => false
  | _ => true

/-- The item of a sequence at a position, or the value of a table under a key. -/
def at? (v i : Value) : Fallible Value :=
  match v with
  | dict ps => if !i.isKey then .error .type else demand .key (lookup i ps)
  | list _ | tuple _ | labelled _ _ | str _ | bytes _ => match i.int?, v.members with
    | some n, .ok xs => demand .index (itemAt xs n)
    | _, _ => .error .type
  | array _ => match i.int?, v.members with
    | some n, .ok xs => demand .index (itemAt xs n)
    | _, _ => .error .index
  | _ => .error .type

end Value

end TensorKit

import TensorKit.Value.Basic
/-!
Operations on arrays, element by element.

Two arrays are combined along their last axes: lengths must agree, or one of them is one and is repeated.
A number is combined with every element and takes over the precision of the array.  The result of a sum,
difference or product has the larger of the two element types, a quotient is always floating.
-/

namespace TensorKit

namespace Scalar

/-- An element as a number; truth values count as zero and one. -/
def quantity : Scalar → Quantity
  | bool b => .whole (if b then 1 else 0)
  | int i => .whole i
  | float x => .real x
  | text _ => .whole 0

def toFloat (s : Scalar) : Float :=
  match s.quantity with
  | .whole i => Number.ofInt i
  | .real x => x

def truthy : Scalar → Bool
  | bool b => b
  | int i => i != 0
  | float x => !(x == 0.0)
  | text s => !s.isEmpty

end Scalar

variable (t : ElementType)

namespace ElementType

def round (x : Float) : Float :=
  if t = float32 then x.toFloat32.toFloat else x

/-- The number of bits of a whole number type, and whether it has negative numbers. -/
def width? : ElementType → Option (Nat × Bool)
  | int8 => some (8, true) | int16 => some (16, true) | int32 => some (32, true) | int64 => some (64, true)
  | uint8 => some (8, false) | uint16 => some (16, false) | uint32 => some (32, false)
  | uint64 => some (64, false)
  | _ => none

def wrap (i : Int) : Int :=
  match t.width? with
  | some (n, true) => i.bmod (Nat.pow 2 n)
  | some (n, false) => i.emod (Int.pow 2 n)
  | none => i

def convert (s : Scalar) : Scalar :=
  match t with
  | bool => .bool s.truthy
  | float16 | float32 | float64 => .float (t.round s.toFloat)
  | other _ => s
  | _ => match s with
    | .float x => .int (t.wrap ((Number.truncate? x).getD 0))
    | s => match s.quantity with
      | .whole i => .int (t.wrap i)
      | .real _ => s

def join (a b : ElementType) : ElementType :=
  if a = b then a
  else if a = bool then b
  else if b = bool then a
  else if a.isFloat || b.isFloat then
    if a = float32 && (b = int8 || b = int16 || b = uint8 || b = uint16 || b = float16) then float32
    else if b = float32 && (a = int8 || a = int16 || a = uint8 || a = uint16 || a = float16) then float32
    else float64
  else match a.width?, b.width? with
    | some (n, s), some (m, r) =>
      if s == r then if n < m then b else a
      else
        let (signed, unsigned) := if s then (n, m) else (m, n)
        if unsigned < signed then (if s then a else b)
        else if unsigned = 8 then int16 else if unsigned = 16 then int32
        else if unsigned = 32 then int64 else float64
    | _, _ => a

/-- The classes of element types in the order in which results can replace elements: truth values, whole numbers without
and with negative ones, floating numbers. -/
def order : ElementType → Nat
  | bool => 0
  | uint8 | uint16 | uint32 | uint64 => 1
  | int8 | int16 | int32 | int64 => 2
  | float16 | float32 | float64 => 3
  | other _ => 4

end ElementType

namespace NdArray

/-- The shape that two shapes are repeated to, last axes first; `none` if their lengths do not agree. -/
def commonReversed : List Nat → List Nat → Option (List Nat)
  | [], ns => some ns
  | ms, [] => some ms
  | m :: ms, n :: ns =>
    if m = n then (commonReversed ms ns).map (m :: ·)
    else if m = 1 then (commonReversed ms ns).map (n :: ·)
    else if n = 1 then (commonReversed ms ns).map (m :: ·)
    else none

def commonShape? (a b : List Nat) : Option (List Nat) :=
  (commonReversed a.reverse b.reverse).map List.reverse

/-- The element of an array that is repeated at a position of a larger shape. -/
def repeated (a : NdArray) (p : List Nat) : Scalar :=
  let p := p.drop (p.length - a.shape.length)
  let p := (a.shape.zip p).map fun (n, i) => if n = 1 then 0 else i
  (a.toTensor.get? p).getD (.int 0)

def single (s : Scalar) : NdArray := ⟨⟨[], [s]⟩, t⟩

/-- The array a number is combined as, next to an array with elements of type `t`. -/
def ofQuantity : Quantity → NdArray
  | .whole i => single (if t = .bool then .int64 else t) (if t.isFloat then .float (Number.ofInt i) else .int i)
  | .real x => single (if t.isFloat then t else .float64) (.float x)

def combine (f : Scalar → Scalar → Scalar) (t : ElementType) (a b : NdArray) : Fallible NdArray :=
  match commonShape? a.shape b.shape with
  | none => .error .value
  | some shape => .ok ⟨Tensor.generate shape fun p => f (a.repeated p) (b.repeated p), t⟩

/-- Combine numbers by an operation on whole and one on floating numbers, in the larger element type. -/
def arithmetic (f : Int → Int → Int) (g : Float → Float → Float) (a b : NdArray) : Fallible NdArray :=
  let t := a.type.join b.type
  combine (fun x y =>
    if t.isFloat then .float (t.round (g x.toFloat y.toFloat))
    else match x.quantity, y.quantity with
      | .whole i, .whole j => t.convert (.int (f i j))
      | _, _ => .float (g x.toFloat y.toFloat)) t a b

def quotient (a b : NdArray) : Fallible NdArray :=
  let t := a.type.join b.type
  let t := if t.isFloat then t else .float64
  combine (fun x y => .float (t.round (x.toFloat / y.toFloat))) t a b

def comparison (f : Quantity → Quantity → Bool) (a b : NdArray) : Fallible NdArray :=
  combine (fun x y => .bool (f x.quantity y.quantity)) .bool a b

def truth (a : NdArray) : Fallible Bool :=
  match a.data with
  | [] => .ok false
  | [s] => .ok s.truthy
  | _ => .error .value

end NdArray

end TensorKit

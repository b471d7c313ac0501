import TensorKit.Position
import TensorKit.Value.Document
/-!
Coordinates in a mesh.

The processes of a mesh are numbered in row-major order: the last axis runs fastest.  `position` gives the
coordinates of a number, `linear` the number of coordinates.  A communication group holds the processes whose
coordinates differ from those of a process only on one axis.
-/

namespace TensorKit.Distributed.Coordinate

open Position

inductive Error where
  | fault (kind : FailureKind)
  | notMember (rank : Int) (processes : List Int)
  | lengths (shape coordinate : List Int)
  | below (axis : Nat) (coordinate : List Int)
  | beyond (axis : Nat) (shape coordinate : List Int)
  | negative (number : Int)
  | outside (shape : List Int) (number : Int)

def listText (xs : List Int) : String := (toValue xs).shown

def Error.message : Error → Option String
  | fault _ => none
  | notMember r ps => some s!"rank [{r}] is NOT in processes group {listText ps}"
  | lengths s c => some ("coordinate should have the same size as mesh shape, but got " ++
      s!"shape: {listText s}, coordinate: {listText c}")
  | below i c => some s!"index in dimension [{i}] is least than zero. coordinate: {listText c}"
  | beyond i s c => some s!"index beyond extent in dimension [{i}]. shape: {listText s}, coordinate: {listText c}"
  | negative n => some s!"linear index [{n}] is least than zero"
  | outside s n => some s!"linear index beyond the extent of mesh shape. shape: {listText s}, linear index: {n}"

def Error.kind : Error → FailureKind
  | fault k => k
  | _ => .assertion

instance : Faulty Error := { kind := Error.kind, message := Error.message, fault := .fault }

def digits : List Int → Int → List Int
  | [], _ => []
  | s :: ss, n => n / product ss % s :: digits ss n

def position (shape : List Int) (n : Int) : Except Error (List Int) :=
  if n < 0 then .error (.negative n)
  else if product shape ≤ n then .error (.outside shape n)
  else .ok (digits shape n)

def number : List Int → List Int → Int
  | _ :: ss, c :: cs => c * product ss + number ss cs
  | _, _ => 0

def checkFrom (shape coordinate : List Int) (axis : Nat) : List Int → List Int → Except Error Unit
  | s :: ss, c :: cs =>
    if c < 0 then .error (.below axis coordinate)
    else if s ≤ c then .error (.beyond axis shape coordinate)
    else checkFrom shape coordinate (axis + 1) ss cs
  | _, _ => .ok ()

/-- The process number of coordinates in a mesh, which has at least one axis. -/
def linear (shape coordinate : List Int) : Except Error Int := do
  if shape.length ≠ coordinate.length then .error (.lengths shape coordinate)
  checkFrom shape coordinate 0 shape coordinate
  if shape.isEmpty then .error (.fault .index)
  return number shape coordinate

/-- The processes that differ from a process only on one axis, in increasing order. -/
def group (processes shape : List Int) (axis rank : Int) : Except Error (List Int) := do
  if !processes.contains rank then .error (.notMember rank processes)
  let c ← position shape (← find rank processes)
  let extent ← pick shape axis
  let numbers ← (List.range extent.toNat).mapM fun (i : Nat) => do linear shape (← put c axis i)
  let members ← numbers.mapM fun n => show Except Error Int from do return ← pick processes n
  return sorted members

def onAxis (processes shape : List Int) (axis rank : Int) : Except Error Int := do
  let c ← position shape (← find rank processes)
  return ← pick c axis

end TensorKit.Distributed.Coordinate

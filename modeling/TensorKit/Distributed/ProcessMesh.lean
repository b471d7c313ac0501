import TensorKit.Value.Marked
import TensorKit.Distributed.Coordinate
import TensorKit.Distributed.Mapping
import TensorKit.Tensor.Axis
import TensorKit.Value.Arithmetic
import TensorKit.Value.Array
/-!
Meshes of processes.

A mesh arranges distinct process numbers in an array and gives a name to each of its axes.  Parts of a mesh are
meshes again.  A specification says, for each axis of a tensor, the name of the mesh axis that splits it, or null; it
stands for a mapping of tensor axes to mesh axes.
-/

namespace TensorKit.Distributed

structure ProcessMesh where
  shape : List Nat
  ids : List Int
  /-- the names of the axes, as they were given -/
  names : Value
  /-- do truth values stand for the numbers? -/
  truths : Bool := false

variable (m : ProcessMesh)

namespace ProcessMesh

open Position

/-! ## 1. Causes of failure -/

inductive Error where
  | fault (kind : FailureKind)
  | notArray
  | notWhole
  | negative
  | repeated
  | nameCount
  | nameRepeated (names : Value)
  | coordinate (e : Coordinate.Error)

def Error.message : Error → Option String
  | fault _ => none
  | notArray => some "The mesh must be an instance of list or np.ndarray."
  | notWhole => some "All elements of the mesh must be integer"
  | negative => some "All elements of the mesh must be >= 0."
  | repeated => some "All elements of the mesh must be unique."
  | nameCount => some "The length of dims_names must be same as the shape of the mesh."
  | nameRepeated names => some s!"All dim_names {names.plain} must be unique."
  | coordinate e => e.message

def Error.kind : Error → FailureKind
  | fault k => k
  | notArray => .value
  | coordinate e => e.kind
  | _ => .assertion

instance : Faulty Error := { kind := Error.kind, message := Error.message, fault := .fault }

instance : MonadLift (Except Coordinate.Error) (Except Error) := ⟨Except.mapError .coordinate⟩

/-! ## 2. Making meshes -/

def allDistinct {α : Type} (same : α → α → Bool) : List α → Bool
  | [] => true
  | x :: xs => !xs.any (same x) && allDistinct same xs

def usualNames (rank : Nat) : Value := .list ((List.range rank).map fun i => .str s!"d{i}")

def ofTensor (t : Tensor Int) (names : Value) (truths : Bool) : Except Error ProcessMesh := do
  if t.data.isEmpty then .error (.fault .value)
  if t.data.any (· < 0) then .error .negative
  if !allDistinct (· == ·) t.data then .error .repeated
  let names' ← match names with
    | .null => pure (usualNames t.rank)
    | v => do
      if (← v.size) ≠ t.rank then .error .nameCount
      pure v
  if !allDistinct Value.same (← names'.members) then .error (.nameRepeated names)
  return ⟨t.shape, t.data, names', truths⟩

mutual

def leaves : Value → List Value
  | .list xs => leavesOf xs
  | v => [v]

def leavesOf : List Value → List Value
  | [] => []
  | x :: xs => leaves x ++ leavesOf xs

end

def wholesOf (a : NdArray) : Except Error (List Int) :=
  a.data.mapM fun
    | .int i => .ok i
    | .bool b => .ok (if b then 1 else 0)
    | _ => .error .notWhole

/-- Process numbers from data: nested lists or an array. -/
def numbersOf (v : Value) : Except Error (Tensor Int × Bool) := do
  match v with
  | .array a => return (⟨a.shape, ← wholesOf a⟩, a.type = .bool)
  | v =>
    match NdArray.ofValue v with
    | .error .type => .error .notWhole
    | .error k => .error (.fault k)
    | .ok a =>
      match (leaves v).mapM Value.int? with
      | some is =>
        if is.length = a.data.length then return (⟨a.shape, is⟩, a.type = .bool)
        else return (⟨a.shape, ← wholesOf a⟩, a.type = .bool)
      | none =>
        if a.data.isEmpty then return (⟨a.shape, []⟩, false)
        return (⟨a.shape, ← wholesOf a⟩, a.type = .bool)

/-- Sizes for so many elements; one of them may be left open as -1. -/
def sizesFor (n : Nat) (sizes : List Int) : Fallible (List Nat) :=
  let known := product (sizes.filter (· != -1))
  if sizes.any (· < -1) || 1 < sizes.count (-1) then .error .value
  else if sizes.contains (-1) then
    if known = 0 || (n : Int) % known ≠ 0 then .error .value
    else .ok (sizes.map fun s => if s = -1 then ((n : Int) / known).toNat else s.toNat)
  else if known = n then .ok (sizes.map Int.toNat)
  else .error .value

/-- Whole numbers from a number or a sequence. -/
def sizeList (v : Value) : Fallible (List Int) :=
  match v.int? with
  | some i => .ok [i]
  | none => do (← v.members).mapM fun x => demand .type x.int?

def make (mesh names sizes ids : Value) : Except Error ProcessMesh := do
  match mesh with
  | .null =>
    if let .null := sizes then .error (.fault .assertion)
    if let .null := ids then .error (.fault .assertion)
    let (t, truths) ← numbersOf ids
    ofTensor ⟨← sizesFor t.data.length (← sizeList sizes), t.data⟩ names truths
  | .list _ | .array _ =>
    let (t, truths) ← numbersOf mesh
    ofTensor t names truths
  | _ => .error .notArray

def tensor : Tensor Int := ⟨m.shape, m.ids⟩

def idValues : List Value :=
  m.ids.map fun i => if m.truths then .bool (i != 0) else .int i

def sizes : List Int := m.shape.map Int.ofNat

def text : String :=
  s!"shape {(toValue m.shape).shown}, process_ids {(Value.list m.idValues).shown}, dim_nams {m.names.plain}"

def document : Value :=
  .record [("shape", toValue m.shape), ("ids", (Value.list m.idValues).marked), ("dims", m.names.marked),
    ("ndim", toValue m.shape.length), ("str", .str m.text)]

def same (a b : ProcessMesh) : Bool := a.shape == b.shape && a.ids == b.ids

/-! ## 3. Parts -/

inductive Selector where
  | one (i : Int)
  | range (start stop step : Option Int)

inductive Index where
  | axis (s : Selector)
  | axes (ss : List Selector)
  | rows (is : List Int)
  | none

/-- The selector that a description stands for: a position, or a range in the field `slice`. -/
def Selector.ofValue (v : Value) : Selector :=
  match (v.part "slice").items with
  | [a, b, c] => range a.int? b.int? c.int?
  | _ => one (v.int?.getD 0)

/-- What a description takes of a mesh: a selector, several of them in the field `t`, or a list of rows. -/
def Index.ofValue (v : Value) : Index :=
  match v.field? "t", v with
  | some ss, _ => axes (ss.items.map Selector.ofValue)
  | _, .list is => rows (is.filterMap Value.int?)
  | _, .null => none
  | _, v => axis (Selector.ofValue v)

def Selector.positions (n : Nat) : Selector → Fallible (List Nat × Bool)
  | one i => do return ([← place n i], false)
  | range a b c => do return (← Position.range n a b c, true)

/-- The positions on all axes; axes without a selector are taken whole. -/
def selection : List Nat → List Selector → Fallible (List (List Nat × Bool))
  | ns, [] => .ok (ns.map fun n => (List.range n, true))
  | [], _ :: _ => .error .index
  | n :: ns, s :: ss => do return (← s.positions n) :: (← selection ns ss)

def selected (ss : List Selector) : Fallible (Tensor Int) := do
  let ps ← selection m.shape ss
  return ⟨ps.filterMap fun p => if p.2 then some p.1.length else none, m.tensor.select (ps.map Prod.fst)⟩

def keptNames (names : List Value) : Nat → List Selector → Fallible (List Value)
  | _, [] => .ok []
  | i, .one _ :: ss => keptNames names (i + 1) ss
  | i, .range _ _ _ :: ss => do return (← pick names i) :: (← keptNames names (i + 1) ss)

def laterNames : Value → Value
  | .list xs => .list xs.tail
  | .tuple xs | .labelled _ xs => .tuple xs.tail
  | .str s => .str (.ofList s.toList.tail)
  | v => v

/-- A part of a mesh.  One position of a mesh with one axis is no mesh. -/
def part (i : Index) : Except Error ProcessMesh := do
  match i with
  | .axes ss =>
    let names ← keptNames (← m.names.members) 0 ss
    let t ← m.selected ss
    if t.shape.isEmpty then ofTensor ⟨[1], t.data⟩ .null m.truths
    else ofTensor t (.list names) m.truths
  | .axis (.range a b c) => ofTensor (← m.selected [.range a b c]) m.names m.truths
  | .axis (.one i) =>
    let t ← m.selected [.one i]
    if t.shape.isEmpty then .error .notArray
    ofTensor t (laterNames m.names) m.truths
  | .rows is =>
    let n ← pick m.shape 0
    let _ ← (is.mapM (place n) : Fallible (List Nat))
    .error .nameCount
  | .none => .error .nameCount

/-! ## 4. Mappings and specifications -/

/-- Is it a mapping to the axes of a mesh, each used at most once? -/
def acceptsMapping (mapping : Value) : Fallible Bool :=
  match mapping with
  | .null => .ok false
  | v => do
    match (← v.members).mapM Value.int? with
    | none => return false
    | some es => return (es.all fun e => decide (-1 ≤ e) && decide (e < m.shape.length)) &&
        (List.range m.shape.length).all fun (i : Nat) => es.count (i : Int) ≤ 1

/-- The mapping of a specification.  A mesh axis with one process splits nothing. -/
def mappingOf (spec : List Value) : Fallible (List Int) := do
  let names ← m.names.members
  spec.mapM fun
    | .null => .ok (-1)
    | name => match names.findIdx? (Value.same name) with
      | none => .error .value
      | some i => do return if (← pick m.shape i) = 1 then -1 else i

def specOf (mapping : List Int) : Fallible (List Value) := do
  let names ← m.names.members
  mapping.mapM fun e => if e = -1 then .ok .null else pick names e

/-- Is a specification one for tensors of some sizes?  Sizes that are not known, or zero, are split in any way. -/
def acceptsSpec (spec : List Value) (sizes : List Int) : Fallible Bool := do
  let names ← m.names.members
  if spec.length ≠ sizes.length then return false
  let named := spec.all fun
    | .null => true
    | .str s => names.any (Value.same (.str s))
    | _ => false
  if !named then return false
  let mapping ← m.mappingOf spec
  if !(← m.acceptsMapping (toValue mapping)) then return false
  let fits ← (mapping.zip sizes).mapM fun (e, n) => show Fallible Bool from do
    if e = -1 || n ≤ 0 then return true else return n % ((← pick m.shape e : Nat) : Int) == 0
  return fits.all id

/-- The mesh that some meshes agree on; null agrees with every mesh. -/
def common? : List (Option ProcessMesh) → Option ProcessMesh
  | [] => none
  | none :: ms => common? ms
  | some m :: ms => agree m ms
where
  /-- the last of some meshes that are all equal to one -/
  agree (m : ProcessMesh) : List (Option ProcessMesh) → Option ProcessMesh
    | [] => some m
    | none :: ms => agree m ms
    | some n :: ms => if same m n then agree n ms else none

/-- The process of a mesh that stands where a rank stands in the first of some meshes with the same sizes; the first
process if there is no such mesh. -/
def counterpart (meshes : List ProcessMesh) (target : ProcessMesh) (rank : Int) : Except Error Int := do
  match meshes.find? fun m => m.ids.contains rank && m.shape == target.shape with
  | some m =>
    let c ← Coordinate.position m.sizes (← find rank m.ids)
    return ← pick target.ids (← Coordinate.linear m.sizes c)
  | none => return ← pick target.ids 0

end ProcessMesh

end TensorKit.Distributed

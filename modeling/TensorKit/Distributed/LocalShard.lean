import TensorKit.Distributed.Coordinate
import TensorKit.Distributed.Mapping
/-!
The part of a tensor that one process holds: sizes and offsets.

The data that comes in is checked first; only even splitting is supported.
-/

namespace TensorKit.Distributed.LocalShard

open Position

/-! ## 1. Causes of failure -/

inductive Error where
  | fault (kind : FailureKind)
  | sizes (v : Value)
  | mapping (v : Value)
  | processes (v : Value)
  | topology (v : Value)
  | rank (v : Value)
  | uneven
  | coordinate (e : Coordinate.Error)

def Error.message : Error → Option String
  | fault _ => none
  | sizes v => some ("The sizes must be list or tuple and item in sizes must be non-negative integer, but got " ++
      v.plain)
  | mapping v => some s!"The dims_mapping must be list or tuple and item in dims_mapping must >= -1, but got {v.plain}"
  | processes v =>
    some s!"The processes must be list or tuple and item in processes must be integer, but got {v.plain}"
  | topology v => some ("The topology must be list or tuple and item in topology must be non-negative integer, " ++
      s!"but got {v.plain}")
  | rank v => some s!"The rank must >= 0, but got {v.plain}"
  | uneven => some "Only support even sharding now."
  | coordinate e => e.message

def Error.kind : Error → FailureKind
  | fault k => k
  | coordinate e => e.kind
  | _ => .value

instance : Faulty Error := { kind := Error.kind, message := Error.message, fault := .fault }

instance : MonadLift (Except Coordinate.Error) (Except Error) := ⟨Except.mapError .coordinate⟩

/-! ## 2. The rules -/

/-- The sizes of the part that each process holds; tensor axes without an entry are not split. -/
def sizesOf (topology sizes mapping : List Int) : Fallible (List Int) := do
  return (← Mapping.eachAxis id floorDiv topology (sizes.take mapping.length) mapping) ++ sizes.drop mapping.length

/-- The first position of a part on each axis; here every tensor axis has an entry. -/
def offsetsOf (coordinate : List Int) : List Int → List Int → Fallible (List Int) :=
  Mapping.eachAxis (fun _ => 0) (fun n i => .ok (i * n)) coordinate

def globalSizesOf (topology : List Int) : List Int → List Int → Fallible (List Int) :=
  Mapping.eachAxis id (fun n s => .ok (n * s)) topology

def offsets (sizes mapping topology processes : List Int) (rank : Int) : Except Error (List Int) := do
  let part ← sizesOf topology sizes mapping
  let coordinate ← Coordinate.position topology (← find rank processes)
  return ← offsetsOf coordinate part mapping

/-- The part of a process: the first position on each axis and the first one after it. -/
def shard (sizes mapping topology processes : List Int) (rank : Int) : Except Error (List (Int × Int)) := do
  let starts ← offsets sizes mapping topology processes rank
  let part ← sizesOf topology sizes mapping
  return (starts.zip part).map fun (o, n) => (o, o + n)

/-! ## 3. Checked data -/

/-- The members of a list or tuple, if all are whole numbers not below a bound. -/
def wholes? (least : Int) : Value → Option (List Int)
  | .list xs | .tuple xs | .labelled _ xs => xs.mapM fun v => match v.int? with
    | some i => if least ≤ i then some i else none
    | none => none
  | _ => none

structure Checked where
  sizes : List Int
  mapping : List Int
  topology : List Int
  processes : List Int

variable (sizes mapping topology processes : Value)

def check (rank uneven : Value) : Except Error Checked := do
  let some s := wholes? 0 sizes | .error (.sizes sizes)
  let some m := wholes? (-1) mapping | .error (.mapping mapping)
  let some p := wholes? 0 processes | .error (.processes processes)
  let some t := wholes? 1 topology | .error (.topology topology)
  match rank with
  | .null => pure ()
  | r => match r.int? with
    | some i => if i < 0 then .error (.rank r)
    | none => .error (.rank r)
  match uneven with
  | .null => pure ()
  | _ => .error .uneven
  return ⟨s, m, t, p⟩

/-- The process that is meant; without one there is no coordinate. -/
def rankOf (v : Value) : Except Error Int := demand (.fault .value) v.int?

def localSizes (rank uneven : Option Value) : Except Error (List Int) := do
  let c ← check sizes mapping topology processes (rank.getD .null) (uneven.getD .null)
  return ← sizesOf c.topology c.sizes c.mapping

def localOffsets (rank : Value) (uneven : Option Value) : Except Error (List Int) := do
  let c ← check sizes mapping topology processes rank (uneven.getD .null)
  let _ ← sizesOf c.topology c.sizes c.mapping
  offsets c.sizes c.mapping c.topology c.processes (← rankOf rank)

def globalSizes (rank uneven : Option Value) : Except Error (List Int) := do
  let c ← check sizes mapping topology processes (rank.getD .null) (uneven.getD .null)
  return ← globalSizesOf c.topology c.sizes c.mapping

def localShard (rank : Value) (uneven : Option Value) : Except Error (List (Int × Int)) := do
  let c ← check sizes mapping topology processes rank (uneven.getD .null)
  let _ ← sizesOf c.topology c.sizes c.mapping
  shard c.sizes c.mapping c.topology c.processes (← rankOf rank)

end TensorKit.Distributed.LocalShard

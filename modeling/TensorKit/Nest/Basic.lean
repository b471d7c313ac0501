import TensorKit.Value.Arithmetic
import TensorKit.Value.Document
/-!
Nested structures: flattening and packing.

A structure is built from lists, tuples, whose items may have names, byte strings and tables; every other value is a
leaf, texts too.  Flattening lists the leaves from left to right, where a table is read in the order of its sorted keys.
Packing puts a list of leaves back into the shape of a structure, and keeps the order of the keys of a table.
-/

namespace TensorKit.Nest

/-! ## 1. Causes of failure -/

/-- Why a structure cannot be flattened, packed or compared, or why a setting is refused. -/
inductive Error where
  | fault (kind : FailureKind)
  | unsortable
  | leavesClass
  | leafCount (n : Nat)
  | packLength (expected given : Nat) (structure' leaves : String)
  | elementCount (n : Nat) (first : String) (m : Nat) (second : String)
  | nesting (first second : String)
  | sequenceClass (first second : String)
  | keys (first second : String)
  | settingClass (name value : String)
  | settingLength (name n value : String)
  | settingElement (name n type value element elementType : String)
  | shapeEmpty (op : String)
  | shapeClass
  | shapeNegative
  | shapeFraction

def Error.message : Error → Option String
  | fault _ => none
  | unsortable => some "nest only supports dicts with sortable keys."
  | leavesClass => some "flat_sequence must be a sequence"
  | leafCount n => some s!"Structure is a scalar but len(flat_sequence) == {n} > 1"
  | packLength n m s f => some (s!"Could not pack sequence. Structure had {n} elements, " ++
      s!"but flat_sequence had {m} elements.  Structure: {s}, flat_sequence: {f}.")
  | elementCount n a m b => some ("The two structures don't have the same number of elements.\n\n" ++
      s!"First structure ({n} elements): {a}\n\nSecond structure ({m} elements): {b}")
  | nesting a b => some ("The two structures don't have the same nested structure.\n\n" ++
      s!"First structure: {a}\n\nSecond structure: {b}.")
  | sequenceClass a b => some ("The two structures don't have the same sequence type. " ++
      s!"First structure has type {a}, while second structure has type {b}.")
  | keys a b => some ("The two dictionaries don't have the same set of keys. " ++
      s!"First structure has keys {a}, while second structure has keys {b}.")
  | settingClass name v => some s!"The {name}'s type must be list or tuple. Received: {v}"
  | settingLength name n v => some s!"The {name}'s length must be {n}. Received: {v}"
  | settingElement name n t v e et => some (s!"The {name}'s type must be a list or tuple of {n} {t} . " ++
      s!"Received: {v} including element {e} of type {et}")
  | shapeEmpty op => some s!"The size of 'shape' in{op} can't be zero, but received 0."
  | shapeClass => some "Shape only supports Variable, or list, or tuple."
  | shapeNegative => some "All elements in ``shape`` must be positive when it's a list or tuple"
  | shapeFraction => some "All elements in ``shape`` must be integers when it's a list or tuple"

def Error.kind : Error → FailureKind
  | fault k => k
  | unsortable | leavesClass | sequenceClass _ _ | shapeClass | shapeFraction => .type
  | shapeEmpty _ => .assertion
  | _ => .value

instance : Faulty Error := { kind := Error.kind, message := Error.message, fault := .fault }

/-! ## 2. Keys in order -/

variable {α : Type}

/-- Put a pair in front of the first one with a larger key. -/
def insertKey (p : Value × α) : List (Value × α) → Except Error (List (Value × α))
  | [] => .ok [p]
  | q :: qs => match Value.less p.1 q.1 with
    | .ok true => .ok (p :: q :: qs)
    | .ok false => do return q :: (← insertKey p qs)
    | .error _ => .error .unsortable

def sortKeys (ps : List (Value × α)) : Except Error (List (Value × α)) :=
  ps.foldlM (fun sorted p => insertKey p sorted) []

/-! ## 3. Flattening -/

def isBranch : Value → Bool
  | .list _ | .tuple _ | .labelled _ _ | .bytes _ | .dict _ => true
  | _ => false

mutual

def leaves : Value → Except Error (List Value)
  | .list xs | .tuple xs | .labelled _ xs => leavesList xs
  | .bytes bs => .ok (bs.map fun b => .int b.toNat)
  | .dict ps => do
    let parts ← leavesPairs ps
    return ((← sortKeys parts).map Prod.snd).flatten
  | v => .ok [v]

def leavesList : List Value → Except Error (List Value)
  | [] => .ok []
  | x :: xs => do return (← leaves x) ++ (← leavesList xs)

def leavesPairs : Pairs → Except Error (List (Value × List Value))
  | [] => .ok []
  | p :: ps => do return (← leavesPair p) :: (← leavesPairs ps)

def leavesPair : Value × Value → Except Error (Value × List Value)
  | (k, v) => do return (k, ← leaves v)

end

/-- The leaves of a value as a list; a leaf alone is a list of one. -/
def flatten (v : Value) : Except Error (List Value) := leaves v

/-- A structure as it is, a leaf as a list of one. -/
def toSequence (v : Value) : Value := if isBranch v then v else .list [v]

/-! ## 4. Packing -/

mutual

def count : Value → Nat
  | .list xs | .tuple xs | .labelled _ xs => countList xs
  | .bytes bs => bs.length
  | .dict ps => countPairs ps
  | _ => 1

def countList : List Value → Nat
  | [] => 0
  | x :: xs => count x + countList xs

def countPairs : Pairs → Nat
  | [] => 0
  | p :: ps => countPair p + countPairs ps

def countPair : Value × Value → Nat
  | (_, v) => count v

end

/-- The leaves before those of a key, when keys are taken in order: the leaves under all smaller keys. -/
def leavesBefore (k : Value) : Pairs → Except Error Nat
  | [] => .ok 0
  | p :: ps => do
    let rest ← leavesBefore k ps
    if Value.same p.1 k then return rest
    match Value.less p.1 k with
    | .ok true => return countPair p + rest
    | .ok false => return rest
    | .error _ => .error .unsortable

/-- A byte string of whole numbers below 256. -/
def toBytes : List Value → Except Error (List UInt8)
  | [] => .ok []
  | v :: vs => match v.int? with
    | some i =>
      if 0 ≤ i && i < 256 then do return i.toNat.toUInt8 :: (← toBytes vs) else .error (.fault .value)
    | none => .error (.fault .type)

mutual

def packFrom (leaf : Nat → Except Error Value) (i : Nat) : Value → Except Error Value
  | .list xs => do return .list (← packList leaf i xs)
  | .tuple xs => do return .tuple (← packList leaf i xs)
  | .labelled kind xs => do return ← kind.make (← packList leaf i xs)
  | .bytes bs => do
    let vs ← (List.range bs.length).mapM fun j => leaf (i + j)
    return .bytes (← toBytes vs)
  | .dict ps => do return .dict (← packPairs leaf i ps ps)
  | _ => leaf i

def packList (leaf : Nat → Except Error Value) (i : Nat) : List Value → Except Error (List Value)
  | [] => .ok []
  | x :: xs => do
    let y ← packFrom leaf i x
    return y :: (← packList leaf (i + count x) xs)

def packPairs (leaf : Nat → Except Error Value) (i : Nat) (all : Pairs) :
    Pairs → Except Error Pairs
  | [] => .ok []
  | p :: ps => do
    let before ← leavesBefore p.1 all
    let q ← packPair leaf (i + before) p
    return q :: (← packPairs leaf i all ps)

def packPair (leaf : Nat → Except Error Value) (i : Nat) : Value × Value → Except Error (Value × Value)
  | (k, v) => do return (k, ← packFrom leaf i v)

end

/-- The item with a number: by position in a sequence, by key in a table. -/
def leafAt (flat : Value) (i : Nat) : Except Error Value :=
  match flat with
  | .dict ps => demand (.fault .key) (Value.lookup (.int i) ps)
  | v => match v.members with
    | .ok xs => demand (.fault .index) xs[i]?
    | .error k => .error (.fault k)

def pack (shape flat : Value) : Except Error Value := do
  if !isBranch flat then .error .leavesClass
  let given ← flat.size
  if !isBranch shape then
    if given = 1 then leafAt flat 0 else .error (.leafCount given)
  else
    let expected := (← flatten shape).length
    if expected = given then packFrom (leafAt flat) 0 shape
    else .error (.packLength expected given shape.plain flat.plain)

def zipAll (xss : List (List α)) : List (List α) :=
  match xss with
  | [] => []
  | xs :: rest => (List.range (rest.foldl (fun n ys => Nat.min n ys.length) xs.length)).map fun i =>
      xss.filterMap fun ys => ys[i]?

/-- Apply a function to corresponding leaves of structures; the result has the shape of the first. -/
def map (f : List Value → Fallible Value) (structures : List Value) : Except Error Value := do
  let flats ← structures.mapM flatten
  let results ← (zipAll flats).mapM fun xs => f xs
  match structures with
  | [] => .error (.fault .index)
  | s :: _ => pack s (.list results)

/-! ## 5. Padding and copying -/

/-- A structure with its leaves taken out and put back. -/
def copy (v : Value) : Except Error Value := do pack v (.list (← flatten v))

def holdsBranch (v : Value) : Except Error Bool := do return (← v.members).any isBranch

def fillNull (filler : Value) (v : Value) : Except Error Value := do
  let fill : Value → Value
    | .null => filler
    | w => w
  if isBranch v then pack v (.list ((← flatten v).map fill)) else return fill v

/-- Two structures with every null leaf replaced. -/
def pad (a b filler : Value) : Except Error (Value × Value) := do
  return (← fillNull filler a, ← fillNull filler b)

end TensorKit.Nest

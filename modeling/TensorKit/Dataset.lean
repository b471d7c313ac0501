import TensorKit.Batch.Flat
import TensorKit.Value.Marked
/-!
Datasets.

An *indexed* dataset has a length and items; reading it from beginning to end stops at the first position past the end.
A *streamed* dataset can only be read from beginning to end.  Datasets are composed item by item, chained one after the
other, and restricted to a list of positions.
-/

namespace TensorKit

inductive Dataset where
  /-- items by position -/
  | indexed (items : List Value)
  /-- items from beginning to end -/
  | streamed (items : List Value)
  /-- a description without items -/
  | abstract'
  /-- a description of a stream without items -/
  | abstractStream
  /-- data in the place of a dataset -/
  | data (v : Value)
  | composed (of : List Dataset)
  | chained (of : List Dataset)
  | subset (of : Dataset) (indices : Value)

namespace Dataset

/-! ## 1. Causes of failure -/

inductive Error where
  | fault (kind : FailureKind)
  | undefined (operation name : String)
  | streamOnly (operation name : String)
  | empty
  | notDataset
  | streamInComposition
  | lengths
  | notStream
  deriving DecidableEq

def Error.message : Error → Option String
  | fault _ => none
  | undefined op name => some s!"'{op}' not implement in class {name}"
  | streamOnly op name => some s!"'{op}' should not be called for IterableDataset{name}"
  | empty => some "input datasets shoule not be empty"
  | notDataset => some "each input dataset should be paddle.io.Dataset"
  | streamInComposition => some "paddle.io.IterableDataset not supported"
  | lengths => some "lengths of datasets should be same"
  | notStream => some "ChainDataset only support paddle.io.IterableDataset"

def Error.kind : Error → FailureKind
  | fault k => k
  | undefined _ _ => .notImplemented
  | streamOnly _ _ => .runtime
  | _ => .assertion

instance : Faulty Error := { kind := Error.kind, message := Error.message, fault := .fault }

/-! ## 2. Reading -/

def isStream : Dataset → Bool
  | streamed _ | abstractStream | chained _ => true
  | _ => false

def length : Dataset → Except Error Nat
  | indexed xs => .ok xs.length
  | abstract' => .error (.undefined "__len__" "Dataset")
  | data v => do return ← v.size
  | composed [] => .error (.fault .index)
  | composed (d :: _) => length d
  | subset _ indices => do return ← indices.size
  | streamed _ => .error (.streamOnly "__len__" "_Iter")
  | abstractStream => .error (.streamOnly "__len__" "IterableDataset")
  | chained _ => .error (.streamOnly "__len__" "ChainDataset")

/-- The parts of an item of a composition: the items of a list or tuple, or the item itself. -/
def partsOf : Value → Except Error (List Value)
  | .null => .error (.fault .type)
  | .list xs | .tuple xs | .labelled _ xs => .ok xs
  | v => .ok [v]

mutual

def get (i : Value) : Dataset → Except Error Value
  | indexed xs => do return ← (Value.list xs).at? i
  | abstract' => .error (.undefined "__getitem__" "Dataset")
  | data v => do return ← v.at? i
  | composed ds => do return .tuple (← getAll i ds)
  | subset d indices => match indices.at? i with
    | .ok j => get j d
    | .error k => .error (.fault k)
  | streamed _ => .error (.streamOnly "__getitem__" "_Iter")
  | abstractStream => .error (.streamOnly "__getitem__" "IterableDataset")
  | chained _ => .error (.streamOnly "__getitem__" "ChainDataset")

def getAll (i : Value) : List Dataset → Except Error (List Value)
  | [] => .ok []
  | d :: ds => do
    let xs ← partsOf (← get i d)
    return xs ++ (← getAll i ds)

end

/-- The items at the positions from `i` on, up to the first position past the end. -/
def itemsFrom (d : Dataset) : Nat → Nat → Except Error (List Value)
  | 0, _ => .ok []
  | fuel + 1, i => match get (.int i) d with
    | .ok v => do return v :: (← itemsFrom d fuel (i + 1))
    | .error (.fault .index) => .ok []
    | .error e => .error e

def bound : Dataset → Nat
  | indexed xs => xs.length
  | composed (d :: _) => bound d
  | subset _ indices => match indices.members with
    | .ok xs => xs.length
    | .error _ => 0
  | _ => 0

mutual

def items : Dataset → Except Error (List Value)
  | streamed xs => .ok xs
  | abstractStream => .error (.undefined "__iter__" "IterableDataset")
  | chained ds => itemsAll ds
  | data v => do return ← v.members
  | indexed xs => itemsFrom (indexed xs) (xs.length + 1) 0
  | abstract' => itemsFrom abstract' 1 0
  | composed ds => itemsFrom (composed ds) (bound (composed ds) + 1) 0
  | subset d indices => itemsFrom (subset d indices) (bound (subset d indices) + 1) 0

def itemsAll : List Dataset → Except Error (List Value)
  | [] => .ok []
  | d :: ds => do return (← items d) ++ (← itemsAll ds)

end

/-! ## 3. Composition -/

def checkComposed : Option Dataset → List Dataset → Except Error Unit
  | _, [] => .ok ()
  | before, d :: ds => do
    if let data _ := d then .error .notDataset
    if d.isStream then .error .streamInComposition
    if let some b := before then
      if (← d.length) ≠ (← b.length) then .error .lengths
    checkComposed (some d) ds

def compose (ds : List Dataset) : Except Error Dataset := do
  if ds.isEmpty then .error .empty
  checkComposed none ds
  return composed ds

def chain (ds : List Dataset) : Except Error Dataset := do
  if ds.isEmpty then .error .empty
  if ds.all isStream then return chained ds else .error .notStream

/-! ## 4. Descriptions -/

/-- The dataset that a description of at most some depth stands for.  The field `ds` names the kind, `data` has items and
`of` the datasets it is made of; anything else is data that is no dataset. -/
def ofDescription : Nat → Value → Except Error Dataset
  | 0, v => .ok (data (v.part "value").ofMarked)
  | n + 1, v => do
    let of ← (v.part "of").items.mapM (ofDescription n)
    match (v.part "ds").textOr with
    | "map" => return indexed (v.itemsAt "data")
    | "iter" => return streamed (v.itemsAt "data")
    | "base" => return abstract'
    | "iterbase" => return abstractStream
    | "compose" => compose of
    | "chain" => chain of
    | "subset" => return subset (of.headD abstract') (v.part "indices").ofMarked
    | _ => return data (v.part "value").ofMarked

def ofValue (v : Value) : Except Error Dataset := ofDescription v.depth v

end Dataset

end TensorKit

import TensorKit.Value.Array
import TensorKit.Nest.Same
/-!
Batches: grouping samples and collating them.

`batches` groups a sequence into runs of one size.  Collating turns samples of one form into one sample whose leaves are
arrays over the batch: arrays are stacked, numbers become an array, texts stay a list, and tables and sequences are
collated field by field.
-/

namespace TensorKit.Batch

/-! ## 1. Grouping -/

/-- Group items into runs of `size`, given the items of the run that is open; a short last run is kept unless
it is to be dropped. -/
def group {α : Type} (size : Nat) (dropLast : Bool) : List α → List α → List (List α)
  | run, [] => if dropLast || run.isEmpty then [] else [run]
  | run, x :: xs =>
    let run := run ++ [x]
    if run.length = size then run :: group size dropLast [] xs else group size dropLast run xs

def batches {α : Type} (size : Nat) (dropLast : Bool) (xs : List α) : List (List α) :=
  group size dropLast [] xs

def batchCount (size : Nat) (dropLast : Bool) (n : Nat) : Nat :=
  (n + (if dropLast then 0 else size - 1)) / size

/-! ## 2. Collating -/

inductive Error where
  | fault (kind : FailureKind)
  | fieldCount
  | sampleClass (name : String)
  | flatClass (name : String)
  | leavesClass
  | invalid (text : String)
  | usedTwice
  | incomplete

instance : Faulty Error where
  fault := .fault
  kind
    | .fault k => k
    | .fieldCount => .runtime
    | .sampleClass _ | .flatClass _ => .type
    | _ => .assertion
  message
    | .fault _ => none
    | .fieldCount => some "fileds number not same among samples in a batch"
    | .sampleClass c => some ("batch data con only contains: tensor, numpy.ndarray, dict, list, number, " ++
        s!"but got {c}")
    | .flatClass c => some s!"wrong flat data type: {c}"
    | .leavesClass => some "flat_batch is not a list or tuple"
    | .invalid s => some s!"invalid structure: {s}"
    | .usedTwice => some "flat_batch[\x7b\x7d] parsed repeatly"
    | .incomplete => some "Tensor parse incomplete"

variable (samples : List Value)

def stacked : Except Error Value := do
  return .array (← NdArray.stack (← NdArray.ofValues samples))

/-- The value of each sample under a key. -/
def column (key : Value) : Fallible (List Value) := samples.mapM (·.at? key)

/-- The values of the samples at each place, if all samples have so many of them. -/
def columns (count : Nat) : Except Error (List (List Value)) := do
  if ← (samples.allM fun s => do return (← s.size) == count : Fallible Bool)
  then return Nest.zipAll (← (samples.mapM Value.members : Fallible _))
  else .error .fieldCount

/-- Collate a batch as its first sample says, where `next` collates the samples at one place. -/
def collateBy (next : Value → Except Error Value) (batch : Value) (samples : List Value) (first : Value) :
    Except Error Value := do
  match first with
  | .array _ | .bool _ | .int _ | .float _ => stacked samples
  | .str _ | .bytes _ => return batch
  | .dict ps => return .dict (← ps.mapM fun p => do return (p.1, ← next (.list (← column samples p.1))))
  | .list xs | .tuple xs | .labelled _ xs =>
    return .list (← (← columns samples xs.length).mapM fun c => next (.tuple c))
  | s => .error (.sampleClass s.classText)

/-- Collate samples whose nesting is at most `depth`. -/
def collateTo : Nat → Value → Except Error Value
  | 0, batch => .ok batch
  | depth + 1, batch => do
    let first ← batch.at? (.int 0)
    collateBy (collateTo depth) batch (← batch.members) first

def collate (batch : Value) : Except Error Value := collateTo (Nest.depth batch) batch

mutual

/-- A batch with its sequences as lists; texts and arrays stay as they are. -/
def convert : Value → Value
  | .list xs | .tuple xs | .labelled _ xs => .list (convertList xs)
  | .dict ps => .dict (convertPairs ps)
  | v => v

def convertList : List Value → List Value
  | [] => []
  | x :: xs => convert x :: convertList xs

def convertPairs : Pairs → Pairs
  | [] => []
  | p :: ps => convertPair p :: convertPairs ps

def convertPair : Value × Value → Value × Value
  | (k, v) => (k, convert v)

end

def runningSums : List Value → Fallible (List Value)
  | [] => .ok []
  | x :: xs => from' x xs
where
  /-- the sums from a total on -/
  from' (total : Value) : List Value → Fallible (List Value)
    | [] => .ok [total]
    | x :: xs => do return total :: (← from' (← Value.add total x) xs)

end TensorKit.Batch

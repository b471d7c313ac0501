import TensorKit.Dataset
import TensorKit.Sampler.Distributed
import TensorKit.Value.Call
/-!
Samplers: the positions of a dataset in the order in which they are read.

A sampler goes through positions in sequence, at random, or at random with weights; a batch sampler groups the
positions of another sampler.  Random choice is modelled where it has one outcome only: one item to choose
from, or one positive weight.  A given sequence of positions takes the place of random choice and is used up.
-/

namespace TensorKit

inductive Sampler where
  | abstract'
  | sequence (data : Dataset)
  | random (data : Dataset) (replacement : Bool) (count : Option Value) (given : Option (List Value))
  | weighted (weights : Value) (count : Int) (replacement : Bool)
  | batch (inner : Sampler) (size : Nat) (dropLast : Bool)
  | distributed (split : Sampler.Split) (shuffle : Bool) (dropLast : Bool) (epoch : Value)

namespace Sampler

/-! ## 1. Causes of failure -/

inductive Error where
  | fault (kind : FailureKind)
  | dataset (e : Dataset.Error)
  | replacementClass (text : String)
  | countWithoutReplacement
  | countSign (text : String)
  | weightedCount
  | weightedReplacement
  | weightsClass
  | weightsAxes
  | weightsNegative
  | weightsInfinite
  | weightsZero
  | weightsFew
  | nothingGiven
  | samplerClass (name : String)
  | shuffleWithSampler
  | streamed
  | bothGiven
  | shuffleClass (name : String)
  | batchSize (text : String)
  | dropLastClass (name : String)
  | sizeSign
  | shuffleFlag
  | dropLastFlag
  | replicasSign
  | rankSign

instance : Faulty Error where
  fault := .fault
  kind
    | .fault k => k
    | .dataset e => e.kind
    | .replacementClass _ => .type
    | .countWithoutReplacement | .countSign _ | .weightedCount | .weightedReplacement => .value
    | _ => .assertion
  message
    | .fault _ => none
    | .dataset e => e.message
    | .replacementClass t => some s!"expect boolean value for replacement, but got replacement={t}"
    | .countWithoutReplacement => some "num_samples should not be specified while replacement is False"
    | .countSign t => some s!"num_samples should be a positive integer, but got num_samples={t}"
    | .weightedCount => some "num_samples should be a positive integer"
    | .weightedReplacement => some "replacement should be a boolean value"
    | .weightsClass => some "weights should be paddle.Tensor, numpy.ndarray, list or tuple"
    | .weightsAxes => some "weights should be a 1-D or 2-D array"
    | .weightsNegative => some "weights should be positive value"
    | .weightsInfinite => some "weights shoule not be INF"
    | .weightsZero => some "weights should have positive values"
    | .weightsFew =>
      some "weights positive value number should not less than num_samples when replacement=False"
    | .nothingGiven => some "either dataset or sampler should be set"
    | .samplerClass c => some s!"sampler should be a paddle.io.Sampler, but got {c}"
    | .shuffleWithSampler => some "shuffle should be False when sampler is set"
    | .streamed => some "dataset should not be a paddle.io.IterableDataset"
    | .bothGiven => some "should not set both dataset and sampler"
    | .shuffleClass c => some s!"shuffle should be a boolean value, but got {c}"
    | .batchSize t => some s!"batch_size should be a positive integer, but got {t}"
    | .dropLastClass c => some s!"drop_last should be a boolean value, but got {c}"
    | .sizeSign => some "batch_size should be a positive integer"
    | .shuffleFlag => some "shuffle should be a boolean value"
    | .dropLastFlag => some "drop_last should be a boolean number"
    | .replicasSign => some "num_replicas should be a positive integer"
    | .rankSign => some "rank should be a non-negative integer"

instance : MonadLift (Except Dataset.Error) (Except Error) :=
  ⟨Except.mapError fun
    | .fault k => .fault k
    | e => .dataset e⟩

/-! ## 2. Weighted choice -/

def rows (a : NdArray) : Except Error (List (List Float)) :=
  match a.shape with
  | [] => .error (.fault .index)
  | [n] => if n = 0 then .error (.fault .value) else .ok [a.data.map Scalar.toFloat]
  | [n, m] => if m = 0 then .error (.fault .value)
    else .ok (Tensor.rowsOf m n (a.data.map Scalar.toFloat))
  | _ => .error .weightsAxes

def weightRows : Value → Except Error (List (List Float))
  | .array a => rows a
  | .list xs => do rows (← NdArray.ofValue (.list xs))
  | .tuple xs | .labelled _ xs => do rows (← NdArray.ofValue (.list xs))
  | _ => .error .weightsClass

def sum (xs : List Float) : Float := xs.foldl (· + ·) 0.0

/-- The rows, each number divided by the sum of the row at its own place: rows and sums are matched along the
last axis. -/
def normalized (xss : List (List Float)) : Except Error (List (List Float)) :=
  match xss.map sum with
  | [s] => .ok (xss.map fun xs => xs.map (· / s))
  | sums =>
    if xss.all fun xs => xs.length = sums.length then .ok (xss.map fun xs => xs.zipWith (· / ·) sums)
    else if xss.all fun xs => xs.length = 1 then
      .ok (xss.map fun xs => sums.map fun s => xs.headD 0.0 / s)
    else .error (.fault .value)

/-- Choose `count` positions by probabilities that sum to one; the first possible one is taken. -/
def chooseRow (count : Nat) (replacement : Bool) (ps : List Float) : Except Error (List Nat) := do
  let total := sum ps
  if total.isNaN || ((total - 1.0).abs > 1.5e-8) then .error (.fault .value)
  if !replacement && (ps.length < count || (ps.filter (· > 0.0)).length < count) then .error (.fault .value)
  let possible := (List.range ps.length).filter fun i => (ps[i]?.getD 0.0) > 0.0
  if replacement then return List.replicate count (possible.headD 0) else return possible.take count

def chooseWeighted (weights : Value) (count : Nat) (replacement : Bool) : Except Error (List Nat) := do
  let xss ← weightRows weights
  if !(xss.all fun xs => xs.all fun x => x ≥ 0.0) then .error .weightsNegative
  if xss.any fun xs => xs.any Float.isInf then .error .weightsInfinite
  let positive := xss.map fun xs => (xs.filter (· > 0.0)).length
  if !(positive.all (0 < ·)) then .error .weightsZero
  if !replacement && !(positive.all (count ≤ ·)) then .error .weightsFew
  let chosen ← (← normalized xss).mapM (chooseRow count replacement)
  return chosen.flatten

/-- How many positions weighted choice gives; only arrays know their shape. -/
def weightedLength (weights : Value) (count : Int) : Except Error Int :=
  match weights with
  | .array a => match a.shape.getLast? with
    | none => .error (.fault .index)
    | some 0 => .ok 0
    | some n => .ok (count * (Tensor.volume a.shape / n : Nat))
  | _ => .error (.fault .attribute)

/-! ## 3. Reading -/

def randomCount (data : Dataset) : Option Value → Except Error Value
  | some n => .ok n
  | none => do return .int (← data.length)

def length : Sampler → Except Error Int
  | abstract' => .error (.fault .type)
  | sequence d => do return ← d.length
  | random d _ count _ => do return (← randomCount d count).int?.getD 0
  | weighted w count _ => weightedLength w count
  | batch inner size dropLast => do
    let n ← length inner
    return Batch.batchCount size dropLast n.toNat
  | distributed s _ dropLast _ => .ok (Batch.batchCount s.batch dropLast s.share)

def positions (xs : List Nat) : List Value := xs.map fun (n : Nat) => .int n

def chooseRandom (n count : Nat) (replacement : Bool) : Except Error (List Value) :=
  if replacement then
    if n = 0 && count ≠ 0 then .error (.fault .value) else .ok (List.replicate count (.int 0))
  else .ok (positions (List.range n))

def batchesOf (size : Nat) (dropLast : Bool) (xs : List Value) : List Value :=
  (Batch.batches size dropLast xs).map Value.list

/-- Read a sampler from beginning to end: the sampler afterwards and the positions. -/
def read : Sampler → Sampler × Except Error (List Value)
  | abstract' => (abstract', .error (.fault .notImplemented))
  | sequence d => (sequence d, do return positions (List.range (← d.length)))
  | random d replacement count given =>
    match given with
    | some xs =>
      match randomCount d count with
      | .error e => (random d replacement count given, .error e)
      | .ok n =>
        let n := (n.int?.getD 0).toNat
        (random d replacement count (some (xs.drop n)), .ok (xs.take n))
    | none => (random d replacement count none, do
        let n ← d.length
        chooseRandom n ((← randomCount d count).int?.getD 0).toNat replacement)
  | weighted w count replacement => (weighted w count replacement, do
      return positions (← chooseWeighted w count.toNat replacement))
  | batch inner size dropLast =>
    let (inner, r) := read inner
    (batch inner size dropLast, r.map (batchesOf size dropLast))
  | distributed s shuffle dropLast epoch =>
    match (s.indices : Fallible (List Nat)) with
    | .error k => (distributed s shuffle dropLast epoch, .error (.fault k))
    | .ok xs =>
      let next := if shuffle then (epoch.int?.map fun i => Value.int (i + 1)).getD epoch else epoch
      (distributed s shuffle dropLast next, .ok (batchesOf s.batch dropLast (positions xs)))

/-- Read a sampler into a list.  The list asks for the length as well; a sampler without a length is read all
the same, but any other failure of the length is one of the reading. -/
def readList (s : Sampler) : Sampler × Except Error (List Value) :=
  match read s with
  | (s', .error e) => (s', .error e)
  | (s', .ok xs) => match length s with
    | .ok _ | .error (.fault .type) => (s', .ok xs)
    | .error e => (s', .error e)

def setEpoch (epoch : Value) : Sampler → Sampler
  | distributed s shuffle dropLast _ => distributed s shuffle dropLast epoch
  | s => s

/-! ## 4. Making samplers -/

def isFlag : Value → Bool
  | .bool _ => true
  | _ => false

def positive? (v : Value) : Option Nat :=
  v.int?.bind fun i => if 0 < i then some i.toNat else none

def makeRandom (data : Dataset) (replacement count : Value) (given : Option (List Value)) : Except Error Sampler := do
  ensure (isFlag replacement) (.replacementClass replacement.plain)
  let count? := count.given
  ensure (count?.isNone || replacement.truthy) .countWithoutReplacement
  let n ← randomCount data count?
  ensure (positive? n).isSome (.countSign n.plain)
  return random data replacement.truthy count? given

def makeWeighted (weights count replacement : Value) : Except Error Sampler := do
  match positive? count with
  | none => .error .weightedCount
  | some n =>
    ensure (isFlag replacement) .weightedReplacement
    return weighted weights n replacement.truthy

inductive Inner where
  | sampler (s : Sampler)
  | value (v : Value)

def innerOf (data : Option Dataset) (inner : Inner) (shuffle : Value) : Except Error Sampler := do
  match data with
  | none => match inner with
    | .value .null => .error .nothingGiven
    | .value v => .error (.samplerClass v.classText)
    | .sampler s =>
      ensure (!shuffle.truthy) .shuffleWithSampler
      return s
  | some d =>
    ensure (!d.isStream) .streamed
    if let .value .null := inner then
      ensure (isFlag shuffle) (.shuffleClass shuffle.classText)
      if shuffle.truthy then makeRandom d (.bool false) .null none else return sequence d
    else .error .bothGiven

def makeBatch (data : Option Dataset) (inner : Inner) (shuffle size dropLast : Value) : Except Error Sampler := do
  let s ← innerOf data inner shuffle
  match positive? size with
  | none => .error (.batchSize size.plain)
  | some n =>
    ensure (isFlag dropLast) (.dropLastClass dropLast.classText)
    return batch s n dropLast.truthy

def makeDistributed (data : Dataset) (size replicas rank shuffle dropLast : Value) : Except Error Sampler := do
  match positive? size with
  | none => .error .sizeSign
  | some n =>
    ensure (isFlag shuffle) .shuffleFlag
    ensure (isFlag dropLast) .dropLastFlag
    let r ← match replicas with
      | .null => pure 1
      | v => demand .replicasSign (positive? v)
    let k ← match rank with
      | .null => pure 0
      | v => match v.int? with
        | some i => if 0 ≤ i then pure i.toNat else .error .rankSign
        | none => .error .rankSign
    return distributed { length := ← data.length, replicas := r, rank := k, batch := n } shuffle.truthy
      dropLast.truthy (.int 0)

def make (kind : String) (data? : Option Dataset) (inner : Inner) (given : Option (List Value))
    (named : Fields) : Except Failure Sampler :=
  let data := data?.getD .abstract'
  let null (name : String) := Arguments.optional name Value.null
  let off (name : String) := Arguments.optional name (Value.bool false)
  let required (name : String) : String × Option Value := Arguments.required name
  match kind with
  | "sequence" => .ok (sequence data)
  | "random" =>
    Callable.callBy [off "replacement", null "num_samples"] (fun r n => makeRandom data r n given) [] named
  | "weighted" =>
    Callable.callBy [required "weights", required "num_samples", Arguments.optional "replacement" (.bool true)]
      makeWeighted [] named
  | "batch" =>
    Callable.callBy [off "shuffle", Arguments.optional "batch_size" (.int 1), off "drop_last"]
      (makeBatch data? inner) [] named
  | "distributed" =>
    Callable.callBy [required "batch_size", null "num_replicas", null "rank", off "shuffle", off "drop_last"]
      (makeDistributed data) [] named
  | _ => .ok .abstract'

def givenIn (v : Value) : Option (List Value) := (v.field? "generator").map fun _ => v.itemsAt "generator"

def innerIn (v : Value) : Except Failure Inner :=
  match v.field? "inner" with
  | none => .ok (.value .null)
  | some i => match i.field? "value" with
    | some x => .ok (.value x.ofMarked)
    | none => do
      let d ← (Dataset.ofValue (i.part "data")).mapError Failure.of
      let kind := if (givenIn i).isSome then "random" else "sequence"
      return .sampler (← make kind (some d) (.value .null) (givenIn i) [])

/-- The sampler that a description stands for.  The field `sampler` names the kind, `kwargs` has the settings. -/
def ofValue (v : Value) : Except Failure Sampler := do
  let inner ← innerIn v
  let data? ← ((v.field? "data").mapM Dataset.ofValue).mapError Failure.of
  make (v.part "sampler").textOr data? inner (givenIn v) (v.part "kwargs").fieldsOfMarked

end Sampler

end TensorKit

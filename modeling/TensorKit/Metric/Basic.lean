import TensorKit.Arguments
import TensorKit.Metric.Counts
import TensorKit.Metric.RankArea
import TensorKit.Value.Arithmetic
import TensorKit.Value.Array
/-!
Metrics.

A metric takes in batches and gives a value for all of them.  Tracked metrics keep the name they are given and forget
everything when they are reset.  Evaluators have a name that is a text, and a reset puts zeros only in the counts that
their configuration shows, each of the class that the count has: the histograms of an area and the parts of a composite
keep what they have.
-/

namespace TensorKit.Metric

/-! ## 1. Causes of failure -/

inductive Error where
  | fault (kind : FailureKind)
  | needsArray (what : String) (orTensor : Bool)
  | needsNumber (what : String)
  | needsNumberOrArray (what classes : String)
  | negativeWeight
  | noAccuracy
  | noDistances
  | noAverage
  | direct
  | notMetric

instance : Faulty Error where
  fault := .fault
  kind
    | .fault k => k
    | .direct => .notImplemented
    | _ => .value
  message
    | .fault _ => none
    | .needsArray what orTensor => some (s!"The '{what}' must be a numpy ndarray" ++ (if orTensor then " or Tensor." else "."))
    | .needsNumber what => some s!"The '{what}' must be a number(int, float)."
    | .needsNumberOrArray what classes => some s!"The '{what}' must be a number({classes}) or a numpy ndarray."
    | .negativeWeight => some "The 'weight' can not be negative"
    | .noAccuracy => some ("There is no data in Accuracy Metrics.                 " ++
        "Please check layers.accuracy output has added to Accuracy.")
    | .noDistances => some ("There is no data in EditDistance Metric. " ++
        "Please check layers.edit_distance output has been added to EditDistance.")
    | .noAverage => some "There is no data to be averaged in WeightedAverage."
    | .direct => some "Should not use it directly, please extend it."
    | .notMetric => some "SubMetric should be inherit from MetricBase."

/-! ## 2. The kinds of metrics -/

inductive Kind where
  | topAccuracy
  | precision
  | sensitivity
  | area
  | base
  | accuracy
  | chunks
  | distance
  | composite
  | average
  deriving DecidableEq

/-- A count that may come from arrays.  A sum of numbers is plain; a sum with an element of an array is an element; a sum
with an array is an array, to which all further data is added in place.  An element that is set back to zero becomes an
array with no axes, unless it is a long floating number. -/
inductive Tally where
  | plain (v : Value)
  | element (a : NdArray)
  | array (a : NdArray)

inductive Style where
  | tracked
  | evaluator
  deriving DecidableEq

inductive State where
  | precision (c : Counts)
  | sensitivity (c : Counts)
  | topAccuracy (ks totals counts : List Value)
  | area (b : Bins Value)
  | base
  | accuracy (value weight : Tally)
  | chunks (inferred labelled correct : Tally)
  | distance (total sequences errors : Tally)
  | composite (parts : List State)
  | average (sums : Option (Tally × Tally))

/-- The name that a class of evaluators gives to its members. -/
def Kind.title : Kind → String
  | topAccuracy => "Accuracy"
  | precision => "Precision"
  | sensitivity => "Recall"
  | area => "Auc"
  | base => "MetricBase"
  | accuracy => "Accuracy"
  | chunks => "ChunkEvaluator"
  | distance => "EditDistance"
  | composite => "CompositeMetric"
  | average => "WeightedAverage"

def Kind.evaluators : List Kind :=
  [base, composite, precision, sensitivity, accuracy, chunks, distance, area, average]

def Kind.tracked : List Kind := [topAccuracy, precision, sensitivity, area]

variable (style : Style)

def Kind.ofTitle? (title : String) : Option Kind :=
  (if style = .tracked then tracked else evaluators).find? fun k => k.title == title

/-! ## 3. Counts -/

namespace Tally

def raw : Tally → Value
  | plain v => v
  | element a => .array a
  | array a => .array a

def value : Tally → Value
  | plain v => v
  | element a => a.toData
  | array a => .array a

/-- The result of arithmetic: an array with no axes is an element. -/
def ofRaw : Value → Tally
  | .array a => if a.shape.isEmpty then element a else array a
  | v => plain v

def shown (v : Value) : Value := (ofRaw v).value

def summand (a : NdArray) : Value → Fallible NdArray
  | .array y => .ok y
  | x => match x.quantity? with
    | some q => .ok (.ofQuantity a.type q)
    | none => .error .type

/-- Add to an array in place: it keeps its shape and its element type. -/
def addInPlace (a : NdArray) (x : Value) : Fallible NdArray := do
  let y ← summand a x
  if a.type.order < (a.type.join y.type).order then .error .casting
  let sum ← NdArray.arithmetic (· + ·) (· + ·) a y
  if sum.shape = a.shape then return sum.as a.type else .error .value

def add (t : Tally) (x : Value) : Fallible Tally :=
  match t with
  | array a => do return array (← addInPlace a x)
  | t => do return ofRaw (← Value.add t.raw x)

def addAfter (before : Fallible Unit) (x : Fallible Value) (t : Tally) : Tally × Fallible Unit :=
  match before *> x.bind t.add with
  | .ok t => (t, .ok ())
  | .error k => (t, .error k)

def quotient (t : Tally) (n : Value) : Fallible Value := do return shown (← Value.div t.raw n)

/-- Set a count back to the zero of its class; what is no number has none. -/
def zero : Tally → Tally
  | plain (.int _) | plain (.bool _) => plain (.int 0)
  | plain (.float _) => plain (.float 0.0)
  | plain _ => plain .null
  | element a => if a.type = .float64 then plain (.float 0.0) else array a.zeros
  | array a => array a.zeros

end Tally

/-- Is it a number, or an array with a single number on one axis? -/
def isNumber : Value → Bool
  | .array a => a.shape == [1]
  | v => v.isNumber

def isNumberOrArray : Value → Bool
  | .array _ => true
  | v => v.isNumber

def truth : Value → Fallible Bool
  | .array a => a.truth
  | v => .ok v.truthy

def isZero (v : Value) : Fallible Bool := do return !(← truth v)

def arrayOf (what : String) (style : Style) : Value → Except Error NdArray
  | .array a => .ok a
  | _ => .error (.needsArray what (style = .tracked))

/-! ## 4. Samples from arrays -/

/-- The rows along the first axis, each with its elements in order. -/
def rows (a : NdArray) : List (List Scalar) := a.toTensor.parts.map fun t => t.data

/-- The truth of a row of answers: of one answer, or no for none. -/
def single : List Bool → Fallible Bool
  | [] => .ok false
  | [b] => .ok b
  | _ => .error .value

def isOne (s : Scalar) : Bool := Quantity.eq s.quantity (.whole 1)

/-- Take in rows of scores with their labels, up to the first label without a row or that cannot be taken in. -/
def takeRows {γ α : Type} (step : γ → α → List Scalar → Fallible γ) : γ → List α → List (List Scalar) → γ × Fallible Unit
  | c, _, [] => (c, .ok ())
  | c, [], _ :: _ => (c, .error .index)
  | c, row :: rows, label :: labels => match step c row label with
    | .ok c => takeRows step c rows labels
    | .error k => (c, .error k)

/-- How elements are read as scores, and how these are rounded. -/
structure Rounding (σ : Type) where
  read : Scalar → σ
  zero : σ
  addHalf : σ → σ
  floor : σ → Int
  /-- the nearest whole number, a half goes to the even one -/
  nearest : σ → Int

def Rounding.floating (t : ElementType) : Rounding Float where
  read := Scalar.toFloat
  zero := 0.0
  addHalf x := t.round (x + 0.5)
  floor x := (Number.floor? x).getD 0
  nearest := halfEven

variable {σ : Type} (k : Rounding σ)

/-- The rounding of scores for precision. -/
def Rounding.precise (style : Style) (x : σ) : Int :=
  if style = .tracked then k.floor (k.addHalf x) else k.nearest x

def Rounding.score : List Scalar → Fallible σ
  | [] => .ok k.zero
  | [s] => .ok (k.read s)
  | _ => .error .value

/-- Count a sample for precision, which looks at its label only when its score is rounded to 1. -/
def Counts.precision (style : Style) (c : Counts) (score label : List Scalar) :
    Fallible Counts := do
  if k.precise style (← k.score score) = 1 then return c.note (← single (label.map isOne)) else return c

/-- Count a sample for recall, which looks at its score only when its label is 1. -/
def Counts.sensitivity (c : Counts) (score label : List Scalar) : Fallible Counts := do
  if ← single (label.map isOne) then return c.note (k.nearest (← k.score score) = 1) else return c

/-- Count a sample for an area, if it has a score. -/
def Bins.ranked {ν : Type} [Arithmetic ν] (read : Scalar → ν) (b : Bins ν) (score : Option Scalar)
    (label : List Scalar) : Fallible (Bins ν) :=
  match score with
  | some s => b.add (read s) (single (label.map Scalar.truthy))
  | none => .error .index

def Counts.addPrecision (style : Style) (c : Counts) (scores labels : NdArray) :
    Fallible (Counts × Fallible Unit) :=
  if labels.shape.isEmpty then .error .index
  else .ok (takeRows (precision k style) c (rows scores) (rows labels))

def Counts.addSensitivity (c : Counts) (scores labels : NdArray) :
    Fallible (Counts × Fallible Unit) :=
  if labels.shape.isEmpty then .error .index else .ok (takeRows (sensitivity k) c (rows scores) (rows labels))

/-- The scores stand in the second column. -/
def Bins.addArrays {ν : Type} [Arithmetic ν] (read : ElementType → Scalar → ν) (b : Bins ν)
    (scores labels : NdArray) : Fallible (Bins ν × Fallible Unit) :=
  let given := if scores.shape.length = 2 then (rows scores).map fun row => row[1]? else []
  if labels.shape.isEmpty then .error .type
  else .ok (takeRows (ranked (read scores.type)) b given (rows labels))

def element (t : ElementType) (s : Scalar) : Value := .array (.single t s)

/-! ## 5. Taking in batches -/

/-- The sum of the first `k` elements of every row along the last axis. -/
def topSum (correct : NdArray) (k : Value) : Fallible NdArray :=
  match correct.shape.reverse, k.int? with
  | [], _ => .error .index
  | _, none => .error .type
  | width :: rest, some k =>
    let n := if 0 ≤ k then k.toNat else (width + k).toNat
    .ok (NdArray.total ⟨⟨[], (Tensor.rowsOf width (Tensor.volume rest) correct.data).flatMap (List.take n)⟩,
      correct.type⟩)

/-- The shares of right answers in a batch, and the sums with them taken in. -/
def topUpdate (correct : NdArray) :
    List Value → List Value → List Value → Fallible (List Value × List Value × List Value)
  | k :: ks, t :: ts, c :: cs => do
    let n ← topSum correct k
    let samples := match correct.shape.dropLast with
      | [] => NdArray.single .float64 (.float 1.0)
      | axes => NdArray.single .int64 (.int (Tensor.volume axes))
    let share ← Value.div (← Value.toFloating (.array n)) (.array samples)
    let t ← Value.add t (.array n)
    let c ← Value.add c (.array samples)
    let (shares, ts, cs) ← topUpdate correct ks ts cs
    return ((Tally.ofRaw share).value :: shares, t :: ts, c :: cs)
  | _, _, _ => .ok ([], [], [])

def oneOrList : List Value → Value
  | [v] => v
  | vs => .list vs

namespace State

/-- Take in a batch, for metrics without parts.  A batch may be refused as a whole, or fail when it is taken in in
part. -/
def attempt (args : List Value) (s : State) : Except Error (State × Fallible Value) :=
  match s, args with
  | precision c, [preds, labels] => do
    let p ← arrayOf "preds" style preds
    let l ← arrayOf "labels" style labels
    let (c, r) ← c.addPrecision (.floating p.type) style p l
    return (precision c, r.map fun _ => .null)
  | sensitivity c, [preds, labels] => do
    let p ← arrayOf "preds" style preds
    let l ← arrayOf "labels" style labels
    let (c, r) ← c.addSensitivity (.floating p.type) p l
    return (sensitivity c, r.map fun _ => .null)
  | area b, [preds, labels] => do
    let l ← arrayOf "labels" style labels
    let p ← arrayOf (if style = .tracked then "preds" else "predictions") style preds
    let (b, r) ← b.addArrays element p l
    return (area b, r.map fun _ => .null)
  | topAccuracy ks ts cs, correct :: _ => do
    let .array a := correct | .error (.fault .attribute)
    let (shares, ts, cs) ← topUpdate a ks ts cs
    return (topAccuracy ks ts cs, .ok (oneOrList shares))
  | accuracy v w, [value, weight] => do
    if !isNumberOrArray value then .error (.needsNumberOrArray "value" "int, float")
    if !isNumber weight then .error (.needsNumber "weight")
    if ← Value.less weight (.int 0) then .error .negativeWeight
    let (v, r) := v.addAfter (.ok ()) (Value.mul value weight)
    let (w, r) := w.addAfter r (.ok weight)
    return (accuracy v w, r.map fun _ => .null)
  | chunks i l c, [inferred, labelled, correct] => do
    if !isNumberOrArray inferred then .error (.needsNumberOrArray "num_infer_chunks" "int")
    if !isNumberOrArray labelled then .error (.needsNumberOrArray "num_label_chunks" "int, float")
    if !isNumberOrArray correct then .error (.needsNumberOrArray "num_correct_chunks" "int, float")
    let (i, r) := i.addAfter (.ok ()) (.ok inferred)
    let (l, r) := l.addAfter r (.ok labelled)
    let (c, r) := c.addAfter r (.ok correct)
    return (chunks i l c, r.map fun _ => .null)
  | distance total n errors, [distances, sequences] => do
    let d ← arrayOf "distances" style distances
    if !isNumber sequences then .error (.needsNumber "seq_num")
    let right := NdArray.single .int64 (.int (d.data.countP fun x => x.quantity.isZero))
    let (n, r) := n.addAfter (.ok ()) (.ok sequences)
    let (errors, r) := errors.addAfter r (Value.sub sequences (.array right))
    let (total, r) := total.addAfter r (.ok (.array d.total))
    return (distance total n errors, r.map fun _ => .null)
  | average sums, [value, weight] => do
    if !isNumberOrArray value then .error (.needsNumberOrArray "value" "int, float")
    if !isNumber weight then .error (.needsNumber "weight")
    let product ← Value.mul value weight
    match sums with
    | none => return (average (some (.ofRaw product, .ofRaw weight)), .ok .null)
    | some (a, b) =>
      let (a, r) := a.addAfter (.ok ()) (.ok product)
      let (b, r) := b.addAfter r (.ok weight)
      return (average (some (a, b)), r.map fun _ => .null)
  | base, [_, _] => .error .direct
  | _, _ => .error (.fault .type)

/-- A metric without parts after a batch, with the value that taking it in has. -/
def updateOne (args : List Value) (s : State) : State × Except Error Value :=
  match s.attempt style args with
  | .ok (s, r) => (s, r.mapError .fault)
  | .error e => (s, .error e)

mutual

/-- Take in a batch.  A composite hands it to its parts, up to the first that refuses it. -/
def update (style : Style) (args : List Value) : State → State × Except Error Value
  | composite parts => match args with
    | [_, _] =>
      let (parts, r) := updateAll style args parts
      (composite parts, r)
    | _ => (composite parts, .error (.fault .type))
  | s => s.updateOne style args

/-- Hand a batch to metrics one after the other. -/
def updateAll (style : Style) (args : List Value) : List State → List State × Except Error Value
  | [] => ([], .ok .null)
  | s :: rest => match update style args s with
    | (s, .ok _) =>
      let (rest, r) := updateAll style args rest
      (s :: rest, r)
    | (s, .error e) => (s :: rest, .error e)

end

/-! ## 6. Values -/

def resultOne : State → Except Error Value
  | precision c | sensitivity c => .ok (.float c.share)
  | area b => do return ← b.area
  | topAccuracy _ ts cs => do
    return oneOrList (← (ts.zip cs).mapM fun (t, c) => do
      if ← truth c then return (Tally.ofRaw (← Value.div (← Value.toFloating t) c)).value else return .float 0.0)
  | accuracy v w => do
    if ← isZero w.raw then .error .noAccuracy
    return ← v.quotient w.raw
  | chunks i l c => do
    let part (n : Tally) : Fallible Value := do
      if ← truth n.raw then Value.div (← Value.toFloating c.raw) n.raw else return .int 0
    let p ← part i
    let r ← part l
    let f ← if ← truth c.raw then do
        Value.div (← Value.toFloating (← Value.mul (← Value.mul (.int 2) p) r)) (← Value.add p r)
      else pure (.int 0)
    return .tuple [Tally.shown p, Tally.shown r, Tally.shown f]
  | distance total n errors => do
    if ← isZero n.raw then .error .noDistances
    return .tuple [← total.quotient n.raw, ← errors.quotient (← Value.toFloating n.raw)]
  | average none => .error .noAverage
  | average (some (a, b)) => do return ← a.quotient b.raw
  | base | composite _ => .error .direct

mutual

def result : State → Except Error Value
  | composite parts => do return .list (← resultAll parts)
  | s => s.resultOne

def resultAll : List State → Except Error (List Value)
  | [] => .ok []
  | s :: rest => do return (← result s) :: (← resultAll rest)

end

/-! ## 7. Setting back -/

/-- Set a metric back.  Evaluators keep what their configuration does not show. -/
def reset : State → State
  | precision _ => precision {}
  | sensitivity _ => sensitivity {}
  | topAccuracy ks _ _ => topAccuracy ks (ks.map fun _ => .float 0.0) (ks.map fun _ => .int 0)
  | area b => if style = .tracked then area (.empty b.thresholds) else area b
  | accuracy v w => accuracy v.zero w.zero
  | chunks i l c => chunks i.zero l.zero c.zero
  | distance t n e => distance t.zero n.zero e.zero
  | average _ => average none
  | s => s

/-- The counts that the configuration of an evaluator shows. -/
def shown : State → Fields
  | precision c => [("tp", .int c.right), ("fp", .int c.wrong)]
  | sensitivity c => [("tp", .int c.right), ("fn", .int c.wrong)]
  | accuracy v w => [("value", v.value), ("weight", w.value)]
  | chunks i l c => [("num_infer_chunks", i.value), ("num_label_chunks", l.value), ("num_correct_chunks", c.value)]
  | distance t n e => [("total_distance", t.value), ("seq_num", n.value), ("instance_error", e.value)]
  | _ => []

end State

end TensorKit.Metric

namespace TensorKit

open TensorKit.Metric

/-! ## 8. Metrics with names -/

structure Metric where
  style : Metric.Style
  name : Value
  state : Metric.State

variable (m : Metric)

namespace Metric

open Arguments

def largest : List Value → Fallible Value
  | [] => .error .value
  | v :: vs => vs.foldlM (fun m v => do return if ← Value.less m v then v else m) v

/-- The histograms for a number of thresholds; tracked metrics refuse a number below minus one. -/
def histograms (style : Style) (thresholds : Value) : Except Error (Bins Value) := do
  let some n := thresholds.int? | .error (.fault .type)
  if style = .tracked && n + 1 < 0 then .error (.fault .value)
  return .empty n

def evaluatorName (k : Kind) : Value → Value
  | .null => .str k.title
  | v => .str v.plain

def State.initial : Kind → State
  | .precision => .precision {}
  | .sensitivity => .sensitivity {}
  | .accuracy | .topAccuracy => .accuracy (.plain (.float 0.0)) (.plain (.float 0.0))
  | .chunks => .chunks (.plain (.int 0)) (.plain (.int 0)) (.plain (.int 0))
  | .distance => .distance (.plain (.float 0.0)) (.plain (.int 0)) (.plain (.int 0))
  | .composite => .composite []
  | .average => .average none
  | .base => .base
  | .area => .area (.empty 0)

def track (k : Kind) (named : Fields) : Except Error Metric := do
  let name (default : Value) := optional "name" default
  match k with
  | .topAccuracy =>
    match ← bind [optional "topk" (Value.tuple [.int 1]), name .null] [] named with
    | [topk, n] =>
      let ks ← topk.members
      let most ← largest ks
      let n := if n.truthy then n else .str "acc"
      let names := if Value.same most (.int 1) then [n] else ks.map fun k => .str s!"{n.plain}_top{k.plain}"
      return ⟨.tracked, .list names, (State.topAccuracy ks [] []).reset .tracked⟩
    | _ => .error (.fault .type)
  | .area =>
    match ← bind [optional "curve" (Value.str "ROC"), optional "num_thresholds" (.int 4095),
        name (.str "auc")] [] named with
    | [_, t, n] => return ⟨.tracked, n, .area (← histograms .tracked t)⟩
    | _ => .error (.fault .type)
  | k =>
    match ← bind [name (.str k.title.toLower)] [] named with
    | [n] => return ⟨.tracked, n, .initial k⟩
    | _ => .error (.fault .type)

def evaluate (k : Kind) (named : Fields) : Except Error Metric := do
  match k with
  | .area =>
    match ← bind [required "name", optional "curve" (Value.str "ROC"),
        optional "num_thresholds" (.int 4095)] [] named with
    | [n, _, t] => return ⟨.evaluator, evaluatorName k n, .area (← histograms .evaluator t)⟩
    | _ => .error (.fault .type)
  | .average =>
    let _ ← bind [] [] named
    return ⟨.evaluator, .null, .average none⟩
  | k =>
    let p := if k = .distance || k = .base then required "name" else optional "name" Value.null
    match ← bind [p] [] named with
    | [n] => return ⟨.evaluator, evaluatorName k n, .initial k⟩
    | _ => .error (.fault .type)

def make : Style → Kind → Fields → Except Error Metric
  | .tracked => track
  | .evaluator => evaluate

def update (args : List Value) : Metric × Except Error Value :=
  let (s, r) := m.state.update m.style args
  ({ m with state := s }, r)

def result : Except Error Value := m.state.result

def reset : Metric := { m with state := m.state.reset m.style }

def addPart (part : Option Metric) : Metric × Except Error Unit :=
  match m.state, part with
  | .composite parts, some p =>
    if p.style = .evaluator && p.name != .null then ({ m with state := .composite (parts ++ [p.state]) }, .ok ())
    else (m, .error .notMetric)
  | .composite _, none => (m, .error .notMetric)
  | _, _ => (m, .error (.fault .attribute))

def configuration : Value :=
  .record [("name", m.name), ("states", .record m.state.shown)]

end Metric

end TensorKit

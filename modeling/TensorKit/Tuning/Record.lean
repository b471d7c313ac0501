import TensorKit.Action
import TensorKit.Number.Summation
import TensorKit.Tuning.Variable
/-!
Records of metrics.

A metric has a direction, which says whether small or large values are good, and one entry, a value, for each step.  The
best value is the best mean of an entry; means that are no numbers do not count unless there are no others.  The best
step is the first one, in order of arrival, whose mean is the best value.  The rules are stated for any data that has a
mean and can be compared.
-/

namespace TensorKit.Tuning

/-! ## 1. Recorded data -/

/-- Data that can be recorded. -/
class Recordable (ν : Type) extends Arithmetic ν where
  /-- the mean of a value that may consist of several numbers -/
  mean : ν → Fallible ν
  /-- can it be a step? -/
  isStep : ν → Bool

variable (v : Value)

/-- The mean of data: that of a number is the number, that of an array the mean of its elements. -/
def meanOf : Fallible Value := do
  match v with
  | .bool _ | .int _ | .float _ => v.toFloating
  | _ =>
    let a ← NdArray.ofValue v
    if a.type.isText then throw .type
    return .float (Number.mean (a.data.map Scalar.toFloat))

instance : Recordable Value where
  mean := meanOf
  isStep := Value.isKey

/-- Which values are the good ones. -/
inductive Direction where
  | least
  | greatest

def Direction.name : Direction → String
  | least => "min"
  | greatest => "max"

def Direction.ofValue : Fallible Direction :=
  if !v.isKey then .error .type
  else match v with
    | .str "min" => .ok least
    | .str "max" => .ok greatest
    | _ => .error .key

structure Entry (ν : Type) where
  value : ν
  step : ν

structure Records (ν : Type) where
  direction : Direction := .least
  entries : List (Entry ν) := []

open Recordable (mean isStep)

variable {ν : Type} [Recordable ν]

/-- Is a value different from itself, as only data that is no number is? -/
def undefined (a : ν) : Bool := !Arithmetic.eq a a

/-- Is the second of two values better? -/
def Direction.improves (d : Direction) (a b : ν) : Fallible Bool :=
  match d with
  | least => Arithmetic.lt b a
  | greatest => Arithmetic.lt a b

/-- The better of two values, the first one if neither is. -/
def Direction.better (d : Direction) (a b : ν) : Fallible ν :=
  if undefined a then .ok b
  else if undefined b then .ok a
  else do return if ← d.improves a b then b else a

def Direction.best (d : Direction) : List ν → Fallible (Option ν)
  | [] => .ok none
  | a :: as => some <$> as.foldlM d.better a

/-- Insert an entry behind those whose step is not larger. -/
def Entry.insert (e : Entry ν) : List (Entry ν) → Fallible (List (Entry ν))
  | [] => .ok [e]
  | x :: xs => do if ← Arithmetic.lt e.step x.step then return e :: x :: xs else return x :: (← insert e xs)

def Entry.same (a b : Entry ν) : Bool := Arithmetic.eq b.value a.value && Arithmetic.eq b.step a.step

def Entry.text (e : Entry Value) : String := s!"MetricRecord(value={e.value.plain}, step={e.step.plain})"

def Entry.document (e : Entry Value) : Value := .record [("value", e.value), ("step", e.step)]

def Entry.ofDocument : Fallible (Entry Value) := do
  match ← Arguments.bind [Arguments.required "value", Arguments.required "step"] [] (← v.named) with
  | [value, step] => return ⟨value, step⟩
  | _ => .error .type

/-! ## 2. The records of one metric -/

namespace Records

/-- Add a value at a step.  A step that has a value cannot get another one. -/
def put (r : Records ν) (e : Entry ν) : Fallible (Records ν) :=
  if !isStep e.step then .error .type
  else if r.entries.any fun x => Arithmetic.eq x.step e.step then .error .attribute
  else .ok { r with entries := r.entries ++ [e] }

def sorted (r : Records ν) : Fallible (List (Entry ν)) :=
  r.entries.foldlM (fun es e => e.insert es) []

def best (r : Records ν) : Fallible (Option ν) := do
  r.direction.best (← r.entries.mapM fun e => mean e.value)

def firstWith (b : ν) : List (Entry ν) → Fallible (Option ν)
  | [] => .ok none
  | e :: es => do if Arithmetic.eq (← mean e.value) b then return some e.step else firstWith b es

def bestStep (r : Records ν) : Fallible (Option ν) := do
  match ← r.best with
  | none => return none
  | some b => firstWith b r.entries

def statistics (r : Records Value) : Fallible Fields := do
  let means ← (← r.sorted).mapM fun e => mean e.value
  match ← Direction.least.best means, ← Direction.greatest.best means with
  | some least, some greatest =>
    let xs := (means.filterMap Value.number?).filter fun x => !x.isNaN
    return [("min", least), ("max", greatest), ("mean", .float (Number.mean xs)),
      ("median", .float (Number.median xs)), ("var", .float (Number.variance xs)),
      ("std", .float (Number.variance xs).sqrt)]
  | _, _ => return []

def document (r : Records Value) : Fallible Value := do
  return .record [("direction", .str r.direction.name), ("records", .list ((← r.sorted).map Entry.document))]

def ofDocument : Fallible (Records Value) := do
  let direction ← Direction.ofValue (← v.at? (.str "direction"))
  let entries ← (← (← v.at? (.str "records")).members).mapM Entry.ofDocument
  entries.foldlM put { direction }

end Records

/-! ## 3. The records of all metrics -/

structure Recorder (ν : Type) where
  metrics : Table String (Records ν) := []

variable (r : Recorder ν) (name : String)

namespace Recorder

def has : Bool := r.metrics.has name

def of : Except Error (Records ν) :=
  demand (.fault .key) (r.metrics.get? name)

def register (direction : Direction) : Except Error (Recorder ν) :=
  if r.has name then .error (.registered name)
  else .ok { r with metrics := r.metrics.set name { direction } }

def registerBy (direction : Option Value) : Except Error (Recorder ν) := do
  if r.has name then throw (.registered name)
  r.register name (← match direction.bind Value.given with
    | none => Except.ok Direction.least
    | some v => Direction.ofValue v)

def metric : Action (Recorder ν) Error (Records ν) := do
  let r ← get
  match r.metrics.get? name with
  | some m => return m
  | none =>
    set ({ r with metrics := r.metrics.set name {} } : Recorder ν)
    return {}

def put (m : Records ν) (e : Entry ν) : Action (Recorder ν) Error (Records ν) := do
  let m ← m.put e
  modify fun r => { r with metrics := r.metrics.set name m }
  return m

def differ : Option ν → Option ν → Bool
  | some a, some b => !Arithmetic.eq b a
  | none, none => false
  | _, _ => true

def update (value step : ν) : Action (Recorder ν) Error Bool := do
  let value ← (Arithmetic.floating value : Fallible ν)
  let m ← metric name
  let before ← m.best
  let after ← (← put name m ⟨value, step⟩).best
  return differ before after

/-- Record entries one after the other, until one is refused. -/
def putAll (es : List (Entry ν)) : Action (Recorder ν) Error Unit := do
  let _ ← es.foldlM (put name) (← metric name)

def document (r : Recorder Value) : Except Error Value := do
  let ms ← (r.metrics.mapM fun m => do return (m.1, ← m.2.document) : Fallible Fields)
  return .record [("metrics", .record ms)]

def ofDocument : Except Error (Recorder Value) := do
  match ← v.at? (.str "metrics") with
  | .dict ps =>
    let ms ← (ps.mapM fun p => do return (p.1.plain, ← Records.ofDocument p.2) :
      Fallible (List (String × Records Value)))
    return ⟨.ofList ms⟩
  | _ => throw (.fault .attribute)

def restored (r : Recorder Value) : Except Error (Recorder Value) := do ofDocument (← r.document)

end Recorder

end TensorKit.Tuning

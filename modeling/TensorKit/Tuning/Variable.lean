import TensorKit.Arguments
import TensorKit.Value.Array
import TensorKit.Value.Arithmetic
/-!
Variables that can be tuned.

A variable has a name, the values it can take and a default: a fixed value, a truth value, one of some choices, a whole
number of a range or a floating number of a range.  It is made from its class and its arguments, which are checked and
brought to one form, and its state is the arguments that make it again.
-/

namespace TensorKit.Tuning

/-! ## 1. Causes of failure -/

inductive Error where
  | fault (kind : FailureKind)
  | notFixed (found : String)
  | notBoolean (found : String)
  | mixedChoices (values classes : String)
  | unknownChoices (values : String)
  | notAmong (values found : String)
  | notWhole (found : String)
  | notState (found : String)
  | missing (name : String)
  | registered (name : String)

instance : Faulty Error where
  fault := .fault
  kind
    | .fault k => k
    | .mixedChoices _ _ | .unknownChoices _ => .type
    | .missing _ => .key
    | _ => .value
  message
    | .fault _ => none
    | .notFixed found => some s!"Fixed must be an str, int, float or bool, but found {found}"
    | .notBoolean found => some s!"default must be a Python boolean, but got {found}"
    | .mixedChoices values classes =>
      some s!"Choice can contain only one type of value, but found values: {values} with types: {classes}."
    | .unknownChoices values => some s!"Choice can only contain str, int, float, or boll, but found: {values} "
    | .notAmong values found => some s!"The default value should be one of the choices {values}, but found {found}"
    | .notWhole found => some s!"Expects val is an int, but found: {found}."
    | .notState found =>
      some s!"Expect state to be a python dict containing class_name and state as keys, but found {found}"
    | .missing name => some s!"{name} does not exist."
    | .registered name => some s!"Metric {name} have been registered."

/-! ## 2. Variables -/

inductive VariableClass where
  | fixed
  | boolean
  | choice
  | wholeRange
  | floatRange

def VariableClass.name : VariableClass → String
  | fixed => "Fixed"
  | boolean => "Boolean"
  | choice => "Choice"
  | wholeRange => "IntRange"
  | floatRange => "FloatRange"

def VariableClass.ofName? (n : String) : Option VariableClass :=
  [fixed, boolean, choice, wholeRange, floatRange].find? fun c => c.name == n

inductive Variable where
  | fixed (name : String) (value : Value)
  | boolean (name : String) (value : Value)
  /-- one of some values, the first one if none is chosen -/
  | choice (name : String) (values : List Value) (chosen : Option Value)
  /-- the whole numbers of a range, its start if none is chosen -/
  | wholeRange (name : String) (start stop step : Int) (chosen : Option Value)
  /-- the floating numbers of a range, its start if none is chosen -/
  | floatRange (name : String) (start stop : Value) (step chosen : Option Value) (endpoint : Value)

variable (v : Variable) (alike : Value → Value → Bool)

namespace Variable

def name : Variable → String
  | fixed n _ | boolean n _ | choice n _ _ | wholeRange n _ _ _ _ | floatRange n _ _ _ _ _ => n

def kind : Variable → VariableClass
  | fixed _ _ => .fixed
  | boolean _ _ => .boolean
  | choice _ _ _ => .choice
  | wholeRange _ _ _ _ _ => .wholeRange
  | floatRange _ _ _ _ _ _ => .floatRange

def default : Variable → Value
  | fixed _ v | boolean _ v => v
  | choice _ values chosen => chosen.getD (values.headD .null)
  | wholeRange _ start _ _ chosen => chosen.getD (.int start)
  | floatRange _ start _ _ chosen _ => chosen.getD start

/-- The arguments that make a variable again.  A range of whole numbers keeps whether a default was chosen; the other
variables keep the default itself. -/
def state : Fields :=
  match v with
  | fixed n _ | boolean n _ => [("name", .str n), ("default", v.default)]
  | choice n values _ => [("name", .str n), ("default", v.default), ("values", .list values)]
  | wholeRange n start stop step chosen =>
    [("name", .str n), ("default", chosen.getD .null), ("start", .int start), ("stop", .int stop), ("step", .int step)]
  | floatRange n start stop step _ endpoint =>
    [("name", .str n), ("default", v.default), ("start", start), ("stop", stop), ("step", step.getD .null),
      ("endpoint", endpoint)]

def text : String :=
  let default := v.default.plain
  match v with
  | fixed n _ => s!"Fixed(name: {n}, value: {default})"
  | boolean n _ => s!"Boolean(name: \"{n}\", default: {default})"
  | choice n values _ =>
    let values := (Value.list values).shown
    s!"Choice(name: \"{n}\", values: {values}, default: {default})"
  | wholeRange n start stop step _ =>
    s!"IntRange(name: {n}, start: {start}, stop: {stop}, step: {step}, default: {default})"
  | floatRange n start stop step _ endpoint =>
    let step := step.getD .null
    s!"FloatRange(name: {n}, start: {start.plain}, stop: {stop.plain}, step: {step.plain}, default: {default}, endpoint: {endpoint.plain})"

/-! ## 3. Making variables -/

/-- A fixed value is a text, a number or a truth value. -/
def makeFixed (name : String) (v : Value) : Except Error Variable :=
  match v with
  | .str _ | .int _ | .float _ | .bool _ => .ok (fixed name v)
  | _ => .error (.notFixed v.plain)

def makeBoolean (name : String) (v : Value) : Except Error Variable :=
  if !v.isKey then .error (.fault .type)
  else if v == .bool true || v == .bool false then .ok (boolean name v)
  else .error (.notBoolean v.plain)

/-- How the values of a choice are brought to one form, by the first of them.  Truth values count as whole
numbers. -/
def reading (first : Value) : Option (Value → Fallible Value) :=
  match first with
  | .str _ => some fun v => .ok (.str v.plain)
  | .int _ | .bool _ => some fun v => do return .int (← v.toWhole)
  | .float _ => some Value.toFloating
  | _ => none

/-- Are the items plain data?  The items of an array are where it holds floating numbers of double width or texts. -/
def hasPlainItems : Value → Bool
  | .array a => a.type == .float64 || a.type.isText
  | _ => true

def classes (vs : List Value) : List String := (vs.map Value.classText).eraseDups

/-- The chosen value, which is one of some values, where `alike` tells when two data are one. -/
def choose (read : Value → Fallible Value) (values : List Value) :
    Option Value → Except Error (Option Value)
  | none => .ok none
  | some v => do
    let v ← read v
    if values.any (alike v) then .ok (some v) else .error (.notAmong (Value.list values).shown v.plain)

/-- A choice of values of one class. -/
def makeChoice (name : String) (values chosen : Value) : Except Error Variable := do
  let members ← values.members
  if (classes members).length > 1 then
    .error (.mixedChoices values.plain ("\x7b" ++ ", ".intercalate (classes members) ++ "\x7d"))
  else match (reading (← values.at? (.int 0))).filter fun _ => hasPlainItems values with
    | none => .error (.unknownChoices values.plain)
    | some read =>
      let members ← (members.mapM read : Fallible (List Value))
      return choice name members (← choose alike read members chosen.given)

def wholeOf (v : Value) : Except Error Int := do
  let i ← v.toWhole
  if Value.int i == v then return i else throw (.notWhole v.plain)

def makeWholeRange (name : String) (start stop step chosen : Value) : Except Error Variable := do
  return wholeRange name (← wholeOf start) (← wholeOf stop) (← wholeOf step) chosen.given

def makeFloatRange (name : String) (start stop step chosen endpoint : Value) : Except Error Variable := do
  let stop ← stop.toFloating
  let start ← start.toFloating
  let step ← (step.given.mapM Value.toFloating : Fallible (Option Value))
  return floatRange name start stop step chosen.given endpoint

def parameters : VariableClass → List (String × Option Value)
  | .fixed => [Arguments.required "name", Arguments.required "default"]
  | .boolean => [Arguments.required "name", Arguments.optional "default" (.bool false)]
  | .choice => [Arguments.required "name", Arguments.required "values", Arguments.optional "default" .null]
  | .wholeRange => [Arguments.required "name", Arguments.required "start", Arguments.required "stop", Arguments.optional "step" (.int 1),
      Arguments.optional "default" .null, Arguments.optional "endpoint" (.bool false)]
  | .floatRange => [Arguments.required "name", Arguments.required "start", Arguments.required "stop", Arguments.optional "step" .null,
      Arguments.optional "default" .null, Arguments.optional "endpoint" (.bool false)]

def ofArguments : VariableClass → List Value → Except Error Variable
  | .fixed, [name, v] => makeFixed name.plain v
  | .boolean, [name, v] => makeBoolean name.plain v
  | .choice, [name, values, chosen] => makeChoice alike name.plain values chosen
  | .wholeRange, [name, start, stop, step, chosen, _] => makeWholeRange name.plain start stop step chosen
  | .floatRange, [name, start, stop, step, chosen, endpoint] =>
    makeFloatRange name.plain start stop step chosen endpoint
  | _, _ => .error (.fault .type)

def make (c : VariableClass) (args : List Value) (named : Fields) : Except Error Variable := do
  ofArguments alike c (← Arguments.bind (parameters c) args named)

def makeBy (c : VariableClass) (named : Value) : Except Error Variable := do
  make alike c [] (← named.named)

/-! ## 4. States -/

/-- Are two data one?  Data that is kept is itself, also where it differs from itself by value. -/
def kept (a b : Value) : Bool :=
  match a, b with
  | .float x, .float y => x.toBits == y.toBits || a == b
  | _, _ => a == b

def restored : Except Error Variable := make kept v.kind [] v.state

def document : Value :=
  .record [("class_name", .str v.kind.name), ("state", .record v.state)]

def ofDocument (v : Value) : Except Error Variable :=
  match v.field? "class_name", v.field? "state" with
  | some c, some s =>
    if !c.isKey then .error (.fault .type)
    else match c.str?.bind VariableClass.ofName? with
      | none => .error (.fault .key)
      | some c => makeBy alike c s
  | _, _ => .error (.notState v.plain)

def report : Fields :=
  [("repr", .str v.text), ("state", .record v.state), ("default", v.default)]

end Variable

end TensorKit.Tuning

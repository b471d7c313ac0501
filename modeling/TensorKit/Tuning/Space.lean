import TensorKit.Tuning.Variable
/-!
Spaces of variables.

A space holds variables and values, both by name.  Declaring a variable gives its value: the one it has if the name was
declared before, the value that is already stored under the name, or its default.  Values can be read and changed for the
names that have one.
-/

namespace TensorKit.Tuning

structure Space where
  declared : Table String Variable := []
  values : Table String Value := []

variable (s : Space)

namespace Space

def get (name : String) : Except Error Value :=
  demand (.missing name) (s.values.get? name)

def set (name : String) (v : Value) : Except Error Space :=
  if s.values.has name then .ok { s with values := s.values.set name v } else .error (.missing name)

def contains (name : String) : Bool := s.values.has name

/-- Add a variable; a name that has no value gets the default. -/
def register (v : Variable) : Space where
  declared := s.declared.set v.name v
  values := if s.values.has v.name then s.values else s.values.set v.name v.default

def declare (v : Variable) : Except Error (Space × Value) := do
  let v ← v.restored
  let s := if s.declared.has v.name then s else s.register v
  return (s, ← s.get v.name)

/-- Declare a variable of a class by its arguments.  Whether a range has its endpoint cannot be given. -/
def declareBy (c : VariableClass) (args : List Value) : Except Error (Space × Value) := do
  if ((Variable.parameters c).filter fun p => p.1 != "endpoint").length < args.length then .error (.fault .type)
  else s.declare (← Variable.make Value.same c args [])

def document : Value :=
  .record [("variables", .list (s.declared.values.map Variable.document)), ("values", .record s.values)]

def ofDocument (alike : Value → Value → Bool) (d : Value) : Except Error Space := do
  let vs ← (← d.at? (.str "variables")).members
  let vs ← vs.mapM (Variable.ofDocument alike)
  match ← d.at? (.str "values") with
  | .dict ps => return ⟨.ofList (vs.map fun v => (v.name, v)), .ofList (ps.map fun p => (p.1.plain, p.2))⟩
  | _ => throw (.fault .attribute)

def restored : Except Error Space := ofDocument Variable.kept s.document

end Space

end TensorKit.Tuning

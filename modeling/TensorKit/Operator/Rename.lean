import TensorKit.Operator.Mapping
import TensorKit.Value.Array
/-!
Renaming operators and arguments.

The static graph knows some operators and arguments by older names.  A list of renamings says what an operator, its
gradient operator and their arguments are called there.  Renaming follows a name everywhere: in the argument lists, in
the call of the forward operator, in the parameters and selectors of the kernels, in the table of overwritten inputs,
and with `_grad` appended for gradients.
-/

namespace TensorKit.Operator

open Text

structure RenameEntry where
  /-- the operator, with its other name in parentheses if it has one -/
  op : Option String := none
  /-- its gradient operators in the same form, separated by commas -/
  backward : Option String := none
  inputs : Option Texts := none
  attrs : Option Texts := none
  outputs : Option Texts := none

variable (d : Definition)

def Definition.inputNames : List String := d.inputs.map fun i => i.arg.name

def Definition.attrNames : List String := d.attrs.map Arg.name

def Definition.outputNames : List String := d.outputs.map fun o => o.arg.name

/-- A definition for the static graph: its name there, and the argument names before any renaming. -/
structure StaticOp where
  definition : Definition
  opName : String
  inputNames : List String
  attrNames : List String
  outputNames : List String

def StaticOp.of : StaticOp where
  definition := d
  opName := d.name
  inputNames := d.inputNames
  attrNames := d.attrNames
  outputNames := d.outputNames

def bothNames (s : String) : String × String :=
  match split '(' s with
  | a :: b :: _ => (strip a, strip (before ')' b))
  | a :: _ => (strip a, strip a)
  | [] => (strip s, strip s)

variable (m : Texts)

def renamed (n : String) : String := (m.get? n).getD n

/-- What a parameter becomes; literals stay, and one that cannot be looked up is refused. -/
def Param.renamed : Param → Fallible Param
  | .name n => .ok (.name (Operator.renamed m n))
  | .literal v => if v.isKey then .ok (.literal v) else .error .type

def renamedParams : Option (List Param) → Fallible (Option (List Param))
  | none => .ok none
  | some ps => return some (← ps.mapM (Param.renamed m))

def Candidates.renamed (c : Candidates) : Candidates :=
  { c with names := c.names.map (Operator.renamed m) }

def Kernel.renamed (k : Kernel) : Fallible Kernel := do
  let param ← renamedParams m k.param
  return { k with
    param := param
    dataType := k.dataType.map (Candidates.renamed m)
    backend := k.backend.map (Candidates.renamed m)
    layout := k.layout.map (Candidates.renamed m) }

def InferMetaEntry.renamed (r : InferMetaEntry) : Fallible InferMetaEntry := do
  let param ← renamedParams m r.param
  return { r with param := param }

def turnInplace (t : Texts) : Texts :=
  t.foldl (fun acc p => acc.set (renamed m p.2) (renamed m p.1)) []

def Body.renamed : Body → Fallible Body
  | .invoke _ => .error .key
  | .kernel rule k inplace => do
    let rule ← rule.renamed m
    let k ← k.renamed m
    return .kernel rule k (inplace.map (turnInplace m))

/-- Rename what a gradient operator is computed by; its table of overwritten inputs stays. -/
def Body.renamedBackward : Body → Fallible Body
  | .invoke _ => .error .key
  | .kernel rule k inplace => do
    let rule ← rule.renamed m
    let k ← k.renamed m
    return .kernel rule k inplace

def Arg.renamed (m : Option Texts) (a : Arg) : Arg :=
  { a with name := Operator.renamed (m.getD []) a.name }

def OutputArg.renamed (m : Option Texts) (o : OutputArg) : OutputArg :=
  { o with name := Operator.renamed (m.getD []) o.name }

variable (r : RenameEntry)

def ForwardCall.renamed (f : ForwardCall) : ForwardCall :=
  let change (m : Option Texts) (t : TypedName) : TypedName :=
    { t with name := Operator.renamed (m.getD []) t.name }
  { f with
    inputs := f.inputs.map (change r.inputs)
    attrs := f.attrs.map (change r.attrs)
    outputs := f.outputs.map (change r.outputs) }

def RenameEntry.renamesArgs : Bool :=
  r.inputs.isSome || r.attrs.isSome || r.outputs.isSome

/-- All names of a renaming in one table; outputs win over attributes and those over inputs. -/
def RenameEntry.args : Texts :=
  ((Table.update [] (r.inputs.getD [])).update (r.attrs.getD [])).update (r.outputs.getD [])

/-- The new name of a gradient whose variable is renamed. -/
def gradRenamed? (n : String) : Option String :=
  match Naming.forwardName? n with
  | some v => (m.get? v).map Naming.gradName
  | none => none

/-- Rename an input of a gradient operator, and remember gradients that were renamed. -/
def renameBackwardInput (acc : Texts × List Input) (i : Input) : Texts × List Input :=
  let (m, done) := acc
  match m.get? i.arg.name with
  | some n => (m, done ++ [{ i with arg := { i.arg with name := n } }])
  | none =>
    match gradRenamed? m i.arg.name with
    | some n => (m.set i.arg.name n, done ++ [{ i with arg := { i.arg with name := n } }])
    | none => (m, done ++ [i])

/-- Rename an output of a gradient operator, which is renamed only as a gradient. -/
def renameBackwardOutput (acc : Texts × List Output) (o : Output) : Texts × List Output :=
  let (m, done) := acc
  match gradRenamed? m o.arg.name with
  | some n => (m.set o.arg.name n, done ++ [{ o with arg := { o.arg with name := n } }])
  | none => (m, done ++ [o])

def Definition.renameForward : Fallible Definition := do
  let body ← d.body.renamed r.args
  return { d with
    inputs := d.inputs.map fun i => { i with arg := i.arg.renamed r.inputs }
    attrs := d.attrs.map (Arg.renamed r.attrs)
    outputs := d.outputs.map fun o => { o with arg := o.arg.renamed r.outputs }
    body := body }

/-- Rename the forward call of a gradient definition; there has to be one if arguments are renamed. -/
def Definition.renameCall : Fallible Definition :=
  match d.forward with
  | some (some f) => .ok { d with forward := some (some (f.renamed r)) }
  | _ => if r.renamesArgs then .error .type else .ok d

def Definition.renameBackward : Fallible Definition := do
  let (m, inputs) := d.inputs.foldl renameBackwardInput (r.args, [])
  let attrs := d.attrs.map (Arg.renamed (some m))
  let (m, outputs) := d.outputs.foldl renameBackwardOutput (m, [])
  let body ← d.body.renamedBackward m
  return { d with
    inputs := inputs
    attrs := attrs
    outputs := outputs
    body := body
    noNeedBuffer := d.noNeedBuffer.map (List.map (Operator.renamed m)) }

def lastNamed? (ops : List StaticOp) (n : String) : Option (StaticOp × Nat) :=
  (ops.zipIdx.filter fun p => p.1.definition.name == n).getLast?

/-- The gradient operator of a forward operator, if it names one, and its position. -/
def gradientOf (grads : List StaticOp) (op : StaticOp) : Fallible (Option (StaticOp × Nat)) :=
  match op.definition.backward.filter fun s => !s.isEmpty with
  | none => .ok none
  | some g =>
    match lastNamed? grads g with
    | none => .error .key
    | some found => .ok (some found)

/-- What a renaming calls the first gradient operator, if it names one. -/
def RenameEntry.gradOpName? : Option String := r.backward.map fun s => (bothNames (before ',' s)).2

/-- Rename a forward operator, given the name of its gradient operator and its own name in the static graph. -/
def StaticOp.renameForward (op : StaticOp) (r : RenameEntry) (backward : Option String) (opName : String) :
    Fallible StaticOp := do
  let d ← { op.definition with backward := backward }.renameForward r
  return { op with definition := d, opName := opName }

def StaticOp.renameBackward (grad : StaticOp) (r : RenameEntry) (call : Definition) : Fallible StaticOp := do
  let d ← call.renameBackward r
  return { grad with definition := d, opName := r.gradOpName?.getD grad.opName }

def applyRename (state : List StaticOp × List StaticOp) (r : RenameEntry) :
    Fallible (List StaticOp × List StaticOp) := do
  let (ops, grads) := state
  let (name, other) := bothNames (← given r.op)
  match lastNamed? ops name with
  | none => return (ops, grads)
  | some (op, i) =>
    let opName := if name = other then op.opName else other
    match ← gradientOf grads op with
    | none =>
      let op' ← op.renameForward r op.definition.backward opName
      return (ops.set i op', grads)
    | some (grad, j) =>
      let call ← grad.definition.renameCall r
      let op' ← op.renameForward r (r.gradOpName?.or op.definition.backward) opName
      let grad' ← grad.renameBackward r call
      return (ops.set i op', grads.set j grad')

def applyRenames (rs : List RenameEntry) (ops grads : List StaticOp) : Fallible (List StaticOp × List StaticOp) :=
  rs.foldlM applyRename (ops, grads)

end TensorKit.Operator

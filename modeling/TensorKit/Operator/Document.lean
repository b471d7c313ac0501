import TensorKit.Value.Document
import TensorKit.Operator.Mapping
/-!
Questions about parsed definitions that are given as documents.

The templates ask parsed definitions simple questions.  The cross-check compares every gradient operator with the
forward operator it calls: one whose forward operator is missing, or does not claim it, is only reported; a mismatch in
the numbers or types of arguments is an error.
-/

namespace TensorKit.Operator.Document

open Text

/-! ## 1. Single questions -/

variable (d : Value)

def isBaseApi : Fallible Bool := do
  if ← d.hasKey "kernel" then d.hasKey "infer_meta" else return false

def hasRowsKernel : Fallible Bool := do
  if ← isBaseApi d then return (← (← (← d.need "kernel").need "func").size) == 2 else return false

def overwrites : Fallible Bool := do
  match ← d.need "inplace" with
  | .null => return false
  | _ => return true

/-- Is there an input whose contents are not needed? -/
def hasUnneededBuffer : Fallible Bool := do
  let rec go : List Value → Fallible Bool
    | [] => return false
    | i :: is => do if (← i.need "no_need_buffer").truthy then return true else go is
  go (← (← d.need "inputs").members)

def typedName : Fallible TypedName := do
  let typename ← d.need "typename"
  let name ← d.need "name"
  return ⟨name.plain, typename.plain⟩

def attrCombinations : Fallible (List String) := do
  return Operator.attrCombinations (← (← d.members).mapM typedName)

def kernelSignatures : Fallible String := do
  let kernels ← (← (← d.need "kernel").need "func").members
  let inputs ← (← (← d.need "inputs").members).filterMapM fun x => do
    let n ← x.need "name"
    let ps ← (← (← d.need "kernel").need "param").members
    return if ps.any n.same then some n else none
  let inputs ← inputs.mapM fun n => match n with
    | .str s => .ok s
    | _ => Except.error FailureKind.attribute
  let attrs ← (← (← d.need "attrs").members).mapM typedName
  let outputs ← (← (← d.need "outputs").members).mapM fun o => do
    match ← o.need "name" with
    | .str s => return s
    | _ => Except.error FailureKind.attribute
  return Operator.kernelSignatures (kernels.map Value.plain) inputs attrs outputs

def isScalarType (s : String) : Bool := hasStart "Scalar" s

/-! ## 2. Tables by name -/

/-- What can be wrong with a list of definitions. -/
inductive DocumentError where
  | unnamed (item : Value)
  | nameMismatch (grad : String)
  | moreInputs (grad : String)
  | moreAttrs (grad : String)
  | moreOutputs (grad : String)
  | typeMismatch (grad op : String)
  | fault (kind : FailureKind)

instance : Cause DocumentError where
  kind
    | .unnamed _ => .key
    | .fault k => k
    | _ => .assertion
  message
    | .unnamed item => some ("name not in " ++ item.plain)
    | .nameMismatch g => some s!"{g}: backward and forward name mismatch"
    | .moreInputs g => some s!"{g}: forward call has more inputs than the api"
    | .moreAttrs g => some s!"{g}: forward call has more attrs than the api"
    | .moreOutputs g => some s!"{g}: forward call has more outputs than the api"
    | .typeMismatch g op => some s!"type mismatch in {g} and {op}"
    | .fault _ => none

def lift {α : Type} : Fallible α → Except DocumentError α
  | .ok a => .ok a
  | .error k => .error (.fault k)

/-- Definitions by their names; a later one replaces an earlier one of its name. -/
def addNamed (acc : Pairs) (item : Value) : Except DocumentError Pairs := do
  if ← lift (item.hasKey "name") then
    return Value.store (← lift (item.need "name")) item acc
  else .error (.unnamed item)

def byName (items : Value) : Except DocumentError Pairs := do
  (← lift items.members).foldlM addNamed []

/-! ## 3. The cross-check -/

def part (k : String) (d : Value) : Except DocumentError Value := lift (d.need k)

def parts (k : String) (d : Value) : Except DocumentError (List Value) := do
  lift (← part k d).members

/-- Corresponding arguments have the same type word. -/
def checkTypes (mismatch : DocumentError) (pairs : Pairs) : Except DocumentError Unit :=
  pairs.forM fun p => do
    ensure ((← part "typename" p.1).same (← part "typename" p.2)) mismatch

/-- Corresponding attributes have the same type word, but a call may leave out the element type of a
scalar. -/
def checkAttrTypes (mismatch : DocumentError) (pairs : Pairs) : Except DocumentError Unit :=
  pairs.forM fun p => do
    let t ← part "typename" p.1
    if t.same (.str "Scalar") then
      ensure (isScalarType (← lift (← part "typename" p.2).needText)) mismatch
    else ensure (t.same (← part "typename" p.2)) mismatch

/-- Compare a gradient operator with the forward operator it calls. -/
def checkCall (name : Value) (call op : Value) (opName : Value) : Except DocumentError Unit := do
  let g := name.plain
  let mismatch := DocumentError.typeMismatch g opName.plain
  let inputs := (← parts "inputs" call, ← parts "inputs" op)
  ensure (inputs.1.length ≤ inputs.2.length) (DocumentError.moreInputs g)
  checkTypes mismatch (inputs.1.zip inputs.2)
  let attrs := (← parts "attrs" call, ← parts "attrs" op)
  ensure (attrs.1.length ≤ attrs.2.length) (DocumentError.moreAttrs g)
  checkAttrTypes mismatch (attrs.1.zip attrs.2)
  let outputs := (← parts "outputs" call, ← parts "outputs" op)
  ensure (outputs.1.length == outputs.2.length) (DocumentError.moreOutputs g)
  checkTypes mismatch (outputs.1.zip outputs.2)

/-- Check one operator: the lines it prints, and whether it is in order. -/
def checkOne (ops : Pairs) (name d : Value) : List String × Except DocumentError Unit :=
  let start : Except DocumentError (Option (Value × Value × Option Value)) := do
    if ← lift (d.hasKey "forward") then
      let call ← part "forward" d
      let opName ← part "name" call
      return some (call, opName, Value.lookup opName ops)
    else return none
  match start with
  | .error e => ([], .error e)
  | .ok none => ([], .ok ())
  | .ok (some (_, opName, none)) =>
    ([s!"Something Wrong here, this backward api({name.plain})'s forward api({opName.plain}) does not exist."],
      .ok ())
  | .ok (some (call, opName, some op)) =>
    match op.field? "backward" with
    | none | some .null =>
      ([s!"Something Wrong here, {name.plain}'s forward api({opName.plain}) does not claim {name.plain} as its backward."],
        checkCall name call op opName)
    | some b =>
      ([], do
        ensure (b.same name) (DocumentError.nameMismatch name.plain)
        checkCall name call op opName)

def checkFrom (ops : Pairs) : Pairs → List String × Except DocumentError Unit
  | [] => ([], .ok ())
  | (name, d) :: rest =>
    match checkOne ops name d with
    | (lines, .error e) => (lines, .error e)
    | (lines, .ok ()) =>
      let (more, r) := checkFrom ops rest
      (lines ++ more, r)

def collect : List Value → Except DocumentError Pairs
  | [] => .ok []
  | files => files.foldlM
    (fun acc f => match f with
      | .null => .ok acc
      | items => do
        return (← byName items).foldl (fun acc p => Value.store p.1 p.2 acc) acc) []

def crossCheck (forward backward : Value) : List String × Except DocumentError Unit :=
  match collect [forward, backward] with
  | .error e => ([], .error e)
  | .ok ops => checkFrom ops ops

end TensorKit.Operator.Document

import TensorKit.Operator.Eager.Reading
/-!
Eager functions, before any code is printed.

An eager function is made from the definition of a forward operator and, if it can be differentiated, that of its
gradient operator, which states the signature of the forward operator once more; both have to agree.  The arguments of
the gradient operator are forward inputs and outputs, which are saved for it, then gradients of forward outputs, then
attributes; its outputs are gradients of forward inputs.
-/

namespace TensorKit.Operator.Eager

open Text

/-! ## 1. The parts of an eager function -/

structure Slot where
  form : TensorForm
  position : Nat

structure SavedSlot where
  form : TensorForm
  /-- is it a forward input, or a forward output? -/
  isInput : Bool
  /-- its position among the arguments of the gradient operator -/
  position : Nat

structure GradSlot where
  form : TensorForm
  /-- the position of the forward tensor whose gradient it is -/
  forward : Nat
  /-- its position among the arguments or outputs of the gradient operator -/
  position : Nat

structure Gradient where
  name : String
  attrs : List AttrArg
  saved : Table String SavedSlot := []
  gradInputs : Table String GradSlot := []
  gradOutputs : Table String GradSlot := []
  inplace : Texts
  noNeedBuffer : List String
  optional : List String
  invoke : Option String

structure Function where
  name : String
  /-- the signature that the gradient operator states -/
  stated : Signature
  /-- the signature that the definition gives -/
  written : Signature
  inputs : Table String Slot
  outputs : Table String Slot
  optional : List String
  intermediate : List String
  /-- the outputs that take the place of inputs, by input; absent if none are written -/
  inplace : Option Texts
  gradient : Option Gradient

/-! ## 2. Fields and agreement of signatures -/

def checkFields (e : Entry) (grad : Option Entry) : Making Unit := do
  ensure e.op.isSome (Error.missing "op" "ops.yaml")
  ensure e.args.isSome (Error.missing "args" "ops.yaml")
  ensure e.output.isSome (Error.missing "output" "ops.yaml")
  match grad with
  | none => return ()
  | some g =>
    ensure e.backward.isSome (Error.missing "backward" "ops.yaml")
    ensure g.args.isSome (Error.missing "args" "backward.yaml")
    ensure g.output.isSome (Error.missing "output" "backward.yaml")
    ensure g.forward.isSome (Error.missing "forward" "backward.yaml")

def agree (left right : String) : Making Unit := ensure (left = right) (Error.mismatch left right)

def agreeAt (left right : Nat) : Making Unit := agree (toString left) (toString right)

def lastPosition (ps : List Nat) : Int := ps.foldl (fun (m : Int) (p : Nat) => max m p) (-1)

/-- A position that has to come after another; if it does not, the position and `shown` are named. -/
def after (bound shown : Int) (p : Nat) : Making Unit :=
  ensure (bound < p) (Error.mismatch (toString p) (toString shown))

/-- The stated signature agrees with the written one in forms and positions, argument by argument, and
attributes follow tensors. -/
def checkStated (stated written : Signature) : Making Unit := do
  stated.inputs.zipIdx.forM fun (a, i) => do
    let b ← item written.inputs i
    agree a.form.type b.form.type
    agreeAt a.position b.position
  stated.attrs.zipIdx.forM fun (a, i) => do
    let b ← item written.attrs i
    agree b.type a.type
    agreeAt b.position a.position
  stated.returns.zipIdx.forM fun (a, i) => do
    let b ← item written.returns i
    agree b.form.type a.form.type
    agreeAt b.position a.position
  let last := lastPosition (stated.inputs.map TensorArg.position)
  stated.attrs.forM fun a => after last last a.position

/-! ## 3. Positions -/

def inputSlots (inputs : List TensorArg) : Table String Slot :=
  .ofList (inputs.map fun a => (a.name, ⟨a.form, a.position⟩))

/-- The name of an output: if none is written, `out`, with a number if there are several. -/
def outputName (count i : Nat) (a : TensorArg) : String :=
  if a.name.isEmpty then (if count = 1 then "out" else "out_" ++ toString (i + 1)) else a.name

def outputSlots (returns : List TensorArg) : Table String Slot :=
  .ofList (returns.zipIdx.map fun (a, i) => (outputName returns.length i a, ⟨a.form, a.position⟩))

/-! ## 4. Matching a gradient operator -/

/-- Match an argument of a gradient operator: a gradient of a forward output, or a forward input or
output. -/
def matchInput (inputs outputs : Table String Slot) (g : Gradient) (a : TensorArg) : Making Gradient :=
  match (Naming.forwardName? a.name).filter fun n => !n.isEmpty with
  | some n =>
    match outputs.get? n with
    | some slot => .ok { g with gradInputs := g.gradInputs.set a.name ⟨a.form, slot.position, a.position⟩ }
    | none => .error (.mismatch n (keysText outputs.keys))
  | none =>
    if inputs.has a.name then .ok { g with saved := g.saved.set a.name ⟨a.form, true, a.position⟩ }
    else if outputs.has a.name then .ok { g with saved := g.saved.set a.name ⟨a.form, false, a.position⟩ }
    else .error (.notFound a.name)

def matchOutput (inputs : Table String Slot) (g : Gradient) (a : TensorArg) : Making Gradient :=
  match Naming.forwardName? a.name with
  | none => .error .noGradient
  | some n =>
    match inputs.get? n with
    | some slot => .ok { g with gradOutputs := g.gradOutputs.set a.name ⟨a.form, slot.position, a.position⟩ }
    | none => .error (.mismatch n (keysText inputs.keys))

/-- Saved tensors come first, then gradients, then attributes. -/
def checkOrder (g : Gradient) : Making Unit := do
  let lastSaved := lastPosition (g.saved.values.map SavedSlot.position)
  let last ← g.gradInputs.values.foldlM (fun last s => do
    after lastSaved last s.position
    return max last (s.position : Int)) (-1)
  g.attrs.forM fun a => after last last a.position

/-- Intermediate outputs stand at the end of the outputs. -/
def checkIntermediate (intermediate : List String) (returns : List TensorArg) : Making Unit :=
  let first : Int := returns.length - intermediate.length
  let count := returns.length
  returns.forM fun a => ensure (!intermediate.elem a.name || decide (first ≤ a.position ∧ a.position < count))
    (Error.mismatch (toString a.position) s!"range({first}, {count})")

/-! ## 5. Making an eager function -/

def readInplaceField (s : Option String) : Making (Option Texts) :=
  match s with
  | none => .ok none
  | some s => do return some (← readInplace s)

/-- The eager function of a definition and the definition of its gradient operator. -/
def Function.ofEntries (e : Entry) (grad : Option Entry) : Making Function := do
  checkFields e grad
  let name ← found e.op
  let args ← found e.args
  let output ← found e.output
  let inplace ← readInplaceField e.inplace
  let gradInplace ← readInplaceField (grad.bind Entry.inplace)
  let intermediate := readNames e.intermediate
  -- at this point no output has been read
  checkIntermediate intermediate []
  let gradient ← match grad with
    | none => pure none
    | some g => do
      let s ← readBackward (← found g.args) (← found g.output)
      let part : Gradient := {
        name := ← found e.backward
        attrs := s.attrs
        inplace := gradInplace.getD []
        noNeedBuffer := (readNames g.noNeedBuffer).map strip
        optional := readNames g.optional
        invoke := g.invoke }
      pure (some (part, s, ← readCall (← found g.forward)))
  let stated ← match gradient with
    | some (_, _, stated) => pure stated
    | none => readCall (args ++ " -> " ++ output)
  let written ← readForward args output
  checkStated stated written
  let inputs := inputSlots stated.inputs
  let outputs := outputSlots stated.returns
  let gradient ← match gradient with
    | none => pure none
    | some (part, s, _) => do
      let part ← s.inputs.foldlM (matchInput inputs outputs) part
      let part ← s.returns.foldlM (matchOutput inputs) part
      checkOrder part
      pure (some part)
  return {
    name := name
    stated := stated
    written := written
    inputs := inputs
    outputs := outputs
    optional := readNames e.optional
    intermediate := intermediate
    inplace := inplace
    gradient := gradient }

end TensorKit.Operator.Eager

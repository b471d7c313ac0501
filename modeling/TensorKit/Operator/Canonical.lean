import TensorKit.Operator.Entry
import TensorKit.Operator.Pattern
import TensorKit.Operator.TypeTable
/-!
Definitions in canonical form.

`Definition.ofEntry` reads a written entry into typed parts: inputs with their flags, attributes, outputs, the kernel
with the arguments that select it, and for a gradient operator the call of its forward operator.  It is the strictest of
the readers: every argument has a known type, inputs come before attributes, defaults come last, and every name in a
list of names belongs to the operator.
-/

namespace TensorKit.Operator

open Text

/-! ## 1. Parts of a definition -/

structure Arg where
  typename : String
  name : String
  default : Option String := none
  deriving DecidableEq

/-- An output: a type word, a name, and the expression for the number of its tensors. -/
structure OutputArg where
  typename : String
  name : String
  size : Option String := none
  deriving DecidableEq

structure Input where
  arg : Arg
  optional : Bool := false
  noNeedBuffer : Bool := false
  deriving DecidableEq

structure Output where
  arg : OutputArg
  intermediate : Bool := false
  deriving DecidableEq

/-- Arguments that select a kernel: by preference from left to right, or together. -/
structure Candidates where
  ordered : Bool
  names : List String

/-- The kernels of an operator, their parameters, and what selects among them. -/
structure Kernel where
  func : List String
  param : Option (List Param)
  backend : Option Candidates
  layout : Option Candidates
  dataType : Option Candidates

structure TypedName where
  name : String
  typename : String
  deriving DecidableEq

structure ForwardCall where
  name : String
  inputs : List TypedName
  attrs : List TypedName
  outputs : List TypedName

structure Invocation where
  func : String
  args : String

/-- How an operator is computed: by kernels, with a shape rule and a table of inputs that outputs
overwrite, or by calling another operator. -/
inductive Body where
  | kernel (inferMeta : InferMetaEntry) (kernel : Kernel) (inplace : Option Texts)
  | invoke (call : Invocation)

structure Definition where
  name : String
  inputs : List Input
  attrs : List Arg
  outputs : List Output
  noNeedBuffer : Option (List String)
  body : Body
  backward : Option String
  /-- for gradient operators, the forward call if one is written -/
  forward : Option (Option ForwardCall)

/-! ## 2. What can be wrong -/

/-- Why a definition has no canonical form. -/
inductive DefinitionError where
  /-- a part of an argument that is not written -/
  | emptyPart (op part : String)
  | manyEquals (op : String)
  | notParenthesised (op : String)
  | inputAfterAttr (op input : String)
  | defaultBeforeNone (op : String)
  | unknownArgType (op typename : String)
  | unknownOutputType (op typename : String)
  | sizeOfSingle (op output : String)
  | badDefault (op typename : String)
  /-- a name that is marked and is none of those on its side -/
  | notListed (op mark side name : String)
  | extraAttrWithoutDefault (op : String)
  | tooManyInputs (op : String)
  | tooManyOutputs (op : String)
  | fault (kind : FailureKind)
  deriving DecidableEq

variable (op : String)

namespace DefinitionError

def emptyPartText (op part : String) : String :=
  s!"The {part} should not be empty. Please check the args of {op} in yaml."

def notParenthesisedText : String :=
  s!"Args declaration should start with '(' and end with ')', please check the args of {op} in yaml."

def inputAfterAttrText (op input : String) : String :=
  "The input Tensor should appear before attributes. " ++
    s!"please check the position of {op}:input({input}) in yaml"

def text : DefinitionError → String
  | emptyPart op part => emptyPartText op part
  | manyEquals op => s!"There is more than 1 = in an arg in {op}"
  | notParenthesised op => notParenthesisedText op
  | inputAfterAttr op input => inputAfterAttrText op input ++ "."
  | defaultBeforeNone op =>
    s!"{op}: Arguments with default value should not precede those without default value"
  | unknownArgType op typename => s!"{op}: Invalid argument type {typename}."
  | unknownOutputType op typename =>
    s!"Invalid output type: {typename} in api: {op}.Supported types are Tensor and Tensor[]"
  | sizeOfSingle op output =>
    s!"Invalid output size: output {output} in api: {op} is not a vector but has size expr"
  | badDefault op typename => s!"invalid {typename} default value in {op}"
  | notListed op mark side name => s!"{op} has an {mark} {side}: '{name}' which is not an {side}."
  | extraAttrWithoutDefault op => s!"{op} has exceptional attr without default value"
  | tooManyInputs op => s!"{op} has too many inputs."
  | tooManyOutputs op => s!"{op} has too many outputs"
  | fault _ => ""

instance : Faulty DefinitionError where
  fault := .fault
  kind
    | unknownArgType .. => .key
    | fault k => k
    | _ => .assertion
  message
    | fault _ => none
    | e => some e.text

end DefinitionError

abbrev Reading := Except DefinitionError

/-! ## 3. Reading the parts -/

/-- The items of a written list: cut at the separator, blanks removed.  An empty separator cuts nothing
and is refused. -/
def plainList (s sep : String) : Reading (List String) :=
  if sep.isEmpty then .error (.fault .value) else .ok ((splitText sep (strip s)).map strip)

variable (s : String)

def commaList : List String := splitStrip ',' (strip s)

def readArg (op s : String) : Reading Arg := do
  let (typename, rest) ← match cut? ' ' s with
    | some (a, b) => pure (strip a, strip b)
    | none => .error (.fault .value)
  ensure (!typename.isEmpty) (DefinitionError.emptyPart op "arg typename")
  ensure (count '=' rest ≤ 1) (DefinitionError.manyEquals op)
  match cut? '=' rest with
  | some (a, b) =>
    ensure (!(strip a).isEmpty) (DefinitionError.emptyPart op "arg name")
    ensure (!(strip b).isEmpty) (DefinitionError.emptyPart op "default value")
    return ⟨typename, strip a, some (strip b)⟩
  | none =>
    ensure (!(strip rest).isEmpty) (DefinitionError.emptyPart op "arg name")
    return ⟨typename, strip rest, none⟩

/-- The inside of a text in parentheses, if it is one. -/
def unparenthesise? : Option String :=
  let cs := (strip s).toList
  if cs.head? == some '(' && cs.getLast? == some ')' then some (.ofList (cs.drop 1).dropLast)
  else none

def addArg (acc : List Arg × List Arg) (s : String) : Reading (List Arg × List Arg) := do
  let (inputs, attrs) := acc
  let arg ← readArg op s
  if TypeTable.isInput arg.typename then
    ensure attrs.isEmpty (DefinitionError.inputAfterAttr op arg.name)
    return (inputs ++ [arg], attrs)
  else if TypeTable.isAttr arg.typename then
    ensure (arg.default.isSome || !attrs.any (fun a => a.default.isSome))
      (DefinitionError.defaultBeforeNone op)
    return (inputs, attrs ++ [arg])
  else .error (.unknownArgType op arg.typename)

def readArgs (op s : String) : Reading (List Arg × List Arg) := do
  match unparenthesise? s with
  | some inner => (commaList inner).foldlM (addArg op) ([], [])
  | none => .error (.notParenthesised op)

def readOutput (op s : String) : Reading OutputArg := do
  match Pattern.output? s with
  | none => .error (.fault .attribute)
  | some o =>
    let name := o.name.getD "out"
    ensure (TypeTable.isOutput o.type) (DefinitionError.unknownOutputType op o.type)
    ensure (o.size.isNone || hasEnd "[]" o.type) (DefinitionError.sizeOfSingle op name)
    return ⟨o.type, name, o.size⟩

def readOutputs (op s : String) : Reading (List OutputArg) := (commaList s).mapM (readOutput op)

/-- Arguments that select a kernel, ordered if the text has the sign `>`. -/
def readCandidates : Candidates :=
  let ordered := contains ">" s
  ⟨ordered, splitStrip (if ordered then '>' else ',') (strip s)⟩

def readKernel (k : KernelEntry) : Reading Kernel := do
  let func ← found k.func
  return ⟨commaList func, k.param, k.backend.map readCandidates, k.layout.map readCandidates,
    k.dataType.map readCandidates⟩

def addInplace (t : Texts) (pair : String) : Reading Texts :=
  match (splitText "->" (strip pair)).map strip with
  | [input, output] => .ok (t.set output input)
  | _ => .error (.fault .value)

/-- The table of overwritten inputs: for each output the input it takes the place of. -/
def readInplace : Reading Texts :=
  (commaList (stripRightOf ')' (stripLeftOf '(' s))).foldlM addInplace []

def readInvocation : Reading Invocation :=
  match cut? '(' (strip s) with
  | some (func, rest) => .ok ⟨strip func, strip (stripRightOf ')' rest)⟩
  | none => .error (.fault .value)

def Arg.bare (a : Arg) : TypedName := ⟨a.name, a.typename⟩

def OutputArg.bare (o : OutputArg) : TypedName := ⟨o.name, o.typename⟩

def readForward (op s : String) : Reading ForwardCall := do
  match Pattern.call? s with
  | none => .error (.fault .attribute)
  | some c =>
    let outputs ← readOutputs op c.outputs
    let (inputs, attrs) ← readArgs op c.args
    return ⟨c.name, inputs.map Arg.bare, attrs.map Arg.bare, outputs.map OutputArg.bare⟩

/-! ## 4. Checks of a gradient operator against its forward call -/

/-- Attributes beyond those of the forward operator, counted from the end, need defaults. -/
def checkBackwardAttrs (forward : Nat) (hasDefault : List Bool) : Reading Unit :=
  if hasDefault.length ≤ forward then .ok ()
  else ensure ((hasDefault.drop forward).all id) (DefinitionError.extraAttrWithoutDefault op)

/-- There are at most as many inputs as forward inputs and twice the forward outputs. -/
def checkBackwardInputs (forwardInputs forwardOutputs backwardInputs : Nat) : Reading Unit :=
  ensure (backwardInputs ≤ forwardInputs + 2 * forwardOutputs) (DefinitionError.tooManyInputs op)

def checkBackwardOutputs (forwardInputs backwardOutputs : Nat) : Reading Unit :=
  ensure (backwardOutputs ≤ forwardInputs) (DefinitionError.tooManyOutputs op)

/-! ## 5. Reading an entry -/

/-- Defaults of data types and layouts begin at the name of their type: what stands before it is a
namespace. -/
def normaliseDefault (a : Arg) : Reading Arg :=
  match a.default with
  | none => .ok a
  | some d =>
    if a.typename = "DataType" || a.typename = "DataLayout" then
      match fromFirst? a.typename d with
      | some d' => .ok { a with default := some d' }
      | none => .error (.badDefault op a.typename)
    else .ok a

def checkedNames (known : List String) (wrong : String → DefinitionError) (s : Option String) :
    Reading (Option (List String)) :=
  match s with
  | none => .ok none
  | some s => do
    let names := commaList s
    names.forM fun n => ensure (known.elem n) (wrong n)
    return some names

def listed (names : Option (List String)) (n : String) : Bool := (names.getD []).elem n

/-- Which field names an operator: forward operators and gradient operators are written in different
files. -/
inductive NameField where
  | op
  | backwardOp

def Entry.nameBy (e : Entry) : NameField → Option String
  | .op => e.op
  | .backwardOp => e.backwardOp

def readBody (e : Entry) (argNames : List String) : Reading Body := do
  match e.invoke with
  | some s => return .invoke (← readInvocation s)
  | none =>
    let kernel ← readKernel (← found e.kernel)
    let param := kernel.param.getD (argNames.map .name)
    let kernel := { kernel with param := some param }
    let rule ← found e.inferMeta
    let rule := { rule with param := some (rule.param.getD param) }
    let inplace ← match e.inplace with
      | some s => some <$> readInplace s
      | none => pure none
    return .kernel rule kernel inplace

/-- The forward call of a written gradient entry, checked against the parts of the gradient operator. -/
def readForwardChecked (inputs attrs : List Arg) (outputs : List OutputArg)
    (s : Option String) : Reading (Option ForwardCall) :=
  match s with
  | none => .ok none
  | some s => do
    let f ← readForward op s
    checkBackwardInputs op f.inputs.length f.outputs.length inputs.length
    checkBackwardAttrs op f.attrs.length (attrs.map fun a => a.default.isSome)
    checkBackwardOutputs op f.inputs.length outputs.length
    return some f

def Definition.ofEntry (e : Entry) (field : NameField) : Reading Definition := do
  let op ← found (e.nameBy field)
  let (inputs, attrs) ← readArgs op (← found e.args)
  let outputs ← readOutputs op (← found e.output)
  let attrs ← attrs.mapM (normaliseDefault op)
  let inputNames := inputs.map Arg.name
  let optional ← checkedNames inputNames (.notListed op "optional" "input") e.optional
  let intermediate ←
    checkedNames (outputs.map OutputArg.name) (.notListed op "intermediate" "output") e.intermediate
  let noBuffer ← checkedNames inputNames (.notListed op "no buffer" "input") e.noNeedBuffer
  let body ← readBody e (inputNames ++ attrs.map Arg.name)
  let forward ← match field with
    | .op => pure none
    | .backwardOp => some <$> readForwardChecked op inputs attrs outputs e.forward
  return {
    name := op
    inputs := inputs.map fun a => ⟨a, listed optional a.name, listed noBuffer a.name⟩
    attrs := attrs
    outputs := outputs.map fun o => ⟨o, listed intermediate o.name⟩
    noNeedBuffer := noBuffer
    body := body
    backward := e.backward
    forward := forward }

end TensorKit.Operator

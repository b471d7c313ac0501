import TensorKit.Operator.Canonical
import TensorKit.Operator.Naming
/-!
Public functions of operators, before any code is printed.

`Api` holds what the function generator needs of a definition: inputs by the form in which a function takes them,
attributes by their types, outputs, and either the kernels or the call that computes the operator.  There are five kinds
of functions: of forward and of gradient operators, of both on sparse tensors, and of operators on text tensors.
-/

namespace TensorKit.Operator

namespace Api

/-! ## 1. Forms and kinds -/

inductive InputForm where
  | single
  | many
  | optionalSingle
  | optionalMany
  deriving DecidableEq

def InputForm.inplaceType : InputForm → String
  | single => "Tensor&"
  | many => "std::vector<Tensor>&"
  | optionalSingle => "paddle::optional<Tensor>&"
  | optionalMany => "paddle::optional<std::vector<Tensor>>&"

def InputForm.type (form : InputForm) : String := "const " ++ form.inplaceType

def InputForm.isList : InputForm → Bool
  | many | optionalMany => true
  | _ => false

inductive OutputForm where
  | single
  | many
  deriving DecidableEq

namespace OutputForm

def type : OutputForm → String
  | single => "Tensor"
  | many => "std::vector<Tensor>"

def inplaceType (form : OutputForm) : String := form.type ++ "&"

def inplaceOptionalType (form : OutputForm) : String := "paddle::optional<" ++ form.type ++ ">&"

def pointerType : OutputForm → String
  | single => "Tensor*"
  | many => "std::vector<Tensor*>"

end OutputForm

inductive TensorKind where
  | dense
  | selectedRows
  | sparseCoo
  | sparseCsr
  deriving DecidableEq

def TensorKind.word : TensorKind → String
  | dense => "dense"
  | selectedRows => "selected_rows"
  | sparseCoo => "sparse_coo"
  | sparseCsr => "sparse_csr"

def TensorKind.ofWord? (s : String) : Option TensorKind :=
  [dense, selectedRows, sparseCoo, sparseCsr].find? fun k => k.word == s

structure Dispatch where
  inputs : List TensorKind
  outputs : List TensorKind

structure AttrInfo where
  type : String
  default : Option String
  deriving DecidableEq

structure Inputs where
  names : List String := []
  info : Table String InputForm := []
  deriving DecidableEq

structure Attrs where
  names : List String := []
  info : Table String AttrInfo := []
  deriving DecidableEq

structure OutputSpec where
  name : String
  form : OutputForm
  size : Option String

structure KernelSpec where
  func : List String
  param : Option (List Param)
  backend : Option String
  layout : Option String
  dataType : Option String
  useGpudnn : String
  /-- for each kernel the kinds of its tensors, if they are written -/
  dispatch : Table String (Option Dispatch)

structure TransformSpec where
  skip : NameList := .items []
  support : NameList := .items []

inductive BodySpec where
  | invoke (call : String)
  | kernel (inferMeta : Option InferMetaEntry) (kernel : KernelSpec) (transform : TransformSpec)

inductive Kind where
  | forward
  | backward
  | sparse
  | sparseBackward
  | strings
  deriving DecidableEq

/-- Gradient functions return through parameters. -/
def Kind.isBackward : Kind → Bool
  | backward | sparseBackward => true
  | _ => false

end Api

/-- What the function generator needs of a definition. -/
structure Api where
  kind : Api.Kind
  name : String
  inputs : Api.Inputs
  attrs : Api.Attrs
  outputs : List Api.OutputSpec
  optional : List String
  body : Api.BodySpec
  /-- for each output that takes the place of an input, that input -/
  inplace : Texts := []
  /-- for each output that shares memory with an input, that input -/
  view : Texts := []
  /-- does the function return its intermediate outputs? -/
  dygraph : Bool := false
  intermediate : List String := []
  noNeedBuffer : List String := []

variable (op : String) (optional : List String)

namespace Api

open Text

/-! ## 2. What can be wrong -/

inductive Selector where
  | backend
  | layout
  | dataType
  deriving DecidableEq

def Selector.word : Selector → String
  | backend => "backend"
  | layout => "layout"
  | dataType => "data_type"

def Selector.typeWord : Selector → String
  | backend => "Place"
  | layout => "DataLayout"
  | dataType => "DataType"

inductive Error where
  | notParenthesised (op : String)
  | emptyPart (op part : String)
  | inputAfterAttr (op input : String)
  | outputUnreadable (op : String)
  | outputType (op type : String)
  | tensorKind (op side word : String)
  | pair (op mode side name : String)
  | gradientInput (op input : String)
  | gradientAttr (op attr : String)
  | gradientOutputs (op : String)
  | selectorNeeded (op : String) (s : Selector)
  | selectorCount (op : String) (s : Selector) (count : Nat)
  | selectorSingle (op : String) (s : Selector) (count : Nat)
  | selectorType (op : String) (s : Selector)
  | noInput (op : String)
  | sizeMissing (op : String)
  | kindsMissing (op : String) (sparse : Bool)
  | inferMetaParam (op type : String)
  | inferMetaNotSubset (op : String)
  | fault (kind : FailureKind)
  deriving DecidableEq

def Error.text : Error → String
  | notParenthesised op => DefinitionError.notParenthesisedText op
  | emptyPart op part => DefinitionError.emptyPartText op part
  | inputAfterAttr op input => DefinitionError.inputAfterAttrText op input
  | outputUnreadable op => s!"{op} : the output config parse error."
  | outputType op type =>
    s!"{op} : Output type error: the output type only support Tensor and Tensor[],"
      ++ s!"                   but now is {type}."
  | tensorKind op side word =>
    s!"{op} : Invalid {side} tensor type ('{word}'), "
      ++ "here we only support 'dense', 'selected_rows', 'sparse_coo' and 'sparse_csr'."
  | pair op mode side name =>
    s!"{op} : {mode} {side} error: the {side} var name('{name}') "
      ++ s!"is not found in the {side} args of {op}."
  | gradientInput op input =>
    s!"{op} : Input Tensor error: the input tensor({input}) of backward should be an input "
      ++ "or output or grad of output in forward api.                          "
      ++ s!"Please check the forward of {op} in yaml."
  | gradientAttr op attr =>
    s!"{op} : Attribute error: The attribute({attr}) of backward isn't consistent with forward "
      ++ "api or doesn't have default value.                  "
      ++ s!"Please check the args of {op} in yaml."
  | gradientOutputs op =>
    s!"{op} : Output error: The number of outputs should be less then the number of inputs "
      ++ s!"of forward api.              Please check the output of {op} in yaml."
  | selectorNeeded op s =>
    s!"{op} api: When there is a parameter with '{s.typeWord}' type in attributes, "
      ++ s!"you must set {s.word} of kernel manually."
  | selectorCount op s n =>
    s!"{op} api: The number of params to set {s.word} with '>' only allows 2, but received {n}."
  | selectorSingle op s n =>
    let bound := if s = .layout then "must be" else "only allows"
    s!"{op} api: The number of params to set {s.word} {bound} 1, but received {n}."
  | selectorType op s =>
    s!"{op} api: When use '>' to set kernel {s.word}, "
      ++ s!"the first param should be a attribute with {s.typeWord} type."
  | noInput op =>
    s!"{op} api: When there is no input tensor, the args must have 'Place' and 'DataType'."
  | sizeMissing op =>
    s!"{op}: The out size expr : '\x7bexpr\x7d' should be set when output has Tensor[]. "
      ++ "You can refer 'split' api."
  | kindsMissing op sparse =>
    s!"{op} api: the tensor type of inputs and outputs for kernel isn't set, see also 'kernel:func' of "
      ++ (if sparse then "'conv3d' in sparse_ops.yaml." else "'scale' in ops.yaml.")
  | inferMetaParam op type => s!"{op} : Param of infer_meta error : {type} type is not supported."
  | inferMetaNotSubset op =>
    s!"{op} api: Parameters error. The params of infer_meta should be a subset of kernel params."
  | fault _ => ""

instance : Faulty Error where
  fault := .fault
  kind
    | .inferMetaParam .. => .value
    | .fault k => k
    | _ => .assertion
  message
    | .fault _ => none
    | e => some e.text

abbrev Making := Except Error

/-! ## 3. Arguments and outputs -/

def inputForms : Table String (InputForm × InputForm) :=
  [("Tensor", (.single, .optionalSingle)), ("Tensor[]", (.many, .optionalMany))]

def attrTypes : Texts :=
  typed reference ["IntArray", "Place"] ++
  typed (fun _ => "const Scalar&") ["Scalar", "Scalar(int)", "Scalar(int64_t)", "Scalar(float)", "Scalar(dobule)"] ++
  [("Scalar[]", "const std::vector<phi::Scalar>&"), ("str", "const std::string&"),
   ("str[]", "const std::vector<std::string>&")] ++
  typed id ["int", "int32_t", "int64_t", "long", "size_t", "float", "double", "bool", "DataLayout", "DataType"] ++
  vectors reference ["float", "int64_t", "int"]

def optionalAttrTypes : Texts :=
  ["int", "int32_t", "int64_t", "float", "double", "bool", "Place", "DataLayout", "DataType"].map fun word =>
    (word, "paddle::optional<" ++ (attrTypes.get? word).getD word ++ ">")

def addInput (forms : InputForm × InputForm)
    (parts : List String) (acc : Inputs × Attrs) : Making (Inputs × Attrs) := do
  let name := strip (← item parts 1)
  ensure (!name.isEmpty) (Error.emptyPart op "input tensor name")
  ensure acc.2.names.isEmpty (Error.inputAfterAttr op name)
  let form := if optional.elem name then forms.2 else forms.1
  return (⟨acc.1.names ++ [name], acc.1.info.set name form⟩, acc.2)

def addAttr (word type rest : String) (acc : Inputs × Attrs) : Making (Inputs × Attrs) := do
  let text := strip rest
  ensure (!text.isEmpty) (Error.emptyPart op "attribute name")
  let (name, default) := match split '=' text with
    | a :: b :: _ => (strip a, some (strip b))
    | _ => (text, none)
  let type ← if optional.elem name then found (optionalAttrTypes.get? word) else pure type
  return (acc.1, ⟨acc.2.names ++ [name], acc.2.info.set name ⟨type, default⟩⟩)

/-- Add one written argument.  An argument whose type word is not known is passed over. -/
def addArg (acc : Inputs × Attrs) (s : String) : Making (Inputs × Attrs) :=
  let s := strip s
  let parts := split ' ' s
  let word := parts.headD ""
  match inputForms.get? word with
  | some forms => addInput op optional forms parts acc
  | none =>
    match attrTypes.get? word with
    | some type => addAttr op optional word type (dropFirst word.length s) acc
    | none => .ok acc

def readArgs (op s : String) (optional : List String) : Making (Inputs × Attrs) :=
  match unparenthesise? s with
  | some inner => (split ',' inner).foldlM (addArg op optional) ({}, {})
  | none => .error (.notParenthesised op)

def outputForms : Table String OutputForm := [("Tensor", .single), ("Tensor[]", .many)]

def readOutput (op s : String) : Making OutputSpec :=
  match Pattern.output? s with
  | none => .error (.outputUnreadable op)
  | some o =>
    match outputForms.get? o.type with
    | some form => .ok ⟨o.name.getD "out", form, o.size⟩
    | none => .error (.outputType op o.type)

def readOutputs (op s : String) : Making (List OutputSpec) := (split ',' s).mapM (readOutput op)

/-! ## 4. Kernels -/

def readTensorKind (op side s : String) : Making TensorKind :=
  demand (.tensorKind op side s) (TensorKind.ofWord? s)

/-- The kinds of tensors of a kernel, written `inputs -> outputs`. -/
def readDispatch (op s : String) : Making Dispatch :=
  match splitText "->" s with
  | a :: b :: _ => do
    let inputs ← (splitStrip ',' a).mapM (readTensorKind op "input")
    let outputs ← (splitStrip ',' b).mapM (readTensorKind op "output")
    return ⟨inputs, outputs⟩
  | _ => .error (.fault .index)

def nonEmpty? (s : Option String) : Option String := s.filter fun t => !t.isEmpty

def addDispatch (t : Table String (Option Dispatch)) (k : String × Option String) :
    Making (Table String (Option Dispatch)) := do
  match k.2 with
  | none => return t.set k.1 none
  | some s => return t.set k.1 (some (← readDispatch op s))

def readKernel (k : KernelEntry) : Making KernelSpec := do
  let kernels := Pattern.kernels (← found k.func)
  let dispatch ← kernels.foldlM (addDispatch op) []
  return {
    func := kernels.map Prod.fst
    param := k.param
    backend := nonEmpty? k.backend
    layout := nonEmpty? k.layout
    dataType := nonEmpty? k.dataType
    useGpudnn := (k.useGpudnn.map Flag.code).getD "false"
    dispatch := dispatch }

def readBody (e : Entry) : Making BodySpec := do
  match e.invoke with
  | some call => return .invoke call
  | none =>
    let kernel ← readKernel op (← found e.kernel)
    let t := e.dataTransform.getD {}
    return .kernel e.inferMeta kernel ⟨t.skip.getD (.items []), t.support.getD (.items [])⟩

/-! ## 5. Pairs of outputs and inputs -/

def addPair (op mode : String) (inputs outputs : List String) (t : Texts) (s : String) :
    Making Texts :=
  match Pattern.pair? s with
  | none => .error (.fault .attribute)
  | some (input, output) => do
    ensure (inputs.elem input) (Error.pair op mode "input" input)
    ensure (outputs.elem output) (Error.pair op mode "output" output)
    return t.set output input

def readPairs (op mode : String) (inputs outputs : List String) (s : Option String) : Making Texts :=
  match s with
  | none => .ok []
  | some s => (split ',' s).foldlM (addPair op mode inputs outputs) []

/-! ## 6. Gradient operators -/

def checkGradient (inputs : Inputs) (attrs : Attrs) (outputs : List OutputSpec)
    (forward : String) : Making Unit := do
  match Pattern.call? forward with
  | none => .error (.fault .attribute)
  | some c =>
    let fwOutputs := (← readOutputs op c.outputs).map fun o => Naming.baseName o.name
    let (fwInputs, fwAttrs) ← readArgs c.name c.args []
    inputs.names.forM fun n =>
      if fwInputs.names.elem n || fwOutputs.elem n then .ok ()
      else match Naming.forwardName? n with
        | some v => ensure (fwOutputs.elem v) (Error.gradientInput op n)
        | none => .ok ()
    attrs.names.forM fun n =>
      let info := attrs.info.get? n
      let same := fwAttrs.names.elem n && info.map AttrInfo.type == (fwAttrs.info.get? n).map AttrInfo.type
      ensure (same || (info.bind AttrInfo.default).isSome) (Error.gradientAttr op n)
    ensure (outputs.length ≤ fwInputs.names.length) (Error.gradientOutputs op)

/-! ## 7. Reading an entry -/

def entryName (kind : Kind) (e : Entry) : Option String :=
  if kind.isBackward then e.backwardOp else e.op

def ofEntry (kind : Kind) (e : Entry) : Making Api := do
  let name ← found (entryName kind e)
  let optional := (e.optional.map nameList).getD []
  let (inputs, attrs) ← readArgs name (← found e.args) optional
  let outputs ← readOutputs name (← found e.output)
  let body ← readBody name e
  let api : Api := { kind, name, inputs, attrs, outputs, optional, body }
  if kind.isBackward then
    checkGradient name inputs attrs outputs (← found e.forward)
    return { api with noNeedBuffer := (e.noNeedBuffer.map nameList).getD [] }
  else
    let outputNames := outputs.map OutputSpec.name
    let inplace ← readPairs name "inplace" inputs.names outputNames e.inplace
    let view ← readPairs name "view" inputs.names outputNames e.view
    return { api with
      inplace := inplace
      view := view
      dygraph := e.intermediate.isSome
      intermediate := (e.intermediate.map nameList).getD [] }

end Api

end TensorKit.Operator

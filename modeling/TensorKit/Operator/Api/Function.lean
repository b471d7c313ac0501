import TensorKit.Operator.Api.KernelCall
import TensorKit.Operator.Api.Select
/-!
The text of generated functions.

A function chooses a kernel, prepares the inputs, makes the outputs, runs the shape rule and calls the kernel.  One with
several kernels tests the kinds of its inputs first.  An operator that is computed by another one only calls it.
-/

namespace TensorKit.Operator.Api

open Text

/-! ## 1. Functions -/

structure Function where
  signature : Signature
  body : String

def Function.text (f : Function) : String := f.signature.head ++ f.body

variable (api : Api) (k : KernelSpec) (rule : Option InferMetaEntry) (inplace : Bool)

def definedName : Making String := do
  let name := functionName api
  if api.kind = .strings then return name
  else if inplace then return if ← endsInUnderscore name then name else name ++ "_"
  else return name

/-- The signature of the function that does or does not overwrite its input.  A function on sparse
tensors takes and returns the same either way. -/
def definedSignature : Making Signature := do
  let name ← definedName api inplace
  match api.kind with
  | .sparse | .sparseBackward => signatureNamed api false (returnType api false) name
  | _ => signatureNamed api inplace (returnType api inplace) name

/-! ## 2. The shape rule -/

def ruleParams : Option InferMetaEntry → Making (InferMetaEntry × List Param)
  | some rule => .ok (rule, rule.param.getD ((api.inputs.names ++ api.attrs.names).map .name))
  | none => .error (.fault .attribute)

/-- Code that makes what describes the tensors of a list. -/
def metaList (indent name vname type place value : String) : String := s!"
{indent}  auto {name}_meta_vec = MakeMetaTensor({vname});
{indent}  {type} {name}_metas({name}_meta_vec.size());
{indent}  for (size_t i = 0; i < {name}_meta_vec.size(); ++i) \x7b
{indent}    {name}_metas{place} = {value};
{indent}  \x7d"

def ruleParam (indent : String) (p : Param) : Making (String × String) := do
  match p with
  | .literal _ => return ("", p.text)
  | .name n =>
    if api.inputs.names.elem n then
      let vname := prepared n
      let many (type place : String) : String × String :=
        (metaList indent n vname type place ("&" ++ n ++ "_meta_vec[i]") ++ "\n", n ++ "_metas")
      match ← found (api.inputs.info.get? n) with
      | .single => return ("", "MakeMetaTensor(*" ++ vname ++ ")")
      | .many => return many "std::vector<const phi::MetaTensor*>" "[i]"
      | .optionalMany => return many "paddle::optional<std::vector<const phi::MetaTensor*>>" "->at(i)"
      | .optionalSingle =>
        ensure (api.optional.elem n) (Error.inferMetaParam api.name InputForm.optionalSingle.type)
        return ("", "MakeMetaTensor(" ++ vname ++ ")")
    else if api.attrs.names.elem n then return ("", n)
    else return ("", quoted n)

def ruleOutput (form : OutputForm) (only : Bool) (indent name : String) : String × String :=
  match form with
  | .many => (metaList indent name name "std::vector<phi::MetaTensor*>" "[i]"
      s!"{name}[i] ? &{name}_meta_vec[i] : nullptr", name ++ "_metas")
  | .single =>
    let metaName := replace "kernel_" "meta_" name
    (indent ++ "  phi::MetaTensor " ++ metaName ++ "(" ++ name ++ ");\n",
      if only then "&" ++ metaName else name ++ " ? &" ++ metaName ++ " : nullptr")

def ruleCode (outputs : List String) (indent : String) : Making String := do
  let (rule, params) ← ruleParams api rule
  let ins ← params.mapM (ruleParam api indent)
  let outs ← outputs.zipIdx.mapM fun (name, i) => do
    return ruleOutput (← item api.outputs i).form (outputs.length == 1) indent name
  let before := String.join ((ins ++ outs).map Prod.fst)
  let args := commas ((ins ++ outs).map Prod.snd)
  let func ← found rule.func
  return s!"{before}
{indent}  phi::{func}({args});
"

/-! ## 3. Outputs -/

structure OutputCode where
  names : List String
  code : String

def kernelOutputNames (n : Nat) : List String :=
  if n == 1 then ["kernel_out"] else (List.range n).map fun i => "kernel_out_" ++ toString i

variable (kinds : Option (List TensorKind))

def setOutput (i : Nat) : Making String := do
  return if ← isDense kinds i then "SetKernelOutput" else "SetSelectedRowsKernelOutput"

def viewCode (indent vname output : String) : String :=
  match inplace, api.view.get? output with
  | false, some input =>
    let source := prepared input
    s!"
{indent}  {vname}->ShareBufferWith(*{source});
{indent}  {vname}->ShareInplaceVersionCounterWith(*{source});
{indent}  VLOG(3) << \"Perform View between Output and Input Tensor, share allocation and inplace version.\";"
  | _, _ => ""

/-- The start of the variable that holds the output of a function that overwrites its input. -/
def startOfOne (output : String) : String :=
  match inplace, api.inplace.get? output with
  | true, some input => " = " ++ input
  | _, _ => ""

/-- The variable that holds several outputs; it starts with the inputs that a function overwrites. -/
def severalOutputs (indent : String) (inplace : Bool) : String :=
  let returns := fullReturnType api inplace
  let inputs := api.outputs.map fun o => (api.inplace.get? o.name).getD "Tensor()"
  let start := if inplace then "\x7b" ++ commas inputs ++ "\x7d" else ""
  s!"
{indent}  {returns} api_output{start};"

def forwardSingle (indent : String) (inplace : Bool) (o : OutputSpec) : Making OutputCode := do
  let returns := fullReturnType api inplace
  let assign := startOfOne api inplace o.name
  let setter ← setOutput kinds 0
  let start := s!"
{indent}  {returns} api_output{assign};"
  let make ← if returns = "std::vector<Tensor>" then
      match o.size with
      | none => .error (.sizeMissing api.name)
      | some size => pure (s!"
{indent}  auto kernel_out = {setter}({size}, &api_output);")
    else pure (s!"
{indent}  auto kernel_out = {setter}(&api_output);")
  return ⟨["kernel_out"], start ++ make ++ viewCode api inplace indent "kernel_out" o.name⟩

/-- Of several outputs, the lists in place of an input and those in place of one that may be absent. -/
def replacedOutputs : Texts :=
  if api.outputs.length = 1 then [] else api.outputs.filterMap fun o => do
    let input ← api.inplace.get? o.name
    if o.form = .many || api.optional.elem input then some (o.name, input) else none

def forwardOne (indent : String) (inplace : Bool) (o : OutputSpec) (i : Nat) : Making String := do
  let setter ← setOutput kinds i
  let input := (replacedOutputs api).get? o.name
  let ofOptional := (input.map api.optional.elem).getD false
  let get := if ofOptional then s!"std::get<{i}>(api_output).get_ptr()"
    else s!"&std::get<{i}>(api_output)"
  let make ← match o.form with
    | .many =>
      match o.size with
      | none => .error (.sizeMissing api.name)
      | some size =>
        let (setter, get) := match input with
          | none => (setter, get)
          | some _ =>
            if ofOptional then ("SetInplaceOptionalVectorKernelOutput", s!"std::get<{i}>(api_output)")
            else ("SetInplaceVectorKernelOutput", get)
        pure (s!"
{indent}  auto kernel_out_{i} = {setter}({size}, {get});")
    | .single => pure (s!"
{indent}  auto kernel_out_{i} = {setter}({get});")
  return make ++ viewCode api inplace indent ("kernel_out_" ++ toString i) o.name

def forwardOutputs (indent : String) (inplace : Bool) : Making OutputCode := do
  match api.outputs with
  | [o] => forwardSingle api kinds indent inplace o
  | os =>
    let parts ← os.zipIdx.mapM fun (o, i) => forwardOne api kinds indent inplace o i
    return ⟨kernelOutputNames os.length, severalOutputs api indent inplace ++ String.join parts⟩

/-- The outputs of a gradient function, made in the variables that its parameters point to. -/
def backwardOutputs (indent : String) : Making OutputCode := do
  let vnames := kernelOutputNames api.outputs.length
  let parts ← (api.outputs.zip vnames).zipIdx.mapM fun ((o, vname), i) => do
    let setter ← setOutput kinds i
    let name := o.name
    match o.form with
    | .single => return s!"
{indent}  auto {vname} = {setter}({name});"
    | .many =>
      ensure (o.size.isSome || api.outputs.length == 1) (Error.sizeMissing api.name)
      return s!"
{indent}  auto {vname} = {setter}(&{name});"
  return ⟨vnames, String.join parts⟩

def sparseOutputKind : TensorKind → Making String
  | .dense => .ok "TensorType::DENSE_TENSOR"
  | .sparseCoo => .ok "TensorType::SPARSE_COO"
  | .sparseCsr => .ok "TensorType::SPARSE_CSR"
  | .selectedRows => .error (.fault .key)

def sparseOutputs (kinds : List TensorKind) (inplace : Bool) : Making OutputCode := do
  match kinds with
  | [k] =>
    let returns := fullReturnType api inplace
    let assign := (api.outputs.head?.map fun o => startOfOne api inplace o.name).getD ""
    let kind ← sparseOutputKind k
    return ⟨["kernel_out"], s!"
    {returns} api_output{assign};
    auto* kernel_out = SetSparseKernelOutput(&api_output, {kind});"⟩
  | ks =>
    let parts ← ks.zipIdx.mapM fun (k, i) => do
      let kind ← sparseOutputKind k
      return s!"
    auto* kernel_out_{i} = SetSparseKernelOutput(&std::get<{i}>(api_output), {kind});"
    return ⟨kernelOutputNames ks.length, severalOutputs api "  " inplace ++ String.join parts⟩

def sparseBackwardOutputs (kinds : List TensorKind) : Making OutputCode := do
  let vnames := kernelOutputNames kinds.length
  let parts ← (kinds.zip vnames).zipIdx.mapM fun ((k, vname), i) => do
    let name := (← item api.outputs i).name
    let kind ← sparseOutputKind k
    return s!"
    auto {vname} = SetSparseKernelOutput({name}, {kind});"
  return ⟨vnames, String.join parts⟩

/-- The kind of an output of a function on text tensors, marked in the name of the output. -/
def stringsOutputKind (name : String) : String × String :=
  if hasEnd "@StringTensor" name then ("TensorType::STRING_TENSOR", "phi::StringTensor")
  else ("TensorType::DENSE_TENSOR", "phi::DenseTensor")

def stringsOutputs : OutputCode :=
  let returns := returnType api inplace
  match api.outputs with
  | [o] =>
    let (kind, type) := stringsOutputKind o.name
    let assign := startOfOne api inplace o.name
    ⟨["kernel_out"], s!"
  {returns} api_output{assign};
  {type}* kernel_out = dynamic_cast<{type}*>(SetStringsKernelOutput(&api_output, {kind}));"⟩
  | os =>
    let parts := os.zipIdx.map fun (o, i) =>
      let (kind, type) := stringsOutputKind o.name
      let assign := match inplace, api.inplace.get? o.name with
        | true, some input => s!"
  std::get<{i}>(api_output) = {input};"
        | _, _ => ""
      assign ++ s!"
  {type}* kernel_out_{i} = dynamic_cast<{type}*>(SetStringsKernelOutput(&std::get<{i}>(api_output), {kind}));"
    ⟨kernelOutputNames os.length, s!"
  {returns} api_output;" ++ String.join parts⟩

/-! ## 4. Kernels of dense functions -/

/-- Code that looks a kernel up. -/
def lookUpCode (indent op what kernel options var shown : String) : String := s!"
{indent}VLOG(6) << \"{op} {what} kernel key: [\" << kernel_backend << \", \" << kernel_layout << \", \"<< kernel_data_type << \"]\";
{indent}auto kernel_result = phi::KernelFactory::Instance().SelectKernelOrThrowError(
{indent}    \"{kernel}\", \x7bkernel_backend, kernel_layout, kernel_data_type\x7d{options});
{indent}const auto& {var} = kernel_result.kernel;
{indent}VLOG(6) << \"{shown} kernel: \" << {var};"

/-- Code between two pieces that record when it starts and ends. -/
def recorded (indent star name event code : String) : String := s!"
{indent}  paddle::platform::RecordEvent{star}{name} = nullptr;
{indent}  if(paddle::platform::RecordEvent::IsEnabled())\x7b
{indent}    {name} = new paddle::platform::RecordEvent(\"{event}\", paddle::platform::TracerEventType::OperatorInner, 1);
{indent}  \x7d
{code}
{indent}  if({name} != nullptr)\x7b
{indent}    delete {name};
{indent}  \x7d"

def deviceCode : String :=
  "auto* dev_ctx = GetDeviceContextByBackend(kernel_result.has_fallback_cpu ? Backend::CPU : kernel_backend);"

def branchCode (condition code : String) : String := s!"
  if ({condition}) \x7b
{code}
  \x7d
"

/-- What a function does whose inputs are of the kinds of none of its kernels. -/
def noKernelCode (op : String) : String := s!"
  PADDLE_THROW(phi::errors::Unimplemented(
          \"The kernel of ({op}) for input tensors is unimplemented, please check the type of input tensors.\"));
\x7d
"

variable (t : TransformSpec)

def kernelCode (rule : Option InferMetaEntry)
    (kernel indent : String) (inplace : Bool) : Making String := do
  let dispatch ← found (k.dispatch.get? kernel)
  let call ← kernelCall api k t rule dispatch indent
  let kinds := dispatch.map Dispatch.outputs
  let outputs ← if api.kind = .backward then backwardOutputs api kinds indent
    else forwardOutputs api kinds indent inplace
  let fallback := String.join (outputs.names.map fun o => s!"
{indent}    TransDataBackend({o}, kernel_backend, {o});")
  let gpudnn := if k.useGpudnn = "false" then "" else ", " ++ k.useGpudnn
  let shapeRule ← ruleCode api rule outputs.names indent
  let op := api.name
  let inputs := call.code
  let create := outputs.code
  let pointer := call.pointer
  let args := commas call.args
  let outs := commas outputs.names
  let ending := returnCode api
  let lookUp := lookUpCode (indent ++ "  ") op "API" kernel gpudnn "kernel" kernel
  let rule := recorded indent " *" "infer_shape_record_event" (op ++ " infer_meta") shapeRule
  let run := recorded indent "* " "kernel_record_event" (op ++ " compute")
    s!"{indent}    (*kernel_fn)({args}, {outs});"
  return s!"{lookUp}
{indent}  {deviceCode}
{inputs}
{create}{rule}
{indent}  using kernel_signature = {pointer};
{indent}  auto* kernel_fn = kernel.GetVariadicKernelFn<kernel_signature>();{run}
{indent}  if (kernel_result.has_fallback_cpu) \x7b
{fallback}
{indent}  \x7d
{indent}  {ending}"

def kindTest (name : String) (kind : TensorKind) : String :=
  let test := if kind = .dense then "is_dense_tensor()" else "is_selected_rows()"
  if api.optional.elem name then s!"(!{name} || {name}->{test})" else s!"{name}.{test}"

def writtenKinds (kernel : String) (sparse : Bool) : Making Dispatch := do
  demand (.kindsMissing api.name sparse) (← found (k.dispatch.get? kernel))

def conditionCode (kernel : String) : Making String := do
  let d ← writtenKinds api k kernel false
  let tests ← d.inputs.zipIdx.mapM fun (kind, i) => do
    return kindTest api (← item api.inputs.names i) kind
  return join " && " tests

def denseFunction (rule : Option InferMetaEntry) (inplace : Bool) : Making Function := do
  let s ← definedSignature api inplace
  let select ← kernelSelectCode api k
  let head := select ++ "\n"
  match k.func with
  | [] => .error (.fault .index)
  | [kernel] => return ⟨s, head ++ (← kernelCode api k t rule kernel "" inplace) ++ "
\x7d
"⟩
  | kernels =>
    let branches ← kernels.mapM fun kernel => do
      let condition ← conditionCode api k kernel
      let code ← kernelCode api k t rule kernel "  " inplace
      return branchCode condition code
    return ⟨s, head ++ "\n" ++ String.join branches ++ noKernelCode api.name⟩

/-! ## 5. Kernels of functions on sparse and on text tensors -/

def sparseKindTest (name : String) : TensorKind → String
  | .dense =>
    if api.optional.elem name then s!"(!{name} || phi::DenseTensor::classof({name}->impl().get()))"
    else s!"phi::DenseTensor::classof({name}.impl().get())"
  | .sparseCoo => s!"{name}.is_sparse_coo_tensor()"
  | _ => s!"{name}.is_sparse_csr_tensor()"

def sparseTensorType : TensorKind → Making String
  | .dense => .ok "phi::DenseTensor"
  | .sparseCoo => .ok "phi::SparseCooTensor"
  | .sparseCsr => .ok "phi::SparseCsrTensor"
  | .selectedRows => .error (.fault .key)

def sparseContext (outputs : List String) : Making String := do
  let parts ← (kernelParams api k).mapM fun p => do
    let attr (text : String) : String := s!"
    kernel_context.EmplaceBackAttr({text});"
    match p with
    | .literal (.bool _) => return attr p.text
    | .literal _ => .error (.fault .type)
    | .name n =>
      if api.inputs.names.elem n then
        return if api.optional.elem n then s!"
    kernel_context.EmplaceBackInput({n} ? {n}->impl().get() : nullptr);"
          else s!"
    kernel_context.EmplaceBackInput({n}.impl().get());"
      else if api.attrs.names.elem n then
        let type := (← found (api.attrs.info.get? n)).type
        return attr (if contains "IntArray" type then "phi::IntArray(" ++ n ++ ")"
          else if contains "Scalar" type then "phi::Scalar(" ++ n ++ ")"
          else n)
      else return attr n
  let outs := outputs.map fun o => s!"
    kernel_context.EmplaceBackOutput({o});"
  return String.join parts ++ String.join outs

def sparseInputs (kinds : List TensorKind) : Making String := do
  let (_, params) ← ruleParams api rule
  let parts ← params.mapM fun p => do
    match p with
    | .literal _ => return ""
    | .name n =>
      if api.inputs.names.elem n then
        let start := "auto " ++ prepared n ++ " = "
        let form ← found (api.inputs.info.get? n)
        if form = .single then return start ++ n ++ ".impl();\n"
        else if api.optional.elem n then
          let type ← match (api.inputs.names.zip kinds).find? fun q => q.1 == n with
            | some (_, kind) => sparseTensorType kind
            | none => pure "phi::DenseTensor"
          return start ++ s!"{n} ? paddle::optional<{type}>(*static_cast<{type}*>((*{n}).impl().get())) : paddle::optional<{type}>(paddle::none);
"
        else return ""
      else return ""
  return String.join parts

def sparseKernelCode (kernel : String) (d : Dispatch) (inplace : Bool) : Making String := do
  let outputs ← if api.kind = .sparseBackward then sparseBackwardOutputs api d.outputs
    else sparseOutputs api d.outputs inplace
  let context ← sparseContext api k outputs.names
  let inputs ← sparseInputs api rule d.inputs
  let shapeRule ← ruleCode api rule outputs.names ""
  let op := api.name
  let create := outputs.code
  let ending := "  " ++ returnCode api
  let lookUp := lookUpCode "    " op "api sparse" kernel "" "phi_kernel" (op ++ " api sparse")
  return s!"{lookUp}

    {deviceCode}
    auto kernel_context = phi::KernelContext(dev_ctx);
{create}
{inputs}
{shapeRule}
{context}
    phi_kernel(&kernel_context);
  {ending}"

def sparseFunction : Making Function := do
  let _ ← definedName api inplace
  let select ← kernelSelectCode api k
  let branches ← k.func.mapM fun kernel => do
    let d ← writtenKinds api k kernel true
    let tests ← d.inputs.zipIdx.mapM fun (kind, i) => do
      return sparseKindTest api (← item api.inputs.names i) kind
    let condition := join " && " tests
    let code ← sparseKernelCode api k rule kernel d inplace
    return branchCode condition code
  return ⟨← definedSignature api inplace, select ++ "\n" ++ String.join branches ++ noKernelCode api.name⟩

def stringsFunction : Making Function := do
  let s ← definedSignature api inplace
  let select ← stringsSelectCode api k
  let call ← stringsCall api k ""
  let outputs := stringsOutputs api inplace
  let kernel ← item k.func 0
  let shapeRule ← ruleCode api rule outputs.names ""
  let op := api.name
  let inputs := call.code
  let create := outputs.code
  let pointer := call.pointer
  let args := commas call.args
  let outs := commas outputs.names
  let ending := returnCode api
  let lookUp := lookUpCode "  " op "api strings" kernel "" "kernel" (op ++ " api strings")
  return ⟨s, select ++ s!"

  // 1. Get kernel signature and kernel{lookUp}

  // 2. Get Device Context and input
  {deviceCode}
  {inputs}

  //  3. Set output
  {create}
{shapeRule}

  // 4. run kernel

  using kernel_signature = {pointer};
  auto* kernel_fn = kernel.GetVariadicKernelFn<kernel_signature>();
  (*kernel_fn)({args}, {outs});

  {ending}
\x7d
"⟩

/-! ## 6. All functions of an operator -/

def kernelFunction (rule : Option InferMetaEntry) (inplace : Bool) : Making Function :=
  match api.kind with
  | .forward | .backward => denseFunction api k t rule inplace
  | .sparse | .sparseBackward => sparseFunction api k rule inplace
  | .strings => stringsFunction api k rule inplace

/-- The functions of an operator that is computed by kernels: the ordinary one, unless the name says that its input is
overwritten, and the one that overwrites its input. -/
def functions (rule : Option InferMetaEntry) : Making (List Function) := do
  let ordinary ← kernelFunction api k t rule false
  if api.inplace.isEmpty then return [ordinary]
  else
    let inplaceOnly ← endsInUnderscore api.name
    let inplace ← kernelFunction api k t rule true
    return if inplaceOnly then [inplace] else [ordinary, inplace]

/-- Does the text go on with the name `func` and a character that neither continues a name nor opens a
call? -/
def clashesHere (func cs : List Char) : Bool :=
  func.isPrefixOf cs && ((cs.drop func.length).head?.map fun d => !isNameChar d && d != '(').getD false

/-- Put `_val` after each name `func` that stands between a character that is part of no name and a
character that neither continues a name nor opens a call.  After the first of these characters the rest
of the name is counted down. -/
def markClash (func : List Char) : Option Nat → List Char → List Char
  | _, [] => []
  | some 0, c :: cs => "_val".toList ++ c :: markClash func none cs
  | some (n + 1), c :: cs => c :: markClash func (some n) cs
  | none, c :: cs =>
    c :: markClash func (if !isWord c && clashesHere func cs then some func.length else none) cs

/-- Put `_val` after the names in a text that clash with the called function. -/
def markClashes (func s : String) : String := .ofList (markClash func.toList none s.toList)

/-- The function that makes a call.  A gradient operator is given one only if it calls a gradient function. -/
def invokeText (returns params call : String) : String :=
  let op := api.name
  if api.kind.isBackward then
    if callsGradient (strip (before '(' call)) then s!"
PADDLE_API {returns} {op}({params}) \x7b
  {call};
\x7d" else ""
  else s!"
PADDLE_API {returns} {op}({params}) \x7b
  return {call};
\x7d"

def invokeFunction (call : String) : Making String := do
  let s ← signatureNamed api false (returnType api false) api.name
  let func := strip (before '(' call)
  let params := s.paramText Parameter.define
  return if api.attrs.names.elem func then invokeText api s.returns (markClashes func params) (markClashes func call)
    else invokeText api s.returns params call

def codeText : Making String := do
  match api.body with
  | .invoke call => invokeFunction api call
  | .kernel rule k t => return String.join ((← functions api k t rule).map Function.text)

end TensorKit.Operator.Api

import TensorKit.Operator.Api.Signature
/-!
Selecting a kernel.

Generated functions choose the kernel by backend, layout and data type.  Each of the three comes from the arguments that
the definition names for it, and what is still open from the inputs.  An attribute that can select has to be named, and
an operator without inputs needs such attributes.
-/

namespace TensorKit.Operator.Api

open Text

def Selector.attrType : Selector → String
  | backend => "const Place&"
  | layout => "DataLayout"
  | dataType => "DataType"

variable (api : Api) (k : KernelSpec)

def KernelSpec.selector : Selector → Option String
  | .backend => k.backend
  | .layout => k.layout
  | .dataType => k.dataType

def selectingAttrs (s : Selector) : List String :=
  api.attrs.names.filter fun n => (api.attrs.info.get? n).map AttrInfo.type == some s.attrType

def checkSelectors : Making Unit :=
  api.attrs.names.forM fun n =>
    [Selector.backend, .layout, .dataType].forM fun s =>
      if (api.attrs.info.get? n).map AttrInfo.type == some s.attrType then
        ensure (k.selector s).isSome (Error.selectorNeeded api.name s)
      else .ok ()

/-- The two arguments of a selector with a preference, the first of which is an attribute of its type. -/
def preferred (s : Selector) (text : String) : Making (String × String) := do
  let parts := split '>' text
  ensure (parts.length == 2) (Error.selectorCount api.name s parts.length)
  let first := strip (parts.headD "")
  let second := strip ((parts.drop 1).headD "")
  let isAttr := api.attrs.names.elem first
    && (api.attrs.info.get? first).map AttrInfo.type == some s.attrType
  ensure isAttr (Error.selectorType api.name s)
  return (first, second)

def preferenceCode (target function : String) (parts : String × String) : String :=
  let (first, second) := parts
  s!"
  {target} = {function}WithInputOrder({first}, {second});
"

/-- The statement that sets a part of the kernel key from arguments. -/
def selectionCode (target function args : String) : String :=
  s!"
  {target} = {function}({args});
"

def backendCode : Making String :=
  match k.backend with
  | none => .ok ""
  | some text => do
    if contains ">" text then
      return preferenceCode "kernel_backend" "ParseBackend" (← preferred api .backend text)
    else return selectionCode "kernel_backend" "ParseBackend" (commas (splitStrip ',' text))

/-- The statement that sets the backend of a gradient function: where no input is needed with its
contents, the expected place decides. -/
def gradientBackendCode : Making String :=
  if api.inputs.names.all api.noNeedBuffer.elem then
    .ok (selectionCode "kernel_backend" "ParseBackend"
      "egr::Controller::Instance().GetExpectedPlace()")
  else backendCode api k

/-- The statement that sets the layout or the data type, for which one argument or a preference may be
given. -/
def singleSelectorCode (s : Selector) (target function : String) : Making String :=
  match k.selector s with
  | none => .ok ""
  | some text => do
    if contains ">" text then return preferenceCode target function (← preferred api s text)
    else
      let parts := split ',' text
      ensure (parts.length == 1) (Error.selectorSingle api.name s parts.length)
      return selectionCode target function (strip (parts.headD ""))

def kernelSelectCode : Making String := do
  checkSelectors api k
  let backend ← if api.kind.isBackward then gradientBackendCode api k else backendCode api k
  let layout ← singleSelectorCode api k .layout "kernel_layout" "ParseLayout"
  let dataType ← singleSelectorCode api k .dataType "kernel_data_type" "ParseDataType"
  if api.inputs.names.isEmpty then
    ensure (!(selectingAttrs api .backend).isEmpty && !(selectingAttrs api .dataType).isEmpty)
      (Error.noInput api.name)
  let start := "
  Backend kernel_backend = Backend::UNDEFINED;
  DataLayout kernel_layout = DataLayout::UNDEFINED;
  DataType kernel_data_type = DataType::UNDEFINED;
"
  let args := commas api.inputs.names
  let fromInputs := if api.inputs.names.isEmpty then "" else s!"
  if (kernel_backend == Backend::UNDEFINED
        || kernel_layout == DataLayout::UNDEFINED
        || kernel_data_type == DataType::UNDEFINED ) \x7b
    auto kernel_key_set = ParseKernelKeyByInputArgs({args});
    auto kernel_key = kernel_key_set.GetHighestPriorityKernelKey();
    if (kernel_backend == Backend::UNDEFINED) \x7b
      kernel_backend = kernel_key.backend();
    \x7d
    if (kernel_layout == DataLayout::UNDEFINED) \x7b
      kernel_layout = kernel_key.layout();
    \x7d
    if (kernel_data_type == DataType::UNDEFINED) \x7b
      kernel_data_type = kernel_key.dtype();
    \x7d
  \x7d"
  return start ++ backend ++ layout ++ dataType ++ fromInputs

/-- The statements that choose the kernel key for text tensors, whose layout and data type are fixed. -/
def stringsSelectCode : Making String := do
  let backend ← backendCode api k
  let start := "
  Backend kernel_backend = Backend::UNDEFINED;
  DataLayout kernel_layout = DataLayout::PSTRING_UNION;
  DataType kernel_data_type = DataType::PSTRING;
"
  let args := commas api.inputs.names
  let fromInputs := if api.inputs.names.isEmpty then "" else s!"
  auto kernel_key_set = ParseKernelKeyByInputArgs({args});
  auto kernel_key = kernel_key_set.GetHighestPriorityKernelKey();
  kernel_backend = kernel_key.backend();"
  return start ++ backend ++ fromInputs

end TensorKit.Operator.Api

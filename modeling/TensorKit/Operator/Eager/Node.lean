import TensorKit.Operator.Eager.Forward
/-!
Gradient nodes.

A node holds the saved tensors and the attributes of a gradient operator.  When it runs it takes the
gradients of the forward outputs, calls the gradient operator with its arguments in the places where they
are written, and returns the gradients of the forward inputs.  If the gradient operator has a gradient
itself, the node records the call for it.
-/

namespace TensorKit.Operator.Eager

open Text Naming

/-! ## 1. The class of a node -/

structure Wrapper where
  method : String
  member : String
  clear : String

def wrapper (noNeedBuffer : List String) (s : String × SavedSlot) : Wrapper :=
  let name := s.1
  let saved := savedName name
  let bare := if noNeedBuffer.elem name then "true" else "false"
  match s.2.form with
  | .one => {
      method := s!"  void SetTensorWrapper{name}(const {tensorClass}& {name}) \x7b
    {saved} = egr::TensorWrapper({name}, {bare});
  \x7d
"
      member := s!"  egr::TensorWrapper {saved};
"
      clear := s!"    {saved}.clear();
" }
  | _ => {
      method := s!"  void SetTensorWrapper{name}(const {tensorVector}& {name}) \x7b
    for(const auto& eager_tensor : {name}) \x7b
      {saved}.emplace_back(egr::TensorWrapper(eager_tensor, {bare}));
    \x7d;
  \x7d
"
      member := s!"  std::vector<egr::TensorWrapper> {saved};
"
      clear := s!"    for (auto& tw : {saved}) \x7b
      tw.clear();
    \x7d
" }

def attributeMethod (a : AttrArg) : String :=
  let name := a.name
  let type := constReference a.type
  let saved := savedName name
  s!"  void SetAttribute{name}({type} {name}) \x7b
    {saved} = {name};
  \x7d
"

def attributeMember (a : AttrArg) : String :=
  let type := withoutConstReference a.type
  let saved := savedName a.name
  match a.default.filter fun d => !d.isEmpty with
  | some d => s!"  {type} {saved} = {d};
"
  | none => s!"  {type} {saved};
"

variable (g : Gradient)

def nodeDeclaration : String :=
  let node := gradNodeName g.name
  let wrappers := g.saved.map (wrapper g.noNeedBuffer)
  let clears := String.join (wrappers.map Wrapper.clear)
  let methods := String.join (wrappers.map Wrapper.method)
  let members := String.join (wrappers.map Wrapper.member)
  let setters := String.join (g.attrs.map attributeMethod)
  let attributes := String.join (g.attrs.map attributeMember)
  s!"
class {node} : public egr::GradNodeBase \x7b
 public:
  {node}() : egr::GradNodeBase() \x7b\x7d
  {node}(size_t bwd_in_slot_num, size_t bwd_out_slot_num) :
      egr::GradNodeBase(bwd_in_slot_num, bwd_out_slot_num) \x7b\x7d
  ~{node}() override = default;

  virtual {slotVector} operator()(
      {slotVector}& grads, bool create_graph = false, bool is_new_grad = false) override;
  std::string name() override \x7b return \"{node}\"; \x7d

  void ClearTensorWrappers() override \x7b
{clears}
    SetIsTensorWrappersCleared(true);
  \x7d

  std::shared_ptr<GradNodeBase> Copy() const override \x7b
    auto copied_node = std::shared_ptr<{node}>(new {node}(*this));
    return copied_node;
  \x7d

  // SetTensorWrapperX, SetTensorWrapperY, ...
{methods}
  // SetAttributes
{setters}
 private:
  // TensorWrappers
{members}
  // Attributes
{attributes}\x7d;
"

/-! ## 2. The next gradient -/

structure NextGradient where
  /-- the code that creates its node -/
  creation : String
  /-- the tensors that are saved for it -/
  saved : Table String SavedSlot
  /-- the names by which it calls the arguments and outputs of the gradient operator -/
  renames : Texts

/-- Pair the names of one list with those of another, which has to be as long at least. -/
def pairNames (xs ys : List TensorArg) : Making (List (String × String)) :=
  xs.zipIdx.mapM fun (x, i) => do return (x.name, (← item ys i).name)

/-- The next gradient, from the gradient operator read as a function with a gradient of its own. -/
def nextGradient (f : Function) : Making (Option NextGradient) := do
  match f.gradient with
  | none => return none
  | some g =>
    let inputs ← pairNames f.written.inputs f.stated.inputs
    let returns ← pairNames f.written.returns f.stated.returns
    return some ⟨nodeCreation f g true, g.saved, .ofList (inputs ++ returns)⟩

variable (next : Option NextGradient)

/-- The name of a tensor in a node: the name that the next gradient gives it. -/
def nodeName (name : String) : String :=
  ((next.map NextGradient.renames).bind fun t => t.get? name).getD name

/-! ## 3. Arguments of the gradient operator -/

def fillsZero : List String :=
  ["split_grad", "split_with_num_grad", "rnn_grad", "matmul_double_grad", "matmul_triple_grad",
   "sigmoid_double_grad", "sigmoid_triple_grad", "add_double_grad", "add_triple_grad", "multiply_grad",
   "multiply_double_grad", "multiply_triple_grad", "conv2d_grad_grad", "batch_norm_double_grad",
   "tanh_double_grad", "tanh_triple_grad", "subtract_double_grad", "divide_double_grad",
   "log_double_grad", "elu_double_grad", "leaky_relu_double_grad", "sqrt_double_grad",
   "rsqrt_double_grad", "square_double_grad", "celu_double_grad", "pad_double_grad",
   "pad3d_double_grad", "squeeze_double_grad", "unsqueeze_double_grad", "instance_norm_double_grad",
   "conv3d_double_grad", "depthwise_conv2d_grad_grad", "concat_double_grad", "expand_grad",
   "argsort_grad"]

def zeroCode : String :=
  if fillsZero.elem g.name then
    "  const auto& input_metas = this->InputMeta();\n" ++
      String.join (g.gradInputs.map fun s =>
        let i := s.2.forward
        match g.optional.elem s.1, s.2.form with
        | true, .one => s!"  egr::EagerUtils::FillZeroForEmptyOptionalGradInput(&grads[{i}][0], input_metas[{i}][0]);
"
        | true, _ => ""
        | false, .one => s!"  egr::EagerUtils::FillZeroForEmptyGradInput(&grads[{i}][0], input_metas[{i}][0]);
"
        | false, _ => s!"  egr::EagerUtils::FillZeroForEmptyGradInput(&grads[{i}], input_metas[{i}]);
")
  else ""

/-- The argument that stands for a tensor in the call of the gradient operator.  A list of gradients is
passed as it is even if it may be absent. -/
def tensorArgument (name : String) (plain : Bool) : String :=
  nodeName next name ++ (if plain && g.optional.elem name then "_optional" else "")

/-- The arguments of the call, each with its position: saved tensors, gradients, attributes. -/
def positionedArguments : List (Nat × String) :=
  (g.saved.map fun s => (s.2.position, tensorArgument g next s.1 true)) ++
  (g.gradInputs.map fun s => (s.2.position, tensorArgument g next s.1 (s.2.form = .one))) ++
  (g.attrs.map fun a => (a.position, a.name))

def gradArguments : Making (List (Option String)) :=
  fill (g.saved.length + g.gradInputs.length + g.attrs.length) (positionedArguments g next)

def optionalCode (type test name : String) : String := s!"

  paddle::optional<{type}> {name}_optional;
  if({test}) {name}_optional = paddle::make_optional<{type}>({name});
"

def recoverCode (s : String × SavedSlot) : String :=
  let name := nodeName next s.1
  let saved := savedName s.1
  let code := s!"  auto {name} = egr::EagerUtils::RecoverTensorWrapper(&this->{saved});"
  if g.optional.elem s.1 then
    code ++ (if s.2.form = .many then
        optionalCode tensorVector (" !" ++ name ++ ".empty() ") name
      else optionalCode tensorClass (" " ++ name ++ ".impl() ") name)
  else code

def gradientCode (s : String × GradSlot) : String :=
  let name := nodeName next s.1
  let i := s.2.forward
  match s.2.form with
  | .one =>
    let code := s!"  auto& {name} = hooked_grads[{i}][0];"
    if g.optional.elem s.1 then
      code ++ optionalCode tensorClass (name ++ ".initialized()") name
    else code
  | _ => s!"  auto& {name} = hooked_grads[{i}];"

def attributeCode (a : AttrArg) : String :=
  "  auto& " ++ a.name ++ " = this->" ++ savedName a.name ++ ";"

/-! ## 4. Overwriting a gradient -/

structure Overwritten where
  name : String
  /-- its name in the node -/
  inNode : String
  /-- the tensor that may share its memory without harm -/
  sharer : String

/-- The arguments that the gradient operator may overwrite: saved tensors and single gradients. -/
def overwrittenArguments : List Overwritten :=
  let listed (name : String) : Bool := g.inplace.has name
  ((g.saved.filter fun s => listed s.1).map fun s =>
    ⟨s.1, nodeName next s.1, "(&this->" ++ savedName s.1 ++ ")->get_intermidiate_tensor()"⟩) ++
  ((g.gradInputs.filter fun s => listed s.1 && s.2.form = .one).map fun s =>
    ⟨s.1, nodeName next s.1, "grads[" ++ toString s.2.forward ++ "][0]"⟩)

def Overwritten.check (o : Overwritten) : String :=
  let name := o.name
  let x := o.inNode
  let y := o.sharer
  s!"
  bool can_be_inplaced = false;
  if ({x}.initialized()) \x7b
    VLOG(10) << {x}.name() << \"({name}) use_count: \" << {x}.impl().use_count();
    if ({x}.impl().use_count() == 1 || ({x}.impl().use_count() == 2 && {x}.impl().get() == {y}.impl().get())) \x7b
      can_be_inplaced = true;
    \x7d
  \x7d"

/-- Is an argument saved as an input for the next gradient?  Then it must not be overwritten. -/
def savedForNext (inNode : String) : Bool :=
  match next with
  | none => false
  | some n => ((n.saved.get? inNode).map SavedSlot.isInput).getD false

def shareCode (source : String) (i : Nat) : String := s!"if (api_output_{i} != nullptr && can_be_inplaced) \x7b
      egr::EagerUtils::HandleViewBetweenInputAndOutput({source}, api_output_{i});
    \x7d"

/-- The code by which an output takes the place of the last argument that can be overwritten. -/
def strategyCode (overwritten : List Overwritten) (out : String × GradSlot) (i : Nat) : String :=
  if g.inplace.values.elem out.1 && out.2.form = .one then
    let source := ((overwritten.getLast?).map Overwritten.inNode).getD ""
    let kept := overwritten.any fun o => o.inNode == source && savedForNext next o.inNode
    let share := shareCode source i
    if next.isSome then
      let traced := if kept then
          "VLOG(6) << \"No Inplace should happend for wrappered input: \x7binplace_grad_input_str\x7d\";"
        else share
      s!"
  if (trace_backward) \x7b
    {traced}
  \x7d else \x7b
     {share}
  \x7d"
    else " " ++ share
  else ""

/-! ## 5. Running a node -/

def prepareOutput (out : String × GradSlot) (i : Nat) : String :=
  let p := out.2.forward
  match out.2.form with
  | .one => s!"
  auto* api_output_{i} = (out_metas[{p}].empty() || out_metas[{p}][0].IsStopGradient()) ? nullptr : &returns[{p}][0];"
  | _ => s!"
  std::vector<{tensorClass}*> api_output_{i};
  api_output_{i}.reserve(returns[{p}].size());
  for (size_t i = 0; i < returns[{p}].size(); ++i) \x7b
    if (out_metas[{p}].empty() || out_metas[{p}][i].IsStopGradient()) \x7b
      api_output_{i}.push_back(nullptr);
    \x7d else \x7b
      api_output_{i}.push_back(&returns[{p}][i]);
    \x7d
  \x7d"

/-- Is an operator that is computed by the written call computed by one of the forward operators? -/
def callsForward (forward : List String) (invoke : Option String) : Making Bool :=
  match invoke with
  | none => .ok false
  | some call =>
    match calledOperator call with
    | .ok op => .ok (forward.elem op)
    | .error k => .error (.fault k)

/-- The code that calls the gradient operator, or the forward operator that computes it. -/
def gradCallCode (space : String) (g : Gradient) (args : List String) (byForward : Bool) : String :=
  match byForward, g.invoke with
  | true, some call =>
    let single := g.gradOutputs.length = 1
    let auto := if !g.inplace.isEmpty && single then "auto&" else "auto"
    let func := strip (before '(' call)
    let recorded := replaceFirst func (eagerFunction func) call
    let assigns := String.join (g.gradOutputs.zipIdx.map fun (_, i) =>
      if single then s!"  *api_output_{i} = api_output;
" else s!"  *api_output_{i} = std::get<{i}>(api_output);
")
    s!"
  if (trace_backward) \x7b
    {auto} api_output = {recorded};
  {assigns}\x7d else \x7b
    {auto} api_output = paddle::experimental::{space}{call};
  {assigns}  \x7d
  "
  | _, _ =>
    let op := g.name
    let outs := g.gradOutputs.zipIdx.map fun (_, i) => "api_output_" ++ toString i
    let args := commas (args ++ outs)
    s!"
  paddle::experimental::{space}{op}({args});"

def outputRecord (out : String × GradSlot) : String :=
  let name := nodeName next out.1
  let record := autogradMeta name
  let records := autogradMetaVector name
  let i := out.2.forward
  match out.2.form with
  | .one => s!"
  auto& {name} = returns[{i}][0];
  egr::AutogradMeta* {record} = returns[{i}][0].initialized() ? egr::EagerUtils::autograd_meta(&{name}) : nullptr;
  if ({record}) {record}->SetStopGradient(false);
  "
  | _ =>
    let pointer := if next.isSome then s!"    std::vector<egr::AutogradMeta*>* {record} = &{records};
" else ""
    s!"
    auto& {name} = returns[{i}];
    std::vector<egr::AutogradMeta*> {records} = egr::EagerUtils::autograd_meta(&{name});
{pointer}    for(auto* meta : {records})\x7b
        meta->SetStopGradient(false);
    \x7d
"

structure NodeText where
  declaration : String
  definition : String

def nodeDefinition (space : String) (forward : List String) (f : Function) (g : Gradient)
    (next : Option NextGradient) : Making String := do
  let byForward ← callsForward forward g.invoke
  let args ← gradArguments g next
  let node := gradNodeName g.name
  let op := g.name
  let zeros := zeroCode g
  let collected := lines (g.saved.map (recoverCode g next) ++ g.gradInputs.map (gradientCode g next) ++
    g.attrs.map attributeCode)
  let slots := f.inputs.length
  let prepared := String.join (g.gradOutputs.zipIdx.map fun (o, i) => prepareOutput o i)
  let traced := if next.isSome || byForward then
      "  bool trace_backward = egr::Controller::Instance().HasGrad() && create_graph;\n"
    else ""
  let overwritten := overwrittenArguments g next
  let checks := String.join (overwritten.map Overwritten.check)
  let strategy := String.join (g.gradOutputs.zipIdx.map fun (o, i) => strategyCode g next overwritten o i)
  let inputLog := logStart ++
    String.join ((g.gradInputs.keys ++ g.saved.keys).map fun n => logTensor "input" "" (nodeName next n))
  let before := logBefore inputLog
  let after := logAfter (inputLog ++
    String.join (g.gradOutputs.keys.map fun n => logTensor "output" " " (nodeName next n)))
  let call := gradCallCode space g (placeTexts args) byForward
  let numbers := checkNumbers g.name "returns"
  let records := lines (g.gradOutputs.map (outputRecord next))
  let creation := (next.map NextGradient.creation).getD ""
  return s!"
{slotVector} {node}::operator()({slotVector}& grads, bool create_graph, bool is_new_grad) \x7b
  VLOG(3) << \"Running AD API GRAD: \" << \"{op}\";
  // Fill Zero For GradIn Tensors
{zeros}
  // Apply Gradient Hooks
  auto hooked_grads = ApplyGradientHooks(grads);

  // Collect GradIn Tensors, Attrs and Recovered TensorWrappers
{collected}
  // Prepare Grad function call

  const auto& out_metas = OutputMeta();
  {slotVector} returns({slots});
  for (int i = 0; i < {slots}; ++i) \x7b
    out_metas[i].size() == 0 ? returns[i].resize(1) : returns[i].resize(out_metas[i].size());
  \x7d
{prepared}
  // Runtime check if we need next grad
{traced}
  // Inplace Check
{checks}
  // Inplace Strategy
{strategy}

  VLOG(5) << \"Running C++ API: \" << \"{op}\";
  // Before log info
{before}
  // Call grad_api function
{call}
  // Check NaN and Inf id needed
{numbers}
  // Get GradOut autograd_meta
{records}
  // Create Grad Node
{creation}
  VLOG(4) << \"Finish AD API GRAD: {op}\";
  // LOG IF DEBUG
  {after}
  // Return
  if(NeedComplexToRealConversion()) HandleComplexGradToRealGrad(&returns);
  return returns;

\x7d
"

def nodeText (space : String) (forward : List String) (f : Function) (g : Gradient)
    (next : Option NextGradient) : Making NodeText := do
  return ⟨nodeDeclaration g, ← nodeDefinition space forward f g next⟩

end TensorKit.Operator.Eager

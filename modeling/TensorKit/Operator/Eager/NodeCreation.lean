import TensorKit.Operator.Eager.Spec
/-!
The code that records a function for differentiation.

When a gradient may be asked for, a function creates a node for its gradient operator, gives it the
attributes and the saved tensors, and connects it with the nodes of its inputs and outputs.
-/

namespace TensorKit.Operator.Eager

open Text Naming

/-! ## 1. Logging -/

def logTensor (side gap name : String) : String :=
  let shout := upper name
  s!"
    const char* TENSOR_{shout}_TEMPLATE = \" \\n{gap}( {name} , [%s]), \";
    std::string {side}_{name}_str = paddle::string::Sprintf(TENSOR_{shout}_TEMPLATE, egr::EagerUtils::TensorStr({name}));
    {side}_str += {side}_{name}_str; "

def logStart : String := "
    std::string input_str = \"\";
    std::string output_str = \"\";"

def logBefore (log : String) : String := s!"
  if(VLOG_IS_ON(3))\x7b
      const char* INPUT_PRINT_TEMPLATE = \"\x7b Input: [%s]\x7d \";
      {log}
      VLOG(3) << paddle::string::Sprintf(INPUT_PRINT_TEMPLATE, input_str);
  \x7d
"

def logAfter (log : String) : String := s!"
  if(VLOG_IS_ON(4))\x7b
      const char* INPUT_PRINT_TEMPLATE = \"\x7b Input: [%s],  Output: [%s] \x7d \";
      {log}
      VLOG(4) << paddle::string::Sprintf(INPUT_PRINT_TEMPLATE, input_str, output_str);
  \x7d
"

def checkNumbers (function value : String) : String := s!"  if (FLAGS_check_nan_inf) \x7b egr::CheckTensorHasNanOrInf(\"{function}\", {value}); \x7d
"

/-! ## 2. Creating a node -/

def lines (xs : List String) : String := join "\n" xs

/-- The code that sets an attribute of the node: to the value of the forward attribute of that name, or
to its own default. -/
def setAttribute (forward : List String) (a : AttrArg) : String :=
  let name := a.name
  let value := if forward.elem a.name then a.name else a.default.getD "None"
  s!"    grad_node->SetAttribute{name}({value});"

def saveTensor (optional : List String) (name : String) : String :=
  if optional.elem name then s!"    if({name}) grad_node->SetTensorWrapper{name}(*{name});"
  else s!"    grad_node->SetTensorWrapper{name}({name});"

/-- Does the gradient operator return a gradient for the forward input at this position? -/
def Gradient.returnsAt (g : Gradient) (position : Nat) : Bool :=
  g.gradOutputs.values.any fun s => s.forward == position

def connectInput (optional : List String) (name : String) (position : Nat) : String :=
  if optional.elem name then
    s!"    if({name}.get_ptr() != nullptr) grad_node->SetGradOutMeta(*({name}.get_ptr()), {position});"
  else s!"    grad_node->SetGradOutMeta({name}, {position});"

def setRank (name : String) (position : Nat) : String :=
  let record := autogradMeta name
  s!"    if ({record}) \x7b
      egr::EagerUtils::SetOutRankWithSlot({record}, {position});
    \x7d"

def setHistory (name : String) : String :=
  let record := autogradMeta name
  s!"    if ({record}) \x7b
      egr::EagerUtils::SetHistory({record}, grad_node);
    \x7d"

/-- The code that creates the node for a gradient operator: in a function, or in the node of the gradient
before it. -/
def nodeCreation (f : Function) (g : Gradient) (inNode : Bool) : String :=
  let op := f.name
  let node := gradNodeName g.name
  let ins := f.outputs.length
  let outs := f.inputs.length
  let attributes := lines (g.attrs.map (setAttribute (f.stated.attrs.map AttrArg.name)))
  let savedInputs := lines ((g.saved.filter fun s => s.2.isInput).map fun s => saveTensor f.optional s.1)
  let savedOutputs := lines ((g.saved.filter fun s => !s.2.isInput).map fun s => saveTensor f.optional s.1)
  let edges := lines ((f.inputs.filter fun s => g.returnsAt s.2.position).map
    fun s => connectInput f.optional s.1 s.2.position)
  let ranks := lines (f.outputs.map fun s => setRank s.1 s.2.position)
  let histories := lines (f.outputs.map fun s => setHistory s.1)
  let gradIns := lines (f.outputs.map fun s =>
    "    grad_node->SetGradInMeta(" ++ s.1 ++ ", " ++ toString s.2.position ++ ");")
  let retains := lines (f.outputs.map fun s =>
    "    egr::EagerUtils::CheckAndRetainGrad(" ++ s.1 ++ ");")
  let condition := if inNode then "trace_backward" else "require_any_grad"
  let stops := join "," ("false" :: f.outputs.keys.map autogradMeta)
  let pass := if inNode then "" else s!"    egr::EagerUtils::PassStopGradient({stops});

"
  s!"  if({condition}) \x7b
    paddle::platform::RecordEvent node_creation_record_event(\"{op} node_creation\", paddle::platform::TracerEventType::OperatorInner, 1);

{pass}    // Node Construction
    auto grad_node = std::shared_ptr<{node}>(new {node}({ins}, {outs}));
    // SetAttributes if needed
{attributes}
    // Set TensorWrappers for Forward Inputs if needed
{savedInputs}
    // SetGradOutMeta & SetEdges
{edges}
    // SetOutRank & SetHistory & SetGradInMeta & RetainGrad
{ranks}
{histories}
{gradIns}
{retains}
    // Set TensorWrappers for Forward Outputs if needed
{savedOutputs}
  \x7d
"

end TensorKit.Operator.Eager

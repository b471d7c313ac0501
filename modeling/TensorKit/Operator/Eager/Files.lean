import TensorKit.Operator.Eager.Node
/-!
Eager functions and gradient nodes of whole definition files.

For every forward operator its eager functions are generated, and then the nodes of its gradient, of the
gradient of that gradient, and so on.  The texts are put into the namespace that the name of the file
asks for.
-/

namespace TensorKit.Operator.Eager

open Text Naming Pattern

/-! ## 1. Namespaces -/

/-- A word, name characters and the file extension. -/
def fileHere? (word : String) (cs : List Char) : Option Unit := do
  guard (word.toList.isPrefixOf cs)
  let rest := (cs.drop word.length).dropWhile isNameChar
  guard (".yaml".toList.isPrefixOf rest)

def fileHolds (word file : String) : Bool := (firstSuffix? (fileHere? word) file.toList).isSome

def fileNamespace (file : String) : String :=
  if fileHolds "sparse" file then "sparse::" else if fileHolds "strings" file then "strings::" else ""

def inNamespace (space text : String) : String :=
  if space.isEmpty then text
  else
    let name := if hasEnd "::" space then dropLast 2 space else space
    s!"
namespace {name} \x7b
    {text}
\x7d
"

/-! ## 2. Gradient operators -/

section

variable (space : String) (forward : List String) (grads : Table String Entry) (e : Entry)

def gradientTable (entries : List Entry) : Making (Table String Entry) :=
  entries.foldlM (fun t e =>
    match e.backwardOp with
    | some n => .ok (t.set n e)
    | none => .error (.mismatch "backward_op" (keysText e.fields))) []

def gradientOf : Making (Option Entry) :=
  match e.backward with
  | none => .ok none
  | some n =>
    match grads.get? n with
    | some g => .ok (some g)
    | none => .error (.mismatch n (keysText grads.keys))

/-- A gradient operator read as an operator that has a gradient itself. -/
def asForward : Entry := { e with op := e.backwardOp }

/-- The node of a gradient operator, and the gradient operator that comes next, if there is one. -/
def nodeRound (grad : Entry) : Making (List NodeText × Option Entry) := do
  let next ← gradientOf grads grad
  let f ← Function.ofEntries e (some grad)
  let following ← match next with
    | none => pure none
    | some h => nextGradient (← Function.ofEntries (asForward grad) (some h))
  match f.gradient with
  | none => return ([], next)
  | some g => return ([← nodeText space forward f g following], next)

/-- What all chains of a pair of files have in common. -/
structure Setting where
  space : String
  forward : List String
  table : Table String Entry

/-- Add the nodes of a gradient operator and of the gradients after it.  Nothing says that these have an end. -/
def Setting.nodeChain (c : Setting) (nodes : List NodeText) (e grad : Entry) : Option (Making (List NodeText)) :=
  match nodeRound c.space c.forward c.table e grad with
  | .error err => some (.error err)
  | .ok (node, none) => some (.ok (nodes ++ node))
  | .ok (node, some h) => c |>.nodeChain (nodes ++ node) (asForward grad) h
partial_fixpoint

/-! ## 3. Whole files -/

def handWritten : List String := ["conv2d", "conv2d_grad", "conv2d_grad_grad", "add_n", "add_n_grad"]

def isHandWritten : Bool := (e.op.map handWritten.elem).getD false

structure OperatorText where
  functions : FunctionText
  coreOps : List (String × CoreOp)
  nodes : List NodeText

def readOperator : Making ((FunctionText × List (String × CoreOp)) × Option Entry) := do
  let grad ← gradientOf grads e
  let f ← Function.ofEntries e grad
  return (← forwardFunctions space f, grad)

/-- The nodes after an operator.  Where its gradients have no end, neither have these. -/
def nodesAfter : Option Entry → Option (Making (List NodeText))
  | none => some (.ok [])
  | some g => Setting.nodeChain ⟨space, forward, grads⟩ [] e g

def operatorText : ExceptT Error Option OperatorText := do
  let read ← readOperator space grads e
  let nodes ← ExceptT.mk (nodesAfter space forward grads e read.2)
  return ⟨read.1.1, read.1.2, nodes⟩

end

structure Generated where
  operators : List OperatorText

def generate (space : String) (ops grads : List Entry) : ExceptT Error Option Generated := do
  let grads ← gradientTable grads
  let forward ← (ops.mapM fun e => found e.op : Making (List String))
  return ⟨← (ops.filter fun e => !isHandWritten e).mapM (operatorText space forward grads)⟩

/-- The text of all items, one after another, each followed by a line end. -/
def sections (space : String) (xs : List String) : String :=
  inNamespace space (String.join (xs.map fun x => x ++ "\n"))

namespace Generated

variable (g : Generated) (space : String)

def functions : List FunctionText := g.operators.map OperatorText.functions

def nodes : List NodeText := g.operators.flatMap OperatorText.nodes

def coreOps : Table String CoreOp := g.operators.foldl (fun t o => t.update o.coreOps) []

def functionDeclarations : String := sections space (g.functions.map FunctionText.declaration)

def functionDefinitions : String := sections space (g.functions.map FunctionText.definition)

def nodeDeclarations : String := sections space (g.nodes.map NodeText.declaration)

def nodeDefinitions : String := sections space (g.nodes.map NodeText.definition)

end Generated

/-! ## 4. Tables -/

def tableLines (t : Table String (List String)) : String :=
  lines (t.map fun p =>
    let name := p.1
    let items := join "," (p.2.map quoted)
    s!"\x7b \"{name}\", \x7b {items} \x7d \x7d,")

/-- The names of the tables of arguments, kinds of arguments and outputs. -/
def coreOpNames : List String := ["core_ops_args_info", "core_ops_args_type_info", "core_ops_returns_info"]

def coreOpTables (t : Table String CoreOp) : String :=
  let table (p : String × (CoreOp → List String)) : String :=
    let name := p.1
    let items := tableLines (t.map fun q => (q.1, p.2 q.2))
    s!"
std::unordered_map<std::string, std::vector<std::string>> {name} = \x7b
    {items}
\x7d;"
  String.join ((coreOpNames.zip [CoreOp.args, CoreOp.types, CoreOp.returns]).map table) ++ "\n\n"

def coreOpDeclarations : String :=
  String.join (coreOpNames.map fun name => s!"
extern std::unordered_map<std::string, std::vector<std::string>> {name};") ++ "\n\n"

/-! ## 5. Files -/

def nodeSource (text : String) : String :=
  "\n#include \"glog/logging.h\"\n" ++
  included "phi/api" ["all", "backward/backward_api", "backward/sparse_bw_api"] ++
  included "fluid" ["imperative/tracer", "framework/op_registry", "platform/profiler/event_tracing"] ++
  included "fluid/eager" ["utils", "api/utils/global_utils", "api/generated/eager_generated/backwards/nodes",
    "api/generated/eager_generated/forwards/dygraph_functions", "to_static/run_program_op_node", "nan_inf_utils"] ++
  included "phi/api/include" ["sparse_api"] ++ included "fluid/eager/api/manual/eager_manual/nodes" ["nodes"] ++
  "DECLARE_bool(check_nan_inf);\n" ++ text ++ "\n"

def nodeHeader (text : String) : String :=
  "\n#pragma once\n" ++
  included "fluid/eager" ["tensor_wrapper", "grad_node_info", "api/manual/eager_manual/nodes/nodes"] ++
  "\n" ++ text ++ "\n"

def functionSource (tables text : String) : String :=
  "\n" ++ included "phi/api/lib" ["dygraph_api"] ++
  included "fluid/eager" ["api/generated/eager_generated/forwards/dygraph_functions",
    "api/generated/eager_generated/backwards/nodes", "eager_layout_auto_tune"] ++
  included "phi/api/include" ["strings_api", "sparse_api"] ++ included "fluid/eager/api/utils" ["global_utils"] ++
  included "fluid/platform/profiler" ["event_tracing"] ++ included "fluid/eager" ["amp_utils", "eager_amp_auto_cast"] ++
  included "phi/backends/gpu" ["gpu_info"] ++
  included "fluid/eager" ["nan_inf_utils", "api/manual/eager_manual/dygraph_forward_api"] ++
  "DECLARE_bool(check_nan_inf);\n" ++ tables ++ "\n" ++ text ++ "\n"

def functionHeader (text : String) : String :=
  "\n#pragma once\n#include \"glog/logging.h\"\n" ++ included "fluid/eager" ["autograd_meta"] ++
  included "phi/api" ["all"] ++ included "fluid" ["eager/utils", "framework/op_registry"] ++
  included "fluid/eager" ["to_static/run_program_op_func", "api/manual/eager_manual/dygraph_forward_api"] ++
  "\nusing CPUPlace = phi::CPUPlace;\n" ++ coreOpDeclarations ++ "\n" ++ text ++ "\n"

def Generated.texts (g : Generated) (space : String) (wholeFiles : Bool) : Texts :=
  let tables := coreOpTables g.coreOps
  let functions := g.functionDefinitions space
  let declarations := g.functionDeclarations space
  let nodes := g.nodeDefinitions space
  let nodeDeclarations := g.nodeDeclarations space
  if wholeFiles then
    [("nodes.cc", nodeSource (nodes ++ "\n")), ("nodes.h", nodeHeader (nodeDeclarations ++ "\n")),
     ("fwd.cc", functionSource tables (functions ++ "\n")), ("fwd.h", functionHeader (declarations ++ "\n"))]
  else
    [("namespace", space), ("fwd_decl", declarations), ("fwd_def", functions), ("node_decl", nodeDeclarations),
     ("node_def", nodes), ("core_ops", tables)]

end TensorKit.Operator.Eager

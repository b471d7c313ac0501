import TensorKit.Operator.Eager.Files
/-!
Bindings of eager functions to the scripting language.

A binding takes the tensors and attributes of an operator from an argument tuple, by position, and calls
the eager function with them.  A function that overwrites inputs returns the objects that it was given.
-/

namespace TensorKit.Operator.Binding

open Text Naming Eager

/-! ## 1. Bound operators -/

inductive Error where
  | noReader (type : String)
  | placeName
  | eager (e : Eager.Error)

instance : Cause Error where
  kind
    | .eager e => Cause.kind e
    | _ => .assertion
  message
    | .noReader type => some s!"Unable to find {type} in atype_to_parsing_function."
    | .placeName => some "Only support 'place' as template argument name in FUNCTION_SET_DEVICE_TEMPLATE."
    | .eager e => Cause.message e

abbrev Making := Except Error

def reading {α : Type} : Eager.Making α → Making α
  | .ok a => .ok a
  | .error e => .error (.eager e)

def fault {α : Type} (k : FailureKind) : Making α := .error (.eager (.fault k))

structure Bound where
  name : String
  inputs : Table String Slot
  outputs : Table String Slot
  attrs : List AttrArg
  optional : List String
  inplace : Texts

def Bound.ofEntry (e : Entry) : Making Bound := do
  let inplace ← reading (readInplaceField e.inplace)
  let name ← reading (found e.op)
  let args ← reading (found e.args)
  let output ← reading (found e.output)
  let s ← reading (Eager.readForward args output)
  return ⟨name, inputSlots s.inputs, outputSlots s.returns, s.attrs, readNames e.optional,
    inplace.getD []⟩

/-! ## 2. Arguments -/

def readers : Texts :=
  [("bool", "CastPyArg2Boolean"), ("int", "CastPyArg2Int"), ("long", "CastPyArg2Long"),
   ("int64_t", "CastPyArg2Long"), ("float", "CastPyArg2Float"), ("double", "CastPyArg2Double"),
   ("std::string", "CastPyArg2String"), ("std::vector<bool>", "CastPyArg2Booleans"),
   ("std::vector<int>", "CastPyArg2Ints"), ("std::vector<long>", "CastPyArg2Longs"),
   ("std::vector<int64_t>", "CastPyArg2Longs"), ("std::vector<float>", "CastPyArg2Floats"),
   ("std::vector<double>", "CastPyArg2Float64s"), ("std::vector<std::string>", "CastPyArg2Strings"),
   ("paddle::experimental::Scalar", "CastPyArg2Scalar"),
   ("std::vector<phi::Scalar>", "CastPyArg2ScalarArray"),
   ("paddle::experimental::IntArray", "CastPyArg2IntArray"), ("paddle::Place", "CastPyArg2Place"),
   ("paddle::experimental::DataType", "CastPyArg2DataType")]

def reader (type : String) : Making String :=
  demand (.noReader type) (readers.get? type)

variable (b : Bound)

def tensorCode (s : String × Slot) : String :=
  let op := b.name
  let name := s.1
  let i := s.2.position
  let optional := b.optional.elem name
  let flag := if optional then "true" else "false"
  let get := "Get" ++ (if optional then "Optional" else "") ++ "Tensor" ++
    (if s.2.form = .one then "" else "List") ++ "FromArgs"
  s!"    auto {name} = {get}(\"{op}\", \"{name}\", args, {i}, {flag});
"

def attrCode (a : AttrArg) (read : String) : String :=
  let op := b.name
  let name := a.name
  let type := a.type
  let i := a.position
  s!"    PyObject* {name}_obj = PyTuple_GET_ITEM(args, {i});
    {type} {name} = {read}({name}_obj, \"{op}\", {i});
"

def placeReader : String := "CastPyArg2Place"

/-- The code that gets the attributes, and whether one of them is a place.  The first place has to be
called `place`. -/
def attrsCode : Making (String × Bool) :=
  b.attrs.foldlM (fun acc a => do
    let read ← reader a.type
    let first := !acc.2 && read = placeReader
    ensure (!first || a.name = "place") Error.placeName
    return (acc.1 ++ attrCode b a read, acc.2 || first)) ("", false)

/-- The arguments that a binding passes to the eager function, in their places. -/
def callArgs : Making (List (Option String)) :=
  reading (fill (b.inputs.length + b.attrs.length)
    ((b.inputs.map fun s => (s.2.position, s.1)) ++ (b.attrs.map fun a => (a.position, a.name))))

/-! ## 3. The function -/

def deviceCode (given : Bool) : String :=
  let expected := if given then ""
    else "    auto place = egr::Controller::Instance().GetExpectedPlace();\n"
  let branch (test defined set get built place : String) := s!"    if (paddle::platform::{test}(place)) \x7b
#if {defined}
      phi::{set};
      VLOG(1) <<\"CurrentDeviceId: \" << phi::{get} << \" from \" << (int)place.device;
#else
      PADDLE_THROW(paddle::platform::errors::PreconditionNotMet(
        \"PaddlePaddle should compile with {built} if use {place}.\"));
#endif
    \x7d
"
  expected ++
    branch "is_gpu_place" "defined(PADDLE_WITH_CUDA) || defined(PADDLE_WITH_HIP)"
      "backends::gpu::SetDeviceId(place.device)" "backends::gpu::GetCurrentDeviceId()" "GPU" "CUDAPlace" ++
    branch "is_custom_place" "defined(PADDLE_WITH_CUSTOM_DEVICE)" "DeviceManager::SetDevice(place)"
      "DeviceManager::GetDevice(place.GetDeviceType())" "CUSTOM_DEVICE" "CustomPlace"

structure BindingText where
  function : String
  registration : String

structure Shared where
  tensors : String
  attrs : String
  device : String
  args : String

def shared : Making Shared := do
  let tensors := String.join (b.inputs.map (tensorCode b))
  let (attrs, place) ← attrsCode b
  let args ← callArgs b
  return ⟨tensors, attrs, deviceCode place, join "," (placeTexts args)⟩

def bindingText (space op name : String) (c : Shared) (ending : String) : BindingText :=
  let function := "::" ++ space ++ eagerFunction name
  let tensors := c.tensors
  let attrs := c.attrs
  let device := c.device
  let args := c.args
  let stem := stripRightOf ':' (stripLeftOf ':' space)
  let stem := if stem.isEmpty then "" else stem ++ "_"
  { function := s!"
static PyObject * eager_api_{name}(PyObject *self, PyObject *args, PyObject *kwargs) \x7b
  paddle::platform::RecordEvent pythonc_record_event(\"{op} pybind_imperative_func\", paddle::platform::TracerEventType::UserDefined, 1);
  PyThreadState *tstate = nullptr;
  try \x7b
    VLOG(6) << \"Running Eager Final State API: {name}\";
    // Get EagerTensors from args
{tensors}
    // Parse Attributes if needed
{attrs}
    tstate = PyEval_SaveThread();

    // Set Device ID
{device}
    // Call dygraph function
    decltype({function}({args})) out = {function}({args});

    PyEval_RestoreThread(tstate);
    tstate = nullptr;
{ending}
  \x7d catch(...) \x7b
    if (tstate) \x7b
      PyEval_RestoreThread(tstate);
    \x7d
    ThrowExceptionToPython(std::current_exception());
    return nullptr;
  \x7d
\x7d
"
    registration := s!"  \x7b\"{stem}{name}\", (PyCFunction)(void(*)(void)) {space}eager_api_{name}, METH_VARARGS | METH_KEYWORDS, \"C++ interface function for {name} in dygraph.\"\x7d,
" }

/-- The line that returns the object of an input for the output in its place. -/
def inplaceLine (pair : String × String) : Making String := do
  match b.outputs.get? pair.2, b.inputs.get? pair.1 with
  | some out, some input =>
    let i := out.position
    let j := input.position
    return s!"
    inplace_var_idx_map[{i}] = {j};
"
  | _, _ => fault .key

/-- The bindings of an operator: of each function that it has. -/
def bindings (space : String) (b : Bound) : Making (List BindingText) := do
  let c ← shared b
  let ordinary := bindingText space b.name b.name c "    return ToPyObject(out);"
  if b.inplace.isEmpty then return [ordinary]
  let name ← match inplaceFunction b.name with
    | .ok n => pure n
    | .error k => fault k
  let pairs ← b.inplace.mapM (inplaceLine b)
  let ending := "    std::map<ssize_t, ssize_t> inplace_var_idx_map;" ++ String.join pairs ++
    "    return ToPyObject(out, args, inplace_var_idx_map);"
  let overwriting := bindingText space b.name name c ending
  return if last? b.name = some '_' then [overwriting] else [ordinary, overwriting]

/-! ## 4. Files -/

structure Generated where
  functions : String
  registrations : String

def generate (space : String) (ops : List Entry) : Making Generated := do
  let all ← ops.mapM fun e => do bindings space (← Bound.ofEntry e)
  let functions := String.join (all.map fun bs =>
    String.join (bs.map BindingText.function) ++ "\n")
  let registrations := String.join (all.map fun bs => String.join (bs.map BindingText.registration))
  let functions := if space.isEmpty then functions
    else
      let name := if hasEnd "::" space then dropLast 2 space else space
      s!"namespace {name} \x7b
    {functions}
\x7d
"
  return ⟨functions, registrations⟩

def tableFunctions : String :=
  String.join (coreOpNames.map fun name => s!"
static PyObject * eager_get_{name}(PyObject *self) \x7b
    PyThreadState *tstate = nullptr;
    try \x7b
      return ToPyObject({name});
    \x7d
    catch(...) \x7b
      if (tstate) \x7b
        PyEval_RestoreThread(tstate);
      \x7d
      ThrowExceptionToPython(std::current_exception());
      return nullptr;
    \x7d
\x7d
")

def tableRegistrations : String :=
  String.join (coreOpNames.map fun name => s!"
  \x7b\"get_{name}\", (PyCFunction)(void(*)(void))eager_get_{name}, METH_NOARGS, \"C++ interface function for eager_get_{name}.\"\x7d,") ++
  "\n"

def bindingSource (functions registrations : String) : String :=
  let adding (methods : String) := s!"  if (PyModule_AddFunctions(module->ptr(), {methods}) < 0) \x7b
    PADDLE_THROW(platform::errors::Fatal (\"Add functions to core.eager.ops failed!\"));
  \x7d"
  let add := adding "EagerFinalStateMethods"
  let addCustom := adding "CustomEagerFinalStateMethods"
  let functions := functions ++ tableFunctions
  let registrations := registrations ++ tableRegistrations ++ "  \x7bnullptr,nullptr,0,nullptr\x7d"
  "\n#include <Python.h>\n" ++ included "fluid/platform" ["enforce"] ++ included "phi/api/include" ["strings_api"] ++
  included "phi/backends" ["device_manager"] ++ included "fluid/pybind" ["eager_utils", "exception"] ++
  included "fluid/platform/profiler" ["event_tracing"] ++ included "fluid/pybind" ["op_function_common"] ++
  included "fluid/eager/api/generated/eager_generated/forwards" ["dygraph_functions"] ++
  included "fluid/pybind" ["eager_custom_python_api", "eager"] ++
  included "fluid/eager" ["amp_utils", "eager_amp_auto_cast"] ++ s!"
namespace paddle \x7b
namespace pybind \x7b

{functions}

static PyMethodDef EagerFinalStateMethods[] = \x7b
{registrations}
\x7d;

void BindFinalStateEagerOpFunctions(pybind11::module *module) \x7b
{add}

{addCustom}
\x7d

\x7d // namespace pybind
\x7d // namespace paddle
"

def Generated.texts (g : Generated) (space : String) (wholeFile : Bool) : Texts :=
  if wholeFile then [("out.cc", bindingSource (g.functions ++ "\n") g.registrations)]
  else [("namespace", space), ("functions", g.functions), ("registry", g.registrations)]

end TensorKit.Operator.Binding

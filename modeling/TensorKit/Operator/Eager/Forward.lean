import TensorKit.Operator.Eager.NodeCreation
import TensorKit.Operator.Parameter
/-!
Eager forward functions.

An eager function calls the ordinary function of its operator.  Around the call it converts the inputs
where automatic precision or layout asks for it, logs inputs and outputs, and records the call for
differentiation.  Of an operator that may overwrite an input there are two eager functions.
-/

namespace TensorKit.Operator.Eager

open Text Naming

/-! ## 1. Places -/

def fill {α : Type} (n : Nat) (xs : List (Nat × α)) : Making (List (Option α)) :=
  xs.foldlM (fun places x =>
    if x.1 < places.length then .ok (places.set x.1 (some x.2)) else .error (.fault .index))
    (List.replicate n none)

def placeTexts (places : List (Option String)) : List String := places.map fun p => p.getD ""

/-! ## 2. Parameters and results -/

def tensorClass : String := "paddle::experimental::Tensor"

def tensorVector : String := "std::vector<" ++ tensorClass ++ ">"

/-- The tensors of all slots of a node. -/
def slotVector : String := "paddle::small_vector<" ++ tensorVector ++ ", egr::kSlotSmallVectorSize>"

def tensorType (form : TensorForm) (optional : Bool) : String :=
  let one := match form with
    | .one => tensorClass
    | _ => tensorVector
  if optional then "paddle::optional<" ++ one ++ ">" else one

/-- What an eager function does to its inputs: `overwrites` holds the inputs that it overwrites, with the
outputs that take their places. -/
structure Variant where
  inplace : Bool
  /-- the name of the operator, with an underscore at the end if it overwrites inputs -/
  name : String
  overwrites : Texts

variable (f : Function) (v : Variant)

/-- The type of the parameter for an input.  An input that may be absent is overwritten only if the
function cannot be differentiated. -/
def inputType (name : String) (form : TensorForm) : String :=
  let optional := f.optional.elem name
  let overwritten := v.overwrites.has name && (!optional || f.gradient.isNone)
  (if overwritten then "" else "const ") ++ tensorType form optional ++ "&"

def paramCount : Nat := f.stated.attrs.length + f.inputs.length

def parameters : Making (List (Option Parameter)) :=
  fill (paramCount f)
    ((f.inputs.map fun s => (s.2.position, ⟨inputType f v s.1 s.2.form, s.1, none⟩)) ++
     (f.stated.attrs.map fun a => (a.position, ⟨a.type, a.name, a.default⟩)))

def callArgs (rename : String → String) : Making String := do
  let places ← fill (paramCount f)
    ((f.inputs.map fun s => (s.2.position, rename s.1)) ++
     (f.stated.attrs.map fun a => (a.position, a.name)))
  return commas (placeTexts places)

/-- The number of outputs that are returned; it is negative if more are intermediate than there are. -/
def returnCount : Int := (f.outputs.length : Int) - f.intermediate.length

/-- The type of an output that takes the place of an input that may be absent. -/
def inplaceOptionalType : TensorForm → Making String
  | .nested => .error (.fault .key)
  | form => .ok (tensorType form true ++ "&")

def outputType (name : String) (form : TensorForm) : Making String :=
  match v.overwrites.find? fun p => p.2 == name with
  | some (input, _) =>
    if f.optional.elem input then inplaceOptionalType form else .ok (tensorType form false ++ "&")
  | none => .ok (tensorType form false)

structure Result where
  name : String
  type : String

def results : Making (List (Option Result)) := do
  let count := returnCount f
  let returned ← (f.outputs.filter fun s => !f.intermediate.elem s.1).mapM fun s => do
    ensure ((s.2.position : Int) < count) (Error.fault .index)
    return (s.2.position, (⟨s.1, ← outputType f v s.1 s.2.form⟩ : Result))
  fill count.toNat returned

def resultText (rs : List (Option Result)) : String × String :=
  let types := placeTexts (rs.map fun r => r.map Result.type)
  let names := placeTexts (rs.map fun r => r.map Result.name)
  match types, names with
  | [type], [name] => (type, name)
  | types, names =>
    let type := "std::tuple<" ++ commas types ++ ">"
    (type, type ++ "\x7b" ++ commas names ++ "\x7d")

/-! ## 3. Automatic precision -/

/-- The inputs that are always there, as they are gathered for a conversion. -/
def gathered : List String :=
  (f.inputs.filter fun s => !f.optional.elem s.1).map fun s =>
    match s.2.form with
    | .one => "\x7b" ++ s.1 ++ "\x7d"
    | _ => s.1

def optionalInputs : Table String Slot := f.inputs.filter fun s => f.optional.elem s.1

def requiredInputs : Table String Slot := f.inputs.filter fun s => !f.optional.elem s.1

/-- The code that gathers an input that may be absent. -/
def gatherOptional (vector : String) (s : String × Slot) : String :=
  let name := s.1
  match s.2.form with
  | .one => s!"if ({name}) {vector}.push_back(\x7b *{name} \x7d);
"
  | _ => s!"if ({name}) {vector}.push_back( *{name} );
"

def castInput (s : String × Slot) : String :=
  let name := s.1
  let many := if s.2.form = .one then "" else "s"
  s!"auto new_{name} = egr::EagerAmpAutoCast{many}(\"{name}\", {name}, amp_dst_dtype, op_name);
"

def inBlock (xs : List String) : String := join "    " xs

def precisionCode (newArgs : String) : String :=
  let op := v.name
  let function := eagerFunction v.name
  if f.gradient.isNone && (gathered f).isEmpty then s!"
 VLOG(7) << \" No AMP for {function} because it has no input. \"; "
  else if v.inplace || v.name = "cast" then s!"
 VLOG(5) << \" No AMP for {function} because it is a inplace or cast api. \"; "
  else
    let vector := "\x7b " ++ join "," (gathered f) ++ " \x7d"
    let optional := inBlock ((optionalInputs f).map (gatherOptional "amp_tensors_vector"))
    let casts := inBlock ((requiredInputs f).map castInput) ++ "    " ++
      inBlock ((optionalInputs f).map castInput)
    s!"  if (egr::Controller::Instance().GetAMPLevel() != paddle::imperative::AmpLevel::O0) \x7b
    VLOG(5) << \"Check and Prepare For AMP\";
    auto op_name = phi::TransToFluidOpName(\"{op}\");
    {slotVector} amp_tensors_vector = {vector};
    {optional}
    auto amp_dst_dtype = egr::GetAmpDestDtype(op_name, amp_tensors_vector);

    {casts}
    \x7b
      paddle::imperative::AutoCastGuard guard(egr::Controller::Instance().GetCurrentTracer(), paddle::imperative::AmpLevel::O0);
      return {function}({newArgs});
    \x7d
  \x7d
"

/-! ## 4. Automatic layout -/

/-- Parts of names of attributes that count dimensions. -/
def lightlySensitive : List String := ["axis", "axes", "dim", "dims", "start", "end", "stop"]

/-- Parts of names of attributes that name a layout. -/
def heavilySensitive : List String := ["data_format", "data_layout"]

/-- The attributes that depend on the layout: those that count dimensions, and those that name a layout if
they stand before the first that counts dimensions. -/
def layoutAttrs (attrs : List AttrArg) : List AttrArg :=
  (attrs.foldl step ([], false)).1
where
  /-- Take an attribute if its name shows that it depends on the layout. -/
  step (acc : List AttrArg × Bool) (a : AttrArg) : List AttrArg × Bool :=
    let known := acc.1.any fun b => b.name == a.name
    let sensitive (parts : List String) : Bool := !known && parts.any fun p => contains p a.name
    if sensitive lightlySensitive then (acc.1 ++ [a], true)
    else if !acc.2 && sensitive heavilySensitive then (acc.1 ++ [a], false)
    else acc

def transformerCode (attrs : List AttrArg) : String :=
  match attrs with
  | [] => "auto transformer = egr::EagerLayoutAutotune(op_name, tensors_vector);\n"
  | [a, b] =>
    let t := a.type
    let u := b.type
    let x := a.name
    let y := b.name
    s!"auto transformer = egr::EagerLayoutAutotune<{t}, {u}>(op_name, tensors_vector, &{x}, &{y});
"
  | [a] =>
    let t := a.type
    let x := a.name
    s!"auto transformer = egr::EagerLayoutAutotune<{t}>(op_name, tensors_vector, &{x});
"
  | a :: _ =>
    let t := a.type
    let x := a.name
    s!"auto transformer = egr::EagerLayoutAutotune<{t}>(op_name, tensors_vector,&{x});
"

def transformInput (s : String × Slot) : String :=
  let name := s.1
  let many := if s.2.form = .one then "" else "s"
  s!"auto new_{name} = transformer->TransInTensor{many}(\"{name}\", {name});
"

def layoutCode (returnType returns newArgs : String) : String :=
  if (gathered f).isEmpty then ""
  else
    let op := v.name
    let vector := "\x7b " ++ join "," (gathered f) ++ " \x7d"
    let optional := inBlock (((optionalInputs f).filter fun s => s.2.form = .one).map
      (gatherOptional "tensors_vector"))
    let transformer := transformerCode (layoutAttrs f.stated.attrs)
    let transforms := inBlock ((requiredInputs f).map transformInput) ++
      inBlock ((optionalInputs f).map transformInput)
    let single := returnCount f = 1
    let result := if single then returns else "api_result"
    let outs := if single then [s!"transformer -> SetOutTensorLayout(&{returns});
"]
      else ((f.outputs.filter fun s => !f.intermediate.elem s.1).zipIdx.flatMap fun (s, i) =>
        let name := s.1
        [s!"    auto& {name} = std::get<{i}>(api_result);
", s!"    transformer -> SetOutTensorLayout(&{name});
"])
    let outs := inBlock outs
    let function := eagerFunction v.name
    s!"
  if (egr::Controller::Instance().UseLayoutAutoTune()) \x7b
    {slotVector} tensors_vector = {vector};
    {optional}
    auto op_name = phi::TransToFluidOpName(\"{op}\");
    {transformer}    {transforms}
    VLOG(5) << \"Check and Prepare For LAYOUT \"<< op_name;
    paddle::imperative::LayoutAutotuneGuard guard(egr::Controller::Instance().GetCurrentTracer(), false);
    {returnType} {result} = {function}({newArgs});

    {outs}
    // Returns
    return {returns};
  \x7d
"

/-! ## 5. Gradient records -/

/-- In-place functions whose inputs are not checked. -/
def uncheckedInplace : List String := ["assign_out_"]

def recordCode (get address : String) (s : String × Slot) : String :=
  let name := s.1
  let record := autogradMeta name
  let records := autogradMetaVector name
  match s.2.form with
  | .one => s!"  egr::AutogradMeta* {record} = egr::EagerUtils::{get}({address}{name});"
  | _ => s!"  std::vector<egr::AutogradMeta*> {records} = egr::EagerUtils::{get}({address}{name});
  std::vector<egr::AutogradMeta*>* {record} = &{records};"

def recordedInputs (g : Gradient) (v : Variant) : Table String Slot :=
  f.inputs.filter fun s => g.returnsAt s.2.position ||
    (v.overwrites.has s.1 && !uncheckedInplace.elem v.name)

def checkInplace : String :=
  if uncheckedInplace.elem v.name then ""
  else String.join (v.overwrites.keys.map fun name =>
    let record := autogradMeta name
    s!"
  egr::EagerUtils::CheckInplace({name}, {record}, require_any_grad);
")

def bumpVersions : String :=
  String.join (v.overwrites.keys.map fun name => s!"
  // Bump Inplace Version
  {name}.bump_inplace_version();
  VLOG(3) << \"Tensor(\" << {name}.name() << \") uses Inplace Strategy.\";
")

/-! ## 6. The function -/

def outputsCode : String :=
  String.join (f.outputs.map fun s =>
    let name := s.1
    let i := s.2.position
    if returnCount f = 1 && f.intermediate.isEmpty then s!"  auto& {name} = api_result;
"
    else s!"  auto& {name} = std::get<{i}>(api_result);
")

def calledFunction : String :=
  if f.intermediate.isEmpty then v.name
  else if v.inplace then intermediateFunction (withoutLast v.name) ++ "_"
  else intermediateFunction v.name

structure FunctionText where
  declaration : String := ""
  definition : String := ""

def functionText (space : String) (f : Function) (v : Variant) : Making FunctionText := do
  let params ← parameters f v
  let args ← callArgs f id
  let newArgs ← callArgs f fun n => "new_" ++ n
  let (returnType, returns) := resultText (← results f v)
  let op := v.name
  let function := eagerFunction v.name
  let declared := commas (placeTexts (params.map fun p => p.map Parameter.declare))
  let defined := commas (placeTexts (params.map fun p => p.map Parameter.define))
  let precision := precisionCode f v newArgs
  let layout := layoutCode f v returnType returns newArgs
  let called := calledFunction f v
  let auto := if v.inplace && f.outputs.length = 1 then "auto&" else "auto"
  let outputs := outputsCode f
  let inputLog := logStart ++ String.join (f.inputs.keys.map (logTensor "input" ""))
  let before := logBefore inputLog
  let after := logAfter (inputLog ++ String.join (f.outputs.keys.map (logTensor "output" "")))
  let head := s!"
{returnType} {function}({defined}) \x7b
  VLOG(3) << \"Running AD API: \" << \"{op}\";
  // Dygraph Record Event
  paddle::platform::RecordEvent dygraph_entrance_record_event(\"{op} dygraph\", paddle::platform::TracerEventType::Operator, 1);

  // AMP Logic
{precision}
  // Layout autotune
{layout}
"
  let call := s!"  {auto} api_result = paddle::experimental::{space}{called}({args});
"
  let tail := s!"  VLOG(4) << \"Finish AD API: {op}\";
  // LOG IF DEBUG
  {after}
  // Returns
  return {returns};
\x7d
"
  let body := match f.gradient with
    | none => s!"  VLOG(5) << \"Running C++ API: \" << \"{op}\";
  // Before log info
{before}
  // Forward API Call
{call}  // Get Outputs
{outputs}
"
    | some g =>
      let recorded := recordedInputs f g v
      let inputRecords := lines (recorded.map (recordCode "nullable_autograd_meta" ""))
      let outputRecords := lines (f.outputs.map (recordCode "autograd_meta" "&"))
      let required := join "," ("trace_backward" :: recorded.keys.map autogradMeta)
      let numbers := checkNumbers called "api_result"
      let check := checkInplace v
      let bump := bumpVersions v
      let node := nodeCreation f g false
      s!"  // Get Input AutoGradMeta
{inputRecords}

  VLOG(5) << \"Running C++ API: \" << \"{op}\";
 // Before log info
{before}
 // Forward API Call
{call}  // Check NaN and Inf if needed
{numbers}
  // Get Outputs
{outputs}
  // Get Output AutoGradMeta
{outputRecords}
  bool trace_backward = egr::Controller::Instance().HasGrad();
  bool require_any_grad = egr::EagerUtils::ComputeRequireGrad({required});

  // Check Inplace if needed
{check}{bump}
  // Node Creation
{node}

"
  return ⟨s!"{returnType} {function}({declared});
", head ++ body ++ tail⟩

def ordinary : Variant := ⟨false, f.name, []⟩

def overwriting : Making Variant := do
  match inplaceFunction f.name with
  | .ok name => return ⟨true, name, f.inplace.getD []⟩
  | .error k => .error (.fault k)

/-! ## 7. Argument tables -/

/-- Arguments, kinds of arguments and outputs of a function, as they are looked up at run time. -/
structure CoreOp where
  args : List String
  types : List String
  returns : List String

def coreOp : Making CoreOp := do
  let names := (f.inputs.map fun s => (s.2.position, s.1)) ++
    (f.stated.attrs.map fun a => (a.position, a.name))
  let args ← fill (paramCount f) names
  let types ← fill (paramCount f) (f.inputs.map fun s =>
    (s.2.position, if s.2.form = .one then "tensor" else "list"))
  let returns ← fill f.outputs.length (f.outputs.map fun s => (s.2.position, s.1))
  return ⟨placeTexts args, placeTexts types, placeTexts returns⟩

/-- The texts of the eager functions of an operator, and their table entries.  An operator whose name ends
in an underscore has no function that leaves its inputs as they are. -/
def forwardFunctions (space : String) (f : Function) : Making (FunctionText × List (String × CoreOp)) := do
  let first ← match last? f.name with
    | none => .error (.fault .index)
    | some '_' => pure {}
    | some _ => functionText space f (ordinary f)
  let entry ← coreOp f
  if f.name ≠ "sum" && f.inplace.isSome then
    let v ← overwriting f
    let second ← functionText space f v
    return (⟨first.declaration ++ second.declaration, first.definition ++ second.definition⟩,
      [(f.name, entry), (v.name, ← coreOp f)])
  else return (first, [(f.name, entry)])

end TensorKit.Operator.Eager

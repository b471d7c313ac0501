import TensorKit.Operator.Api.Signature
/-!
Calling a kernel.

For each input that the kernel takes, generated code prepares a variable: a dense tensor, several of them, or a
row-sparse tensor.  Then it calls the kernel through a pointer whose type lists the parameter types.  The call and the
pointer type are two views of one list (`KernelItem`).
-/

namespace TensorKit.Operator.Api

open Text

/-! ## 1. Parameters of the kernel -/

/-- What an argument of a kernel call stands for. -/
inductive ItemSource where
  | context
  | input (name : String)
  | attr (name : String)
  | literal
  | output (position : Nat)
  deriving DecidableEq

/-- One place of a kernel call: the argument, if one is passed, and the parameter type, if one is
listed. -/
structure KernelItem where
  source : ItemSource
  arg : Option String
  type : Option String

variable (api : Api) (k : KernelSpec)

/-- The parameters of a kernel: those that are written, or all inputs and attributes. -/
def kernelParams : List Param :=
  k.param.getD ((api.inputs.names ++ api.attrs.names).map .name)

def prepared (name : String) : String := "input_" ++ name

def denseInputType : InputForm → String
  | .single => "const phi::DenseTensor&"
  | .many => "const std::vector<const phi::DenseTensor*>&"
  | .optionalSingle => "const paddle::optional<phi::DenseTensor>&"
  | .optionalMany => "const paddle::optional<std::vector<const phi::DenseTensor*>>&"

def rowsInputType : InputForm → Making String
  | .single => .ok "const phi::SelectedRows&"
  | .optionalSingle => .ok "const paddle::optional<phi::SelectedRows>&"
  | _ => .error (.fault .key)

def outputPointer (tensor : String) : OutputForm → String
  | .single => tensor ++ "*"
  | .many => "std::vector<" ++ tensor ++ "*>&"

def rowsOutputType : OutputForm → Making String
  | .single => .ok "phi::SelectedRows*"
  | .many => .error (.fault .key)

/-- Is the tensor at this place a dense one?  It is when no kinds are written. -/
def isDense (kinds : Option (List TensorKind)) (position : Nat) : Making Bool :=
  match kinds with
  | none => .ok true
  | some ks => do return (← item ks position) == .dense

def paramPosition (ps : List Param) (name : String) : Making Nat :=
  demand (.fault .value) (paramIndex? ps name)

def inputArg (form : InputForm) (name : String) : Option String :=
  if api.optional.elem name then some (prepared name)
  else match form with
    | .single => some ("*" ++ prepared name)
    | .many => some (prepared name)
    | _ => none

/-- The place for an attribute; lists of scalars may be passed as they are. -/
def attrItem (lists : Bool) (type name : String) : KernelItem :=
  if contains "IntArray" type then
    ⟨.attr name, some ("phi::IntArray(" ++ name ++ ")"), some "const phi::IntArray&"⟩
  else if lists && contains "vector<phi::Scalar>" type then
    ⟨.attr name, some name, some "const std::vector<phi::Scalar>&"⟩
  else if contains "Scalar" type then
    ⟨.attr name, some ("phi::Scalar(" ++ name ++ ")"), some "const phi::Scalar&"⟩
  else ⟨.attr name, some name, some type⟩

/-- The place of a kernel call for a parameter, from the argument and the type for an input of some form. -/
def placeFor (lists : Bool) (input : InputForm → String → Making (Option String × String)) (p : Param) :
    Making KernelItem := do
  match p with
  | .literal _ => return ⟨.literal, some p.text, none⟩
  | .name n =>
    if api.inputs.names.elem n then
      let (arg, type) ← input (← found (api.inputs.info.get? n)) n
      return ⟨.input n, arg, some type⟩
    else if api.attrs.names.elem n then
      return attrItem lists (← found (api.attrs.info.get? n)).type n
    else return ⟨.literal, some n, none⟩

def paramItem (ps : List Param) (dispatch : Option Dispatch) : Param → Making KernelItem :=
  placeFor api true fun form n => do
    let type ← if ← isDense (dispatch.map Dispatch.inputs) (← paramPosition ps n) then pure (denseInputType form)
      else rowsInputType form
    return (inputArg api form n, type)

def paramItems (dispatch : Option Dispatch) : Making (List KernelItem) := do
  let ps := kernelParams api k
  let items ← ps.mapM (paramItem api ps dispatch)
  return ⟨.context, some "*dev_ctx", some "const platform::DeviceContext&"⟩ :: items

def outputTypes (dispatch : Option Dispatch) : Making (List String) :=
  api.outputs.zipIdx.mapM fun (o, i) => do
    if ← isDense (dispatch.map Dispatch.outputs) i then return outputPointer "phi::DenseTensor" o.form else rowsOutputType o.form

def callArgs (items : List KernelItem) : List String := items.filterMap KernelItem.arg

def pointerType (types : List String) : String := "void(*)(" ++ commas types ++ ")"

/-! ## 2. Preparing the inputs -/

/-- A variable prepared for an input, and whether it holds several tensors. -/
structure Prepared where
  vname : String
  isVector : Bool

/-- The code that prepares an input, and the variable it makes, if it makes one that is recorded. -/
structure Preparation where
  code : String
  made : Option Prepared

def transformFlag (t : TransformSpec) (name : String) : String :=
  if t.skip.mentions name then "\x7btrue\x7d"
  else if t.support.mentions name then "\x7bfalse, true\x7d"
  else "\x7b\x7d"

def overwrittenLists : List String :=
  api.inplace.values.filter fun n => (api.inputs.info.get? n).any InputForm.isList

def prepareDense (api : Api) (t : TransformSpec) (indent name : String) (form : InputForm)
    (position : Nat) : Preparation :=
  let flag := transformFlag t name
  let vname := prepared name
  let prepare := s!"PrepareData({name}, kernel.InputAt({position}), {flag});"
  let single : Preparation := ⟨s!"
{indent}  auto {vname} = {prepare}", some ⟨vname, false⟩⟩
  let list (type fill : String) : Preparation :=
    ⟨if (overwrittenLists api).elem name then s!"
{indent}  {type} {vname} = TensorToConstDenseTensorPtr({name});" else s!"
{indent}  auto {vname}_vec = {prepare}
{indent}  {type} {fill}", some ⟨vname, true⟩⟩
  let tensors := "std::vector<const phi::DenseTensor*>"
  if api.optional.elem name then
    if form = .optionalMany then
      list s!"paddle::optional<{tensors}>" s!"{vname};
{indent}  if ({vname}_vec)\x7b
{indent}    {vname} = paddle::optional<{tensors}>({vname}_vec->size());
{indent}    for (size_t i = 0; i < {vname}_vec->size(); ++i) \x7b
{indent}      {vname}->at(i) = &{vname}_vec->at(i);
{indent}    \x7d
{indent}  \x7d"
    else single
  else
    match form with
    | .single => single
    | .many => list tensors s!"{vname}({vname}_vec->size());
{indent}  for (size_t i = 0; i < {vname}.size(); ++i) \x7b
{indent}    {vname}[i] = &{vname}_vec->at(i);
{indent}  \x7d"
    | _ => ⟨"", none⟩

def prepareRows (indent name : String) : Preparation :=
  let vname := prepared name
  ⟨s!"
{indent}  auto {vname} = TensorToSelectedRows({name});
", some ⟨vname, false⟩⟩

def prepareForRule (rule : Option InferMetaEntry) (indent name : String) : Making Preparation := do
  let params ← match rule with
    | none => .error (.fault .attribute)
    | some r => match r.param with
      | none => .error (.fault .type)
      | some ps => pure ps
  let vname := prepared name
  if !paramsHave params name then return ⟨"", none⟩
  else if api.optional.elem name then
    return ⟨s!"
{indent}  paddle::optional<phi::TensorBase> {vname} = {name} ? paddle::optional<phi::TensorBase>(*{name}->impl()) : paddle::none;", none⟩
  else if (← found (api.inputs.info.get? name)) = .many then
    return ⟨s!"
{indent}  auto {vname}_uq_ptr = TensorToDenseTensor({name});
{indent}  const auto& {vname} = *{vname}_uq_ptr;", none⟩
  else
    return ⟨s!"
{indent}  auto {vname} = {name}.impl();", none⟩

def prepareInput (t : TransformSpec) (rule : Option InferMetaEntry)
    (dispatch : Option Dispatch) (indent name : String) : Making Preparation := do
  let ps := kernelParams api k
  if paramsHave ps name then
    let position ← paramPosition ps name
    if ← isDense (dispatch.map Dispatch.inputs) position then
      return prepareDense api t indent name (← found (api.inputs.info.get? name)) position
    else return prepareRows indent name
  else prepareForRule api rule indent name

/-! ## 3. Recording the shapes -/

abbrev PreparedTable := Table String (List Prepared)

def PreparedTable.add (t : PreparedTable) (name : String) (p : Prepared) : PreparedTable :=
  Table.set name ((Table.get? name t).getD [] ++ [p]) t

def PreparedTable.record (t : PreparedTable) (p : String × Preparation) : PreparedTable :=
  match p.2.made with
  | some v => t.add p.1 v
  | none => t

def shapeEntry (indent name close : String) (ps : List Prepared) : String :=
  let first := s!"
{indent}     \x7b\"{name}\", \x7b"
  let middle := ps.dropLast.map fun p =>
    let v := p.vname
    s!"
{indent}     (*{v}).dims(),"
  let v := (ps.getLast?.map Prepared.vname).getD ""
  first ++ String.join middle ++ s!"
{indent}     (*{v}).dims(){close}"

def singleShapes (api : Api) (indent : String) (single : List (String × List Prepared)) : String :=
  match single.getLast? with
  | none => s!"
{indent}     std::vector<std::pair<const char*, std::vector<phi::DDim>>> input_shapes;"
  | some (lastName, lastVars) =>
    let records := single.map fun (name, ps) =>
      if api.optional.elem name then
        s!"
{indent}     std::vector<phi::DDim> {name}_record_shapes;" ++ String.join (ps.map fun p =>
          let v := p.vname
          s!"
{indent}     if({v})\x7b
{indent}       {name}_record_shapes.push_back((*{v}).dims());
{indent}     \x7d")
      else ""
    let start := s!"
{indent}     std::vector<std::pair<const char*, std::vector<phi::DDim>>> input_shapes\x7b"
    let entries := single.dropLast.map fun (name, ps) =>
      if api.optional.elem name then
        s!"
{indent}     \x7b\"{name}\", {name}_record_shapes\x7d,"
      else shapeEntry indent name "\x7d\x7d," ps
    let last :=
      if api.optional.elem lastName then
        s!"
{indent}     \x7b\"{lastName}\",
{indent}     {lastName}_record_shapes\x7d\x7d;"
      else shapeEntry indent lastName "\x7d\x7d\x7d;" lastVars
    String.join records ++ start ++ String.join entries ++ last

/-- The code that adds the shapes of one prepared variable of an input with several tensors. -/
def vectorShape (indent name : String) (p : Prepared) : String :=
  let v := p.vname
  if p.isVector then
    if api.optional.elem name then
      s!"
{indent}     if ({v})\x7b
{indent}       ddims_vec.reserve({v}->size());
{indent}       for (size_t i = 0; i < {v}->size(); ++i) \x7b
{indent}         ddims_vec.emplace_back((*{v}->at(i)).dims());
{indent}       \x7d
{indent}     \x7d"
    else
      s!"
{indent}     ddims_vec.reserve({v}.size());
{indent}     for (size_t i = 0; i < {v}.size(); ++i) \x7b
{indent}       ddims_vec.emplace_back((*{v}[i]).dims());
{indent}     \x7d"
  else
    s!"
                  ddims_vec.emplace_back((*{v}).dims());
{indent}     "

def vectorShapes (api : Api) (indent : String) (vectors : List (String × List Prepared)) : String :=
  if vectors.isEmpty then ""
  else s!"
{indent}     std::vector<phi::DDim> ddims_vec;" ++ String.join (vectors.map fun (name, ps) =>
    s!"
{indent}     ddims_vec.clear();" ++ String.join (ps.map (vectorShape api indent name)) ++ s!"
{indent}     input_shapes.emplace_back(\"{name}\", ddims_vec);")

def recordShapes (indent : String) (t : PreparedTable) : String :=
  let isVector (p : String × List Prepared) : Bool := p.2.any Prepared.isVector
  let op := api.name
  s!"
{indent}  if(platform::RecordOpInfoSupplement::IsEnabled())\x7b"
    ++ singleShapes api indent (t.filter fun p => !isVector p)
    ++ vectorShapes api indent (t.filter isVector)
    ++ s!"
{indent}     platform::RecordOpInfoSupplement(\"{op}\", input_shapes);
{indent}  \x7d"

/-! ## 4. The whole call -/

/-- The code before a kernel call, the arguments before those for the outputs, and the pointer type. -/
structure KernelCall where
  code : String
  args : List String
  pointer : String

def kernelCall (t : TransformSpec) (rule : Option InferMetaEntry)
    (dispatch : Option Dispatch) (indent : String) : Making KernelCall := do
  let preparations ← api.inputs.names.mapM fun n => do
    return (n, ← prepareInput api k t rule dispatch indent n)
  let table := preparations.foldl PreparedTable.record []
  let code := String.join (preparations.map fun p => p.2.code) ++ recordShapes api indent table
  let items ← paramItems api k dispatch
  let outputs ← outputTypes api dispatch
  return ⟨code, callArgs items, pointerType (items.filterMap KernelItem.type ++ outputs)⟩

/-- The kind of tensor that a kernel for text tensors is declared with. -/
def stringsInputType : InputForm → String
  | .single => "const phi::StringTensor&"
  | .many => "const std::vector<const phi::StringTensor*>&"
  | .optionalSingle => "paddle::optional<const phi::StringTensor&>"
  | .optionalMany => "paddle::optional<const std::vector<phi::StringTensor>&>"

/-- The place of a kernel call on text tensors for a parameter.  Whether an input that is not a single
tensor is passed depends on the form of the last input. -/
def stringsItem : Param → Making KernelItem :=
  placeFor api false fun form n =>
    let lastForm := api.inputs.names.getLast?.bind api.inputs.info.get?
    let arg :=
      if api.optional.elem n then some (prepared n)
      else if form = .single then some ("*" ++ prepared n)
      else if lastForm = some .many then some (prepared n)
      else none
    .ok (arg, stringsInputType form)

def stringsCall (k : KernelSpec) (indent : String) : Making KernelCall := do
  let code := String.join (api.inputs.names.map fun name =>
    let vname := prepared name
    s!"
{indent}  auto {vname} = TensorToStringTensor({name});")
  let items ← (kernelParams api k).mapM (stringsItem api)
  let items := ⟨.context, some "*dev_ctx", some "const platform::DeviceContext&"⟩ :: items
  let outputs := api.outputs.map fun o => outputPointer "phi::StringTensor" o.form
  return ⟨code, callArgs items, pointerType (items.filterMap KernelItem.type ++ outputs)⟩

end TensorKit.Operator.Api

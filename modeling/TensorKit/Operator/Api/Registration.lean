import TensorKit.Operator.Api.Function
/-!
Registration of shape rules.

The shape rule of an operator is registered for the kernel of the operator.  A rule that takes other
parameters than the kernel is wrapped in a function that takes the kernel's parameters; each kernel is
given one wrapper at most.
-/

namespace TensorKit.Operator.Api

open Text

structure Registration where
  kernel : String
  rule : String
  deriving DecidableEq

def Registration.line (r : Registration) : String :=
  let kernel := r.kernel
  let rule := r.rule
  s!"
PD_REGISTER_INFER_META_FN({kernel}, phi::{rule});"

structure RuleWrapper where
  name : String
  params : List Parameter
  rule : String
  args : List String
  deriving DecidableEq

def RuleWrapper.paramText (w : RuleWrapper) : String := commas (w.params.map Parameter.define)

def RuleWrapper.declaration (w : RuleWrapper) : String :=
  let name := w.name
  let params := w.paramText
  s!"
void {name}({params});
"

def RuleWrapper.definition (w : RuleWrapper) : String :=
  let name := w.name
  let params := w.paramText
  let rule := w.rule
  let args := commas w.args
  s!"
void {name}({params}) \x7b
  {rule}({args});
\x7d
"

/-- What an operator adds: a wrapper, a registration, both or nothing. -/
structure RuleEntry where
  wrapper : Option RuleWrapper := none
  registration : Option Registration := none

def wrapperName (kernel : String) : String := capitalize kernel ++ "InferMeta"

def metaInputType : InputForm → Making String
  | .single | .optionalSingle => .ok "const MetaTensor&"
  | .many => .ok "const std::vector<const MetaTensor*>&"
  | .optionalMany => .error (.fault .key)

def metaOutputType : OutputForm → String
  | .single => "MetaTensor*"
  | .many => "std::vector<MetaTensor*>"

/-- The parameters of a wrapper: inputs and attributes that the kernel takes, then the outputs. -/
def wrapperParams (api : Api) (params : List Param) : Making (List Parameter) := do
  let inputs ← (api.inputs.names.filter (paramsHave params)).mapM fun n => do
    return (⟨← metaInputType (← found (api.inputs.info.get? n)), n, none⟩ : Parameter)
  let attrs ← (api.attrs.names.filter (paramsHave params)).mapM fun n => do
    return (⟨(← found (api.attrs.info.get? n)).type, n, none⟩ : Parameter)
  return inputs ++ attrs ++ api.outputs.map fun o => ⟨metaOutputType o.form, o.name, none⟩

def paramNames (ps : List Param) : Making (List String) :=
  ps.mapM fun
    | .name s => .ok s
    | .literal _ => .error (.fault .type)

def sameParams (ps qs : List Param) : Bool :=
  ps.length == qs.length && (ps.zip qs).all fun p => p.1.same p.2

def wrapRule (wrapped : List String) (api : Api) (k : KernelSpec) (kernel rule : String)
    (params : List Param) : Making RuleEntry := do
  if wrapped.elem kernel then return {}
  let kernelParams := kernelParams api k
  if sameParams kernelParams params then return { registration := some ⟨kernel, rule⟩ }
  ensure (params.length ≤ kernelParams.length) (Error.inferMetaNotSubset api.name)
  let wrapperParams ← wrapperParams api kernelParams
  let args := (← paramNames params) ++ api.outputs.map OutputSpec.name
  let name := wrapperName kernel
  return ⟨some ⟨name, wrapperParams, rule, args⟩, some ⟨kernel, name⟩⟩

def ruleEntry (wrapped : List String) (api : Api) : Making RuleEntry := do
  match api.body, api.dygraph with
  | .kernel rule k _, false =>
    let kernel ← item k.func 0
    let rule ← demand (.fault .attribute) rule
    let func ← found rule.func
    match rule.param with
    | some params => wrapRule wrapped api k kernel func params
    | none => return { registration := some ⟨kernel, func⟩ }
  | _, _ => return {}

structure RuleTable where
  wrappers : List RuleWrapper := []
  registrations : List Registration := []
  /-- kernels that have been given a wrapper -/
  wrapped : List String := []

def RuleTable.registrationText (t : RuleTable) : String :=
  String.join (t.registrations.map Registration.line)

/-- Add what an operator adds.  A registration whose line is there already is not repeated. -/
def RuleTable.add (t : RuleTable) (e : RuleEntry) : RuleTable where
  wrappers := t.wrappers ++ e.wrapper.toList
  registrations := match e.registration with
    | some r => if contains r.line t.registrationText then t.registrations else t.registrations ++ [r]
    | none => t.registrations
  wrapped := match e.wrapper, e.registration with
    | some _, some r => t.wrapped ++ [r.kernel]
    | _, _ => t.wrapped

def ruleTable (entries : List Entry) : Making RuleTable :=
  entries.foldlM (fun t e => do return t.add (← ruleEntry t.wrapped (← ofEntry .forward e))) {}

end TensorKit.Operator.Api

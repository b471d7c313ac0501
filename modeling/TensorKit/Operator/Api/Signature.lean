import TensorKit.Operator.Api.Spec
import TensorKit.Operator.Parameter
/-!
Signatures of generated functions.

A function is declared in a header and defined in a source file.  Both texts are printed from the same
`Signature`: the declaration with the defaults of its parameters, the definition without.
-/

namespace TensorKit.Operator.Api

open Text

/-! ## 1. Parameters -/

/-- A generated function: what it returns, its name, its parameters, and for gradient functions the
parameters through which it returns. -/
structure Signature where
  returns : String
  name : String
  params : List Parameter
  results : List Parameter := []
  deriving DecidableEq

def Signature.paramText (s : Signature) (print : Parameter → String) : String :=
  commas (s.params.map print) ++
    (if s.results.isEmpty then "" else ", " ++ commas (s.results.map print))

def Signature.declaration (s : Signature) : String :=
  "\nPADDLE_API " ++ s.returns ++ " " ++ s.name ++ "(" ++ s.paramText Parameter.declare ++ ");\n"

def Signature.head (s : Signature) : String :=
  "\nPADDLE_API " ++ s.returns ++ " " ++ s.name ++ "(" ++ s.paramText Parameter.define ++ ") \x7b\n"

variable (api : Api) (inplace : Bool)

def inputParams : Making (List Parameter) :=
  api.inputs.names.mapM fun n => do
    let name := Naming.baseName n
    let form ← found (api.inputs.info.get? name)
    return ⟨if inplace && api.inplace.values.elem name then form.inplaceType else form.type, name, none⟩

def attrParams : Making (List Parameter) :=
  api.attrs.names.mapM fun n => do
    let info ← found (api.attrs.info.get? n)
    return ⟨info.type, n, info.default⟩

/-- The parameters through which a gradient function returns. -/
def resultParams : List Parameter :=
  api.outputs.map fun o => ⟨o.form.pointerType, Naming.baseName o.name, none⟩

/-! ## 2. Results -/

def tupleType (types : List String) : String :=
  match types with
  | [t] => t
  | ts => "std::tuple<" ++ commas ts ++ ">"

/-- The type of an output in a function that overwrites its input, if the output takes the place of an
input. -/
def inplaceOutputType? (o : OutputSpec) : Option String :=
  if inplace then
    match api.inplace.get? (Naming.baseName o.name) with
    | some input =>
      some (if api.optional.elem input then o.form.inplaceOptionalType else o.form.inplaceType)
    | none => none
  else none

def isHidden (o : OutputSpec) : Bool :=
  !api.dygraph && api.intermediate.elem (Naming.baseName o.name)

def fullReturnType : String :=
  tupleType (api.outputs.map fun o => (inplaceOutputType? api inplace o).getD o.form.type)

def returnTypes : List String :=
  api.outputs.filterMap fun o =>
    match inplaceOutputType? api inplace o with
    | some t => some t
    | none => if isHidden api o then none else some o.form.type

def returnType : String :=
  if api.kind.isBackward then "void" else tupleType (returnTypes api inplace)

def returnedPositions : List Nat :=
  (api.outputs.zipIdx.filter fun p => !api.intermediate.elem (Naming.baseName p.1.name)).map Prod.snd

def returnCode : String :=
  match api.kind with
  | .backward => ""
  | .sparseBackward => "return;"
  | _ =>
    if api.dygraph || api.intermediate.isEmpty then "return api_output;"
    else
      let get (i : Nat) : String := "std::get<" ++ toString i ++ ">(api_output)"
      match returnedPositions api with
      | [i] => "return " ++ get i ++ ";"
      | is => "return std::make_tuple(" ++ commas (is.map get) ++ ");"

/-! ## 3. Functions -/

def functionName : String :=
  match api.kind with
  | .forward | .sparse => if api.dygraph then Naming.intermediateFunction api.name else api.name
  | _ => api.name

/-- Does a name end in an underscore?  A name has to have a last character. -/
def endsInUnderscore (s : String) : Making Bool :=
  match last? s with
  | some c => .ok (c == '_')
  | none => .error (.fault .index)

/-- The signature of a function with a given return type and name.  The attributes of a gradient function
stand before the parameters through which it returns, so they have no defaults. -/
def signatureNamed (returns name : String) : Making Signature := do
  if api.kind.isBackward then
    let attrs := (← attrParams api).map fun p => { p with default := none }
    return ⟨returns, name, (← inputParams api false) ++ attrs, resultParams api⟩
  else return ⟨returns, name, (← inputParams api inplace) ++ (← attrParams api), []⟩

def isBase : Bool :=
  match api.body with
  | .invoke _ => false
  | .kernel .. => true

/-- The functions that a header declares: the ordinary function, unless the name says that its input is
overwritten, and the function that overwrites its input, if there is one. -/
def declared : Making (List Signature) := do
  if api.kind.isBackward then
    return [← signatureNamed api false "void" (functionName api)]
  else
    let name := functionName api
    let inplaceOnly ← endsInUnderscore name
    let ordinary ← if inplaceOnly then pure []
      else do pure [← signatureNamed api false (returnType api false) name]
    if isBase api && !api.inplace.isEmpty then
      let name := if inplaceOnly then name else name ++ "_"
      return ordinary ++ [← signatureNamed api true (returnType api true) name]
    else return ordinary

/-- Is a gradient operator that calls another function given a function of its own?  Only if that
function is a gradient function or an implementation. -/
def callsGradient (func : String) : Bool := hasEnd "_grad" func || hasEnd "_impl" func

def declarationText : Making String := do
  let skipped := match api.kind.isBackward, api.body with
    | true, .invoke call => !callsGradient (before '(' call)
    | _, _ => false
  let text ← if skipped then pure ""
    else do pure (String.join ((← declared api).map Signature.declaration))
  match api.kind with
  | .forward | .backward => return text
  | _ => return "\n// " ++ commas (api.outputs.map OutputSpec.name) ++ "\n" ++ text ++ "\n"

end TensorKit.Operator.Api

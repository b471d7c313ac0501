import TensorKit.Operator.Api.Files
import TensorKit.Operator.Extra
/-!
Reading definition files.

A definition file is a document: a list of tables, one for each operator.  A field of another type than
expected is read as absent.
-/

namespace TensorKit.Operator

def Param.ofValue : Value → Param
  | .str s => .name s
  | v => .literal v

def paramsOfValue? : Value → Option (List Param)
  | .list xs => some (xs.map Param.ofValue)
  | _ => none

variable (v : Value)

def InferMetaEntry.ofValue : InferMetaEntry where
  func := v.text? "func"
  param := (v.field? "param").bind paramsOfValue?
  others := v.fields.filter fun f => f.1 != "func" && f.1 != "param"

def Flag.ofValue? : Value → Option Flag
  | .bool b => some (.bool b)
  | .str s => some (.text s)
  | _ => none

def KernelEntry.ofValue : KernelEntry where
  func := v.text? "func"
  param := (v.field? "param").bind paramsOfValue?
  backend := v.text? "backend"
  layout := v.text? "layout"
  dataType := v.text? "data_type"
  useGpudnn := (v.field? "use_gpudnn").bind Flag.ofValue?

def NameList.ofValue? : Value → Option NameList
  | .str s => some (.text s)
  | .list xs => some (.items (xs.filterMap Value.str?))
  | _ => none

def TransformEntry.ofValue : TransformEntry where
  skip := (v.field? "skip_transform").bind NameList.ofValue?
  support := (v.field? "support_trans_dtype").bind NameList.ofValue?

def Entry.ofValue : Entry where
  op := v.text? "op"
  backwardOp := v.text? "backward_op"
  args := v.text? "args"
  output := v.text? "output"
  optional := v.text? "optional"
  intermediate := v.text? "intermediate"
  noNeedBuffer := v.text? "no_need_buffer"
  inplace := v.text? "inplace"
  view := v.text? "view"
  invoke := v.text? "invoke"
  backward := v.text? "backward"
  forward := v.text? "forward"
  inferMeta := (v.field? "infer_meta").map InferMetaEntry.ofValue
  kernel := (v.field? "kernel").map KernelEntry.ofValue
  dataTransform := (v.field? "data_transform").map TransformEntry.ofValue
  fields := v.fields.map Prod.fst

def listingOfValue : Value → Api.Listing
  | .list xs => some (xs.map Entry.ofValue)
  | _ => none

def renamesOfValue : Texts :=
  v.fields.filterMap fun f => f.2.str?.map fun s => (f.1, s)

def RenameEntry.ofValue : RenameEntry where
  op := v.text? "op"
  backward := v.text? "backward"
  inputs := (v.field? "inputs").map renamesOfValue
  attrs := (v.field? "attrs").map renamesOfValue
  outputs := (v.field? "outputs").map renamesOfValue

def ExtraEntry.ofValue : ExtraEntry where
  op := v.text? "op"
  backward := v.text? "backward"
  attrs := (v.field? "extra").bind fun e => (e.field? "attrs").map fun l => l.items.filterMap Value.str?

/-- The file of extra attributes of a definition file, which must not be empty. -/
def extraFileOfValue : Value → Fallible String
  | .list xs => extraFile (xs.map ExtraEntry.ofValue)
  | _ => .error .type

def canonicalForms (file : Api.Listing) (field : NameField) : Reading (List Definition) :=
  (file.getD []).mapM fun e => Definition.ofEntry e field

end TensorKit.Operator

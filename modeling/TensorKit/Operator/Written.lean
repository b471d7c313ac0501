import TensorKit.Operator.Api.Files
import TensorKit.Operator.Eager.Reading
import TensorKit.Operator.Rename
/-!
Definitions and functions as documents.

The canonical form of a definition file is written as a document again, and so is what the function
generators keep of a definition.
-/

namespace TensorKit.Operator

open Value

/-! ## 1. Canonical forms -/

instance : ToValue Param :=
  ⟨fun
    | .name s => .str s
    | .literal v => v⟩

instance : ToValue InferMetaEntry :=
  ⟨fun r => record (optionalField "func" r.func ++ [("param", toValue r.param)] ++ r.others)⟩

def typedName (type name : String) : Fields := [("typename", .str type), ("name", .str name)]

instance : ToValue Arg :=
  ⟨fun a => record (typedName a.typename a.name ++ optionalField "default_value" a.default)⟩

def OutputArg.fields (o : OutputArg) : Fields := typedName o.typename o.name ++ optionalField "size" o.size

instance : ToValue OutputArg := ⟨fun o => record o.fields⟩

instance : ToValue Input :=
  ⟨fun i => record (typedName i.arg.typename i.arg.name ++
    [("optional", toValue i.optional), ("no_need_buffer", toValue i.noNeedBuffer)])⟩

instance : ToValue Output := ⟨fun o => record (o.arg.fields ++ [("intermediate", toValue o.intermediate)])⟩

instance : ToValue TypedName := ⟨fun t => record (typedName t.typename t.name)⟩

instance : ToValue ForwardCall :=
  ⟨fun f => record [("name", toValue f.name), ("inputs", toValue f.inputs), ("attrs", toValue f.attrs),
    ("outputs", toValue f.outputs)]⟩

instance : ToValue Candidates :=
  ⟨fun c => record [("ordered", toValue c.ordered), ("candidates", toValue c.names)]⟩

instance : ToValue Kernel :=
  ⟨fun k => record [("func", toValue k.func), ("param", toValue k.param), ("backend", toValue k.backend),
    ("layout", toValue k.layout), ("data_type", toValue k.dataType)]⟩

instance : ToValue Invocation :=
  ⟨fun i => record [("func", toValue i.func), ("args", toValue i.args)]⟩

def Body.fields : Body → Fields
  | .kernel rule k inplace =>
    [("infer_meta", toValue rule), ("kernel", toValue k), ("inplace", toValue (inplace.map Table.toRecord))]
  | .invoke call => [("invoke", toValue call)]

def Definition.fields (d : Definition) : Fields :=
  [("name", toValue d.name), ("inputs", toValue d.inputs), ("attrs", toValue d.attrs),
    ("outputs", toValue d.outputs), ("no_need_buffer", toValue d.noNeedBuffer)] ++ d.body.fields ++
    [("backward", toValue d.backward)] ++ optionalField "forward" d.forward

instance : ToValue Definition := ⟨fun d => record d.fields⟩

/-- Items under the names that they had before any renaming. -/
def byFormerName {α : Type} [ToValue α] (names : List String) (xs : List α) : Value :=
  (Table.ofList (names.zip xs)).toRecord

instance : ToValue StaticOp :=
  ⟨fun s => record (s.definition.fields ++ [("op_name", toValue s.opName),
    ("input_dict", byFormerName s.inputNames s.definition.inputs),
    ("attr_dict", byFormerName s.attrNames s.definition.attrs),
    ("output_dict", byFormerName s.outputNames s.definition.outputs)])⟩

/-! ## 2. Functions -/

instance : ToValue NameList :=
  ⟨fun
    | .text s => .str s
    | .items xs => toValue xs⟩

namespace Api

instance : ToValue TensorKind := ⟨fun k => .str k.word⟩

instance : ToValue Dispatch := ⟨fun d => toValue (d.inputs, d.outputs)⟩

instance : ToValue KernelSpec :=
  ⟨fun k => record [("func", toValue k.func), ("param", toValue k.param), ("backend", toValue k.backend),
    ("layout", toValue k.layout), ("data_type", toValue k.dataType), ("use_gpudnn", toValue k.useGpudnn),
    ("dispatch", k.dispatch.toRecord)]⟩

instance : ToValue TransformSpec :=
  ⟨fun t => record [("skip_transform", toValue t.skip), ("support_trans_dtype", toValue t.support)]⟩

instance : ToValue InputForm := ⟨fun f => .str f.type⟩

instance : ToValue Inputs :=
  ⟨fun i => record [("names", toValue i.names), ("input_info", i.info.toRecord)]⟩

instance : ToValue AttrInfo := ⟨fun a => toValue (a.type, a.default)⟩

instance : ToValue Attrs :=
  ⟨fun a => record [("names", toValue a.names), ("attr_info", a.info.toRecord)]⟩

def outputsDocument (os : List OutputSpec) : Value :=
  record [("names", toValue (os.map OutputSpec.name)), ("types", toValue (os.map fun o => o.form.type)),
    ("out_size_expr", toValue (os.map OutputSpec.size))]

/-- An operator as a document: its parameters, its declaration and its definition, and what the body says.  `attempt`
writes an outcome that may be a failure. -/
def document (attempt : Except Failure Value → Value) (api : Api) : Value :=
  let sorted (t : Texts) : Value := toValue (t.mergeSort fun p q => p.1 ≤ q.1)
  let sure (v : Value) : Value := attempt (.ok v)
  let made (r : Making String) : Value := attempt ((r.map Value.str).mapError Failure.of)
  .record ([("inputs", sure (toValue api.inputs)), ("attrs", sure (toValue api.attrs)),
    ("outputs", sure (outputsDocument api.outputs)), ("optional", toValue api.optional),
    ("is_base_api", toValue api.isBase), ("return_type", sure (.str (api.returnType false))),
    ("declaration", made api.declarationText), ("code", made api.codeText)] ++ match api.body with
    | .invoke _ => []
    | .kernel _ k t => [("kernel", toValue k), ("data_transform", toValue t), ("inplace", sorted api.inplace),
        ("view", sorted api.view)])

instance : ToValue Files := ⟨fun f => .record [("header", .str f.header), ("source", .str f.source)]⟩

end Api

/-! ## 3. Eager signatures -/

namespace Eager

instance : ToValue TensorArg :=
  ⟨fun a => .list [toValue a.name, toValue a.form.type, toValue a.position]⟩

instance : ToValue AttrArg :=
  ⟨fun a => .list [toValue a.name, toValue a.type, toValue a.default, toValue a.position]⟩

instance : ToValue ArgLists := ⟨fun l => .tuple [toValue l.inputs, toValue l.attrs]⟩

instance : ToValue Signature :=
  ⟨fun s => .tuple [toValue s.inputs, toValue s.attrs, toValue s.returns]⟩

end Eager

end TensorKit.Operator

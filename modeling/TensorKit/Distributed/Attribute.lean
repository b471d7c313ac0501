import TensorKit.Distributed.ProcessMesh
/-!
Attributes that place tensors and operators on meshes.

The attribute of a tensor has a mesh and a mapping of its axes; that of an operator has a mesh, the choice of an
implementation and the attributes of its inputs and outputs, all on one mesh.  Setting a field to null keeps its value.
Fields can be marked as annotated.  An operation that fails keeps the changes it made before.
-/

namespace TensorKit.Distributed

structure TensorAttribute where
  mesh : Option ProcessMesh := none
  mapping : Option (List Int) := none
  shardSizes : Value := .null
  placement : Value := .null
  /-- the names of the annotated fields -/
  annotated : List String := []

/-- The attributes of tensors, by their names. -/
abbrev Tensors := Table String TensorAttribute

/-- Where an operator is, and its inputs and outputs. -/
structure OperatorAttribute where
  mesh : Option ProcessMesh := none
  type : Value := .null
  implementation : Value := .null
  implementationIndex : Value := .null
  recompute : Bool := false
  annotated : List String := []
  inputs : Tensors := []
  outputs : Tensors := []

variable (name : String)

namespace Attribute

inductive Error where
  | fault (kind : FailureKind)
  | mesh (e : ProcessMesh.Error)
  | meshClass
  | mappingClass
  | mappingWhole
  | mappingLeast
  | tensorClass
  | operatorClass
  | meshes

instance : Cause Error where
  kind
    | .fault k => k
    | .mesh e => e.kind
    | _ => .assertion
  message
    | .fault _ => none
    | .mesh e => e.message
    | .meshClass => some "The type of process_mesh must be list or ProcessMesh."
    | .mappingClass => some "The type of dims_mapping must be list."
    | .mappingWhole => some "All elements of dims_mapping must be integer"
    | .mappingLeast => some "All elements of dims_mapping must be greater than or equal to -1."
    | .tensorClass => some "The type of dist_attr must be dict or TensorDistributedAttribute."
    | .operatorClass => some "The type of dist_attr must be dict or OperatorDistributedAttribute."
    | .meshes => some "ProcessMeshes in DistributedOperator must be the same."

/-- What is left after an operation, and whether it failed. -/
abbrev Outcome (α : Type) := α × Except Error Unit

/-- What an entry of a dictionary is for: the field with a name, or a tensor. -/
inductive Key where
  | field (name : String)
  | tensor (name : String)
  deriving DecidableEq

instance : Coe String Key := ⟨.field⟩

inductive Argument where
  | data (v : Value)
  | mesh (m : ProcessMesh)
  | tensor (a : TensorAttribute)
  | operator (a : OperatorAttribute)
  | fields (fs : List (Key × Argument))

abbrev Entries := List (Key × Argument)

def Argument.entries? : Argument → Option Entries
  | .fields fs => some fs
  | .data (.dict ps) => some (Table.ofList (ps.filterMap fun p => p.1.str?.map fun name => (Key.field name, data p.2)))
  | _ => none

def Argument.truthy : Argument → Bool
  | .data v => v.truthy
  | .fields fs => !fs.isEmpty
  | _ => true

def isOn (fs : Entries) (name : String) : Bool :=
  ((Table.get? (Key.field name) fs).map Argument.truthy).getD false

def meshOf : Argument → Except Error (Option ProcessMesh)
  | .data .null => .ok none
  | .mesh m => .ok (some m)
  | .data (.list xs) => match ProcessMesh.make (.list xs) .null .null .null with
    | .ok m => .ok (some m)
    | .error e => .error (.mesh e)
  | _ => .error .meshClass

def mappingOf : Argument → Except Error (Option (List Int))
  | .data .null => .ok none
  | .data (.list xs) => match xs.mapM Value.int? with
    | none => .error .mappingWhole
    | some es => if es.all fun e => decide (-1 ≤ e) then .ok (some es) else .error .mappingLeast
  | _ => .error .mappingClass

def dataOf : Argument → Value
  | .data v => v
  | _ => .null

def kept (old : Value) : Value → Value
  | .null => old
  | v => v

def addName (names : List String) : List String :=
  if names.contains name then names else names ++ [name]

def sameNames (a b : List String) : Bool := a.all (fun n => b.contains n) && b.all fun n => a.contains n

def sameMesh : Option ProcessMesh → Option ProcessMesh → Bool
  | none, none => true
  | some a, some b => a.same b
  | _, _ => false

def isSkipped : Option Value → Except Error Bool
  | none | some .null => .ok false
  | some (.str s) => .ok ((s.splitOn name).length > 1)
  | some v => match v.members with
    | .ok vs => .ok (vs.any (Value.same (.str name)))
    | .error k => .error (.fault k)

def markText (names : List String) (name : String) : String :=
  if names.contains name then "annotated" else "non-annotated"

def meshText : Option ProcessMesh → String
  | some m => m.text
  | none => "None"

def meshDocument (m : Option ProcessMesh) : Value := (m.map ProcessMesh.document).getD .null

def nameDocument (names : List String) : Value := toValue (names.mergeSort fun a b => !(b < a))

end Attribute

open Attribute (Error Argument)

variable (v : Argument)

namespace TensorAttribute

open Attribute

variable (a : TensorAttribute)

/-! ## 1. Tensors -/

def fieldNames : List String := ["process_mesh", "dims_mapping", "shard_sizes", "device_placement"]

def set : Except Error TensorAttribute :=
  match name with
  | "process_mesh" => (meshOf v).map fun m => { a with mesh := m.or a.mesh }
  | "dims_mapping" => (mappingOf v).map fun m => { a with mapping := m.or a.mapping }
  | "shard_sizes" => .ok { a with shardSizes := kept a.shardSizes (dataOf v) }
  | "device_placement" => .ok { a with placement := kept a.placement (dataOf v) }
  | _ => .ok a

/-- Set fields one after the other, up to the first that fails. -/
def setAll (a : TensorAttribute) : Entries → Outcome TensorAttribute
  | [] => (a, .ok ())
  | (.tensor _, _) :: rest => setAll a rest
  | (.field name, v) :: rest => match a.set name v with
    | .ok a => setAll a rest
    | .error e => (a, .error e)

/-- Take over the fields of another attribute that are not null, and its marks. -/
def copy (b : TensorAttribute) : TensorAttribute :=
  { mesh := b.mesh.or a.mesh, mapping := b.mapping.or a.mapping, shardSizes := kept a.shardSizes b.shardSizes,
    placement := kept a.placement b.placement, annotated := b.annotated }

def init : Outcome TensorAttribute :=
  match v with
  | .data .null => (a, .ok ())
  | .tensor b => (a.copy b, .ok ())
  | v => match v.entries? with
    | some fs => a.setAll fs
    | none => (a, .error .tensorClass)

def ofArgument : Except Error TensorAttribute :=
  match init v {} with
  | (a, .ok ()) => .ok a
  | (_, .error e) => .error e

/-- Set back: no mesh, a mapping that splits nothing, no marks.  Fields may be left as they are. -/
def reset (skip : Option Value) (a : TensorAttribute) : Outcome TensorAttribute :=
  match isSkipped "process_mesh" skip with
  | .error e => (a, .error e)
  | .ok keepMesh =>
    let a := if keepMesh then a else { a with mesh := none }
    match isSkipped "dims_mapping" skip with
    | .error e => (a, .error e)
    | .ok true => ({ a with annotated := [] }, .ok ())
    | .ok false => match a.mapping with
      | none => (a, .error (.fault .type))
      | some es => ({ a with mapping := some (es.map fun _ => -1), annotated := [] }, .ok ())

def mark : TensorAttribute := { a with annotated := addName name a.annotated }

def markAs : Outcome TensorAttribute :=
  match v with
  | .data .null => (a, .ok ())
  | .tensor b => ({ a with annotated := b.annotated }, .ok ())
  | v => match v.entries? with
    | some fs => ((fieldNames.filter fun n => fs.any (·.1 = .field n)).foldl (fun a n => a.mark n) a, .ok ())
    | none => (a, .error .tensorClass)

/-- Attributes are equal when mesh, mapping and marks are. -/
def same (b : TensorAttribute) : Bool :=
  sameMesh a.mesh b.mesh && a.mapping == b.mapping && sameNames a.annotated b.annotated

def document : Value :=
  .record [("mesh", meshDocument a.mesh), ("dims_mapping", toValue a.mapping), ("shard_sizes", a.shardSizes.marked),
    ("placement", a.placement.marked), ("annotated", nameDocument a.annotated)]

def text : String :=
  let mapping := match a.mapping with
    | some es => (toValue es).shown
    | none => "None"
  "\n\ttensor_dist_attr = \x7b" ++
    s!"\n\t\tprocess_mesh ({markText a.annotated meshField}): {meshText a.mesh}," ++
    s!"\n\t\tdims_mapping ({markText a.annotated mappingField}): {mapping}" ++ "\n\t\x7d"
where
  /-- the name of the field with the mesh -/
  meshField : String := "process_mesh"
  /-- the name of the field with the mapping -/
  mappingField : String := "dims_mapping"

end TensorAttribute

variable (a : OperatorAttribute)

namespace OperatorAttribute

open Attribute

/-! ## 2. Operators -/

def fieldNames : List String := ["process_mesh", "impl_type", "impl_idx", "is_recompute"]

def mapTensors (f : TensorAttribute → TensorAttribute) (a : OperatorAttribute) : OperatorAttribute :=
  { a with inputs := a.inputs.map fun p => (p.1, f p.2), outputs := a.outputs.map fun p => (p.1, f p.2) }

def isLoop : Bool := Value.same a.type (.str "while")

def setMesh (m : ProcessMesh) (a : OperatorAttribute) : OperatorAttribute :=
  let a := { a with mesh := some m }
  if a.isLoop then a else a.mapTensors fun t => { t with mesh := some m }

/-- Set a field; names of tables of tensors cannot be set, other names change nothing. -/
def set : Except Error OperatorAttribute :=
  match name with
  | "process_mesh" => (meshOf v).map fun
    | some m => a.setMesh m
    | none => a
  | "op_type" => .ok { a with type := kept a.type (dataOf v) }
  | "impl_type" => .ok { a with implementation := kept a.implementation (dataOf v) }
  | "impl_idx" => .ok { a with implementationIndex := kept a.implementationIndex (dataOf v) }
  | "is_recompute" => match v with
    | .data (.bool b) => .ok { a with recompute := b }
    | _ => .error (.fault .assertion)
  | "inputs_dist_attrs" | "outputs_dist_attrs" => .error (.fault .attribute)
  | _ => .ok a

/-- Take over an entry of a dictionary: a field that can be given by name, or the attribute of a tensor, which is that
of an input or an output if further entries say so. -/
def setEntry (all : Entries) (a : OperatorAttribute) : Key × Argument → Except Error OperatorAttribute
  | (.field name, v) => if fieldNames.contains name then a.set name v else .ok a
  | (.tensor name, v) => (TensorAttribute.ofArgument v).map fun t => { a with
      inputs := if isOn all (name ++ "@input") then a.inputs.set name t else a.inputs
      outputs := if isOn all (name ++ "@output") then a.outputs.set name t else a.outputs }

/-- Take over entries of a dictionary one after the other, up to the first that fails. -/
def setAll (all : Entries) (a : OperatorAttribute) : Entries → Outcome OperatorAttribute
  | [] => (a, .ok ())
  | p :: rest => match a.setEntry all p with
    | .ok a => setAll all a rest
    | .error e => (a, .error e)

/-- Take over the tensors, the marks and the fields of another attribute. -/
def copy (b : OperatorAttribute) : OperatorAttribute :=
  let fresh (t : TensorAttribute) : TensorAttribute := TensorAttribute.copy {} t
  let a := { a with inputs := a.inputs.update (b.inputs.map fun (p : String × TensorAttribute) => (p.1, fresh p.2)) }
  let a := { a with outputs := a.outputs.update (b.outputs.map fun (p : String × TensorAttribute) => (p.1, fresh p.2)) }
  let a := { a with annotated := b.annotated }
  let a := match b.mesh with
    | some m => a.setMesh m
    | none => a
  { a with
    implementation := kept a.implementation b.implementation
    implementationIndex := kept a.implementationIndex b.implementationIndex
    recompute := b.recompute }

def meshes : List ProcessMesh :=
  (a.mesh :: (a.inputs ++ a.outputs).map fun p => p.2.mesh).filterMap id

def share : Outcome OperatorAttribute :=
  if a.isLoop then (a, .ok ())
  else match a.meshes with
    | [] => (a, .ok ())
    | m :: ms => if ms.all fun n => n.same m then (a.setMesh m, .ok ()) else (a, .error .meshes)

/-- Take over what an argument gives, then share one mesh. -/
def init : Outcome OperatorAttribute :=
  match v with
  | .data .null => (a, .ok ())
  | .operator b => (a.copy b).share
  | v => match v.entries? with
    | some fs => match a.setAll fs fs with
      | (a, .ok ()) => a.share
      | r => r
    | none => (a, .error .operatorClass)

/-- Reset tensors one after the other, up to the first that fails. -/
def resetTensors (skip : Option Value) : Tensors → Outcome Tensors
  | [] => ([], .ok ())
  | (n, t) :: rest => match t.reset skip with
    | (t, .ok ()) =>
      let (rest, r) := resetTensors skip rest
      ((n, t) :: rest, r)
    | (t, .error e) => ((n, t) :: rest, .error e)

/-- Set back: the tensors, the mesh, the default implementation and no marks. -/
def reset (skip : Option Value) (a : OperatorAttribute) : Outcome OperatorAttribute :=
  match resetTensors skip a.inputs with
  | (inputs, .error e) => ({ a with inputs := inputs }, .error e)
  | (inputs, .ok ()) => match resetTensors skip a.outputs with
    | (outputs, .error e) => ({ a with inputs := inputs, outputs := outputs }, .error e)
    | (outputs, .ok ()) =>
      let a := { a with inputs := inputs, outputs := outputs }
      match isSkipped "process_mesh" skip with
      | .error e => (a, .error e)
      | .ok keepMesh => ({ a with
          mesh := if keepMesh then a.mesh else none
          implementation := .str "default", implementationIndex := .int 0, annotated := [] }, .ok ())

/-- Mark a field; the mesh is marked for the tensors too. -/
def mark : OperatorAttribute :=
  let a := { a with annotated := addName name a.annotated }
  if name = "process_mesh" then a.mapTensors (TensorAttribute.mark name) else a

def spreadMesh (marked : Bool) (a : OperatorAttribute) : OperatorAttribute :=
  if marked then a.mark "process_mesh" else a

def markTensors (own other : Tensors) : Tensors :=
  own.map fun p => match other.get? p.1 with
    | some t => (p.1, { p.2 with annotated := t.annotated })
    | none => p

def sharedMark (own other : Tensors) : Bool :=
  own.any fun p => other.has p.1 && p.2.annotated.contains "process_mesh"

def markTensor (t : Tensors) : Except Error Tensors :=
  match (t.get? name).map (TensorAttribute.markAs v) with
  | some (a, .ok ()) => .ok (t.set name a)
  | some (_, .error e) => .error e
  | none => .ok t

/-- Mark what entries of a dictionary are for, up to the first that fails. -/
def markAll (a : OperatorAttribute) : Entries → Outcome OperatorAttribute
  | [] => (a, .ok ())
  | (.field name, _) :: rest => markAll (if fieldNames.contains name then a.mark name else a) rest
  | (.tensor name, v) :: rest => match markTensor name v a.inputs, markTensor name v a.outputs with
    | .ok inputs, .ok outputs => markAll { a with inputs := inputs, outputs := outputs } rest
    | .error e, _ | _, .error e => (a, .error e)

def markAs : Outcome OperatorAttribute :=
  let marked (a : OperatorAttribute) : Bool := a.annotated.contains "process_mesh"
  let anywhere (a : OperatorAttribute) : Bool :=
    marked a || (a.inputs ++ a.outputs).any fun p => p.2.annotated.contains "process_mesh"
  match v with
  | .data .null => (a, .ok ())
  | .operator b =>
    let a := { a with
      annotated := b.annotated
      inputs := markTensors a.inputs b.inputs, outputs := markTensors a.outputs b.outputs }
    (a.spreadMesh (marked a || sharedMark a.inputs b.inputs || sharedMark a.outputs b.outputs), .ok ())
  | v => match v.entries? with
    | some fs => match a.markAll fs with
      | (a, .ok ()) => (a.spreadMesh (anywhere a), .ok ())
      | r => r
    | none => (a, .error .operatorClass)

def clearMarks : OperatorAttribute :=
  { a with annotated := [] }.mapTensors fun t => { t with annotated := [] }

def setMapping (t : Tensors) : Except Error Tensors :=
  (((t.get? name).getD {}).set "dims_mapping" v).map fun a => t.set name a

def setTensor (t : Tensors) : Except Error Tensors :=
  (TensorAttribute.ofArgument v).map fun a => t.set name a

def removeTensor (t : Tensors) : Except Error Tensors :=
  if t.has name then .ok (t.erase name) else .error (.fault .key)

def sameTensors (a b : Tensors) : Bool :=
  a.length == b.length && a.all fun p => match b.get? p.1 with
    | some t => p.2.same t
    | none => false

def same (b : OperatorAttribute) : Bool :=
  sameMesh a.mesh b.mesh && Value.same a.type b.type && Value.same a.implementation b.implementation &&
    Value.same a.implementationIndex b.implementationIndex && sameNames a.annotated b.annotated &&
    a.recompute == b.recompute && sameTensors a.inputs b.inputs && sameTensors a.outputs b.outputs

def text : String :=
  let tensors (kind : String) (t : Tensors) : String :=
    String.join (t.map fun p => s!"\n\t\t{p.1}'s ({kind}): {p.2.text},")
  let marked := markText a.annotated "process_mesh"
  "\n\top_dist_attr = \x7b" ++ s!"\n\t\tprocess_mesh ({marked}): {meshText a.mesh}," ++
    tensors "input" a.inputs ++ tensors "output" a.outputs ++
    s!"\n\t\timpl type: {a.implementation.plain}, impl idx: {a.implementationIndex.plain}" ++ "\n\t\x7d"

def document : Value :=
  let tensors (t : Tensors) : Value :=
    .list (t.map fun p => .list [.str p.1, p.2.document])
  .record [("mesh", meshDocument a.mesh), ("op_type", a.type.marked), ("impl_type", a.implementation.marked),
    ("impl_idx", a.implementationIndex.marked), ("is_recompute", .bool a.recompute),
    ("annotated", nameDocument a.annotated), ("inputs", tensors a.inputs), ("outputs", tensors a.outputs)]

end OperatorAttribute

namespace Attribute.Argument

/-! ## 3. Attributes of either kind

An operation that an argument does not have, such as asking a tensor for its inputs, fails with kind `attribute`. -/

def change (f : TensorAttribute → Outcome TensorAttribute)
    (g : OperatorAttribute → Outcome OperatorAttribute) : Argument → Outcome Argument
  | tensor a => ((f a).map .tensor id)
  | operator a => ((g a).map .operator id)
  | o => (o, .error (.fault .attribute))

def init (o v : Argument) : Outcome Argument :=
  o.change (TensorAttribute.init v) (OperatorAttribute.init v)

/-- Set back, leaving some fields as they are. -/
def reset (o : Argument) (skip : Option Value) : Outcome Argument :=
  o.change (TensorAttribute.reset skip) (OperatorAttribute.reset skip)

def markAs (o v : Argument) : Outcome Argument :=
  o.change (TensorAttribute.markAs v) (OperatorAttribute.markAs v)

def mark (o : Argument) (name : String) : Outcome Argument :=
  o.change (fun a => (a.mark name, .ok ())) fun a => (a.mark name, .ok ())

def clearMarks (o : Argument) : Outcome Argument :=
  o.change (fun a => ({ a with annotated := [] }, .ok ())) fun a => (a.clearMarks, .ok ())

def set (o : Argument) (name : String) (v : Argument) : Except Error Argument :=
  match o with
  | tensor a => (a.set name v).map .tensor
  | operator a => (a.set name v).map .operator
  | _ => .error (.fault .attribute)

def annotated : Argument → List String
  | tensor a => a.annotated
  | operator a => a.annotated
  | _ => []

/-- Are two attributes equal?  Attributes of different kinds are not. -/
def same : Argument → Argument → Bool
  | tensor a, tensor b => a.same b
  | operator a, operator b => a.same b
  | _, _ => false

def text : Argument → Except Error String
  | tensor a => .ok a.text
  | operator a => .ok a.text
  | _ => .error (.fault .attribute)

def document : Argument → Value
  | tensor a => a.document
  | operator a => a.document
  | _ => .null

/-- The argument that a description of at most some depth stands for: an attribute that exists in the field `obj`, a mesh
in the field `mesh`, fields with their names in the field `attrs`, or data. -/
def ofDescription (objects : List Argument) : Nat → Value → Except Error Argument
  | 0, v => .ok (data v.ofMarked)
  | n + 1, v => match v.field? "obj", v.field? "mesh", v.field? "attrs" with
    | some k, _, _ => .ok ((k.int?.bind fun i => objects[i.toNat]?).getD (data .null))
    | _, some m, _ =>
      let get (k : String) : Value := (m.part k).ofMarked
      match ProcessMesh.make (get "mesh") (get "dim_names") (get "shape") (get "process_ids") with
      | .ok m => .ok (mesh m)
      | .error e => .error (.mesh e)
    | _, _, some fs => do
      return fields (Table.ofList (← fs.items.mapM fun p => do
        return (Key.field (p.items.headD .null).textOr, ← ofDescription objects n (p.items.getD 1 .null))))
    | _, _, _ => .ok (data v.ofMarked)

def ofValue (objects : List Argument) (v : Value) : Except Error Argument := ofDescription objects v.depth v

def tensors (isInput : Bool) : Argument → Except Error Tensors
  | operator a => .ok (if isInput then a.inputs else a.outputs)
  | _ => .error (.fault .attribute)

def changeTensors (isInput : Bool) (f : Tensors → Except Error Tensors) : Argument → Outcome Argument
  | operator a => match f (if isInput then a.inputs else a.outputs) with
    | .ok t => (operator (if isInput then { a with inputs := t } else { a with outputs := t }), .ok ())
    | .error e => (operator a, .error e)
  | o => (o, .error (.fault .attribute))

end Attribute.Argument

end TensorKit.Distributed

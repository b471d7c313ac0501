import TensorKit.Value.Arithmetic
import TensorKit.Value.Document
/-!
Costs: a time, a size of memory and a count of operations.

Time is a number that is not negative, memory and operations are whole numbers that are not negative.  Costs are added
and subtracted part by part.  The cost of an operator can be combined with any cost, a plain cost with plain ones only.
-/

namespace TensorKit.Distributed

structure Cost where
  time : Value := .int 0
  memory : Value := .int 0
  operations : Value := .int 0

namespace Cost

inductive Error where
  | fault (kind : FailureKind)
  | time
  | memory
  | operations
  | dataType (name : String)
  | tensorClass (found : String)
  | distributedClass (found : String)
  | shapeClass (found : String)

instance : Faulty Error where
  fault := .fault
  kind
    | .fault k => k
    | .time | .memory | .operations => .assertion
    | .dataType _ => .value
    | .tensorClass _ | .distributedClass _ | .shapeClass _ => .type
  message
    | .fault _ => none
    | .time => some "Time must be greater than or equal to 0."
    | .memory => some "Memory must be int and greater than equal to 0."
    | .operations => some "FLOPs must be int and greater than equal to 0."
    | .dataType name => some s!"Unsupported comm dtype paddle.{name}"
    | .tensorClass found => some s!"Please check tensor type is Variable, but got {found}"
    | .distributedClass found => some s!"Please check dist_tensor type is DistributedTensor, but got {found}"
    | .shapeClass found => some s!"Please check shape type is list or set, but got {found}"

/-! ## 1. Parts -/

def checkTime (v : Value) : Except Error Unit := do
  if ← Value.lessEq (.int 0) v then return () else .error .time

def isCount (v : Value) : Bool :=
  match v.int? with
  | some n => 0 ≤ n
  | none => false

def make (time memory operations : Value) : Except Error Cost := do
  checkTime time
  if !isCount memory then .error .memory
  if !isCount operations then .error .operations
  return ⟨time, memory, operations⟩

def ofNamed (given : Fields) : Except Error Cost :=
  let get (k : String) : Value := (given.lookup k).getD (.int 0)
  if given.all fun p => ["time", "memory", "flops"].contains p.1 then make (get "time") (get "memory") (get "flops")
  else .error (.fault .type)

def set (c : Cost) (part : String) (v : Value) : Except Error Cost :=
  match part with
  | "time" => do
    checkTime v
    return { c with time := v }
  | "memory" => if isCount v then .ok { c with memory := v } else .error .memory
  | "flops" => if isCount v then .ok { c with operations := v } else .error .operations
  | _ => .ok c

/-- Combine two costs part by part; no part may become negative. -/
def combine (f : Value → Value → Fallible Value) (a b : Cost) : Except Error Cost := do
  let time ← f a.time b.time
  let memory ← f a.memory b.memory
  let operations ← f a.operations b.operations
  let zero := Value.int 0
  let fine ← show Fallible Bool from do
    if !(← Value.lessEq zero time) then return false
    if !(← Value.lessEq zero memory) then return false
    Value.lessEq zero operations
  if fine then make time memory operations else .error (.fault .assertion)

instance : ToValue Cost := ⟨fun c => .list [c.time, c.memory, c.operations]⟩

/-- A cost, or the cost of an operator. -/
inductive Item where
  | plain (c : Cost)
  | operator (c : Cost)

namespace Item

def cost : Item → Cost
  | plain c | operator c => c

def combine (f : Value → Value → Fallible Value) (a : Item) (b? : Option Item) : Except Error Item :=
  match a, b? with
  | plain _, some (operator _) | _, none => .error (.fault .assertion)
  | a, some b => (a.cost.combine f b.cost).map .plain

/-- Change a part.  The cost of an operator is fixed. -/
def set (part : String) (v : Value) : Item → Except Error Item
  | plain c => (c.set part v).map .plain
  | operator c =>
    if ["time", "memory", "flops", "cost"].contains part then .error (.fault .attribute) else .ok (operator c)

end Item

/-! ## 2. Tensors -/

def product (shape : Value) : Fallible Value := do
  match ← shape.members with
  | [] => .error .type
  | x :: xs => xs.foldlM Value.mul x

def ofTensor (tensor distributed shape type : Value) : Except Error Cost := do
  let isNull (v : Value) : Bool := v == .null
  if !isNull tensor then
    if isNull shape && isNull distributed && isNull type then .error (.tensorClass tensor.classText)
    else .error (.fault .assertion)
  else if !isNull distributed then
    if isNull shape then .error (.distributedClass distributed.classText) else .error (.fault .assertion)
  else if isNull shape then
    .error (.fault (if isNull type then .type else .assertion))
  else if isNull type then .error (.fault .assertion)
  else
    match shape with
    | .list _ | .set _ => pure ()
    | _ => .error (.shapeClass shape.classText)
    if !shape.truthy then .error (.fault .type)
    let count ← product shape
    if type == .str "float32" || type == .str "int32" then
      let memory ← Value.mul count (.int 4)
      if ← Value.lessEq (.int 0) memory then make (.int 0) memory (.int 0) else .error (.fault .assertion)
    else .error (.fault .undefined)

/-! ## 3. Operators that compute -/

def computing : List String :=
  ["adam", "assign", "assign_value", "beam_search", "beam_search_decode", "cast", "concat", "dropout",
   "elementwise_add", "elementwise_add_grad", "elementwise_div", "elementwise_div_grad", "elementwise_mul",
   "elementwise_mul_grad", "elementwise_sub", "elementwise_sub_grad", "c_embedding", "c_embedding_grad",
   "fill_constant", "fill_constant_batch_size_like", "gather", "gelu", "gelu_grad", "greater_equal", "increment",
   "is_empty", "layer_norm", "layer_norm_grad", "less_than", "logical_not", "logical_and", "lod_reset", "log",
   "lookup_table_v2", "lookup_table_v2_grad", "matmul", "matmul_grad", "matmul_v2", "matmul_v2_grad", "memcpy", "mul",
   "mul_grad", "one_hot", "read_from_array", "reduce_sum", "reduce_sum_grad", "reshape2", "reshape2_grad",
   "reduce_mean", "reduce_mean_grad", "sampling_id", "scale", "slice", "softmax", "softmax_grad",
   "softmax_with_cross_entropy", "softmax_with_cross_entropy_grad", "split", "squeeze2", "square", "square_grad",
   "sum", "top_k", "transpose2", "transpose2_grad", "unsqueeze2", "write_to_array"]

/-- The cost of an operator that computes; all are zero so far. -/
def ofOperator (name : String) : Except Error Item :=
  if computing.contains name then .ok (.operator {}) else .error (.fault .key)

def typeName (name : String) : Fallible String :=
  if ["float32", "float16", "int32", "int64"].contains name then .ok name else .error .attribute

/-- The text by which measured times of an operator are found: its name, and the types, ranks and shapes of its
inputs. -/
def description (name : String) (inputs : Table String (List (String × List Value))) : Except Error String := do
  let tensors := inputs.values.flatten
  let types ← (tensors.mapM fun t => typeName t.1 : Fallible (List String))
  let ranks := tensors.map fun t => toString t.2.length
  let sizes := (tensors.flatMap Prod.snd).map Value.plain
  return String.intercalate "_" [name, String.intercalate "*" types, String.intercalate "*" ranks,
    "[" ++ String.intercalate "," sizes ++ "]"]

end Cost

end TensorKit.Distributed

import TensorKit.Value.Arithmetic
import TensorKit.Value.Document
/-!
The progress that is saved with a model: the epoch, the batch and its size.
-/

namespace TensorKit.Distributed.Progress

inductive Error where
  | notTable (class' : String)
  | key (name : String)
  | value (class' : String)

instance : Cause Error where
  kind
    | .notTable _ => .type
    | _ => .value
  message
    | .notTable c => some s!"The type of 'addition_info' should be 'dict', but got '{c}'."
    | .key name => some ("The key of 'addition_info' should be one of the ['epoch', 'batch', 'batch_size'], " ++
        s!"but got '{name}'.")
    | .value c => some s!"The value of 'addition_info' should be 'int', but got '{c}'."

def start : Pairs := ["epoch", "batch", "batch_size"].map fun k => (.str k, .int 0)

/-- The progress that a table gives, with zeros for what it leaves out. -/
def ofValue (v : Value) : Except Error Value := do
  if !v.truthy then return .dict start
  let .dict ps := v | .error (.notTable v.classText)
  let t ← ps.foldlM (fun t (k, x) => do
    if !start.any fun s => Value.same s.1 k then .error (.key k.plain)
    if !x.isWhole then .error (.value x.classText)
    return Value.store k x t) start
  return .dict t

def toList : Value → Value
  | .null => .null
  | .list xs | .tuple xs | .labelled _ xs => .list xs
  | v => .list [v]

end TensorKit.Distributed.Progress

import TensorKit.Table
import TensorKit.Value.Text
/-!
Documents: reading parts of data and making data of records.

A document is data whose tables have text keys.  Asking for a part that is not there is a failure of kind
`key`; asking a value that has no parts is a failure of kind `type`.  `ToValue` says how records of the
library are written as documents.
-/

namespace TensorKit.Value

def ofScalar : Scalar → Value
  | .bool b => bool b
  | .int i => int i
  | .float x => float x
  | .text s => str s

def need (k : String) : Value → Fallible Value
  | dict items => demand .key (lookup (str k) items)
  | _ => .error .type

def hasKey (k : String) : Value → Fallible Bool
  | dict items => .ok (lookup (str k) items).isSome
  | list xs | tuple xs | labelled _ xs | set xs => .ok (xs.any (same (str k)))
  | _ => .error .type

/-- Arguments by name: the pairs of a table whose keys are texts. -/
def named : Value → Fallible Fields
  | dict ps => ps.mapM fun p => match p.1 with
    | str k => .ok (k, p.2)
    | _ => .error .type
  | _ => .error .type

def members : Value → Fallible (List Value)
  | list xs | tuple xs | labelled _ xs | set xs => .ok xs
  | dict items => .ok (items.map Prod.fst)
  | str s => .ok (s.toList.map fun c => str (.ofList [c]))
  | bytes bs => .ok (bs.map fun b => int b.toNat)
  | array ⟨⟨_ :: [], data⟩, _⟩ => .ok (data.map ofScalar)
  | array ⟨⟨n :: ns, data⟩, t⟩ => .ok ((Tensor.mk (n :: ns) data).parts.map fun p => array ⟨p, t⟩)
  | _ => .error .type

def size (v : Value) : Fallible Nat := do return (← v.members).length

def needText : Value → Fallible String
  | str s => .ok s
  | _ => .error .type

def text? (k : String) (v : Value) : Option String := (v.field? k).bind str?

def fields : Value → Fields
  | dict items => items.filterMap fun p => p.1.str?.map fun k => (k, p.2)
  | _ => []

def items : Value → List Value
  | list xs | tuple xs | labelled _ xs => xs
  | _ => []

/-- The value under a text key, null where there is none. -/
def part (v : Value) (k : String) : Value := (v.field? k).getD null

def textOr (v : Value) : String := v.str?.getD ""

mutual

/-- How deep tables and sequences stand within each other. -/
def depth : Value → Nat
  | list xs | tuple xs | labelled _ xs | set xs => depthOfItems xs + 1
  | dict ps => depthOfPairs ps + 1
  | _ => 0

def depthOfItems : List Value → Nat
  | [] => 0
  | x :: xs => Nat.max (depth x) (depthOfItems xs)

def depthOfPairs : Pairs → Nat
  | [] => 0
  | p :: ps => Nat.max (depthOfPair p) (depthOfPairs ps)

def depthOfPair : Value × Value → Nat
  | (_, v) => depth v

end

def record (fs : Fields) : Value := dict (fs.map fun f => (str f.1, f.2))

end TensorKit.Value

namespace TensorKit

/-- Things that can be written as documents. -/
class ToValue (α : Type) where
  toValue : α → Value

export ToValue (toValue)

instance : ToValue Value := ⟨id⟩

instance : ToValue Unit := ⟨fun _ => .null⟩

instance : ToValue String := ⟨.str⟩

instance : ToValue Bool := ⟨.bool⟩

instance : ToValue Nat := ⟨fun n => .int n⟩

instance : ToValue Int := ⟨.int⟩

instance : ToValue Float := ⟨.float⟩

instance {α : Type} [ToValue α] : ToValue (Option α) :=
  ⟨fun
    | some a => toValue a
    | none => .null⟩

instance {α : Type} [ToValue α] : ToValue (List α) := ⟨fun xs => .list (xs.map toValue)⟩

instance {α β : Type} [ToValue α] [ToValue β] : ToValue (α × β) :=
  ⟨fun p => .tuple [toValue p.1, toValue p.2]⟩

def Table.toRecord {ν : Type} [ToValue ν] (t : Table String ν) : Value :=
  .record (t.map fun p => (p.1, toValue p.2))

def optionalField {α : Type} [ToValue α] (k : String) : Option α → Fields
  | some a => [(k, toValue a)]
  | none => []

end TensorKit

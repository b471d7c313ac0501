import TensorKit.Number.Quantity
import TensorKit.Tensor.Basic
/-!
Data values.

`Value` is plain data: numbers, texts, sequences and tables, and rectangular arrays of numbers.  Truth values count as
the integers zero and one wherever numbers are compared, and a number is equal to any number of the same value, whole or
not; sequences are equal only to sequences of their own kind, where a tuple whose items have names counts as a tuple.
-/

namespace TensorKit

inductive ElementType where
  | bool
  | int8 | int16 | int32 | int64
  | uint8 | uint16 | uint32 | uint64
  | float16 | float32 | float64
  /-- fixed-width text and other element types, by name -/
  | other (name : String)
  deriving DecidableEq

namespace ElementType

def name : ElementType → String
  | bool => "bool"
  | int8 => "int8" | int16 => "int16" | int32 => "int32" | int64 => "int64"
  | uint8 => "uint8" | uint16 => "uint16" | uint32 => "uint32" | uint64 => "uint64"
  | float16 => "float16" | float32 => "float32" | float64 => "float64"
  | other n => n

def ofName (n : String) : ElementType :=
  ([bool, int8, int16, int32, int64, uint8, uint16, uint32, uint64, float16, float32, float64].find?
    fun t => t.name == n).getD (.other n)

def isFloat : ElementType → Bool
  | float16 | float32 | float64 => true
  | _ => false

end ElementType

inductive Scalar where
  | bool (b : Bool)
  | int (i : Int)
  | float (x : Float)
  | text (s : String)

structure NdArray extends Tensor Scalar where
  /-- the type of the elements -/
  type : ElementType

structure TupleClass where
  /-- the name, with that of the module that declares the class in front -/
  path : String
  name : String
  /-- the names of the items -/
  fields : List String
  deriving DecidableEq

inductive Value where
  | null
  | bool (b : Bool)
  | int (i : Int)
  | float (x : Float)
  | str (s : String)
  | bytes (bs : List UInt8)
  | list (xs : List Value)
  | tuple (xs : List Value)
  | labelled (kind : TupleClass) (xs : List Value)
  | dict (items : List (Value × Value))
  | set (xs : List Value)
  | array (a : NdArray)

/-- Values by name. -/
abbrev Fields := List (String × Value)

/-- Values by key. -/
abbrev Pairs := List (Value × Value)

instance : Inhabited Value := ⟨.null⟩

/-- A tuple of a class, which has to have an item for every name. -/
def TupleClass.make (kind : TupleClass) (xs : List Value) : Fallible Value :=
  if xs.length = kind.fields.length then .ok (.labelled kind xs) else .error .type

namespace Value

/-! ## 1. Numbers -/

/-- The number a value is, if it is a number or a truth value. -/
def quantity? : Value → Option Quantity
  | bool b => some (.whole (if b then 1 else 0))
  | int i => some (.whole i)
  | float x => some (.real x)
  | _ => none

def ofQuantity : Quantity → Value
  | .whole i => int i
  | .real x => float x

def number? : Value → Option Float
  | bool b => some (if b then 1.0 else 0.0)
  | int i => some (Number.ofInt i)
  | float x => some x
  | _ => none

/-- The whole number a value is, if it is one or a truth value. -/
def int? : Value → Option Int
  | bool b => some (if b then 1 else 0)
  | int i => some i
  | _ => none

def str? : Value → Option String
  | str s => some s
  | _ => none

/-- Is a floating point number equal to this whole number? -/
def floatEqInt (x : Float) (i : Int) : Bool := Number.floor? x == some i && Number.ceil? x == some i

mutual

/-- Equality of data: numbers by value, sequences of one kind item by item, tables key by key. -/
def same : Value → Value → Bool
  | null, null => true
  | bool a, bool b => a == b
  | bool a, int b => (if a then 1 else 0) == b
  | int a, bool b => a == (if b then 1 else 0)
  | bool a, float y => (if a then 1.0 else 0.0) == y
  | float x, bool b => x == (if b then 1.0 else 0.0)
  | int a, int b => a == b
  | int a, float y => floatEqInt y a
  | float x, int b => floatEqInt x b
  | float x, float y => x == y
  | str a, str b => a == b
  | bytes a, bytes b => a == b
  | list xs, list ys => sameList xs ys
  | tuple xs, tuple ys => sameList xs ys
  | tuple xs, labelled _ ys => sameList xs ys
  | labelled _ xs, tuple ys => sameList xs ys
  | labelled _ xs, labelled _ ys => sameList xs ys
  | dict xs, dict ys => xs.length == ys.length && sameItems xs ys
  | set xs, set ys => xs.length == ys.length && sameMembers xs ys
  | _, _ => false
termination_by structural x => x

def sameList : List Value → List Value → Bool
  | [], [] => true
  | x :: xs, y :: ys => same x y && sameList xs ys
  | _, _ => false
termination_by structural xs => xs

def sameItems : Pairs → Pairs → Bool
  | [], _ => true
  | p :: ps, qs => samePair p qs && sameItems ps qs
termination_by structural ps => ps

def samePair : Value × Value → Pairs → Bool
  | (k, v), qs => qs.any fun q => same k q.1 && same v q.2
termination_by structural p => p

def sameMembers : List Value → List Value → Bool
  | [], _ => true
  | x :: xs, ys => ys.any (fun y => same x y) && sameMembers xs ys
termination_by structural xs => xs

end

instance : BEq Value := ⟨same⟩

/-- A value, if one is given. -/
def given : Value → Option Value
  | null => none
  | v => some v

/-! ## 2. Tables -/

def lookup (k : Value) : Pairs → Option Value
  | [] => none
  | (k', v) :: t => if same k' k then some v else lookup k t

def field? (k : String) : Value → Option Value
  | dict items => lookup (str k) items
  | _ => none

/-- Store a value under a key: in place if the key is there, at the end otherwise. -/
def store (k v : Value) : Pairs → Pairs
  | [] => [(k, v)]
  | (k', v') :: t => if same k' k then (k', v) :: t else (k', v') :: store k v t

/-- Is the value counted as true: neither empty, nor zero, nor null? -/
def truthy : Value → Bool
  | null => false
  | bool b => b
  | int i => i != 0
  | float x => !(x == 0.0)
  | str s => !s.isEmpty
  | bytes bs => !bs.isEmpty
  | list xs | tuple xs | labelled _ xs | set xs => !xs.isEmpty
  | dict items => !items.isEmpty
  | array a => a.data.any fun
    | .bool b => b
    | .int i => i != 0
    | .float x => !(x == 0.0)
    | .text s => !s.isEmpty

end Value

end TensorKit

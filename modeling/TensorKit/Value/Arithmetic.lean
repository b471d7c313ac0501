import TensorKit.Number.Numeral
import TensorKit.Arithmetic
import TensorKit.Value.Elementwise
import TensorKit.Value.Text
/-!
Arithmetic on data.

Numbers and truth values are combined as numbers, arrays element by element.  A sum joins two texts or two
sequences of one kind, a product with a whole number repeats them.  Every other combination fails with
kind `type`.
-/

namespace TensorKit.Value

/-! ## 1. Operations -/

def numeric (f : Quantity → Quantity → Fallible Quantity)
    (g : NdArray → NdArray → Fallible NdArray) (a b : Value) : Fallible Value :=
  match a, b with
  | array x, array y => do return array (← g x y)
  | array x, b => match b.quantity? with
    | some q => do return array (← g x (.ofQuantity x.type q))
    | none => .error .type
  | a, array y => match a.quantity? with
    | some q => do return array (← g (.ofQuantity y.type q) y)
    | none => .error .type
  | a, b => match a.quantity?, b.quantity? with
    | some p, some q => do return ofQuantity (← f p q)
    | _, _ => .error .type

def add : Value → Value → Fallible Value
  | str a, str b => .ok (str (a ++ b))
  | bytes a, bytes b => .ok (bytes (a ++ b))
  | list a, list b => .ok (list (a ++ b))
  | tuple a, tuple b => .ok (tuple (a ++ b))
  | tuple a, labelled _ b => .ok (tuple (a ++ b))
  | labelled _ a, tuple b => .ok (tuple (a ++ b))
  | labelled _ a, labelled _ b => .ok (tuple (a ++ b))
  | a, b => numeric Quantity.add (NdArray.arithmetic (· + ·) (· + ·)) a b

def sub : Value → Value → Fallible Value
  | set a, set b => .ok (set (a.filter fun x => !b.any (same x)))
  | a, b => numeric Quantity.sub (NdArray.arithmetic (· - ·) (· - ·)) a b

def times {α : Type} (n : Int) (xs : List α) : List α := (List.replicate n.toNat xs).flatten

def repeated (n : Int) : Value → Option Value
  | str s => some (str (.ofList (times n s.toList)))
  | bytes bs => some (bytes (times n bs))
  | list xs => some (list (times n xs))
  | tuple xs | labelled _ xs => some (tuple (times n xs))
  | _ => none

variable (a b : Value)

def mul : Fallible Value :=
  match b.int?.bind fun n => a.repeated n with
  | some v => .ok v
  | none => match a.int?.bind fun n => b.repeated n with
    | some v => .ok v
    | none => numeric Quantity.mul (NdArray.arithmetic (· * ·) (· * ·)) a b

def div : Fallible Value := numeric Quantity.div NdArray.quotient a b

def floorDiv : Fallible Value := numeric Quantity.floorDiv (fun _ _ => .error .type) a b

def mod : Fallible Value := numeric Quantity.mod (fun _ _ => .error .type) a b

def pow : Fallible Value := numeric Quantity.pow (fun _ _ => .error .type) a b

def neg : Value → Fallible Value
  | array a => if a.type = .bool then .error .type else
    .ok (array ⟨a.toTensor.map fun
      | .int i => a.type.convert (.int (-i))
      | .float x => .float (-x)
      | s => s, a.type⟩)
  | a => match a.quantity? with
    | some q => .ok (ofQuantity q.neg)
    | none => .error .type

def onNumber (f : Quantity → Fallible Quantity) (a : Value) : Fallible Value :=
  match a with
  | array ⟨⟨_, [s]⟩, _⟩ => do return ofQuantity (← f s.quantity)
  | a => match a.quantity? with
    | some q => do return ofQuantity (← f q)
    | none => .error .type

def toFloating : Value → Fallible Value
  | str s => match Number.floatingOf? s with
    | some x => .ok (float x)
    | none => .error .value
  | a => onNumber (fun q => do return .real (← q.toFloat)) a

/-- As a whole number: cut at the point, or read from a text. -/
def toWhole : Value → Fallible Int
  | str s => demand .value (Number.wholeOf? s)
  | v => match v.quantity? with
    | some q => q.truncate
    | none => .error .type

/-! ## 2. Comparison -/

def numericTruth (f : Quantity → Quantity → Bool) (a b : Value) : Fallible (Option Bool) :=
  match a, b with
  | array x, array y => do return some (← (← NdArray.comparison f x y).truth)
  | array x, b => match b.quantity? with
    | some q => do return some (← (← NdArray.comparison f x (.ofQuantity x.type q)).truth)
    | none => .ok none
  | a, array y => match a.quantity? with
    | some q => do return some (← (← NdArray.comparison f (.ofQuantity y.type q) y).truth)
    | none => .ok none
  | a, b => .ok (do return f (← a.quantity?) (← b.quantity?))

mutual

/-- Is the first value smaller?  Numbers by value, texts and sequences by their first difference. -/
def less : Value → Value → Fallible Bool
  | str a, b => match b with
    | str b => .ok (decide (a < b))
    | _ => .error .type
  | bytes a, b => match b with
    | bytes b => .ok (decide (a.map UInt8.toNat < b.map UInt8.toNat))
    | _ => .error .type
  | list a, b => match b with
    | list b => lessList a b
    | _ => .error .type
  | tuple a, b | labelled _ a, b => match b with
    | tuple b | labelled _ b => lessList a b
    | _ => .error .type
  | a, b => do
    demand .type (← numericTruth Quantity.lt a b)

/-- Does the first list come before the second: at the first pair of different items, or as a beginning? -/
def lessList : List Value → List Value → Fallible Bool
  | [], ys => .ok !ys.isEmpty
  | _ :: _, [] => .ok false
  | x :: xs, y :: ys => if same x y then lessList xs ys else less x y

end

def lessEq : Fallible Bool :=
  match a, b with
  | str _, _ | bytes _, _ | list _, _ | tuple _, _ | labelled _ _, _ => do return same a b || (← less a b)
  | a, b => do
    demand .type (← numericTruth Quantity.le a b)

/-! ## 3. Classes -/

def className : Value → String
  | null => "NoneType"
  | bool _ => "bool"
  | int _ => "int"
  | float _ => "float"
  | str _ => "str"
  | bytes _ => "bytes"
  | list _ => "list"
  | tuple _ => "tuple"
  | labelled kind _ => kind.path
  | dict _ => "dict"
  | set _ => "set"
  | array _ => "numpy.ndarray"

def classText (v : Value) : String := s!"<class '{v.className}'>"

def isWhole (v : Value) : Bool := v.int?.isSome

def isFloating : Value → Bool
  | float _ => true
  | _ => false

def isNumber (v : Value) : Bool := v.isWhole || v.isFloating

instance : Arithmetic Value where
  whole := int
  decimal m k := float (if m < 0 then -(Float.ofScientific m.natAbs true k) else .ofScientific m.natAbs true k)
  pi := float 3.141592653589793
  isWhole := isWhole
  isFloating := isFloating
  extent?
    | array a => some a.shape
    | _ => none
  floating := toFloating
  ceil a := onNumber (fun q => do return .whole (← q.ceil)) a
  truncate a := match a with
    | array ⟨⟨_, [s]⟩, _⟩ => s.quantity.truncate
    | a => match a.quantity? with
      | some q => q.truncate
      | none => .error .type
  count a := demand .type a.int?
  add := add
  sub := sub
  mul := mul
  div := div
  floorDiv := floorDiv
  mod := mod
  pow := pow
  exp := onNumber Quantity.exp
  cos := onNumber Quantity.cos
  log := onNumber Quantity.log
  eq := same
  lt := less
  le := lessEq
  text := plain
  className := classText

end TensorKit.Value

import TensorKit.Nest.Basic
/-!
Settings given once or for every axis, and shapes given as lists.
-/

namespace TensorKit.Nest

inductive NumberType where
  | whole
  | floating

def NumberType.classText : NumberType → String
  | whole => "<class 'int'>"
  | floating => "<class 'float'>"

def NumberType.holds : NumberType → Value → Bool
  | whole, v => v.isWhole
  | floating, v => v.isFloating

/-- Can the value be converted to this type?  Texts can if they are numerals. -/
def NumberType.accepts : NumberType → Value → Fallible Bool
  | whole, .str s => .ok (Number.wholeOf? s).isSome
  | floating, .str s => .ok (Number.floatingOf? s).isSome
  | whole, .bytes bs => .ok (Number.wholeOf? (.ofList (bs.map fun b => Char.ofNat b.toNat))).isSome
  | whole, .float x => if x.isInf then .error .overflow else .ok !x.isNaN
  | floating, .int i => if (Number.ofInt i).isInf then .error .overflow else .ok true
  | _, v => .ok v.isNumber

/-- A setting for `n` axes: one number is repeated, a sequence needs `n` numbers. -/
def settingList (value : Value) (n : Int) (name : String) (type : NumberType) : Except Error (List Value) :=
  if type.holds value then .ok (List.replicate n.toNat value)
  else match value.members with
    | .error _ => .error (.settingClass name value.plain)
    | .ok xs =>
      if (xs.length : Int) ≠ n then .error (.settingLength name (toString n) value.plain)
      else do
        for x in xs do
          if !(← type.accepts x) then
            .error (.settingElement name (toString n) type.classText value.plain x.plain x.classText)
        return xs

/-- Does padding of two numbers for each axis have equal numbers for every axis?  One number for each axis
always does. -/
def isSymmetric (padding : List Value) (axes : Int) : Except Error Bool :=
  if (padding.length : Int) = 2 * axes then .ok (pairsEqual padding)
  else if (padding.length : Int) = axes then .ok true
  else .error (.fault .assertion)
where
  /-- Are the first and second, the third and fourth number and so on equal? -/
  pairsEqual : List Value → Bool
    | a :: b :: rest => Value.same a b && pairsEqual rest
    | _ => true

def shapeAttributes (shape : Value) (op : String) : Except Error Pairs :=
  match shape with
  | .list [] | .tuple [] | .labelled _ [] => .error (.shapeEmpty op)
  | .list xs | .tuple xs | .labelled _ xs => .ok [(.str "shape", .list xs)]
  | _ => .error .shapeClass

/-- Refuse a shape with a negative number, or with one that is not whole. -/
def checkLengths (shape : Value) : Except Error Unit := do
  for x in ← shape.members do
    if ← Value.less x (.int 0) then .error .shapeNegative
    if !x.isWhole then .error .shapeFraction

def shapeList : Value → Except Error (List Value)
  | .list xs | .tuple xs | .labelled _ xs => .ok xs
  | _ => .error (.fault .attribute)

end TensorKit.Nest

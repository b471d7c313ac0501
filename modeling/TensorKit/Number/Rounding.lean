import TensorKit.Value.Arithmetic
/-!
Rounding to decimal places, halves away from zero.
-/

namespace TensorKit.Number

def zeroLike : Quantity → Quantity
  | .real x => .real (if x.isNaN then 0.0 else Quantity.signedZero x)
  | .whole _ => .real 0.0

/-- Round a positive or negative number: shift the point, add half on the side of its sign, cut, and shift
back. -/
def roundHalfAway (x places : Quantity) : Fallible Quantity := do
  if Quantity.lt (.whole 0) x then
    let p ← Quantity.pow (.whole 10) places
    let y ← Quantity.add (← Quantity.mul x p) (.real 0.5)
    let n ← (← y.toFloat |>.map Quantity.real).neg.ceil
    Quantity.div (.real (← (Quantity.whole (-n)).toFloat)) p
  else if Quantity.lt x (.whole 0) then
    let p ← Quantity.pow (.whole 10) places
    let y ← Quantity.add (← Quantity.mul x p) (.real (-0.5))
    Quantity.div (.real (← (Quantity.whole (← y.ceil)).toFloat)) p
  else return zeroLike x

def round (x places : Value) : Fallible Value :=
  match x.quantity?, places.quantity? with
  | some a, some d => do return .ofQuantity (← roundHalfAway a d)
  | some a, none => if a.isZero then .ok (.ofQuantity (zeroLike a)) else .error .type
  | none, _ => .error .type

end TensorKit.Number

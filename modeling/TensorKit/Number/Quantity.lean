import TensorKit.Failure
import TensorKit.Number.Decimal
/-!
Numbers that are whole or floating.

Sums, differences and products of whole numbers are whole and exact; a quotient is floating, and one floating operand
makes the result floating.  A division by zero fails, and so does a power, a conversion or an exponential whose result
is too large.  Whole and floating numbers are compared by their exact values.
-/

namespace TensorKit

inductive Quantity where
  | whole (i : Int)
  | real (x : Float)

namespace Quantity

/-! ## 1. Conversions -/

/-- As a floating number; a whole number that is too large fails. -/
def toFloat : Quantity → Fallible Float
  | whole i =>
    let x := Number.ofInt i
    if x.isInf then .error .overflow else .ok x
  | real x => .ok x

/-- The whole number that is not below, for finite numbers. -/
def ceil : Quantity → Fallible Int
  | whole i => .ok i
  | real x => if x.isNaN then .error .value else demand .overflow (Number.ceil? x)

/-- The whole number on the side of zero, for finite numbers. -/
def truncate : Quantity → Fallible Int
  | whole i => .ok i
  | real x => if x.isNaN then .error .value else demand .overflow (Number.truncate? x)

def isZero : Quantity → Bool
  | whole i => i == 0
  | real x => x == 0.0

/-! ## 2. Operations -/

/-- An operation that keeps whole numbers whole. -/
def lift (f : Int → Int → Int) (g : Float → Float → Float) : Quantity → Quantity → Fallible Quantity
  | whole a, whole b => .ok (whole (f a b))
  | a, b => do return real (g (← a.toFloat) (← b.toFloat))

def add : Quantity → Quantity → Fallible Quantity := lift (· + ·) (· + ·)

def sub : Quantity → Quantity → Fallible Quantity := lift (· - ·) (· - ·)

def mul : Quantity → Quantity → Fallible Quantity := lift (· * ·) (· * ·)

def neg : Quantity → Quantity
  | whole i => whole (-i)
  | real x => real (-x)

def wholeQuotient (a b : Int) : Float :=
  let x := Number.ofRatio a.natAbs b.natAbs
  if (a < 0) != (b < 0) then -x else x

/-- A kind of quotient of numbers that are not both whole. -/
def dividing (f : Float → Float → Float) (a b : Quantity) : Fallible Quantity := do
  let x ← a.toFloat
  let y ← b.toFloat
  if y == 0.0 then .error .zeroDivision else .ok (real (f x y))

def div : Quantity → Quantity → Fallible Quantity
  | whole a, whole b =>
    if b = 0 then .error .zeroDivision else
      let x := if a = 0 then 0.0 else wholeQuotient a b
      if x.isInf then .error .overflow else .ok (real x)
  | a, b => dividing (· / ·) a b

def signedZero (x : Float) : Float := if x.toBits.toNat / Nat.pow 2 63 == 1 then -0.0 else 0.0

/-- Floored quotient and remainder of floating numbers: the remainder has the sign of the divisor. -/
def floatDivMod (x y : Float) : Float × Float :=
  let r := Number.remainder x y
  let d := (x - r) / y
  let (r, d) := if r == 0.0 then (signedZero y, d)
    else if (y < 0.0) != (r < 0.0) then (r + y, d - 1.0) else (r, d)
  let d := if d == 0.0 then signedZero (x / y)
    else
      let f := d.floor
      if d - f > 0.5 then f + 1.0 else f
  (d, r)

def floorDiv : Quantity → Quantity → Fallible Quantity
  | whole a, whole b => if b = 0 then .error .zeroDivision else .ok (whole (a.fdiv b))
  | a, b => dividing (fun x y => (floatDivMod x y).1) a b

def mod : Quantity → Quantity → Fallible Quantity
  | whole a, whole b => if b = 0 then .error .zeroDivision else .ok (whole (a.fmod b))
  | a, b => dividing (fun x y => (floatDivMod x y).2) a b

/-- A power of floating numbers: zero has no negative powers, a negative number no fractional ones. -/
def floatPow (x y : Float) : Fallible Float :=
  let finite := !(x.isNaN || x.isInf || y.isNaN || y.isInf)
  if finite && x == 0.0 && y < 0.0 then .error .zeroDivision
  else if finite && x < 0.0 && y.floor != y then .error .type
  else
    let z := x.pow y
    if finite && z.isInf then .error .overflow else .ok z

/-- The power; a whole number to a whole exponent that is not negative is whole. -/
def pow : Quantity → Quantity → Fallible Quantity
  | whole a, whole b =>
    if 0 ≤ b then .ok (whole (Int.pow a b.toNat))
    else do return real (← floatPow (← (whole a).toFloat) (← (whole b).toFloat))
  | a, b => do return real (← floatPow (← a.toFloat) (← b.toFloat))

def exp (a : Quantity) : Fallible Quantity := do
  let x ← a.toFloat
  let y := x.exp
  if y.isInf && !x.isInf then .error .overflow else .ok (real y)

def cos (a : Quantity) : Fallible Quantity := do
  let x ← a.toFloat
  if x.isInf then .error .value else .ok (real x.cos)

def log (a : Quantity) : Fallible Quantity := do
  let x ← a.toFloat
  if x ≤ 0.0 then .error .value else .ok (real x.log)

/-! ## 3. Comparison -/

def eq : Quantity → Quantity → Bool
  | whole a, whole b => a == b
  | whole a, real y => Number.floor? y == some a && Number.ceil? y == some a
  | real x, whole b => Number.floor? x == some b && Number.ceil? x == some b
  | real x, real y => x == y

def lt : Quantity → Quantity → Bool
  | whole a, whole b => a < b
  | whole a, real y => match Number.ceil? y with
    | some c => a < c
    | none => 0.0 < y
  | real x, whole b => match Number.floor? x with
    | some f => f < b
    | none => x < 0.0
  | real x, real y => x < y

def le (a b : Quantity) : Bool := lt a b || eq a b

end Quantity

end TensorKit

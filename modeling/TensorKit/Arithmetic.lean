import TensorKit.Failure
/-!
Arithmetic that can fail.

Rules that compute with numbers are written once, for every type of numbers with the operations below: they are run on
data, where an operation on a value that is no number fails, and reasoned about over exact numbers.  Whole and floating
numbers may be told apart; over exact numbers the two classes may overlap.
-/

namespace TensorKit

/-- Numbers with operations that can fail. -/
class Arithmetic (ν : Type) where
  /-- a whole number -/
  whole : Int → ν
  /-- the floating number `m / 10^k` -/
  decimal : Int → Nat → ν
  /-- half the circumference of the unit circle -/
  pi : ν
  /-- is it a whole number? -/
  isWhole : ν → Bool
  /-- is it a floating number? -/
  isFloating : ν → Bool
  /-- the lengths of the axes, if it is an array of numbers -/
  extent? : ν → Option (List Nat)
  /-- as a floating number -/
  floating : ν → Fallible ν
  /-- the whole number that is not below -/
  ceil : ν → Fallible ν
  /-- the whole number on the side of zero -/
  truncate : ν → Fallible Int
  /-- the whole number it is, for counting -/
  count : ν → Fallible Int
  add : ν → ν → Fallible ν
  sub : ν → ν → Fallible ν
  mul : ν → ν → Fallible ν
  div : ν → ν → Fallible ν
  /-- the floored quotient -/
  floorDiv : ν → ν → Fallible ν
  /-- the remainder of the floored quotient -/
  mod : ν → ν → Fallible ν
  pow : ν → ν → Fallible ν
  exp : ν → Fallible ν
  cos : ν → Fallible ν
  /-- the natural logarithm of a positive number -/
  log : ν → Fallible ν
  eq : ν → ν → Bool
  lt : ν → ν → Fallible Bool
  le : ν → ν → Fallible Bool
  /-- the text of a number -/
  text : ν → String
  /-- the text of its class -/
  className : ν → String

namespace Arithmetic

variable {ν : Type} [Arithmetic ν]

def isNumber (a : ν) : Bool := isWhole a || isFloating a

/-- The smaller of two numbers, the first one if neither is smaller. -/
def min (a b : ν) : Fallible ν := do return if ← lt b a then b else a

/-- The larger of two numbers, the first one if neither is larger. -/
def max (a b : ν) : Fallible ν := do return if ← lt a b then b else a

def opposite (a : ν) : Fallible ν := mul (whole (-1)) a

def abs (a : ν) : Fallible ν := do if ← lt a (whole 0) then opposite a else return a

def sum (xs : List ν) : Fallible ν := xs.foldlM add (whole 0)

end Arithmetic

end TensorKit

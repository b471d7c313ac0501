import TensorKit.Failure
/-!
Positions in lists.

A position below zero counts from the end of a list.  A position outside fails with kind `index`, a member that is
not there with kind `value`, and division by zero with kind `zeroDivision`.
-/

namespace TensorKit.Position

variable {α : Type}

def place (n : Nat) (i : Int) : Fallible Nat :=
  if 0 ≤ i then if i < n then .ok i.toNat else .error .index
  else if 0 ≤ i + n then .ok (i + n).toNat
  else .error .index

def pick (xs : List α) (i : Int) : Fallible α := do
  demand .index xs[← place xs.length i]?

def put (xs : List α) (i : Int) (x : α) : Fallible (List α) := do
  return xs.set (← place xs.length i) x

def find [BEq α] (x : α) (xs : List α) : Fallible Nat :=
  demand .value (xs.idxOf? x)

def floorDiv (a b : Int) : Fallible Int :=
  if b = 0 then .error .zeroDivision else .ok (Int.fdiv a b)

def product : List Int → Int
  | [] => 1
  | x :: xs => x * product xs

def sorted (xs : List Int) : List Int := xs.mergeSort fun a b => decide (a ≤ b)

def progression (start step : Int) : Nat → List Nat
  | 0 => []
  | n + 1 => start.toNat :: progression (start + step) step n

/-- The end of a range in a list of length `n`, between two bounds: ends below zero count from the end of the
list. -/
def bound (n : Nat) (least most i : Int) : Int := if i < 0 then max (i + n) least else min i most

def range (n : Nat) (start? stop? step? : Option Int) : Fallible (List Nat) :=
  let step := step?.getD 1
  if step = 0 then .error .value
  else if 0 < step then
    let start := (start?.map (bound n 0 n)).getD 0
    let stop := (stop?.map (bound n 0 n)).getD n
    .ok (progression start step ((stop - start + step - 1) / step).toNat)
  else
    let start := (start?.map (bound n (-1) (n - 1))).getD (n - 1)
    let stop := (stop?.map (bound n (-1) (n - 1))).getD (-1)
    .ok (progression start step ((start - stop - step - 1) / -step).toNat)

end TensorKit.Position

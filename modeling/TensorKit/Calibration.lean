import TensorKit.Value.Arithmetic
import TensorKit.Value.Document
/-!
Choosing the range of a quantized value from a histogram.

A candidate range keeps the first bins of a histogram and adds all later ones to its last bin; that is the reference.
The kept bins are merged into as few as the quantized value has steps, where the last one takes what is left, and spread
out again over the bins that are not empty.  The range whose spread distribution diverges least from its reference is
chosen.
-/

namespace TensorKit.Calibration

open Arithmetic

variable {ν : Type} [Arithmetic ν]

/-! ## 1. Merging and spreading -/

/-- Cut a list into `n` parts of a given width; the last part takes what is left. -/
def cut {α : Type} (width : Nat) : Nat → List α → List (List α)
  | 0, _ => []
  | 1, xs => [xs]
  | n + 2, xs => xs.take width :: cut width (n + 1) (xs.drop width)

def merge (n : Nat) (bins : List ν) : Fallible (List ν) :=
  (cut (bins.length / n) n bins).mapM sum

def spreadOver (merged : ν) (reference : List ν) : Fallible (List ν) := do
  let filled := reference.countP fun r => !eq r (whole 0)
  let average ← if filled = 0 then pure (whole 0)
    else div merged (← add (whole filled) (decimal 0 1))
  return reference.map fun r => if eq r (whole 0) then whole 0 else average

def spread (merged reference : List ν) : Fallible (List ν) := do
  if merged.isEmpty then .error .zeroDivision
  let parts := cut (reference.length / merged.length) merged.length reference
  return (← (merged.zip parts).mapM fun (m, r) => spreadOver m r).flatten

/-! ## 2. Divergence -/

def divergenceTerm (sumP sumQ : ν) (acc : ν × ν) (pq : ν × ν) : Fallible (ν × ν) := do
  let (p, q) := pq
  if eq p (whole 0) then return acc
  let a ← add acc.1 (← mul p (← log (← mul sumQ p)))
  let b ← add acc.2 (← mul p (← log (← mul sumP q)))
  return (a, b)

def divergence (ps : List ν) (sumP : ν) (qs : List ν) (sumQ : ν) : Fallible ν := do
  if ps.length ≠ qs.length then .error .assertion
  let (a, b) ← (ps.zip qs).foldlM (divergenceTerm sumP sumQ) (whole 0, whole 0)
  div (← sub a b) sumP

/-! ## 3. The best range -/

variable (hist : List ν)

/-- The reference of the range of the first `i` bins, unless the last of them is empty. -/
def reference? (i : Nat) : Fallible (Option (List ν)) := do
  match (hist.take i).getLast? with
  | none => .error .index
  | some last =>
    if eq last (whole 0) then return none
    let rest ← sum (hist.drop i)
    return some ((hist.take i).dropLast ++ [← add last rest])

/-- The spread distribution of the range of the first `i` bins. -/
def candidate (steps i : Nat) (reference : List ν) : Fallible (List ν) := do
  if steps = 0 then .error .zeroDivision
  spread (← merge steps (hist.take i)) reference

def rangeDivergence? (total : ν) (steps i : Nat) : Fallible (Option ν) := do
  match ← reference? hist i with
  | none => return none
  | some reference =>
    let qs ← candidate hist steps i reference
    return some (← divergence reference total qs (← sum qs))

/-- The best range so far and its divergence, after looking at one more. -/
def better (total : ν) (steps : Nat) (best : Option (Nat × ν)) (i : Nat) :
    Fallible (Option (Nat × ν)) := do
  match ← rangeDivergence? hist total steps i with
  | none => return best
  | some d => match best with
    | none => return some (i, d)
    | some (_, least) => if ← lt d least then return some (i, d) else return best

def lastFilled (hist : List ν) : Nat → Nat
  | 0 => 0
  | i + 1 => match hist[i + 1]? with
    | some h => if eq h (whole 0) then lastFilled hist i else i + 1
    | none => i + 1

/-- The number of bins of the best range; ranges from half of the histogram on are looked at. -/
def bestRange (steps : Nat) : Fallible Nat := do
  let start := (hist.length - 1) / 2
  let total ← sum hist
  let best ← ((List.range hist.length).drop start).foldlM (better hist total steps) none
  match best with
  | some (i, _) => if i = 0 then return lastFilled hist start else return i
  | none => return lastFilled hist start

/-- The steps of a quantized value of so many bits, on one side of zero. -/
def stepsOf (bits : Int) : Fallible Nat :=
  if bits ≤ 0 then .error .type else .ok (Nat.pow 2 (bits - 1).toNat - 1)

/-- The upper end of the best range: the middle of the bin after it. -/
def threshold (width : ν) (steps : Nat) : Fallible ν := do
  mul (← add (whole (← bestRange hist steps)) (decimal 5 1)) width

/-- The threshold of a histogram in an array with one axis, for quantized values of so many bits. -/
def thresholdOf (hist : NdArray) (width : Value) (bits : Int) : Fallible Value := do
  if hist.shape.length ≠ 1 then .error .assertion
  threshold (hist.data.map Value.ofScalar) width (← stepsOf bits)

end TensorKit.Calibration

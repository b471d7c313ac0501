import TensorKit.Arithmetic
import TensorKit.Position
/-!
The area under the curve of true against false positives.

Scores between zero and one fall into bins; two histograms count the positive and the negative samples in each.  From
the highest bin down, the area grows by a trapezoid at each bin: its width is the number of negatives in the bin, its
heights are the positives above the bin and those up to it.  Divided by the numbers of positives and negatives, this is
the share of pairs that the scores rank rightly, a tie counted as half.
-/

namespace TensorKit.Metric

variable {ν : Type} [Arithmetic ν]

open Arithmetic

structure Bins (ν : Type) where
  /-- the number that scores are multiplied by; the highest bin -/
  thresholds : Int
  positives : List ν
  negatives : List ν

namespace Bins

def empty (thresholds : Int) : Bins ν :=
  let zeros := List.replicate (thresholds + 1).toNat (decimal 0 0)
  ⟨thresholds, zeros, zeros⟩

def bin (thresholds : Int) (score : ν) : Fallible Int := do
  let i ← truncate (← mul score (whole thresholds))
  if i ≤ thresholds then return i else .error .assertion

def increase (i : Int) (xs : List ν) : Fallible (List ν) := do
  let k ← Position.place xs.length i
  match xs[k]? with
  | some x => return xs.set k (← add x (decimal 1 0))
  | none => .error .index

def add (b : Bins ν) (score : ν) (positive : Fallible Bool) : Fallible (Bins ν) := do
  let i ← bin b.thresholds score
  if ← positive then return { b with positives := ← increase i b.positives }
  else return { b with negatives := ← increase i b.negatives }

structure Sweep (ν : Type) where
  positives : ν
  negatives : ν
  area : ν

def trapezoid (x₁ x₂ y₁ y₂ : ν) : Fallible ν := do
  div (← mul (← abs (← sub x₁ x₂)) (← Arithmetic.add y₁ y₂)) (decimal 2 0)

def Sweep.step (s : Sweep ν) (bin : ν × ν) : Fallible (Sweep ν) := do
  let p ← Arithmetic.add s.positives bin.1
  let n ← Arithmetic.add s.negatives bin.2
  return ⟨p, n, ← Arithmetic.add s.area (← trapezoid n s.negatives p s.positives)⟩

def sweep (b : Bins ν) : Fallible (Sweep ν) :=
  (b.positives.zip b.negatives).reverse.foldlM Sweep.step ⟨decimal 0 0, decimal 0 0, decimal 0 0⟩

/-- The area as a share of all pairs; zero when one side has no sample. -/
def area (b : Bins ν) : Fallible ν := do
  let s ← b.sweep
  let zero : ν := decimal 0 0
  if ← lt zero s.positives then
    if ← lt zero s.negatives then
      return ← div (← div s.area s.positives) s.negatives
  return zero

end Bins

end TensorKit.Metric

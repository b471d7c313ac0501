import TensorKit.Number.Binary
/-!
Counts of right and wrong answers.

A score is rounded to a class.  Precision looks at the samples whose score is rounded to class 1, recall at the
samples whose label is 1; both count how many of those have label and class 1 and how many have not.
-/

namespace TensorKit.Metric

structure Counts where
  right : Nat := 0
  wrong : Nat := 0
  deriving DecidableEq

namespace Counts

def note (c : Counts) (isRight : Bool) : Counts :=
  if isRight then { c with right := c.right + 1 } else { c with wrong := c.wrong + 1 }

def share (c : Counts) : Float :=
  if c.right + c.wrong = 0 then 0.0 else Number.ofInt c.right / Number.ofInt (c.right + c.wrong)

end Counts

/-! ## Rounding of floating scores -/

/-- The nearest whole number, a half goes to the even one; zero for what has none. -/
def halfEven (x : Float) : Int := (Number.round? x).getD 0

end TensorKit.Metric

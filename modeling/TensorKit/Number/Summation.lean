/-!
Sums of floating numbers.

A long sum is rounded less often when it is taken pairwise: fewer than eight numbers are added one after the other, up
to 128 in eight columns that are added at the end, and more in two halves, the first of which is a multiple of eight.
-/

namespace TensorKit.Number

variable (xs : List Float)

def plainSum : Float := xs.foldl (· + ·) 0.0

def addColumns : Nat → List Float → List Float → List Float × List Float
  | 0, columns, xs => (columns, xs)
  | n + 1, columns, xs =>
    if xs.length < 8 then (columns, xs)
    else addColumns n (List.zipWith (· + ·) columns (xs.take 8)) (xs.drop 8)

/-- The sum in eight columns of at least eight numbers. -/
def columnSum : Float :=
  let (columns, rest) := addColumns xs.length (xs.take 8) (xs.drop 8)
  let total := match columns with
    | [a, b, c, d, e, f, g, h] => ((a + b) + (c + d)) + ((e + f) + (g + h))
    | cs => plainSum cs
  rest.foldl (· + ·) total

def halvedSum : Nat → List Float → Float
  | 0, xs => columnSum xs
  | n + 1, xs =>
    if xs.length < 8 then plainSum xs
    else if xs.length ≤ 128 then columnSum xs
    else
      let half := xs.length / 2
      let cut := half - half % 8
      halvedSum n (xs.take cut) + halvedSum n (xs.drop cut)

def sum : Float := halvedSum xs.length xs

def mean : Float := sum xs / xs.length.toFloat

/-- The number in the middle, or the mean of the two in the middle. -/
def median : Float :=
  let sorted := xs.mergeSort fun a b => a ≤ b
  let half := xs.length / 2
  if xs.length % 2 = 1 then mean ((sorted.drop half).take 1) else mean ((sorted.drop (half - 1)).take 2)

/-- The mean square distance from the mean. -/
def variance : Float :=
  let m := mean xs
  mean (xs.map fun x => (x - m) * (x - m))

end TensorKit.Number

import TensorKit.Number.Binary
/-!
Decimal texts of binary floating point numbers.

The *short* text has the fewest digits that read back as the same number, and of those the nearest to it.  It is
positional when the first digit stands between the fourth place after the point and the sixteenth before it, and has an
exponent of at least two digits otherwise.  The *long* text has twelve significant digits, the last one rounded to
nearest, and always an exponent.
-/

namespace TensorKit.Number

/-! ## 1. The fewest digits that read back -/

/-- A decimal number `digits · 10^exponent`. -/
structure Decimal where
  digits : Nat
  exponent : Int

/-- The numbers that read back as `m · 2^q` lie between these two halves, in units of `2^(q-2)`. -/
def Decimal.halves (m : Nat) (atBoundary : Bool) : Nat × Nat :=
  (if atBoundary then 4 * m - 1 else 4 * m - 2, 4 * m + 2)

/-- Does `k · 10^t` read back as `m · 2^q`?  An end of the interval belongs to it exactly when `m` is
even. -/
def Decimal.readsBack (m : Nat) (q : Int) (atBoundary : Bool) (k : Nat) (t : Int) : Bool :=
  let (lo, hi) := halves m atBoundary
  let x := (Ratio.mk k 1).shift10 t
  let l := Ratio.scaled lo (q - 2)
  let h := Ratio.scaled hi (q - 2)
  let below := x.num * l.den
  let above := x.num * h.den
  if m % 2 = 0 then l.num * x.den ≤ below && above ≤ h.num * x.den
  else l.num * x.den < below && above < h.num * x.den

/-- The first grid, counted by its number of digits, that has a point which reads back; of two such
points the nearer one, of two equally near ones the even one. -/
def Decimal.search (m : Nat) (q : Int) (atBoundary : Bool) (e : Int) : Nat → Nat → Decimal
  | 0, n => ⟨((Ratio.scaled m q).shift10 ((n : Int) - 1 - e)).roundEven, e - n + 1⟩
  | fuel + 1, n =>
    let t := e - n + 1
    let r := (Ratio.scaled m q).shift10 (-t)
    let k := r.num / r.den
    let low := readsBack m q atBoundary k t && k != 0
    let high := readsBack m q atBoundary (k + 1) t
    if low && high then
      let rest := 2 * (r.num % r.den)
      if rest < r.den then ⟨k, t⟩
      else if r.den < rest then ⟨k + 1, t⟩
      else if k % 2 = 0 then ⟨k, t⟩ else ⟨k + 1, t⟩
    else if low then ⟨k, t⟩
    else if high then ⟨k + 1, t⟩
    else search m q atBoundary e fuel (n + 1)

/-- The shortest decimal number that reads back as `m · 2^q`, for positive `m`. -/
def Decimal.shortest (m : Nat) (q : Int) (atBoundary : Bool) : Decimal :=
  search m q atBoundary (Ratio.scaled m q).exponent10 17 1

/-! ## 2. Layout -/

def exponentText (e : Int) : String :=
  let digits := toString e.natAbs
  let padded := if e.natAbs < 10 then "0" ++ digits else digits
  (if e < 0 then "e-" else "e+") ++ padded

/-- Digits with the point after the first one; no point when there is only one digit. -/
def pointAfterFirst (digits : List Char) : String :=
  match digits with
  | [] => ""
  | [d] => .ofList [d]
  | d :: ds => .ofList (d :: '.' :: ds)

/-- The text of positive `digits · 10^exponent`: positional for first digits from `10^-4` to `10^15`,
with at least one digit on each side of the point. -/
def Decimal.text (d : Decimal) : String :=
  let (k, z) := without 10 (digitCount d.digits) d.digits
  let exponent := d.exponent + z
  let ds := Nat.toDigits 10 k
  let first := exponent + ds.length - 1
  if -4 ≤ first && first < 16 then
    if 0 ≤ exponent then .ofList (ds ++ List.replicate exponent.toNat '0') ++ ".0"
    else if 0 ≤ first then
      .ofList (ds.take (first.toNat + 1) ++ '.' :: ds.drop (first.toNat + 1))
    else "0." ++ .ofList (List.replicate (-first - 1).toNat '0' ++ ds)
  else pointAfterFirst ds ++ exponentText first

/-- The text of a number, given that of its absolute value. -/
def signed (absolute : Nat → Int → Bool → String) (x : Float) : String :=
  match Exact.of x with
  | .nan => "nan"
  | .infinite negative => if negative then "-inf" else "inf"
  | .finite negative m q atBoundary => (if negative then "-" else "") ++ absolute m q atBoundary

def short : Float → String :=
  signed fun m q atBoundary => if m = 0 then "0.0" else (Decimal.shortest m q atBoundary).text

/-- The digits and the exponent of positive `r` rounded to `places + 1` significant digits. -/
def Ratio.rounded (r : Ratio) (places : Nat) : Nat × Int :=
  let e := r.exponent10
  let k := (r.shift10 ((places : Int) - e)).roundEven
  if k < Nat.pow 10 (places + 1) then (k, e) else (k / 10, e + 1)

/-- A number with one digit before the point, `places` after it, and an exponent. -/
def scientific (places : Nat) : Float → String := signed fun m q _ =>
  let (k, e) := if m = 0 then (0, 0) else (Ratio.scaled m q).rounded places
  let ds := Nat.toDigits 10 k
  pointAfterFirst (List.replicate (places + 1 - ds.length) '0' ++ ds) ++ exponentText e

def long (x : Float) : String := scientific 11 x

/-! ## 3. Reading -/

def readDigits (cs : List Char) : Nat :=
  cs.foldl (fun n c => 10 * n + (c.toNat - '0'.toNat)) 0

/-- Reading decimal texts: an optional sign, digits with an optional point, an optional exponent. -/
def read? (s : String) : Option Float :=
  let (negative, cs) : Bool × List Char :=
    match s.toList with
    | '-' :: cs => (true, cs)
    | '+' :: cs => (false, cs)
    | cs => (false, cs)
  let signed (x : Float) : Float := if negative then -x else x
  if cs = "inf".toList then some (signed (1.0 / 0.0))
  else if cs = "nan".toList then some (0.0 / 0.0)
  else
    let whole := cs.takeWhile Char.isDigit
    let rest := cs.dropWhile Char.isDigit
    let (fraction, rest) : List Char × List Char :=
      match rest with
      | '.' :: r => (r.takeWhile Char.isDigit, r.dropWhile Char.isDigit)
      | r => ([], r)
    let exponent? : Option Int :=
      match rest with
      | [] => some 0
      | c :: r =>
        if c = 'e' || c = 'E' then
          match r with
          | '-' :: ds => if ds.all Char.isDigit && !ds.isEmpty then some (-(readDigits ds : Int)) else none
          | '+' :: ds => if ds.all Char.isDigit && !ds.isEmpty then some (readDigits ds) else none
          | ds => if ds.all Char.isDigit && !ds.isEmpty then some (readDigits ds) else none
        else none
    if whole.isEmpty && fraction.isEmpty then none
    else exponent?.map fun (e : Int) =>
      let m := readDigits (whole ++ fraction)
      let e : Int := e - fraction.length
      signed (if e < 0 then .ofScientific m true (-e).toNat else .ofScientific m false e.toNat)

end TensorKit.Number

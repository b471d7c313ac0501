/-!
Binary floating point numbers as exact values.

A finite number of 64 bits is `± m · 2^q` with natural `m` and integer `q`.  All decimal texts of this
library are computed from that pair by exact arithmetic on natural numbers, never from a printed form.
-/

namespace TensorKit.Number

inductive Exact where
  | nan
  | infinite (negative : Bool)
  /-- `± m · 2^q`; `atBoundary` holds when the next smaller number is only half as far away as the next
  larger one, which is so at powers of two that are not subnormal. -/
  | finite (negative : Bool) (m : Nat) (q : Int) (atBoundary : Bool)

def Exact.ofBits (bits : Nat) : Exact :=
  let negative := bits / Nat.pow 2 63 % 2 == 1
  let e : Nat := bits / Nat.pow 2 52 % Nat.pow 2 11
  let f : Nat := bits % Nat.pow 2 52
  if e = 2047 then
    if f = 0 then .infinite negative else .nan
  else if e = 0 then .finite negative f (-1074) false
  else .finite negative (f + Nat.pow 2 52) ((e : Int) - 1075) (f == 0 && e > 1)

variable (x : Float)

def Exact.of : Exact := .ofBits x.toBits.toNat

structure Ratio where
  num : Nat
  den : Nat

def Ratio.scaled (m : Nat) (q : Int) : Ratio :=
  if 0 ≤ q then ⟨m * Nat.pow 2 q.toNat, 1⟩ else ⟨m, Nat.pow 2 (-q).toNat⟩

def Ratio.shift10 (r : Ratio) (k : Int) : Ratio :=
  if 0 ≤ k then ⟨r.num * Nat.pow 10 k.toNat, r.den⟩ else ⟨r.num, r.den * Nat.pow 10 (-k).toNat⟩

def digitCount (n : Nat) : Nat := (Nat.toDigits 10 n).length

/-- The exponent of the first decimal digit of a positive ratio: the `e` with `10^e ≤ r < 10^(e+1)`. -/
def Ratio.exponent10 (r : Ratio) : Int :=
  let guess : Int := (digitCount r.num : Int) - digitCount r.den
  let s := r.shift10 (-guess)
  if s.num < s.den then guess - 1 else guess

/-- The natural number nearest to a ratio; of two equally near ones the even one. -/
def Ratio.roundEven (r : Ratio) : Nat :=
  let k := r.num / r.den
  let rest := 2 * (r.num % r.den)
  if rest < r.den then k
  else if r.den < rest then k + 1
  else if k % 2 = 0 then k else k + 1

/-! ## Whole parts -/

/-- The largest whole number that is not above a finite number. -/
def floor? : Option Int :=
  match Exact.of x with
  | .finite negative m q _ =>
    let r := Ratio.scaled m q
    some (if negative then -((r.num + r.den - 1) / r.den : Nat) else (r.num / r.den : Nat))
  | _ => none

/-- The smallest whole number that is not below a finite number. -/
def ceil? : Option Int := (floor? (-x)).map fun n => -n

/-- The whole number next to a finite number on the side of zero. -/
def truncate? : Option Int := if x < 0.0 then ceil? x else floor? x

/-- The whole number nearest to a finite number; of two equally near ones the even one. -/
def round? : Option Int :=
  match Exact.of x with
  | .finite negative m q _ =>
    let n : Int := (Ratio.scaled m q).roundEven
    some (if negative then -n else n)
  | _ => none

/-! ## Numbers from exact values -/

/-- Divide a number by a factor as long as there is no remainder, and count how often. -/
def without (factor : Nat) : Nat → Nat → Nat × Nat
  | 0, n => (n, 0)
  | fuel + 1, n =>
    if n != 0 && n % factor == 0 then
      let (m, k) := without factor fuel (n / factor)
      (m, k + 1)
    else (n, 0)

/-- The number `m · 2^q`, for values that a floating point number can have. -/
def ofScaled (m : Nat) (q : Int) : Float :=
  let (odd, k) := without 2 m.log2 m
  (Float.ofNat odd).scaleB (q + k)

/-- The floating point number nearest to a positive ratio, of two equally near ones the even one; infinite
above the largest finite one. -/
def ofRatio (num den : Nat) : Float :=
  if num = 0 then 0.0 else
  -- scale so that the quotient has at least 55 binary digits, the last one sticky
  let e : Int := (num.log2 : Int) - den.log2
  let q : Int := max (e - 55) (-1074 - 2)
  let r : Ratio := if 0 ≤ q then ⟨num, den * Nat.pow 2 q.toNat⟩ else ⟨num * Nat.pow 2 (-q).toNat, den⟩
  let k := r.num / r.den
  let sticky := r.num % r.den != 0
  -- keep 53 digits, or fewer where the spacing of subnormal numbers asks for it
  let drop : Nat := max (k.log2 + 1 - 53) (-1074 - q).toNat
  let unit := Nat.pow 2 drop
  let kept := k / unit
  let rest := 2 * (k % unit) + (if sticky then 1 else 0)
  let rounded := if rest < unit then kept else if unit < rest then kept + 1
    else if kept % 2 = 0 then kept else kept + 1
  (Float.ofNat rounded).scaleB (q + drop)

def ofInt (i : Int) : Float :=
  if i < 0 then -(Float.ofScientific i.natAbs false 0) else Float.ofScientific i.natAbs false 0

/-- The rest of a division of finite numbers whose quotient is cut at the point; it has the sign of the
dividend. -/
def remainder (x y : Float) : Float :=
  match Exact.of x, Exact.of y with
  | .finite negative m q _, .finite _ n p _ =>
    if n = 0 then 0.0 / 0.0 else
    let low := min q p
    let r := (m * Nat.pow 2 (q - low).toNat) % (n * Nat.pow 2 (p - low).toNat)
    let z := if r = 0 then 0.0 else ofScaled r low
    if negative then -z else z
  | .finite _ _ _ _, .infinite _ => x
  | _, _ => 0.0 / 0.0

end TensorKit.Number

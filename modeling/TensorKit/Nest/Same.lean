import TensorKit.Nest.Basic
/-!
Comparing the shapes of structures.

Two structures have the same shape when they have as many leaves, and corresponding parts are both leaves or both
structures.  With the check of classes on, corresponding structures are also of one kind, and tables have the same keys.
Parts of a table correspond in the order of its sorted keys; parts beyond the shorter of two structures are left out.
-/

namespace TensorKit.Nest

/-- The parts of a structure, those of a table in the order of its sorted keys. -/
def parts : Value → Except Error (List Value)
  | .list xs | .tuple xs | .labelled _ xs => .ok xs
  | .bytes bs => .ok (bs.map fun b => .int b.toNat)
  | .dict ps => do return (← sortKeys ps).map Prod.snd
  | _ => .ok []

def sameClass : Value → Value → Bool
  | .list _, .list _ | .tuple _, .tuple _ | .bytes _, .bytes _ | .dict _, .dict _ => true
  | .labelled kind _, .labelled kind' _ => kind == kind'
  | _, _ => false

def sameKeys (ps qs : Pairs) : Bool :=
  ps.length == qs.length && ps.all fun p => qs.any fun q => Value.same p.1 q.1

/-- The check of two structures before their parts: both leaves or both structures and, if asked, of one kind
and with the same keys. -/
def checkNode (classes : Bool) (a b : Value) : Except Error Unit := do
  if isBranch a != isBranch b then .error (.nesting a.plain b.plain)
  if isBranch a && classes then
    if !sameClass a b then .error (.sequenceClass a.classText b.classText)
    if let (.dict ps, .dict qs) := (a, b) then
      if !sameKeys ps qs then
        .error (.keys (Value.set (ps.map Prod.fst)).shown (Value.set (qs.map Prod.fst)).shown)

def checkShape (classes : Bool) : Nat → Value → Value → Except Error Unit
  | 0, _, _ => .ok ()
  | depth + 1, a, b => do
    checkNode classes a b
    if isBranch a then
      let xs ← parts a
      let ys ← parts b
      for (x, y) in xs.zip ys do
        checkShape classes depth x y

mutual

def depth : Value → Nat
  | .list xs | .tuple xs | .labelled _ xs => depthList xs + 1
  | .dict ps => depthPairs ps + 1
  | .bytes _ => 2
  | _ => 1

def depthList : List Value → Nat
  | [] => 0
  | x :: xs => Nat.max (depth x) (depthList xs)

def depthPairs : Pairs → Nat
  | [] => 0
  | p :: ps => Nat.max (depthPair p) (depthPairs ps)

def depthPair : Value × Value → Nat
  | (_, v) => depth v

end

/-- Refuse two structures that differ in shape. -/
def checkSame (a b : Value) (classes : Bool) : Except Error Unit := do
  let n := (← flatten a).length
  let m := (← flatten b).length
  if n ≠ m then .error (.elementCount n a.plain m b.plain)
  checkShape classes (Nat.max (depth a) (depth b)) a b

end TensorKit.Nest

import TensorKit.Batch.Basic
/-!
Batches as a flat list of arrays and a structure.

`separate` takes the arrays out of a batch, from left to right, and leaves a numbered mark in the place of
each; tuples become lists.  `restore` puts arrays back at the marks of a structure.  Each array is used once,
and the largest number has to be that of the last array.
-/

namespace TensorKit.Batch

def markStart : String := "_paddle_field_"

def mark (i : Nat) : String := markStart ++ toString i

/-! ## 1. Taking arrays out -/

mutual

/-- The structure of a part of a batch, whose arrays are numbered from `i` on, and its arrays. -/
def separateFrom (i : Nat) : Value → Value × List Value
  | .array a => (.str (mark i), [.array a])
  | .list xs | .tuple xs | .labelled _ xs =>
    let (ys, arrays) := separateList i xs
    (.list ys, arrays)
  | .dict ps =>
    let (qs, arrays) := separatePairs i ps
    (.dict qs, arrays)
  | v => (v, [])

def separateList (i : Nat) : List Value → List Value × List Value
  | [] => ([], [])
  | x :: xs =>
    let (y, a) := separateFrom i x
    let (ys, as) := separateList (i + a.length) xs
    (y :: ys, a ++ as)

def separatePairs (i : Nat) : Pairs → Pairs × List Value
  | [] => ([], [])
  | p :: ps =>
    let (q, a) := separatePair i p
    let (qs, as) := separatePairs (i + a.length) ps
    (q :: qs, a ++ as)

def separatePair (i : Nat) : Value × Value → (Value × Value) × List Value
  | (k, v) =>
    let (w, a) := separateFrom i v
    ((k, w), a)

end

/-- The arrays of a batch and its structure.  A text or byte string alone is taken as a sequence. -/
def separate (batch : Value) : List Value × Value :=
  match batch with
  | .str s => ([], .list (s.toList.map fun c => .str (.ofList [c])))
  | .bytes bs => ([], .list (bs.map fun b => .int b.toNat))
  | b =>
    let (s, arrays) := separateFrom 0 b
    (arrays, s)

/-! ## 2. Putting arrays back -/

/-- The arrays that are left, and the largest number so far. -/
structure Rest where
  flat : Value
  largest : Int

def putAt (xs : List Value) (i : Int) (v : Value) : List Value :=
  let j := if i < 0 then i + xs.length else i
  xs.set j.toNat v

/-- The array of a mark, which is used up.  Only lists can be changed. -/
def takeMarked (text : String) (place : Fallible Unit) : StateT Rest (Except Error) Value := do
  let rest ← get
  match Number.wholeOf? (Text.replace markStart "" text) with
  | none => throw (.fault .value)
  | some i =>
    let item ← rest.flat.at? (.int i)
    match item with
    | .null => throw .usedTwice
    | item =>
      place
      match rest.flat with
      | .list xs => set ({ flat := .list (putAt xs i .null), largest := max rest.largest i } : Rest)
      | _ => throw (.fault .type)
      return item

def isMark (s : String) : Bool := Text.hasStart markStart s

mutual

/-- A part of a structure with arrays at its marks.  A part in a sequence that cannot be changed fails with
`place` when it is a mark. -/
def restoreField (place : Fallible Unit) : Value → StateT Rest (Except Error) Value
  | .str s => if isMark s then takeMarked s place else return .str s
  | .list xs => do return .list (← restoreList (.ok ()) xs)
  | .tuple xs => do return .tuple (← restoreList (.error .type) xs)
  | .labelled kind xs => do return .labelled kind (← restoreList (.error .type) xs)
  | .dict ps => do return .dict (← restorePairs ps)
  | v => return v

def restoreList (place : Fallible Unit) : List Value → StateT Rest (Except Error) (List Value)
  | [] => return []
  | x :: xs => do
    let y ← restoreField place x
    return y :: (← restoreList place xs)

def restorePairs : Pairs → StateT Rest (Except Error) Pairs
  | [] => return []
  | p :: ps => do
    let q ← restorePair p
    return q :: (← restorePairs ps)

def restorePair : Value × Value → StateT Rest (Except Error) (Value × Value)
  | (k, v) => do return (k, ← restoreField (.ok ()) v)

end

def restore (flat shape : Value) : Except Error Value := do
  match flat with
  | .list _ | .tuple _ | .labelled _ _ | .str _ | .bytes _ => pure ()
  | _ => .error .leavesClass
  let n ← flat.size
  if n = 0 then return shape
  match shape with
  | .str s => if s = mark 0 then return (← flat.at? (.int 0)) else .error (.invalid s)
  | .bytes _ => .error (.invalid shape.plain)
  | .list _ | .tuple _ | .labelled _ _ | .dict _ =>
    let (batch, rest) ← (restoreField (.ok ()) shape).run { flat := flat, largest := 0 }
    if rest.largest + 1 = n then return batch else .error .incomplete
  | v => .error (.flatClass v.classText)

/-- A value as a list: lists and tuples item by item, null as null, any other value alone. -/
def toList : Value → Value
  | .null => .null
  | .list xs | .tuple xs | .labelled _ xs => .list xs
  | v => .list [v]

end TensorKit.Batch

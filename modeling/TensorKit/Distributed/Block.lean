import TensorKit.Distributed.Mapping
/-!
Blocks of a tensor.

A mesh splits a tensor evenly along the axes that are mapped to its axes; each process holds one block, given by
a span on every tensor axis.  Two blocks that agree on all axes but one, where they touch, join to one block.
-/

namespace TensorKit.Distributed

open Position

/-- Whole numbers from `lo` on and below `hi`. -/
structure Span where
  lo : Int
  hi : Int
  deriving DecidableEq

instance : ToValue Span := ⟨fun s => .list [.int s.lo, .int s.hi]⟩

/-- Do two spans share a number?  One of them has to start inside the other. -/
def Span.meets (a b : Span) : Bool :=
  (decide (b.lo ≤ a.lo) && decide (a.lo < b.hi)) || (decide (a.lo ≤ b.lo) && decide (b.lo < a.hi))

abbrev Block := List Span

namespace Block

inductive Error where
  | fault (kind : FailureKind)
  | notMember (process : Int)

def Error.kind : Error → FailureKind
  | fault k => k
  | notMember _ => .value

instance : Faulty Error := { kind := Error.kind, message := fun _ => none, fault := .fault }

/-! ## 1. Splitting -/

def partShape (complete mapping process : List Int) : Fallible (List Int) :=
  Mapping.eachAxis id floorDiv process complete mapping

/-- The sizes of the tensor that a block belongs to. -/
def completeShape (part process mapping : List Int) : Fallible (List Int) :=
  Mapping.eachAxis id (fun n s => .ok (n * s)) process part mapping

def indexFrom (n k : Int) : List Int → Fallible (List Int)
  | [] => .ok []
  | s :: ss => do
    let rest ← floorDiv n s
    let i ← floorDiv k rest
    return i :: (← indexFrom rest (k - i * rest) ss)

def processIndex (process : Int) (group shape : List Int) : Except Error (List Int) := do
  let some k := group.idxOf? process | .error (.notMember process)
  if shape.isEmpty then .error (.fault .type)
  return ← indexFrom (product shape) k shape

def spans (index : List Int) : List Int → List Int → Fallible Block :=
  Mapping.eachAxis (⟨0, ·⟩) (fun n i => .ok ⟨i * n, (i + 1) * n⟩) index

def ofProcess (process : Int) (complete mapping shape group : List Int) : Except Error Block := do
  let part ← partShape complete mapping shape
  let index ← processIndex process group shape
  return ← spans index part mapping

/-! ## 2. Joining -/

/-- How two blocks join: the axis along which they touch, if they do, whether the second one comes first, and
the spans found on the way. -/
structure Joint where
  axis : Option Nat
  swapped : Bool
  block : Block

instance : ToValue Joint := ⟨fun j =>
  .tuple [.int (match j.axis with
    | some i => i
    | none => -1), .int (if j.swapped then 1 else 0), toValue j.block]⟩

/-- Compare two blocks from an axis on: the number of axes where they differ, and the joint so far. -/
def compareFrom (axis : Nat) : Block → Block → Fallible (Nat × Joint)
  | [], _ => .ok (0, ⟨none, false, []⟩)
  | _ :: _, [] => .error .index
  | a :: as, b :: bs => do
    let (n, j) ← compareFrom (axis + 1) as bs
    if a = b then return (n, { j with block := a :: j.block })
    else if a.hi = b.lo ∧ a.lo < b.hi then
      return (n + 1, { j with axis := j.axis.or (some axis), block := ⟨a.lo, b.hi⟩ :: j.block })
    else if a.lo = b.hi ∧ b.lo < a.hi then
      return (n + 1, { axis := j.axis.or (some axis), swapped := true, block := ⟨b.lo, a.hi⟩ :: j.block })
    else return (n + 1, j)

/-- How two blocks join.  They do when they differ on one axis only and touch there. -/
def joint (a b : Block) : Fallible Joint := do
  let (n, j) ← compareFrom 0 a b
  return if n = 1 then j else { j with axis := none }

/-- The first of some blocks with contents that joins a new one: the joined block with its contents, and the
other blocks. -/
def joinFirst {α ε : Type} [MonadLiftT Fallible (Except ε)] (paste : Nat → α → α → Except ε α) (new : α)
    (b : Block) : List (α × Block) → Except ε (Option ((α × Block) × List (α × Block)))
  | [] => .ok none
  | (a, p) :: rest => do
    let j ← (joint p b : Fallible Joint)
    match j.axis with
    | some axis => return some ((← if j.swapped then paste axis new a else paste axis a new, j.block), rest)
    | none => match ← joinFirst paste new b rest with
      | some (c, others) => return some (c, (a, p) :: others)
      | none => return none

/-- Add a block to a list, joining it with one of them as long as that is possible. -/
def addTo : Nat → List Block → Block → Fallible (List Block)
  | 0, ps, b => .ok (ps ++ [b])
  | n + 1, ps, b => do
    match ← joinFirst (fun _ _ _ => .ok ()) () b (ps.map fun p => ((), p)) with
    | some ((_, c), rest) => addTo n (rest.map Prod.snd) c
    | none => return ps ++ [b]

/-- Add a block to a list of blocks; every joining makes the list shorter. -/
def add (ps : List Block) (b : Block) : Fallible (List Block) := addTo ps.length ps b

def addEach (ps : List Block) : List Block → Fallible (List (List Block))
  | [] => .ok []
  | b :: bs => do
    let ps ← add ps b
    return ps :: (← addEach ps bs)

/-! ## 3. Cutting -/

def distinct (xs : List Int) : List Int := xs.foldl (fun seen x => if seen.contains x then seen else seen ++ [x]) []

def bounds : List Block → List (List Int)
  | [] => []
  | b :: bs =>
    let rest := bounds bs
    b.zipIdx.map fun (s, i) => s.lo :: s.hi :: (rest[i]?.getD [])

/-- The positions inside a tensor where blocks meet, axis by axis, in order. -/
def cuts (complete mapping shape group : List Int) : Except Error (List (List Int)) := do
  let blocks ← group.mapM fun p => ofProcess p complete mapping shape group
  return ((bounds blocks).zip complete).map fun (xs, n) =>
    sorted ((distinct xs).filter fun x => x != n && x != 0)

def numberFrom (n : Int) (shape : List Int) : List Int → List Int → Block → Fallible Int
  | size :: sizes, m :: ms, s :: ss => do
    let part ← if m = Mapping.replicated then pure size else do floorDiv size (← pick shape m)
    let i ← if part = 1 then pure s.lo else floorDiv (s.lo + 1) part
    numberFrom (n * (← floorDiv size part) + i) shape sizes ms ss
  | _, _, _ => .ok n

def number (process : Int) (complete mapping shape group : List Int) : Except Error Int := do
  let b ← ofProcess process complete mapping shape group
  return ← numberFrom 0 shape complete mapping b

end Block

end TensorKit.Distributed

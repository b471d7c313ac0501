import TensorKit.Batch.Basic
import TensorKit.Reader.Parallel
import TensorKit.Value.Call
import TensorKit.Value.Marked
/-!
Readers of samples.

A reader gives a run of samples, which may break off with a failure.  It can be read again and again, and gives
the same run each time.  Readers are mapped, chained, composed, batched and cut; each of them keeps the samples
that come before a failure.
-/

namespace TensorKit.Reader

/-! ## 1. Runs -/

inductive Error where
  | fault (kind : FailureKind)
  | notAligned
  | batchSize (n : Int)

instance : Faulty Error where
  fault := .fault
  kind
    | .fault k => k
    | .notAligned => .notAligned
    | .batchSize _ => .value
  message
    | .fault _ => none
    | .notAligned => some "outputs of readers are not aligned."
    | .batchSize n => some s!"batch_size should be a positive integeral value, but got batch_size={n}"

structure Run where
  samples : List Value
  stop : Option Error := none

def Run.cons (v : Value) (r : Run) : Run := { r with samples := v :: r.samples }

inductive Next where
  | sample (v : Value)
  | ended
  | failed (e : Error)

def Run.at (r : Run) (i : Nat) : Next :=
  match r.samples[i]? with
  | some v => .sample v
  | none => match r.stop with
    | some e => .failed e
    | none => .ended

/-! ## 2. Several runs in step -/

def row (i : Nat) : List Run → Except (Option Error) (List Value)
  | [] => .ok []
  | r :: rs => match r.at i with
    | .sample v => do return v :: (← row i rs)
    | .ended => .error none
    | .failed e => .error (some e)

/-- The samples at a position of all runs, null for runs that have ended; ends when all have. -/
def rowFilled (i : Nat) : List Run → Except (Option Error) (List Value)
  | rs => do
    let cells ← rs.mapM fun r => match r.at i with
      | .sample v => pure (some v)
      | .ended => pure none
      | .failed e => throw (some e)
    if cells.all Option.isNone then .error none else return cells.map fun c => c.getD .null

/-- Build a run from rows: `fuel` rows from position `i` on. -/
def fromRows (rows : Nat → Except (Option Error) (List Value)) (f : List Value → Except Error Value) : Nat → Nat → Run
  | 0, _ => ⟨[], none⟩
  | fuel + 1, i => match rows i with
    | .error stop => ⟨[], stop⟩
    | .ok xs => match f xs with
      | .error e => ⟨[], some e⟩
      | .ok v => (fromRows rows f fuel (i + 1)).cons v

def rowBound (rs : List Run) : Nat := rs.foldl (fun n r => Nat.max n r.samples.length) 0 + 1

/-! ## 3. Readers -/

/-- Apply a function to the samples of several runs in step, up to the shortest. -/
def map (f : List Value → Fallible Value) (rs : List Run) : Run :=
  if rs.isEmpty then ⟨[], some (.fault .type)⟩
  else fromRows (fun i => row i rs) (fun xs => (f xs).mapError .fault) (rowBound rs) 0

def Run.ofOutcomes (stop : Option Error) : List (Fallible Value) → Run
  | [] => ⟨[], stop⟩
  | .error k :: _ => ⟨[], some (.fault k)⟩
  | .ok v :: os => (ofOutcomes stop os).cons v

/-- Apply a function to the samples of a run by several workers; a failure is handed on as other results are. -/
def mapParallel (workers size : Nat) (ordered : Bool) (f : List Value → Fallible Value) (r : Run) : Run :=
  .ofOutcomes r.stop (Parallel.mapped { mapper := fun v => f [v], workers, size, ordered } r.samples)

def chain : List Run → Run
  | [] => ⟨[], none⟩
  | r :: rs => match r.stop with
    | some e => ⟨r.samples, some e⟩
    | none =>
      let rest := chain rs
      ⟨r.samples ++ rest.samples, rest.stop⟩

/-- The parts of a sample: those of a tuple, or the sample itself. -/
def partsOf : Value → List Value
  | .tuple xs | .labelled _ xs => xs
  | v => [v]

/-- The parts of several samples as one tuple. -/
def joined (xs : List Value) : Value := .tuple (xs.flatMap partsOf)

/-- Samples of several runs in step, their parts joined.  With the check on, a sample that is null, or missing
because its run has ended, breaks the run off. -/
def compose (aligned : Bool) (rs : List Run) : Run :=
  if rs.isEmpty then ⟨[], none⟩
  else if aligned then
    fromRows (fun i => rowFilled i rs) (fun xs =>
      if xs.any fun
        | .null => true
        | _ => false then .error .notAligned else .ok (joined xs)) (rowBound rs) 0
  else fromRows (fun i => row i rs) (fun xs => .ok (joined xs)) (rowBound rs) 0

/-- The first `n` samples.  The sample after them is asked for too, so a failure there is seen. -/
def firstN (n : Value) (r : Run) : Run :=
  match (List.range r.samples.length).find? fun (i : Nat) => Value.same (.int i) n with
  | some i => ⟨r.samples.take i, none⟩
  | none => r

/-- Samples in groups of `size`, each in some order; modelled with the order kept.  A failure loses the samples of
the group that is open. -/
def shuffle (size : Int) (r : Run) : Run :=
  match r.stop with
  | none => r
  | some e =>
    let n := Nat.max size.toNat 1
    ⟨r.samples.take (r.samples.length / n * n), some e⟩

/-- Samples in batches.  The short last batch is kept only when `dropLast` is exactly false, and lost when the
run breaks off. -/
def batch (size dropLast : Value) (r : Run) : Except Error Run := do
  let n ← Value.toWhole size
  if n ≤ 0 then .error (.batchSize n)
  let keep := match dropLast with
    | .bool false => r.stop.isNone
    | _ => false
  return ⟨(Batch.batches n.toNat (!keep) r.samples).map Value.list, r.stop⟩

/-- All samples, held ready; a failure is one of making the reader. -/
def cache (r : Run) : Except Error Run :=
  match r.stop with
  | some e => .error e
  | none => .ok r

/-! ## 4. Descriptions -/

/-- The run of the reader that a description of at most some depth stands for.  The field `r` names the kind and `of`
has the readers it is made of; functions on samples are known by name. -/
def ofDescription (functions : String → List Value → Fallible Value) : Nat → Value → Except Failure Run
  | 0, _ => .ok ⟨[], none⟩
  | n + 1, v => do
    let of ← (v.part "of").items.mapM (ofDescription functions n)
    let first : Run := of.headD ⟨[], none⟩
    let named := (v.part "kwargs").fieldsOfMarked
    let f := functions (v.part "fn").textOr
    match (v.part "r").textOr with
    | "src" => return ⟨v.itemsAt "data", none⟩
    | "cache" => (cache first).mapError Failure.of
    | "map" => return map f of
    | "xmap" =>
      let count (k : String) : Nat := ((v.part k).int?.getD 0).toNat
      return mapParallel (count "workers") (count "size") (v.part "order").truthy f first
    | "chain" => return chain of
    | "compose" => return compose (((named.lookup "check_alignment").map Value.truthy).getD true) of
    | "firstn" => return firstN (v.part "n").ofMarked first
    | "shuffle" => return shuffle ((v.part "size").int?.getD 0) first
    | "batch" =>
      let size := (v.part "size").ofMarked
      Callable.callBy [Arguments.optional "drop_last" (.bool false)] (fun d => batch size d first) [] named
    | _ => return first

def ofValue (functions : String → List Value → Fallible Value) (v : Value) : Except Failure Run :=
  ofDescription functions v.depth v

end TensorKit.Reader

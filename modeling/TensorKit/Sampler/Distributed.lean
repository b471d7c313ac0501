import TensorKit.Batch.Basic
/-!
Splitting an epoch among replicas.

The positions of a dataset are filled up, from the beginning, to a multiple of the number of replicas.  Each
replica takes every so many batches; what is left after the last full round is divided evenly.
-/

namespace TensorKit.Sampler

structure Split where
  /-- how many items there are -/
  length : Nat
  /-- how many replicas there are -/
  replicas : Nat
  /-- which replica this is -/
  rank : Nat
  /-- the number of items in a batch -/
  batch : Nat

variable (s : Split)

namespace Split

def share : Nat := (s.length + s.replicas - 1) / s.replicas

def total : Nat := s.share * s.replicas

/-- The positions, filled up from the beginning as far as one more round of positions reaches. -/
def padded : List Nat :=
  let xs := List.range s.length
  xs ++ xs.take (s.total - s.length)

def every (step bound start : Nat) : List Nat :=
  if step = 0 then [] else (List.range ((bound - start + step - 1) / step)).map fun k => start + k * step

/-- The positions that this replica takes: a run of one batch in every full round, and its part of the
rest. -/
def taken (xs : List Nat) : List Nat :=
  let round := s.batch * s.replicas
  let rest := s.total % round
  let full := xs.length - rest
  let part := rest / s.replicas
  (every round full (s.rank * s.batch)).flatMap (fun i => (xs.drop i).take s.batch) ++
    ((xs.drop full).drop (s.rank * part)).take part

/-- The positions of this replica.  Fails when the positions cannot be filled up, when several replicas cannot divide
the rest evenly, or when they do not give the replica its share. -/
def indices : Fallible (List Nat) := do
  let xs := s.padded
  if xs.length ≠ s.total then .error .assertion
  if s.replicas > 1 ∧ s.total % (s.batch * s.replicas) % s.replicas ≠ 0 then .error .assertion
  let mine := if s.replicas > 1 then s.taken xs else xs
  if mine.length ≠ s.share then .error .assertion
  return mine

end Split

end TensorKit.Sampler

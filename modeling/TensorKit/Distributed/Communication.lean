import TensorKit.Distributed.Cluster
/-!
Communication between the devices of a cluster.

The slowest link decides how long data takes among a group: `maxBeta` is the largest time per unit of data over all
pairs of devices of the group, in either direction.  It is remembered by the text of the devices in order, so that a
group is looked up whatever the order of its ranks.
-/

namespace TensorKit.Distributed

def pairsOf {α : Type} : List α → List (α × α)
  | [] => []
  | x :: xs => xs.map (fun y => (x, y)) ++ pairsOf xs

namespace Cluster

variable {ν : Type} [Arithmetic ν]

/-- The larger time per unit of data between two devices. -/
def betaBetween (c : Cluster ν) (a b : Number) : Fallible ν := do
  let forth ← c.beta a b
  Arithmetic.max (← c.beta b a) forth

/-- The largest time per unit of data among devices; fewer than two have none. -/
def largestBeta (c : Cluster ν) (ns : List Number) : Fallible (Option ν) := do
  match ← (pairsOf ns).mapM fun p => c.betaBetween p.1 p.2 with
  | [] => return none
  | b :: bs => some <$> bs.foldlM Arithmetic.max b

def hops (c : Cluster ν) (ns : List Number) : Fallible ν :=
  (pairsOf ns).foldlM (fun n p => do Arithmetic.add n (← c.hop p.1 p.2)) (Arithmetic.whole 0)

end Cluster

/-- A cluster with the answers that are remembered. -/
structure Communication (ν : Type) where
  cluster : Cluster ν
  /-- the largest time per unit of data of the groups asked for, by the texts of their devices -/
  betas : Table String (Option ν) := []

namespace Communication

variable {ν : Type} [Arithmetic ν]

/-- Devices in order.  A device without a number cannot be ordered among others. -/
def inOrder (ns : List Number) : Fallible (List Number) :=
  if 1 < ns.length && ns.contains none then .error .type
  else .ok (ns.mergeSort fun m n => decide (m.getD 0 ≤ n.getD 0))

def keyOf (ns : List Number) : String := ",".intercalate (ns.map Number.text)

/-- The devices of ranks, and what their answer is remembered by. -/
def asking (c : Cluster ν) (ranks : List Number) : Fallible (List Number × String) := do
  let ns ← c.devicesAt ranks
  return (ns, keyOf (← inOrder ns))

/-- The largest time per unit of data among the devices of ranks. -/
def maxBeta (x : Communication ν) (ranks : List Number) : Communication ν × Fallible (Option ν) :=
  match asking x.cluster ranks with
  | .error e => (x, .error e)
  | .ok (ns, key) => match x.betas.get? key, x.cluster.largestBeta ns with
    | some b, _ => (x, .ok b)
    | none, .error e => (x, .error e)
    | none, .ok b => ({ x with betas := x.betas.set key b }, .ok b)

end Communication

end TensorKit.Distributed

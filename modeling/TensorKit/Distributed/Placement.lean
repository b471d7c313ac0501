import TensorKit.Distributed.Cluster
import TensorKit.Distributed.Requirement
/-!
Placing the processes of a distributed program on the devices of a cluster.

Processes are taken from the last rank on; with each process come those that it moves data to, in the order of a queue.
Each takes the first accelerator that is still free.  If only some devices are visible, the others are occupied from the
start.
-/

namespace TensorKit.Distributed

open Requirement (Error)

namespace Cluster

variable {ν : Type}

def named (m : Machine ν) : List Number := m.devices.keys ++ m.links.keys.map Prod.snd

def addNamed (ns : List Int) (m : Machine ν) : Except Error (List Int) :=
  match (named m).mapM id with
  | some is => .ok (is.foldl ProcessGraph.addNode ns)
  | none => .error .noNumber

/-- The numbers of all devices, in the order in which machines and their links name them. -/
def numbers (c : Cluster ν) : Except Error (List Int) := c.machines.foldlM addNamed []

/-- Is a device left to others, given the devices that are visible? -/
def isOccupied (visible : List Int) (d : Device) : Bool :=
  !visible.isEmpty && !visible.any fun i => Value.same d.localId (.int i)

/-- The accelerators that processes can take, in order. -/
def free [Arithmetic ν] (visible : List Int) (c : Cluster ν) : Except Error (List Device) := do
  return ((← c.numbers).filterMap fun n => c.device? (some n)).filter fun d =>
    d.type = .gpu && !isOccupied visible d

end Cluster

namespace Placement

/-- Place the processes of a queue.  A process that is placed is passed over; the others take the next device and call
up the processes they move data to. -/
def drain (g : ProcessGraph) (free : List Device) (queue : List Int) (placed : Table Int Device) :
    Except Error (List Device × Table Int Device) :=
  match queue with
  | [] => .ok (free, placed)
  | r :: queue =>
    if placed.has r then drain g free queue placed
    else if !g.programs.contains r then .error (.fault .key)
    else match free with
      | [] => .error .noDevice
      | d :: free => drain g free (queue ++ (g.volumes r).keys) (placed.set r d)
termination_by (free.length, queue.length)

def place (g : ProcessGraph) (free : List Device) : Except Error (Table Int Device) := do
  let (_, placed) ← g.nodes.reverse.foldlM (fun s r => drain g s.1 [r] s.2) (free, [])
  return placed

structure Share where
  host : Value
  address : Value
  port : Value
  /-- each rank with its devices, by their names within the machine -/
  ranks : Table Int (List Value)

def assign {ν : Type} (c : Cluster ν) (t : Table Nat Share) (rank : Int) (d : Device) : Table Nat Share :=
  match t.get? d.machine, c.machines[d.machine]? with
  | some s, _ => t.set d.machine { s with ranks := s.ranks.set rank [d.localId] }
  | none, some m => t.set d.machine ⟨m.host, m.address, m.port, [(rank, [d.localId])]⟩
  | none, none => t

def ofGraph {ν : Type} [Arithmetic ν] (visible : List Int) (g : ProcessGraph) (c : Cluster ν) :
    Except Error (Table Nat Share) := do
  let free ← c.free visible
  let placed ← place g free
  return g.nodes.foldl (fun t r => match placed.get? r with
    | some d => assign c t r d
    | none => t) []

def ofPrograms {ν : Type} [Arithmetic ν] (visible : List Int) (ps : Table Int Program) (c : Cluster ν) :
    Except Error (Table Nat Share) := do
  ofGraph visible (← ProcessGraph.ofPrograms ps) c

def document (t : Table Nat Share) : Value :=
  .list (t.map fun p => .list [toValue p.1, p.2.host, p.2.address, p.2.port,
    .list (p.2.ranks.map fun r => .list [.int r.1, .list r.2])])

end Placement

end TensorKit.Distributed

import TensorKit.Distributed.Communication
import TensorKit.Distributed.Cost
/-!
Collective operators and what they cost.

The time of a collective has a part that does not depend on the tensor, made of the latencies of the steps, and a part
for the data over the slowest link.  Sums over several machines go over a tree, everything else over a ring.  A group is
given by numbers that stand for ranks where bandwidths are looked up and for devices where machines and switches are.
-/

namespace TensorKit.Distributed

inductive Collective where
  | allReduce | allGather | broadcast | identity | receive | send

variable (x : Cluster Value) (s : Setting)

namespace Collective

def name : Collective → String
  | allReduce => "c_allreduce_sum"
  | allGather => "c_allgather"
  | broadcast => "c_broadcast"
  | identity => "c_identity"
  | receive => "recv_v2"
  | send => "send_v2"

def all : List Collective := [send, receive, broadcast, allGather, allReduce, identity]

def ofName? (s : String) : Option Collective := all.find? fun c => c.name == s

/-- The operator with a name.  Operators that compute have a cost of another kind. -/
def ofName (s : String) : Except Cost.Error Collective :=
  demand (.fault (if Cost.computing.contains s then .type else .key)) (ofName? s)

def elementBytes (type : String) : Except Cost.Error Int :=
  match type with
  | "float32" | "int32" => .ok 4
  | "int64" | "bool" => .ok 8
  | "uint8" => .ok 1
  | "float16" => .ok 2
  | _ => .error (.dataType type)

def bytes (type : String) (shape : Value) : Except Cost.Error Value := do
  let factor ← elementBytes type
  Value.mul (← Cost.product shape) (.int factor)

/-! ## 1. Times -/

/-- What the time of a collective depends on.  The number of bytes is asked for only where it is needed. -/
structure Setting where
  timing : Timing
  cluster : Cluster Value
  group : List Number
  bytes : Except Cost.Error Value
  /-- the largest time per unit of data -/
  beta : Fallible (Option Value)

namespace Setting

/-- A latency and another one several times. -/
def more (alpha : Value) (n : Int) (step : Value) : Fallible Value := do
  Value.add alpha (← Value.mul (.int n) step)

def outerStep (step : Value) : Fallible Value := do
  Value.add step (← Value.mul (← s.cluster.hops s.group) s.timing.switch)

/-- A latency and the time for the data, of which a share is moved. -/
def withData (alpha : Value) (share? : Option Value) : Except Cost.Error Value := do
  let beta := (← s.beta).getD .null
  let bytes ← s.bytes
  let moved ← match share? with
    | some share => Value.mul share bytes
    | none => pure bytes
  Value.add alpha (← Value.mul moved beta)

def ring (rounds : Int) : Except Cost.Error Value := do
  let ranks : Int := s.group.length
  let machines : Int := ← s.cluster.machineCount s.group
  let alpha ← more s.timing.baseRing (rounds * (ranks - machines)) s.timing.intraRing
  let alpha ← more alpha (rounds * (machines - 1)) (← s.outerStep s.timing.interRing)
  s.withData alpha (some (← Value.div (.int (rounds * (ranks - 1))) (.int ranks)))

def tree : Except Cost.Error Value := do
  let ranks : Int := s.group.length
  let machines ← s.cluster.machineCount s.group
  let depth ← Value.sub (← Value.div (.int ranks) (.int machines)) (.int 1)
  let alpha ← Value.add s.timing.baseTree
    (← Value.mul (← Value.mul (.int 2) depth) s.timing.intraTree)
  let levels := Value.float (Float.log2 machines.toFloat)
  let alpha ← Value.add alpha (← Value.mul levels (← s.outerStep s.timing.interTree))
  let beta := (← s.beta).getD .null
  Value.add alpha (← Value.mul (← Value.mul (.int 2) (← s.bytes)) beta)

def oneStep : Except Cost.Error Value := do
  let machines ← s.cluster.machineCount s.group
  let step ← if 1 < machines then s.outerStep s.timing.interRing else pure s.timing.intraRing
  s.withData (← Value.add s.timing.baseRing step) none

end Setting

def time : Collective → Except Cost.Error Value
  | allReduce => do if ← s.cluster.crosses s.group then s.tree else s.ring 2
  | allGather => s.ring 1
  | broadcast | receive | send => s.oneStep
  | identity => .ok (.int 0)

def cost (x : Communication Value) (group : List Number) (bytes : Except Cost.Error Value) (c : Collective) :
    Except Cost.Error (Communication Value × Cost) := do
  let (y, beta) := x.maxBeta group
  let s : Setting := ⟨.ofLatencies x.cluster.latencies, x.cluster, group, bytes, beta⟩
  return (y, ← Cost.make (← c.time s) (.int 0) (.int 0))

/-! ## 2. Reports -/

def report (group : List Number) (type : String) (shape : Value) (c : Collective) :
    Except Cost.Error Fields := do
  let bytes := Collective.bytes type shape
  let (_, total) ← c.cost ⟨x, []⟩ group bytes
  let count ← bytes
  let machines ← x.machineCount group
  let hops ← x.hops group
  return [("time", total.time), ("memory", total.memory), ("flops", total.operations), ("count", count),
    ("machines", toValue machines), ("hops", hops), ("ranks", toValue group.length)]

def reportFor (op : String) (group : List Number) (type : String) (shape : Value) :
    Except Cost.Error Fields := do
  report x group type shape (← ofName op)

def timesFrom (c : Collective) (bytes : Except Cost.Error Value) :
    Communication Value → List (List Number) → Except Cost.Error (List (Value × List Number))
  | _, [] => .ok []
  | x, g :: gs => do
    let (y, total) ← c.cost x g bytes
    return (total.time, g) :: (← timesFrom c bytes y gs)

def times (op type : String) (shape : Value) (groups : Table Number (List Number)) :
    Except Cost.Error (List (Value × List Number)) := do
  if groups.isEmpty then
    return (← match ofName op with
      | .error (.fault .key) => .error (.fault .key)
      | _ => .ok [])
  timesFrom (← ofName op) (bytes type shape) ⟨x, []⟩ groups.values.eraseDups

/-- The time that a model gives for an operator.  Loops have none. -/
def modelledTime (op : String) (group? : Option (List Number))
    (inputs? : Option Fields) : Except Cost.Error Value :=
  match ofName? op with
  | some c => match group? with
    | none => .error (.fault .key)
    | some group => do
      let bytes : Except Cost.Error Value := match inputs? with
        | none => .error (.fault .key)
        | some [] => .error (.fault .index)
        | some (t :: _) => bytes t.1 t.2
      return (← c.cost ⟨x, []⟩ group bytes).2.time
  | none =>
    if op = "while" then .error (.fault .unassigned)
    else (Cost.ofOperator op).map fun i => i.cost.time

/-- The names of all operators with a cost, in order. -/
def registered : List String := (all.map name ++ Cost.computing).mergeSort fun a b => !(b < a)

end Collective

end TensorKit.Distributed

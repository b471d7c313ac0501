import TensorKit.Distributed.Latency
import TensorKit.Position
/-!
Clusters.

A cluster is a sequence of machines.  The rank of an accelerator is its number less the number of devices on earlier
machines that are no accelerators, so that ranks run on without gaps when devices are numbered machine by machine.  A
link belongs to the machine of its source.

`Cluster.build` makes a cluster from the description of its machines, `Cluster.ofValue` from a document, and
`Cluster.uniform` one of equal machines, each with some accelerators, a processor and a network card.
-/

namespace TensorKit.Distributed

structure Cluster (ν : Type) where
  machines : List (Machine ν) := []
  /-- the device of each rank -/
  deviceOf : Table Number Number := []
  /-- the rank of each accelerator -/
  rankOf : Table Number Number := []
  /-- how many accelerators each machine has, for a cluster of equal machines -/
  perMachine : Value := .null
  latencies : Option Latencies := none

variable (e : Equipment)

namespace Cluster

variable {ν : Type} [Arithmetic ν]

/-! ## 1. Look-up -/

variable (c : Cluster ν)

/-- The device with a number; the last machine that has one counts. -/
def device? (n : Number) : Option Device :=
  c.machines.foldl (fun found m => (m.devices.get? n).or found) none

def device (n : Number) : Fallible Device :=
  demand .attribute (c.device? n)

def link? (source target : Number) : Fallible (Option (Link ν)) := do
  let d ← c.device source
  return (c.machines[d.machine]?).bind fun m => m.links.get? (source, target)

def devicesOf (type : Value) : Fallible (List Device) :=
  (c.machines.flatMap fun m => m.devices.values).filterMapM fun d => do
    let t ← kindNamed DeviceType.all DeviceType.name type
    return if d.type = t then some d else none

def machinesOf (ns : List Number) : Fallible (List Nat) := do
  return (← ns.mapM fun n => return (← c.device n).machine).eraseDups

/-- Are devices on several machines?  No devices at all count as on several. -/
def crosses (ns : List Number) : Fallible Bool := do
  return (← c.machinesOf ns).length ≠ 1

def machineCount (ns : List Number) : Fallible Nat := do
  let n := (← c.machinesOf ns).length
  if n = 0 then .error .assertion else return n

def devicesAt (ranks : List Number) : Fallible (List Number) :=
  ranks.mapM fun r => demand .key (c.deviceOf.get? r)

/-- How many accelerators each machine has; this has to be known and not zero. -/
def accelerators : Fallible Value :=
  if c.perMachine.truthy then .ok c.perMachine else .error .assertion

/-- The time that a unit of data takes from a device to another: the reciprocal of the bandwidth, that of a usual
network where there is no link, and zero where the bandwidth is zero. -/
def beta (source target : Number) : Fallible ν := do
  let bandwidth : ν := match ← c.link? source target with
    | some l => l.bandwidth
    | none => Arithmetic.whole 24
  if Arithmetic.eq bandwidth (Arithmetic.decimal 0 0) then return Arithmetic.whole 0
  else Arithmetic.div (Arithmetic.whole 1) (← Arithmetic.mul bandwidth (Arithmetic.decimal 1000 0))

/-- The number of switches between two devices, one where there is no link. -/
def hop (source target : Number) : Fallible ν := do
  return match ← c.link? source target with
    | some l => l.hop
    | none => Arithmetic.whole 1

def text : String := String.join (c.machines.map fun m => "machine: " ++ m.text ++ "\n")

/-! ## 2. Building -/

structure DeviceInfo where
  number : Number
  localId : Value
  /-- the name of its kind, or null -/
  type : Value
  model : Value := .null
  doubleRate : Value := .int 0
  singleRate : Value := .int 0
  memory : Value := .int 0

structure LinkInfo (ν : Type) where
  source : Number
  target : Number
  /-- the name of its kind, or null -/
  type : Value
  bandwidth : ν
  latency : ν
  hop : Option ν := none

structure MachineInfo (ν : Type) where
  host : Value
  address : Value
  port : Value
  devices : List DeviceInfo
  links : List (LinkInfo ν)

def kindOr {α : Type} (unknown : α) (kinds : List α) (name : α → String) : Value → Fallible α
  | .null => .ok unknown
  | v => kindNamed kinds name v

def makeDevice (machine : Nat) (i : DeviceInfo) : Fallible Device := do
  let type ← kindOr DeviceType.unknown DeviceType.all DeviceType.name i.type
  return {
    number := i.number, localId := i.localId, machine, type, model := i.model
    doubleRate := ← Value.toFloating i.doubleRate
    singleRate := ← Value.toFloating i.singleRate
    memory := ← Value.toFloating i.memory }

/-- The ranks of the accelerators of a machine, given how many devices before it are no accelerators. -/
def ranksOn (m : Machine ν) (before : Nat) : Fallible (List (Number × Number)) :=
  (m.devices.filter fun p => p.2.type.isAccelerator).mapM fun p =>
    if m.id = 0 then .ok (p.1, p.1)
    else match p.1 with
      | some n => .ok (some (n - before), some n)
      | none => .error .type

def addMachine (m : Machine ν) : Fallible (Cluster ν) := do
  let before := (c.machines.getLast?.map Machine.others).getD 0
  let ranks ← ranksOn m before
  let others := m.devices.length - m.accelerators.length + before
  return { c with
    machines := c.machines ++ [{ m with others }]
    deviceOf := c.deviceOf.update ranks
    rankOf := c.rankOf.update (ranks.map Prod.swap) }

def addDescribed (i : MachineInfo ν) : Fallible (Cluster ν) := do
  let id := c.machines.length
  let devices ← i.devices.mapM (makeDevice id)
  let m : Machine ν := { id, host := i.host, address := i.address, port := i.port }
  c.addMachine (devices.foldl Machine.addDevice m)

def putLink (machine : Nat) (l : Link ν) : Cluster ν :=
  { c with machines := c.machines.map fun m =>
      if m.id = machine then { m with links := m.links.set (l.source, l.target) l } else m }

/-- Add a link between two devices of the cluster.  Where no number of switches is given it is zero within a machine
and one between machines. -/
def addLink (i : LinkInfo ν) : Fallible (Cluster ν) := do
  let type ← kindOr LinkType.unknown LinkType.all LinkType.name i.type
  let bandwidth ← Arithmetic.floating i.bandwidth
  let latency ← Arithmetic.floating i.latency
  let s ← c.device i.source
  let t ← c.device i.target
  let hop := i.hop.getD (Arithmetic.whole (if s.machine = t.machine then 0 else 1))
  return c.putLink s.machine { source := i.source, target := i.target, type, bandwidth, latency, hop }

/-- A cluster from the description of its machines: first all machines, then all links. -/
def build (is : List (MachineInfo ν)) : Fallible (Cluster ν) := do
  let c ← is.foldlM addDescribed {}
  (is.flatMap MachineInfo.links).foldlM addLink c

/-! ## 3. Documents -/

def entryOr (default : Value) (k : String) (v : Value) : Value := (v.field? k).getD default

def tablesAt (k : String) (v : Value) : Fallible (List Value) := do
  (← (entryOr (.list []) k v).members).mapM fun
    | .dict ps => .ok (.dict ps)
    | _ => .error .attribute

def DeviceInfo.ofValue (v : Value) : DeviceInfo :=
  let zero (k : String) : Value := entryOr (.int 0) k v
  let null (k : String) : Value := entryOr .null k v
  { number := (null "global_id").int?, localId := null "local_id", type := null "type", model := null "model",
    doubleRate := zero "dp_gflops", singleRate := zero "sp_gflops", memory := zero "memory" }

def LinkInfo.ofValue (v : Value) : LinkInfo Value :=
  let null (k : String) : Value := entryOr .null k v
  { source := (null "source_global_id").int?, target := (null "target_global_id").int?, type := null "type",
    bandwidth := entryOr (.int 0) "bandwidth" v, latency := entryOr (.int 0) "latency" v,
    hop := (null "hop").given }

def MachineInfo.ofValue : Value → Fallible (MachineInfo Value)
  | .dict ps => do
    let v := Value.dict ps
    let null (k : String) : Value := entryOr .null k v
    return {
      host := null "hostname", address := null "addr", port := null "port"
      devices := (← tablesAt "devices" v).map DeviceInfo.ofValue
      links := (← tablesAt "links" v).map LinkInfo.ofValue }
  | _ => .error .attribute

def ofValue (v : Value) : Except Latency.Error (Cluster Value) := do
  let machines ← (← v.need "machines").members
  let infos ← (machines.mapM MachineInfo.ofValue : Fallible (List (MachineInfo Value)))
  let c ← build infos
  match v.field? "alpha_latency" with
  | some l => return { c with latencies := some (← Latencies.ofValue l) }
  | none => return c

def document : Value :=
  let table (t : Table Number Number) : Value := .list (t.map fun p => .list [toValue p.1, toValue p.2])
  let machine (m : Machine ν) : Value :=
    .list [toValue m.id, m.host, m.address, m.port, toValue m.devices.keys, toValue m.accelerators, toValue m.others,
      toValue m.links.length]
  .record [("machines", .list (c.machines.map machine)), ("rank_to_device", table c.deviceOf),
    ("device_to_rank", table c.rankOf), ("num_machines", toValue c.machines.length),
    ("alpha", (c.latencies.map Latencies.document).getD .null)]

/-! ## 4. Equal machines -/

/-- What the machines of a uniform cluster are made of. -/
structure Equipment where
  /-- the model of the processor -/
  processor : String
  acceleratorModel : Value
  acceleratorMemory : Value
  processorMemory : Value
  /-- the bandwidth between machines and between unlike devices -/
  outer : Value
  /-- the bandwidth between like devices of one machine -/
  inner : Value
  acceleratorRate : Value
  processorDouble : Value
  processorSingle : Value

def Equipment.accelerator (number place : Nat) : DeviceInfo where
  number := some number
  localId := .int place
  type := .str "GPU"
  model := e.acceleratorModel
  doubleRate := e.acceleratorRate
  singleRate := e.acceleratorRate
  memory := e.acceleratorMemory

def Equipment.processorInfo (number : Nat) : DeviceInfo where
  number := some number
  localId := .int 0
  type := .str "CPU"
  model := .str e.processor
  doubleRate := e.processorDouble
  singleRate := e.processorSingle
  memory := e.processorMemory

def cardInfo (number : Nat) : DeviceInfo :=
  { number := some number, localId := .str "NIC", type := .str "NIC" }

/-- The devices that were counted: the last number, and the machine and the kind of each. -/
structure Census where
  last : Nat := 0
  devices : Table Nat (Nat × DeviceType) := []

def Census.enter (c : Census) (number machine : Nat) (type : DeviceType) : Census :=
  ⟨number, c.devices.set number (machine, type)⟩

/-- The number of an accelerator, which is the one after the last but for the first of all. -/
def Census.number (c : Census) (machine place : Nat) : Nat :=
  if machine = 0 ∧ place = 0 then c.last else c.last + 1

def countAccelerators (accelerators machine : Nat) (c : Census) : List DeviceInfo × Census :=
  (List.range accelerators).foldl (fun (ds, c) j =>
    (ds ++ [e.accelerator (c.number machine j) (j + 1)], c.enter (c.number machine j) machine .gpu)) ([], c)

/-- Add a machine without links, and count its accelerators, its processor and its network card. -/
def countMachine (accelerators : Nat) :
    List (MachineInfo Value) × Census → Nat → List (MachineInfo Value) × Census
  | (ms, c), machine =>
    let (ds, c) := countAccelerators e accelerators machine c
    let n := c.last + 1
    (ms ++ [{ host := .str s!"host_{machine}", address := .str "127.0.0.1", port := .int 60009
              devices := ds ++ [e.processorInfo n, cardInfo (n + 1)], links := [] }],
      (c.enter n machine .cpu).enter (n + 1) machine .nic)

/-- Link two devices that were counted, in the machine of the first. -/
def connect (c : Census) (ms : List (MachineInfo Value)) (p : Nat × Nat) :
    Fallible (List (MachineInfo Value)) :=
  match c.devices.get? p.1, c.devices.get? p.2 with
  | some source, some target =>
    let like := source = target
    .ok (ms.modify source.1 fun m => { m with links := m.links ++ [
      { source := some p.1, target := some p.2, type := .str (if like then "NVL" else "PHB")
        bandwidth := if like then e.inner else e.outer, latency := .int 0 }] })
  | _, _ => .error .key

def pairsFrom (n s : Nat) : List (Nat × Nat) := ((List.range n).filter fun t => s ≠ t).map fun t => (s, t)

def orderedPairs (n : Nat) : List (Nat × Nat) := (List.range n).flatMap (pairsFrom n)

/-- Count the devices machine by machine, then link each to all others. -/
def uniform (machines accelerators : Nat) : Fallible (Cluster Value) := do
  let (ms, c) := (List.range machines).foldl (countMachine e accelerators) ([], {})
  build (← (orderedPairs (c.last + 1)).foldlM (connect e c) ms)

def settings : Table String Value :=
  [("gpu_model", .str "V100"), ("cpu_model", .str "6271C"), ("node_count", .int 1), ("device_count", .int 1),
   ("gpu_memory", .int 32), ("cpu_memory", .int 503), ("inter_bandwidth", .int 24), ("intra_bandwidth", .int 235),
   ("gpu_dp_gflops", .int 7800), ("gpu_sp_gflops", .int 15700), ("cpu_dp_gflops", .int 75),
   ("cpu_sp_gflops", .int 150)]

def models : List String :=
  ["V100", "A100", "H100", "A2", "A10", "A16", "A30", "A40", "XPU", "NPU", "DCU"]

def processorName : Value → Fallible String
  | .str "6271C" => .ok "Intel(R) Xeon(R) Gold 6271C CPU @ 2.60G"
  | .str "6148" => .ok "Intel(R) Xeon(R) Gold 6148 CPU @ 2.40G"
  | _ => .error .assertion

/-- A whole number for counting; negative ones count as zero. -/
def countOf (v : Value) : Fallible Nat :=
  match v.int? with
  | some n => .ok n.toNat
  | none => .error .type

/-- A uniform cluster from settings by name.  Only one model of accelerator has a full description. -/
def ofSettings (given : Fields) : Fallible (Cluster Value) := do
  if !given.all fun p => settings.has p.1 then .error .type
  let get (k : String) : Value := (given.lookup k).getD ((settings.get? k).getD .null)
  if !models.any fun m => Value.same (.str m) (get "gpu_model") then .error .assertion
  let machines ← countOf (get "node_count")
  let c ← if machines = 0 then pure {} else do
    let accelerators ← countOf (get "device_count")
    if accelerators ≠ 0 && !Value.same (.str "V100") (get "gpu_model") then .error .assertion
    let processor ← processorName (get "cpu_model")
    uniform { processor, acceleratorModel := .str s!"Tesla V100-SXM2-{(get memoryKey).plain}GB"
              acceleratorMemory := get memoryKey, processorMemory := get "cpu_memory"
              outer := get "inter_bandwidth", inner := get "intra_bandwidth", acceleratorRate := get "gpu_dp_gflops"
              processorDouble := get "cpu_dp_gflops", processorSingle := get "cpu_sp_gflops" } machines accelerators
  return { c with perMachine := get "device_count" }
where
  /-- the setting of the memory of an accelerator -/
  memoryKey : String := "gpu_memory"

/-- The cluster that a description stands for: settings of a uniform one in the field `default`, or a document of its
machines in the field `dict`. -/
def ofDescription (v : Value) : Except Failure (Cluster Value) :=
  match v.field? "default" with
  | some given => (ofSettings given.fields).mapError Failure.of
  | none => (ofValue (v.part "dict")).mapError Failure.of

end Cluster

end TensorKit.Distributed

import TensorKit.Arithmetic
import TensorKit.Value.Document
/-!
Devices, links and machines.

A machine holds devices, each with a number of its own in the whole cluster, and the links that start at its devices.
Devices that compute are accelerators; processors of the host and network cards are not.  A device may have been
described without a number.
-/

namespace TensorKit.Distributed

/-! ## 1. Kinds -/

inductive DeviceType where
  | unknown | cpu | gpu | xpu | npu | dcu | nic
  deriving DecidableEq

namespace DeviceType

def all : List DeviceType := [unknown, cpu, gpu, xpu, npu, dcu, nic]

def name : DeviceType → String
  | unknown => "UNKNOWN"
  | cpu => "CPU"
  | gpu => "GPU"
  | xpu => "XPU"
  | npu => "NPU"
  | dcu => "DCU"
  | nic => "NIC"

def isAccelerator : DeviceType → Bool
  | unknown | cpu | nic => false
  | _ => true

end DeviceType

inductive LinkType where
  | unknown | loc | sys | phb | pix | pib | nvl | nvb | net
  deriving DecidableEq

namespace LinkType

def all : List LinkType := [unknown, loc, sys, phb, pix, pib, nvl, nvb, net]

def name : LinkType → String
  | unknown => "UNKNOWN"
  | loc => "LOC"
  | sys => "SYS"
  | phb => "PHB"
  | pix => "PIX"
  | pib => "PIB"
  | nvl => "NVL"
  | nvb => "NVB"
  | net => "NET"

def number (l : LinkType) : Nat := all.idxOf l

end LinkType

def kindNamed {α : Type} (kinds : List α) (name : α → String) : Value → Fallible α
  | .str s => demand .key (kinds.find? fun k => name k == s)
  | .list _ | .dict _ | .set _ => .error .type
  | _ => .error .key

/-! ## 2. Parts of a cluster -/

abbrev Number := Option Int

structure Device where
  number : Number
  /-- its name within the machine -/
  localId : Value
  /-- the machine that holds it -/
  machine : Nat
  type : DeviceType
  model : Value
  /-- operations in double and in single precision -/
  doubleRate : Value
  singleRate : Value
  memory : Value

def Number.text (n : Number) : String := (toValue n).plain

def Device.text (d : Device) : String :=
  s!"global_id: {d.number.text}, local_id: {d.localId.plain}, machine_id: {d.machine}, type: {d.type.name}, " ++
    s!"model: {d.model.plain}, dp_flops: {d.doubleRate.plain}, sp_flops: {d.singleRate.plain}, " ++
    s!"memory: {d.memory.plain}"

instance : ToValue Device := ⟨fun d => .str d.text⟩

structure Link (ν : Type) where
  source : Number
  target : Number
  type : LinkType
  bandwidth : ν
  latency : ν
  hop : ν

def Link.text {ν : Type} [Arithmetic ν] (l : Link ν) : String :=
  s!"source_global_id: {l.source.text}, target_global_id: {l.target.text}, type: {l.type.number}, " ++
    s!"bandwidth: {Arithmetic.text l.bandwidth}, latency: {Arithmetic.text l.latency}"

instance {ν : Type} [ToValue ν] : ToValue (Link ν) :=
  ⟨fun l => .list [.str l.type.name, toValue l.bandwidth, toValue l.latency, toValue l.hop]⟩

structure Machine (ν : Type) where
  id : Nat
  host : Value
  address : Value
  port : Value
  devices : Table Number Device := []
  /-- the numbers under which an accelerator was added -/
  accelerators : List Number := []
  links : Table (Number × Number) (Link ν) := []
  /-- how many devices of this machine and the machines before it are no accelerators -/
  others : Nat := 0

namespace Machine

variable {ν : Type}

def addDevice (m : Machine ν) (d : Device) : Machine ν :=
  { m with
    devices := m.devices.set d.number d
    accelerators :=
      if d.type.isAccelerator && !m.accelerators.contains d.number then m.accelerators ++ [d.number]
      else m.accelerators }

def text [Arithmetic ν] (m : Machine ν) : String :=
  String.join (m.devices.values.map fun d => ", device: " ++ d.text) ++
    String.join (m.links.values.map fun l => ", link: " ++ l.text)

end Machine

end TensorKit.Distributed

import TensorKit.Distributed.Topology
/-!
Hybrid parallelism: what one rank of a topology takes part in.

A rank belongs to one group on each of the axes data, model, pipe and sharding.  Ranks that follow each other in a
pipe have groups of two for sending forward and backward; all ranks ask for these groups in the same order.
-/

namespace TensorKit.Distributed

open Position

namespace Hybrid

inductive Error where
  | fault (kind : FailureKind)
  | sizes (world model sharding pipe data : Int)
  | noNext
  | noPrevious

instance : Faulty Error where
  fault := .fault
  kind
    | .fault k => k
    | _ => .assertion
  message
    | .fault _ => none
    | .sizes world m s p d => some (s!"Here is an unreasonable topogy setting. world_size: {world}, but" ++
        s!"mp_num: {m}, sharding_num: {s}, pp_num: {p}, dp_num: {d}")
    | .noNext => some "next_rank has not been inited"
    | .noPrevious => some "prev_rank has not been inited"

/-! ## 1. Groups of two -/

/-- A group that was asked for: its number among all that were, and its ranks. -/
structure Group where
  number : Nat
  ranks : List Nat
  deriving DecidableEq

structure Neighbours where
  next : Option Nat := none
  previous : Option Nat := none
  sendNext : Option Group := none
  sendPrevious : Option Group := none
  receiveNext : Option Group := none
  receivePrevious : Option Group := none
  deriving DecidableEq

/-- A rank with its neighbours in a pipe, which is closed to a ring. -/
structure Link where
  rank : Nat
  next : Nat
  previous : Nat

def links (pipe : List Nat) : List Link :=
  let n := pipe.length
  pipe.zipIdx.map fun (r, i) => ⟨r, pipe[(i + 1) % n]?.getD r, pipe[(i + n - 1) % n]?.getD r⟩

def requests (l : Link) : List (List Nat) := [[l.rank, l.next], [l.previous, l.rank]]

/-- A rank while it makes its groups of two: the rank lists it has asked for, in order, and what it keeps. -/
structure Setup where
  asked : List (List Nat) := []
  kept : Neighbours := {}

/-- Ask for a group.  The groups are numbered in the order in which they are asked for. -/
def Setup.ask (s : Setup) (ranks : List Nat) : Group × Setup :=
  (⟨s.asked.length, ranks⟩, { s with asked := s.asked ++ [ranks] })

def Setup.keep (s : Setup) (f : Neighbours → Neighbours) : Setup := { s with kept := f s.kept }

/-- What a rank does at a link: it asks for a group forward and for one backward, and keeps those it is in. -/
def visit (self : Nat) (s : Setup) (l : Link) : Setup :=
  let s := if self = l.rank then s.keep fun n => { n with next := some l.next, previous := some l.previous } else s
  let (forward, s) := s.ask [l.rank, l.next]
  let s := if self = l.rank then s.keep fun n => { n with sendNext := some forward }
    else if self = l.next then s.keep fun n => { n with receivePrevious := some forward } else s
  let (backward, s) := s.ask [l.previous, l.rank]
  if self = l.rank then s.keep fun n => { n with sendPrevious := some backward }
  else if self = l.previous then s.keep fun n => { n with receiveNext := some backward } else s

def visitPipe (self : Nat) (stages : Int) (s : Setup) (pipe : List Nat) : Except Error Setup :=
  if (pipe.length : Int) ≠ stages then .error (.fault .assertion) else .ok ((links pipe).foldl (visit self) s)

def Neighbours.isComplete (n : Neighbours) : Bool :=
  n.sendNext.isSome && n.sendPrevious.isSome && n.receiveNext.isSome && n.receivePrevious.isSome

/-- What a rank asks for and keeps, over all pipes of a topology. -/
def setUp (t : Topology) (self : Nat) : Except Error Setup := do
  let pipes ← t.groups "pipe"
  let stages ← t.size "pipe"
  let s ← pipes.foldlM (visitPipe self stages) {}
  if !s.kept.isComplete then .error (.fault .assertion)
  return s

end Hybrid

inductive ParallelMode where
  | data
  | tensor
  | pipeline
  | sharding

/-- A rank in a topology with the axes data, model, pipe and sharding. -/
structure Hybrid where
  topology : Topology
  rank : Int
  data : Int
  model : Int
  pipe : Int
  sharding : Int
  dataIndex : Nat
  modelIndex : Nat
  shardingIndex : Nat
  stage : Nat
  dataGroup : List Nat
  modelGroup : List Nat
  pipeGroup : List Nat
  shardingGroup : List Nat
  checkGroup : List Nat
  neighbours : Option Hybrid.Neighbours

variable (h : Hybrid)

namespace Hybrid

/-! ## 2. Making hybrids -/

def own (rank : Int) (groups : List (List Nat)) : Except Error (List Nat) :=
  demand (.fault .assertion) (groups.reverse.find? fun g => g.any fun r => (r : Int) = rank)

def indexOn (t : Topology) (rank : Int) (name : String) : Fallible Nat := do
  let c ← t.coordinate rank
  pick c (← t.axis name)

def make (t : Topology) (rank world : Int) : Except Error Hybrid := do
  let data ← t.size "data"
  let model ← t.size "model"
  let pipe ← t.size "pipe"
  let sharding ← t.size "sharding"
  let dataIndex ← indexOn t rank "data"
  let modelIndex ← indexOn t rank "model"
  let shardingIndex ← indexOn t rank "sharding"
  let stage ← indexOn t rank "pipe"
  if data * model * pipe * sharding ≠ world then .error (.sizes world model sharding pipe data)
  let dataGroup ← own rank (← t.groups "data")
  let modelGroup ← own rank (← t.groups "model")
  let pipeGroup ← own rank (← t.groups "pipe")
  let shardingGroup ← own rank (← t.groups "sharding")
  let checks ← (List.range data.toNat).mapM fun (i : Nat) =>
    (show Except Error (List Nat) from do return ← t.ranksAt "data" i)
  let checkGroup ← own rank checks
  let ns ← if 1 < pipe then do pure (some (← setUp t rank.toNat).kept) else pure none
  return { topology := t, rank, data, model, pipe, sharding, dataIndex, modelIndex, shardingIndex, stage,
           dataGroup, modelGroup, pipeGroup, shardingGroup, checkGroup, neighbours := ns }

def mode : Option ParallelMode :=
  if h.model = 1 ∧ h.pipe = 1 ∧ h.data = 1 ∧ 1 < h.sharding then some .sharding
  else if h.model = 1 ∧ h.pipe = 1 then some .data
  else if 1 < h.model ∧ h.pipe = 1 then some .tensor
  else if 1 < h.pipe then some .pipeline
  else none

def modeNumber : ParallelMode → Nat
  | .data => 0
  | .tensor => 1
  | .pipeline => 2
  | .sharding => 3

def next : Except Error Nat :=
  demand .noNext (h.neighbours.bind Neighbours.next)

def previous : Except Error Nat :=
  demand .noPrevious (h.neighbours.bind Neighbours.previous)

/-- The groups with the neighbours: for sending forward and backward, and for receiving from the next and the previous
rank. -/
def pairGroups : Except Error (List (List Nat)) :=
  match h.neighbours with
  | none => .error (.fault .attribute)
  | some n => .ok ([n.sendNext, n.sendPrevious, n.receiveNext, n.receivePrevious].filterMap fun g =>
      g.map Group.ranks)

def atStages : List (Fallible Nat) :=
  (List.range h.pipe.toNat).map fun (s : Nat) => h.topology.rankFrom h.rank [("pipe", s)]

def isFirst : Bool := h.stage = 0

def isLast : Bool := (h.stage : Int) = h.pipe - 1

end Hybrid

end TensorKit.Distributed

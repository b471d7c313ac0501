import TensorKit.Value.Document
/-!
What the processes of a distributed program require of each other.

Each process runs a program of its own, made of scopes with variables and operators.  An operator that communicates
moves a number of bytes to the members of its group, or to its peer.  The requirements of all programs make a graph,
whose nodes are the ranks in the order in which they come up.
-/

namespace TensorKit.Distributed

structure Operation where
  type : String
  attributes : Table String Value
  inputs : List String
  outputs : List String

/-- Variables, each with the name of its type of elements and its shape, and the operators on them. -/
structure Scope where
  vars : Table String (String × List Int)
  operations : List Operation

structure Program where
  scopes : List Scope
  groups : Table Int (List Int)

namespace Requirement

inductive Error where
  | fault (kind : FailureKind)
  | dataType (name : String)
  | noNumber
  | noDevice

def Error.message : Error → Option String
  | fault _ => none
  | dataType name => some s!"Unrecognized dtype paddle.{name}."
  | noNumber => some "None cannot be a node"
  | noDevice => some "Cannot find a device to satisfy the requirement."

def Error.kind : Error → FailureKind
  | fault k => k
  | dataType _ | noNumber => .value
  | noDevice => .assertion

instance : Faulty Error := { kind := Error.kind, message := Error.message, fault := .fault }

/-! ## 1. Volumes -/

def collectives : List String :=
  ["c_allreduce_sum", "c_allreduce_min", "c_allreduce_max", "c_allreduce_prod", "c_reduce_sum", "c_reduce_min",
   "c_reduce_max", "c_reduce_prod", "c_broadcast", "c_allgather"]

def pairwise : List String := ["send_v2", "recv_v2"]

def elementBytes (type : String) : Except Error Int :=
  match type with
  | "float64" | "int64" => .ok 8
  | "float32" | "int32" => .ok 4
  | "float16" | "bfloat16" | "int16" => .ok 2
  | "int8" | "uint8" => .ok 1
  | _ => .error (.dataType type)

/-- The number of bytes of the tensor that an operator moves: its first output if it receives, else its first input.
An open size counts as one. -/
def tensorBytes (s : Scope) (op : Operation) : Except Error Int := do
  let names := if op.type = "recv_v2" then op.outputs else op.inputs
  match names with
  | [] => .error (.fault .index)
  | name :: _ => match s.vars.get? name with
    | none => .error (.fault .assertion)
    | some (type, shape) =>
      let size := (shape.map fun n => if n = -1 then 1 else n).foldl (· * ·) 1
      return size * (← elementBytes type)

def attributeIs (op : Operation) (name : String) (rank : Int) : Bool :=
  Value.same ((op.attributes.get? name).getD .null) (.int rank)

/-- The number of bytes that an operator of a process moves to another process, if it moves any. -/
def volume (s : Scope) (op : Operation) (source target : Int) : Except Error (Option Int) := do
  if source = target then return none
  let bytes ← tensorBytes s op
  return if op.type.startsWith "c_allreduce" then some (2 * bytes)
    else if op.type = "c_allgather" then some bytes
    else if op.type = "c_broadcast" then if attributeIs op "root" source then some bytes else none
    else if op.type = "send_v2" then if attributeIs op "peer" target then some bytes else none
    else if op.type = "recv_v2" then none
    else if attributeIs op "root_id" source then none else some bytes

def rankAttribute? (op : Operation) (name : String) : Option Int := (op.attributes.get? name).bind Value.int?

def targets (p : Program) (op : Operation) (rank : Int) : Except Error (List Int) :=
  if collectives.contains op.type then
    match (rankAttribute? op "ring_id").bind fun id => p.groups.get? id with
    | none => .error (.fault .attribute)
    | some ranks => .ok (if ranks.contains rank then ranks else [])
  else if pairwise.contains op.type then
    match rankAttribute? op "peer" with
    | some peer => .ok [peer]
    | none => .error .noNumber
  else .ok []

def addVolume (t : Table Int Int) (target bytes : Int) : Table Int Int :=
  t.set target ((t.get? target).getD 0 + bytes)

/-- The volumes of one operator, by target; a target that is named twice counts once. -/
def ofOperation (p : Program) (s : Scope) (rank : Int) (op : Operation) : Except Error (Table Int Int) := do
  (← targets p op rank).foldlM (fun t target => do
    match ← volume s op rank target with
    | some bytes => return t.set target bytes
    | none => return t) []

def ofProgram (p : Program) (rank : Int) : Except Error (Table Int Int) :=
  p.scopes.foldlM (fun t s => s.operations.foldlM (fun t op => do
    return (← ofOperation p s rank op).foldl (fun t v => addVolume t v.1 v.2) t) t) []

end Requirement

/-! ## 2. Descriptions -/

variable (v : Value)

def wholes : List Int := v.items.filterMap Value.int?

def textsAt (k : String) : List String := (v.part k).items.map Value.textOr

/-- The item at a place of a list, null where there is none. -/
def itemAt (i : Nat) : Value := v.items.getD i .null

def Scope.ofValue : Scope where
  vars := (v.part "vars").fields.map fun p => (p.1, (itemAt p.2 0).textOr, wholes (itemAt p.2 1))
  operations := (v.part "ops").items.map fun o =>
    ⟨(o.part "type").textOr, (o.part "attrs").fields, textsAt o "inputs", textsAt o "outputs"⟩

/-- The programs of several ranks, described by lists of a rank, its scopes and its groups. -/
def programsOf : Table Int Program :=
  Table.ofList (v.items.map fun p => ((itemAt p 0).int?.getD 0,
    { scopes := (itemAt p 1).items.map Scope.ofValue
      groups := Table.ofList ((itemAt p 2).items.map fun g => ((itemAt g 0).int?.getD 0, wholes (itemAt g 1))) }))

/-! ## 3. The graph of processes -/

structure ProcessGraph where
  /-- all ranks, in the order in which they come up -/
  nodes : List Int := []
  /-- the ranks that have a program -/
  programs : List Int := []
  edges : Table Int (Table Int Int) := []

namespace ProcessGraph

def addNode (nodes : List Int) (rank : Int) : List Int := if nodes.contains rank then nodes else nodes ++ [rank]

def add (g : ProcessGraph) (rank : Int) (volumes : Table Int Int) : ProcessGraph :=
  { nodes := volumes.keys.foldl addNode (addNode g.nodes rank)
    programs := addNode g.programs rank
    edges := g.edges.set rank volumes }

def ofPrograms (ps : Table Int Program) : Except Requirement.Error ProcessGraph :=
  ps.foldlM (fun g p => do return g.add p.1 (← Requirement.ofProgram p.2 p.1)) {}

def volumes (g : ProcessGraph) (rank : Int) : Table Int Int := (g.edges.get? rank).getD []

def document (g : ProcessGraph) : Value :=
  .list (g.nodes.map fun r => .list [.int r, .list (((g.volumes r).mergeSort fun a b => decide (a.1 ≤ b.1)).map
    fun v => .list [.int v.1, .int v.2])])

end ProcessGraph

end TensorKit.Distributed

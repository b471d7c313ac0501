import TensorKit.Position
import TensorKit.Table
/-!
Groups of processes.

A registry holds groups by their numbers; group 0 has the ranks of all others.  The ranks of a group stand in a roster.
Ranks that join a group are appended to its roster, and then the group gets a new roster with all its ranks in order;
the old one stays as it is.  So a roster that was shown tells which ranks joined next.
-/

namespace TensorKit.Distributed

open Position

structure ProcessGroup where
  id : Int
  /-- the number of its roster -/
  roster : Nat
  /-- are its processes connected? -/
  connected : Bool := false

/-- All groups, and all rosters that groups have or had. -/
structure Registry where
  rosters : List (List Int)
  groups : Table Int ProcessGroup

namespace ProcessGroup

inductive Error where
  | fault (kind : FailureKind)
  | reserved
  | connected
  | stranger (rank : Int)

instance : Faulty Error where
  fault := .fault
  kind
    | .fault k => k
    | _ => .assertion
  message
    | .fault _ => none
    | .reserved => some "Process group id 0 is reserved for all ranks."
    | .connected => some "Cannot add new ranks after instantiating the process group"
    | .stranger r => some s!"Rank {r} doesn't belong to this group"

end ProcessGroup

variable (r : Registry)

namespace Registry

open ProcessGroup (Error)

def empty : Registry := ⟨[[]], [(0, ⟨0, 0, false⟩)]⟩

def ranks (g : ProcessGroup) : List Int := r.rosters[g.roster]?.getD []

def text (g : ProcessGroup) : String :=
  let ranks := r.ranks g
  let listed := ", ".intercalate (ranks.map toString)
  s!"id: {g.id}, nranks: {ranks.length}, ranks: {listed}."

def inOrder (xs : List Int) : List Int :=
  sorted (xs.foldl (fun seen x => if seen.contains x then seen else seen ++ [x]) [])

/-- Let ranks join a group.  Ranks that are all there change nothing. -/
def join (id : Int) (new : List Int) : Except Error Registry :=
  match r.groups.get? id with
  | none => .error (.fault .attribute)
  | some g =>
    let old := r.ranks g
    if new.all fun x => old.contains x then .ok r
    else if g.connected then .error .connected
    else
      let all := old ++ new
      .ok ⟨r.rosters.set g.roster all ++ [inOrder all], r.groups.set id { g with roster := r.rosters.length }⟩

def make (id : Int) (ranks : List Int) : Except Error (Registry × ProcessGroup) := do
  if id = 0 then .error .reserved
  let r : Registry := ⟨r.rosters ++ [sorted ranks], r.groups⟩
  let g : ProcessGroup := ⟨id, r.rosters.length - 1, false⟩
  return (← r.join 0 ranks, g)

/-- The text by which groups are compared: their ranks in order, written one after the other. -/
def key (ranks : List Int) : String := String.join ((sorted ranks).map toString)

/-- The group with some ranks.  One that is registered is found by its key; otherwise a new one is registered under
the number that is given, or under a number after `ring` and the registered ones. -/
def request (ring : Int) (ranks : List Int) (id? : Option Int) :
    Except Error (Registry × ProcessGroup) := do
  match r.groups.find? fun p => p.1 ≠ 0 ∧ key (r.ranks p.2) = key ranks with
  | some (_, g) => return (r, g)
  | none =>
    let id := id?.getD (ring + r.groups.length + 1)
    let (r, g) ← r.make id ranks
    return ({ r with groups := r.groups.set id g }, g)

def place (id rank : Int) : Except Error Nat :=
  match r.groups.get? id with
  | none => .error (.fault .attribute)
  | some g => demand (.stranger rank) ((r.ranks g).idxOf? rank)

def texts : List String := r.groups.values.map r.text

end Registry

end TensorKit.Distributed

import TensorKit.Distributed.ProcessGroup
import TensorKit.Distributed.ProcessMesh
/-!
The context in which meshes are made.

A mesh that is made joins the meshes of the context, unless an equal one is there, and its processes join group 0.
One mesh may be the current one; setting it remembers only the one before.
-/

namespace TensorKit.Distributed

/-- The meshes and groups that exist. -/
structure Context where
  meshes : List ProcessMesh
  registry : Registry
  current : Option ProcessMesh := none
  previous : Option ProcessMesh := none

variable (c : Context)

namespace Context

def empty : Context := ⟨[], .empty, none, none⟩

def enter (m : ProcessMesh) : Except ProcessMesh.Error Context := do
  let meshes := if c.meshes.any (ProcessMesh.same m) then c.meshes else c.meshes ++ [m]
  let r ← (c.registry.join 0 m.ids).mapError fun e => .fault (Cause.kind e)
  return { c with meshes := meshes, registry := r }

def makeMesh (mesh names sizes ids : Value) : Except ProcessMesh.Error (Context × ProcessMesh) := do
  let m ← ProcessMesh.make mesh names sizes ids
  return (← c.enter m, m)

def makePart (m : ProcessMesh) (i : ProcessMesh.Index) :
    Except ProcessMesh.Error (Context × ProcessMesh) := do
  let m ← m.part i
  return (← c.enter m, m)

def makeDescribed (v : Value) : Except ProcessMesh.Error (Context × ProcessMesh) :=
  let get (k : String) : Value := (v.part k).ofMarked
  c.makeMesh (get "mesh") (get "dim_names") (get "shape") (get "process_ids")

def setCurrent (m : ProcessMesh) : Context := { c with current := some m, previous := c.current }

/-- Go back to the mesh before. -/
def resetCurrent : Context := { c with current := c.previous }

end Context

end TensorKit.Distributed

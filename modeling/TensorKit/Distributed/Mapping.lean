import TensorKit.Position
import TensorKit.Value.Document
/-!
Mappings of tensor axes to mesh axes.

The entry of a tensor axis is the mesh axis that splits it, or -1 when no axis does.  Two entries are compatible
when they are equal or one of them is -1; the join of compatible entries is the one that is not -1, if there is one.
-/

namespace TensorKit.Distributed.Mapping

open Position

inductive Error where
  | fault (kind : FailureKind)
  | missing
  | lengths

instance : Faulty Error where
  fault := .fault
  kind
    | .fault k => k
    | _ => .assertion
  message
    | .fault _ => none
    | .missing => some "Dims mapping must not be None for compatible computation"
    | .lengths => some "The length of dims_mapping in list must be same for compatible computation."

def replicated : Int := -1

def isPosition {α : Type} (xs : List α) (i : Int) : Bool :=
  decide (-(xs.length : Int) ≤ i) && decide (i < xs.length)

/-- What an axis of some size gives, if it is split by what stands at its entry. -/
def onAxis {α : Type} (whole : Int → α) (split : Int → Int → Fallible α) (xs : List Int) (n entry : Int) : Fallible α :=
  if entry = replicated then .ok (whole n) else do split n (← pick xs entry)

/-- What the axes of a tensor give, each of which needs an entry. -/
def eachAxis {α : Type} (whole : Int → α) (split : Int → Int → Fallible α) (xs : List Int) :
    List Int → List Int → Fallible (List α)
  | [], _ => .ok []
  | _ :: _, [] => .error .index
  | n :: ns, m :: ms => do return (← onAxis whole split xs n m) :: (← eachAxis whole split xs ns ms)

def isSplit (entry : Value) : Bool := !Value.same entry (.int replicated)

def isWhole (mapping : List Int) : Bool := mapping.all (· == replicated)

def joinFrom (entry : Int) : List Int → Option Int
  | [] => some entry
  | m :: ms =>
    if entry = replicated then joinFrom m ms
    else if m = replicated || entry = m then joinFrom entry ms
    else none

def join? : List Int → Option Int
  | [] => none
  | m :: ms => joinFrom m (m :: ms)

/-- The entries of all mappings, tensor axis by tensor axis. -/
def columns : Nat → List (List Int) → List (List Int)
  | 0, _ => []
  | n + 1, rows => rows.filterMap List.head? :: columns n (rows.map List.tail)

def checkLengths (n : Nat) : List (Option (List Int)) → Except Error (List (List Int))
  | [] => .ok []
  | none :: _ => .error .missing
  | some m :: ms => do
    if m.length ≠ n then .error .lengths
    return m :: (← checkLengths n ms)

def joinAll? : List (Option (List Int)) → Except Error (Option (List Int))
  | [] => .ok none
  | none :: _ => .error (.fault .type)
  | some m :: ms => do
    let rows ← checkLengths m.length (some m :: ms)
    return (columns m.length rows).mapM join?

def selected : List (List Int) → List Int → Fallible (List Int)
  | m :: ms, i :: is => do
    if !isPosition m i then .error .assertion
    return (← pick m i) :: (← selected ms is)
  | _, _ => .ok []

def updated (entry : Int) : List (List Int) → List Int → Fallible (List (List Int))
  | m :: ms, i :: is => do return (← put m i entry) :: (← updated entry ms is)
  | _, _ => .ok []

/-- Replace the selected entries by their join: did any change, and the mappings afterwards.  Incompatible entries
stay as they are. -/
def unify (mappings : List (List Int)) (positions : List Int) : Fallible (Bool × List (List Int)) := do
  if mappings.length ≠ positions.length then .error .assertion
  let entries ← selected mappings positions
  match join? entries with
  | none => return (false, mappings)
  | some entry => return (entries.any (· != entry), ← updated entry mappings positions)

end TensorKit.Distributed.Mapping

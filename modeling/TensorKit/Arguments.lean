import TensorKit.Failure
/-!
Arguments of operations.

An operation has parameters in a fixed order, some with a default.  Positions fill the parameters from the left, names
fill the rest, defaults fill what is left.  Too many positions, an unknown name, a parameter given twice and one left
empty fail with kind `type`.
-/

namespace TensorKit.Arguments

variable {α : Type}

def required (name : String) : String × Option α := (name, none)

def optional (name : String) (default : α) : String × Option α := (name, some default)

/-- The value of each parameter that positions do not reach. -/
def fill (named : List (String × α)) : List (String × Option α) → Fallible (List α)
  | [] => .ok []
  | (name, default?) :: ps => do
    match (named.lookup name).or default? with
    | some a => return a :: (← fill named ps)
    | none => .error .type

def bind (ps : List (String × Option α)) (args : List α) (named : List (String × α)) : Fallible (List α) :=
  if ps.length < args.length then .error .type
  else
    let open' := ps.drop args.length
    if named.all fun n => open'.any fun p => p.1 == n.1 then do
      return args ++ (← fill named open')
    else .error .type

end TensorKit.Arguments

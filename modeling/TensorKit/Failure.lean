/-!
Kinds of failure.

Every operation that can fail returns `Except ε α` for an error type `ε` of its own area, whose constructors are the
causes.  Each cause has a kind, and one that the library checks for itself also has a text; a cause found by an ordinary
look-up (a name that is not in a table, a position past the end of a list) has a kind only.
-/

namespace TensorKit

inductive FailureKind where
  /-- a condition that a definition or an argument has to meet does not hold -/
  | assertion
  /-- an argument has the right type and a value that is not accepted -/
  | value
  /-- a name is looked up that is not there -/
  | key
  /-- a position is outside a sequence -/
  | index
  /-- a definition that cannot be read, such as one with a parameter twice -/
  | illFormed
  /-- an operand has a type the operation is not defined for -/
  | type
  /-- a part is asked for that the object does not have, such as a group of a text that did not match -/
  | attribute
  /-- a quotient with divisor zero -/
  | zeroDivision
  /-- a number does not fit -/
  | overflow
  /-- an operation that a base description leaves to its variants -/
  | notImplemented
  /-- a sequence has no further item -/
  | exhausted
  /-- readers that are read in step have different lengths -/
  | notAligned
  /-- an operation that cannot be carried out in the present state -/
  | runtime
  /-- bytes that are no text in the encoding asked for -/
  | encoding
  /-- a text with characters that the encoding asked for does not have -/
  | unencodable
  /-- an encoding that is not known -/
  | unknownEncoding
  /-- an axis is asked for that an array does not have -/
  | axis
  /-- a result that the elements of an array cannot be replaced by -/
  | casting
  /-- a quantity is asked for that no case gives a value -/
  | unassigned
  /-- a quantity is asked for that is defined nowhere -/
  | undefined
  deriving DecidableEq

/-- Results of operations whose causes are kinds of failure. -/
abbrev Fallible := Except FailureKind

/-- Refuse unless a condition holds. -/
def ensure {ε : Type} (b : Bool) (e : ε) : Except ε Unit := if b then .ok () else .error e

/-- What is there, or a failure. -/
def demand {ε α : Type} (e : ε) : Option α → Except ε α
  | some a => .ok a
  | none => .error e

@[simp] theorem demand_some {ε α : Type} (e : ε) (a : α) : demand e (some a) = .ok a := rfl

@[simp] theorem demand_none {ε α : Type} (e : ε) : demand e (none : Option α) = .error e := rfl

theorem demand_eq_ok_iff {ε α : Type} {e : ε} {o : Option α} {a : α} : demand e o = .ok a ↔ o = some a := by
  cases o <;> simp

/-- What every error type of the library tells about its causes. -/
class Cause (ε : Type) where
  /-- the kind of failure -/
  kind : ε → FailureKind
  /-- the text, for the causes that have one -/
  message : ε → Option String

/-- An error type whose causes include the kinds of failure alone. -/
class Faulty (ε : Type) extends Cause ε where
  fault : FailureKind → ε

instance {ε : Type} [Faulty ε] : MonadLift Fallible (Except ε) := ⟨Except.mapError Faulty.fault⟩

/-- A written field, or an entry of a table, that has to be there. -/
def found {ε α : Type} [Faulty ε] : Option α → Except ε α := demand (Faulty.fault .key)

def item {ε α : Type} [Faulty ε] (xs : List α) (i : Nat) : Except ε α := demand (Faulty.fault .index) xs[i]?

/-- A failure with a kind and, for checks of the library's own, a text. -/
structure Failure where
  kind : FailureKind
  message : Option String := none

def Failure.of {ε : Type} [Cause ε] (e : ε) : Failure := ⟨Cause.kind e, Cause.message e⟩

instance : Cause Failure where
  kind := Failure.kind
  message := Failure.message

instance : Cause FailureKind where
  kind := id
  message := fun _ => none

end TensorKit

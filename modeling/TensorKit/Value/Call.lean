import TensorKit.Arguments
import TensorKit.Value.Document
/-!
Functions called with data.

A function on typed arguments can be called with a list of data: each argument is read from its item, trailing
arguments may be left out where the function takes an option, and too few or too many items fail with kind `type`.
-/

namespace TensorKit

/-- Things that can be read from data. -/
class OfValue (α : Type) where
  ofValue : Value → Fallible α

export OfValue (ofValue)

instance : OfValue Value := ⟨.ok⟩

instance : OfValue Int := ⟨fun v => demand .type v.int?⟩

instance : OfValue Bool := ⟨fun v => .ok v.truthy⟩

instance : OfValue String := ⟨fun v => .ok v.plain⟩

instance {α : Type} [OfValue α] : OfValue (List α) := ⟨fun v => do (← v.members).mapM ofValue⟩

instance : OfValue NdArray := ⟨fun
  | .array a => .ok a
  | _ => .error .attribute⟩

/-- Functions that can be called with data, and what they give. -/
class Callable (φ : Type) (β : outParam Type) where
  call : φ → List Value → Except Failure β

namespace Callable

instance {ε α : Type} [Cause ε] : Callable (Except ε α) α := ⟨fun r args =>
  if args.isEmpty then r.mapError Failure.of else .error ⟨.type, none⟩⟩

instance {α φ β : Type} [OfValue α] [Callable φ β] : Callable (α → φ) β := ⟨fun f args => match args with
  | v :: args => do
    let a ← (ofValue v).mapError Failure.of
    call (f a) args
  | [] => .error ⟨.type, none⟩⟩

instance {α φ β : Type} [OfValue α] [Callable φ β] : Callable (Option α → φ) β := ⟨fun f args => match args with
  | v :: args => do
    let a ← (ofValue v).mapError Failure.of
    call (f (some a)) args
  | [] => call (f none) []⟩

variable {φ α : Type} [Callable φ α]

def onValues [ToValue α] (f : φ) (args : List Value) : Except Failure Value := (call f args).map toValue

def callBy (ps : List (String × Option Value)) (f : φ) (args : List Value) (named : Fields) :
    Except Failure α := do
  call f (← (Arguments.bind ps args named).mapError Failure.of)

end Callable

end TensorKit

/-!
Actions on a state that can fail.

A failing action keeps the changes that it made before it failed.
-/

namespace TensorKit

/-- A computation that changes a state, also when it fails. -/
abbrev Action (σ ε α : Type) := ExceptT ε (StateM σ) α

/-- Run an action on a state: the state afterwards and the outcome. -/
def Action.on {σ ε α : Type} (a : Action σ ε α) (s : σ) : σ × Except ε α :=
  let (r, s') := a.run.run s
  (s', r)

end TensorKit

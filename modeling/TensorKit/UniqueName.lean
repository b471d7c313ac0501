import TensorKit.Text.Encoding
/-!
Unique names.

A generator numbers the names it gives for each key.  One generator is current; a guard puts another one in
its place until the guard is left, and leaving it brings the earlier one back as it was.  With the generator
goes a record of the parameter names that were seen.
-/

namespace TensorKit.UniqueName

structure Generator where
  /-- what every name starts with; only a text can start one -/
  start : Value
  /-- how many names each key has -/
  given : Table String Nat := []

def Generator.next (g : Generator) (key : String) : Fallible String × Generator :=
  let n := (g.given.get? key).getD 0
  let g := { g with given := g.given.set key (n + 1) }
  match g.start with
  | .str s => (.ok (s ++ key ++ "_" ++ toString n), g)
  | _ => (.error .type, g)

/-- What names are asked of: a generator, or a value that gives none. -/
inductive Source where
  | generator (g : Generator)
  | other

structure Scope where
  source : Source
  seen : List Value := []

/-- The current scope and those that open guards have put aside, innermost first. -/
structure State where
  current : Scope
  aside : List Scope := []

/-- A scope whose names start with a value; null starts them with nothing. -/
def Scope.starting : Value → Scope
  | .null => { source := .generator { start := .str "" } }
  | v => { source := .generator { start := v } }

def initial : State := { current := .starting .null }

def generate (key : Value) (s : State) : State × Fallible String :=
  match key, s.current.source with
  | .str k, .generator g =>
    let (r, g) := g.next k
    ({ s with current := { s.current with source := .generator g } }, r)
  | _, _ => (s, .error .type)

/-- Was this parameter name seen before?  It is from now on. -/
def check (name : Value) (s : State) : State × Fallible Bool :=
  match name with
  | .list _ | .dict _ | .set _ | .array _ => (s, .error .type)
  | n =>
    if s.current.seen.any (Value.same n) then (s, .ok true)
    else ({ s with current := { s.current with seen := s.current.seen ++ [n] } }, .ok false)

def guarded : Value → Fallible Scope
  | .null => .ok (.starting .null)
  | .str t => .ok (.starting (.str t))
  | .bytes bs => do return .starting (.str (← Text.Encoding.utf8.decode bs))
  | _ => .ok { source := .other }

def enter (v : Value) (s : State) : State × Fallible Unit :=
  match guarded v with
  | .ok scope => ({ current := scope, aside := s.current :: s.aside }, .ok ())
  | .error k => (s, .error k)

def leave (s : State) : State × Fallible Unit :=
  match s.aside with
  | [] => (s, .error .index)
  | scope :: rest => ({ current := scope, aside := rest }, .ok ())

/-- Put a new generator in the place of the current one. -/
def switch (v : Value) (s : State) : State := { s with current := .starting v }

end TensorKit.UniqueName

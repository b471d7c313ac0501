import TensorKit.Schedule.Step
import TensorKit.Value.Document
import TensorKit.Value.Arithmetic
/-!
Saved states of schedules.

A schedule is saved as one record for itself and one for each schedule that it hands over to, outermost
first.  Loading sets the entries one by one in a fixed order and stops at the first that is missing; entries
set before stay set.
-/

namespace TensorKit.Schedule

variable {ν : Type}

structure Record (ν : Type) where
  cooldown : Option ν := none
  /-- the best value, which may be saved as not there yet -/
  best : Option (Option ν) := none
  bad : Option ν := none
  epoch : Option ν := none
  rate : Option ν := none

/-- The saved entries of a schedule and of those it hands over to, outermost first. -/
abbrev Saved (ν : Type) := List (Record ν)

def save : Schedule ν → Saved ν
  | .plain s _ => [{ epoch := s.epoch, rate := s.rate }]
  | .plateau s _ q => [{ cooldown := q.cooldown, best := some q.best, bad := q.bad, epoch := s.epoch,
                         rate := s.rate }]
  | .warmup s _ after => { epoch := s.epoch, rate := s.rate } :: save after

def loadEntry {σ α : Type} (key : String) (entry : Option α) (put : α → σ → σ) : Action σ Error Unit :=
  match entry with
  | some a => modify (put a)
  | none => throw (.missing key)

def loadState (r : Record ν) : Action (State ν) Error Unit := do
  loadEntry "last_epoch" r.epoch fun e s => { s with epoch := e }
  loadEntry "last_lr" r.rate fun v s => { s with rate := v }

/-- Set what a plateau schedule remembers, then the epoch and the rate. -/
def loadPlateau (r : Record ν) : Action (State ν × Progress ν) Error Unit := do
  loadEntry "cooldown_counter" r.cooldown fun c (s, q) => (s, { q with cooldown := c })
  loadEntry "best" r.best fun b (s, q) => (s, { q with best := b })
  loadEntry "num_bad_epochs" r.bad fun n (s, q) => (s, { q with bad := n })
  loadEntry "last_epoch" r.epoch fun e (s, q) => ({ s with epoch := e }, q)
  loadEntry "last_lr" r.rate fun v (s, q) => ({ s with rate := v }, q)

/-- Load a saved state.  A warm-up loads its own entries first. -/
def load : Schedule ν → Saved ν → Schedule ν × Except Error Unit
  | schedule, [] => (schedule, .error (.fault .key))
  | .plain s rule, r :: _ =>
    let (s, result) := (loadState r).on s
    (.plain s rule, result)
  | .plateau s p q, r :: _ =>
    let ((s, q), result) := (loadPlateau r).on (s, q)
    (.plateau s p q, result)
  | .warmup s ramp after, r :: rs =>
    let (s, result) := (loadState r).on s
    match result with
    | .error e => (.warmup s ramp after, .error e)
    | .ok () =>
      let (after, result) := load after rs
      (.warmup s ramp after, result)

/-! ## Documents -/

def Record.fields (r : Record Value) : Fields :=
  optionalField "cooldown_counter" r.cooldown ++ optionalField "best" r.best ++
    optionalField "num_bad_epochs" r.bad ++ optionalField "last_epoch" r.epoch ++
    optionalField "last_lr" r.rate

def afterKey : String := "LinearWarmup_LR"

def Saved.document : Saved Value → Value
  | [] => .record []
  | [r] => .record r.fields
  | r :: r' :: rs => .record (r.fields ++ [(afterKey, document (r' :: rs))])

def Record.ofItems (items : Pairs) : Record Value :=
  let entry (k : String) : Option Value := Value.lookup (.str k) items
  { cooldown := entry "cooldown_counter"
    best := (entry "best").map Value.given
    bad := entry "num_bad_epochs"
    epoch := entry "last_epoch"
    rate := entry "last_lr" }

mutual

/-- The records in a value.  Only tables have entries; texts and sequences have none, and other values cannot
be asked for entries. -/
def Saved.levels : Value → Saved Value
  | .dict items => Record.ofItems items :: Saved.after items
  | .list _ | .tuple _ | .labelled _ _ | .set _ | .str _ => [{}]
  | _ => []

def Saved.after : Pairs → Saved Value
  | [] => []
  | p :: ps => (Saved.afterPair p).getD (Saved.after ps)

/-- The records in an entry, if it is the entry for the schedule after a warm-up. -/
def Saved.afterPair : Value × Value → Option (Saved Value)
  | (k, v) => if k == .str afterKey then some (Saved.levels v) else none

end

def Saved.ofValue (v : Value) : Fallible (Saved Value) :=
  match Saved.levels v with
  | [] => .error .type
  | saved => .ok saved

def restore (schedule : Schedule Value) : List Value → Schedule Value × Except Error Unit
  | [v] => match Saved.ofValue v with
    | .ok saved => load schedule saved
    | .error k => (schedule, .error (.fault k))
  | _ => (schedule, .error (.fault .type))

end TensorKit.Schedule

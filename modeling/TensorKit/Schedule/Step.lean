import TensorKit.Action
import TensorKit.Schedule.Rate
/-!
Moving a schedule on.

A step first moves the epoch and then finds the rate.  When the rate cannot be found the epoch stays moved.
Each step says whether it reports a new rate.
-/

namespace TensorKit.Schedule

open Arithmetic

variable {ν : Type} [Arithmetic ν]

/-! ## 1. Plateaus -/

variable (p : Plateau ν)

/-- Is a measured value better than the best one by more than the threshold? -/
def Plateau.isBetter (current best : ν) : Fallible Bool := do
  let margin ← if p.relative then mul best p.threshold else pure p.threshold
  match p.direction with
  | .down => lt current (← sub best margin)
  | .up => lt (← add best margin) current

/-- What is remembered after a measured value that is counted: it is the best so far, or one more step without
improvement. -/
def Plateau.count (q : Progress ν) (metric : ν) : Fallible (Progress ν) := do
  let better ← match q.best with
    | none => pure true
    | some best => p.isBetter metric best
  if better then return { q with best := some metric, bad := whole 0 }
  else return { q with bad := ← add q.bad (whole 1) }

/-- After more than `patience` steps without improvement start a new cool-down and lower the rate. -/
def Plateau.settle : Action (State ν × Progress ν) Error Bool := do
  let (s, q) ← get
  if ← lt p.patience q.bad then
    set (s, { q with cooldown := p.cooldown, bad := whole 0 })
    let lowered ← Arithmetic.max (← mul s.rate p.factor) p.floor
    if ← lt p.epsilon (← sub s.rate lowered) then
      modify fun (s, q) => ({ s with rate := lowered }, q)
      return s.verbose
    else return false
  else return false

/-- Take in a measured value.  During the cool-down nothing is counted. -/
def Plateau.observe (metric : ν) : Action (State ν × Progress ν) Error Bool := do
  let (s, q) ← get
  if ← lt (whole 0) q.cooldown then
    let left ← sub q.cooldown (whole 1)
    set (s, { q with cooldown := left })
    return false
  else
    let q ← p.count q metric
    set (s, q)
    p.settle

/-- A measured value has to be a number, or an array that holds one number. -/
def checkMetric (shapeText : List Nat → String) : Option ν → Except Error ν
  | none => .error (.metricClass "<class 'NoneType'>")
  | some m => match extent? m with
    | some [1] => .ok m
    | some shape => .error (.metricShape (shapeText shape))
    | none => if isNumber m then .ok m else .error (.metricClass (className m))

def shapeText (shape : List Nat) : String :=
  match shape with
  | [n] => s!"({n},)"
  | ns => "(" ++ Text.commas (ns.map toString) ++ ")"

/-! ## 2. Steps -/

/-- The epoch that a step without arguments, or with one that may be empty, moves to. -/
def nextEpoch (s : State ν) : List (Option ν) → Except Error (ν × Bool)
  | [] | [none] => do return (← add s.epoch (whole 1), false)
  | [some e] => .ok (e, true)
  | _ => .error (.fault .type)

/-- The rate of a warm-up, and the schedule after it, which is moved once the warm-up is over. -/
def warmRate (s : State ν) (r : Ramp ν) (after : Schedule ν)
    (move : List (Option ν) → Schedule ν × Except Error Bool) : Schedule ν × Except Error (ν × Bool) :=
  match (lt s.epoch r.steps : Fallible Bool) with
  | .error k => (after, .error (.fault k))
  | .ok true => (after, (r.rate s.epoch).mapError .fault |>.map fun v => (v, false))
  | .ok false => match (sub s.epoch r.steps : Fallible ν) with
    | .error k => (after, .error (.fault k))
    | .ok d =>
      let (after', result) := move [some d]
      (after', result.map fun reported => (after'.state.rate, reported))

/-- Move a schedule: to the next epoch, to a chosen epoch or, for a plateau, by a measured value and an
epoch that may be left out.  The outcome says whether a new rate is reported. -/
def step : Schedule ν → List (Option ν) → Schedule ν × Except Error Bool
  | .plain s rule, args =>
    match nextEpoch s args with
    | .error e => (.plain s rule, .error e)
    | .ok (epoch, chosen) =>
      let s := { s with epoch := epoch }
      match if chosen then rule.rateAt s else rule.rate s with
      | .error e => (.plain s rule, .error e)
      | .ok rate => (.plain { s with rate := rate } rule, .ok s.verbose)
  | .plateau s p q, args =>
    match args with
    | [] => (.plateau s p q, .error (.fault .type))
    | metric :: rest => match nextEpoch s rest with
      | .error e => (.plateau s p q, .error e)
      | .ok (epoch, _) =>
        let s := { s with epoch := epoch }
        match checkMetric shapeText metric with
        | .error e => (.plateau s p q, .error e)
        | .ok m =>
          let ((s, q), result) := (p.observe m).on (s, q)
          (.plateau s p q, result)
  | .warmup s r after, args =>
    match nextEpoch s args with
    | .error e => (.warmup s r after, .error e)
    | .ok (epoch, _) =>
      let s := { s with epoch := epoch }
      let (after, result) := warmRate s r after (step after)
      match result with
      | .error e => (.warmup s r after, .error e)
      | .ok (rate, reported) => (.warmup { s with rate := rate } r after, .ok (reported || s.verbose))

/-- The rate of the present epoch, found anew.  A warm-up that is over moves the schedule after it. -/
def current : Schedule ν → Schedule ν × Except Error ν
  | .plain s rule => (.plain s rule, rule.rate s)
  | .plateau s p q => (.plateau s p q, .error (.fault .notImplemented))
  | .warmup s r after =>
    let (after, result) := warmRate s r after (step after)
    (.warmup s r after, result.map Prod.fst)

end TensorKit.Schedule

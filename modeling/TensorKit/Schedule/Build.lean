import TensorKit.Schedule.Step
/-!
Making schedules.

Each kind of schedule checks its settings in a fixed order and then takes its first step, so a schedule that
is made stands at the epoch after the one it is given, with the rate of that epoch.
-/

namespace TensorKit.Schedule

open Arithmetic

variable {ν : Type} [Arithmetic ν]

/-- Where a schedule starts: the epoch before the first one, and whether rates are reported. -/
structure Start (ν : Type) where
  epoch : ν
  verbose : Bool

def isPositiveWhole (a : ν) : Fallible Bool := do
  return (← lt (whole 0) a) && isWhole a

variable (rate : ν)

def initial (start : Start ν) : Except Error (State ν) := do
  ensure (isNumber rate) (.parameterClass "learning rate" "float" (className rate))
  let base ← floating rate
  return { base := base, rate := base, epoch := start.epoch, verbose := start.verbose }

def begin (schedule : Schedule ν) : Except Error (Schedule ν) :=
  match step schedule [] with
  | (s, .ok _) => .ok s
  | (_, .error e) => .error e

/-- How a schedule is made from its start. -/
abbrev Maker (ν : Type) := Start ν → Except Error (Schedule ν)

def plainFrom (rule : Rule ν) : Maker ν := fun start => do
  begin (.plain (← initial rate start) rule)

/-- The rate that a schedule with no rate of its own starts from: one tenth. -/
def defaultRate : ν := decimal 1 1

def undefined : Maker ν := plainFrom rate .undefined

/-- Growth over the warm-up steps, then decay with the square root of the epoch. -/
def noam (model warm rate : ν) : Maker ν := plainFrom rate (.noam model warm)

def piecewise (boundaries values : List ν) : Maker ν := plainFrom defaultRate (.piecewise boundaries values)

def naturalExp (rate gamma : ν) : Maker ν := fun start => do
  ensure (← lt (decimal 0 1) gamma) .decayRate
  plainFrom rate (.naturalExp gamma) start

def inverseTime (rate gamma : ν) : Maker ν := plainFrom rate (.inverseTime gamma)

def polynomial (rate steps finish power : ν) (cycle : Bool) : Maker ν := fun start => do
  ensure (← isPositiveWhole steps) (.notPositive "decay_steps")
  ensure (← lt (decimal 0 1) power) .decayPower
  plainFrom rate (.polynomial steps finish power cycle) start

def checkRamp (r : Ramp ν) : Except Error Unit := do
  ensure (← isPositiveWhole r.steps) (.notPositive "warmup_steps")
  ensure (← lt r.start r.finish) (.warmupRange (text r.finish) (text r.start))

def rampTo (target : ν) (r : Ramp ν) : Maker ν := fun start => do
  ensure (isNumber target) (.warmupTarget (text target))
  checkRamp r
  plainFrom r.start (.ramp r target) start

def rampInto (after : Schedule ν) (r : Ramp ν) : Maker ν := fun start => do
  checkRamp r
  begin (.warmup (← initial r.start start) r after)

def exponential (rate gamma : ν) : Maker ν := fun start => do
  ensure ((← lt (decimal 0 1) gamma) && (← lt gamma (decimal 10 1))) .decayInterval
  plainFrom rate (.exponential gamma) start

def increasing : List ν → Fallible Bool
  | a :: b :: rest => do
    let first ← lt a b
    return first && (← increasing (b :: rest))
  | _ => .ok true

def multiStep (milestones : List ν) (gamma : ν) : Maker ν := fun start => do
  ensure (← increasing milestones) .milestonesOrder
  ensure (!(← le (decimal 10 1) gamma)) .gammaTooLarge
  plainFrom rate (.multiStep milestones gamma) start

def steps (rate size gamma : ν) : Maker ν := fun start => do
  ensure (isWhole size) (.parameterClass "'step_size'" "'int'" (className size ++ "."))
  ensure (!(← le (decimal 10 1) gamma)) .gammaTooLarge
  ensure (← lt (whole 0) size) (.notPositive "step_size")
  plainFrom rate (.steps size gamma) start

def scaled (curve : Curve ν) : Maker ν := plainFrom rate (.scaled curve)

def product (curve : Curve ν) : Maker ν := plainFrom rate (.product curve)

def cosine (rate period least : ν) : Maker ν := fun start => do
  ensure (isWhole period) (.ruleClass "T_max" "CosineAnnealingDecay" "int" (className period))
  ensure (isNumber least) (.ruleClass "eta_min" "CosineAnnealingDecay" "float, int" (className least))
  ensure (← lt (whole 0) period) (.notPositive "T_max")
  plainFrom rate (.cosine period (← floating least)) start

/-- Lower the rate when a measured value stops improving.  The direction and the kind of threshold are given
in words. -/
def onPlateau (mode : String) (threshold? : Option String) (p : Plateau ν) (verbose : Bool) :
    Except Error (Schedule ν) := do
  let direction ← match mode with
    | "min" => pure .down
    | "max" => pure .up
    | m => .error (.plateauMode m)
  ensure (!(← le (decimal 10 1) p.factor)) .factorTooLarge
  let relative ← match threshold? with
    | some "rel" => pure true
    | some "abs" => pure false
    | some m => .error (.thresholdMode m)
    | none => .error (.fault .attribute)
  ensure (isNumber rate) (.ruleClass "learning_rate" "ReduceOnPlateau" "float" (className rate))
  let base ← floating rate
  return .plateau { base := base, rate := base, epoch := whole 0, verbose := verbose }
    { p with direction := direction, relative := relative }
    { cooldown := whole 0, best := none, bad := whole 0 }

def phasesOf : List ν → List ν → Fallible (List (Phase ν))
  | a :: b :: steps, r :: q :: rates => do
    let size ← sub b a
    return { first := a, last := b, size := size, start := r, finish := q } ::
      (← phasesOf (b :: steps) (q :: rates))
  | _, _ => .ok []

/-- A rise to the largest rate and a fall to the last one, in two or three stretches. -/
def oneCycle (most total divisor least fraction : ν) (annealing : Except String Annealing)
    (three : Bool) : Maker ν := fun start => do
  ensure (isNumber most) (.valueClass "max_learning_rate" "'float' or 'int'" (className most))
  ensure (!(← lt most (whole 0))) (.negative "max_learning_rate")
  ensure (isNumber least) (.valueClass "end_learning_rate" "'float' or 'int'" (className least))
  ensure (!(← lt least (whole 0))) (.negative "end_learning_rate")
  ensure (isWhole total) (.valueClass "total_step" "'int'" (className total))
  ensure (← lt (whole 0) total) (.negative "total_step")
  ensure (isFloating fraction) (.valueClass "phase_pct" "'float'" (className fraction))
  ensure (!((← lt fraction (whole 0)) || (← lt (whole 1) fraction))) (.fractionRange (text fraction))
  ensure (isNumber divisor) (.valueClass "divide_factor" "'float' or 'int'" (className divisor))
  let first ← div most (← floating divisor)
  let last ← floating least
  let rise ← sub (← mul fraction total) (whole 1)
  let finish ← sub total (whole 1)
  let phases ←
    if three then do
      ensure (!(← le (decimal 5 1) fraction)) .threePhases
      let back ← sub (← mul (← mul (whole 2) fraction) total) (whole 2)
      phasesOf [whole 0, rise, back, finish] [first, most, first, last]
    else phasesOf [whole 0, rise, finish] [first, most, last]
  match annealing with
  | .error t => .error (.annealing t)
  | .ok a => plainFrom first (.oneCycle total phases a) start

inductive Wave where
  /-- all of one height -/
  | triangular
  /-- each half as high as the one before -/
  | halving
  /-- falling by a factor with every step -/
  | exponential
  deriving DecidableEq

def Wave.height (w : Wave) (gamma : ν) : Curve ν × Scale :=
  match w with
  | .triangular => (fun _ => .ok (decimal 10 1), .cycle)
  | .halving => (fun x => do div (whole 1) (← pow (decimal 20 1) (← sub x (whole 1))), .cycle)
  | .exponential => (fun x => pow gamma x, .iterations)

/-- Waves between two rates.  A wave is named, or its height is given by a function. -/
def cyclic (base most up : ν) (down : Option ν) (wave : Option Wave) (gamma : ν)
    (curve : Option (Curve ν)) (scale : Option Scale) : Maker ν := fun start => do
  ensure (isNumber most) (.valueClass "max_learning_rate" "'float' or 'int'" (className most))
  ensure (!(← lt most (whole 0))) (.negativeValue "max_learning_rate" (text most))
  ensure (isWhole up) (.parameterClass "'step_size_up'" "int" (className up))
  ensure (← lt (whole 0) up) (.negativeValue "step_size_up" (text up))
  if let some d := down then
    ensure (isWhole d) (.parameterClass "'step_size_down'" "int" (className d))
    ensure (← lt (whole 0) d) (.negativeValue "step_size_down" (text d))
  ensure (isFloating gamma) (.parameterClass "'exp_gamma'" "float" (className gamma))
  let up ← floating up
  let down ← match down with
    | some d => floating d
    | none => pure up
  let period ← add up down
  let rising ← div up period
  let amplitude ← sub (← floating most) base
  let (height, scale) ← match curve, wave, scale with
    | none, none, _ => .error .waveUnknown
    | _, _, none => .error .scaleUnknown
    | some f, _, some s => pure (f, s)
    | none, some w, some _ => pure (w.height gamma)
  plainFrom base (.cyclic period rising amplitude height scale) start

end TensorKit.Schedule

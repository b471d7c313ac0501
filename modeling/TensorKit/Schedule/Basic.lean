import TensorKit.Arithmetic
import TensorKit.Text.Basic
/-!
Schedules of the learning rate.

A schedule holds the current epoch and the current rate, and a rule that gives the rate of an epoch.  A *plain* schedule
moves to the next epoch or to a given one.  A *plateau* schedule is told a measured value and lowers its rate when the
value stops improving.  A *warm-up* raises the rate along a straight line and then hands over to another schedule,
counted from the end of the warm-up.  All rules are written for any type of numbers with the operations of `Arithmetic`.
-/

namespace TensorKit.Schedule

/-! ## 1. Causes of failure -/

inductive Error where
  /-- arithmetic, a look-up or a call went wrong -/
  | fault (kind : FailureKind)
  | missing (key : String)
  /-- a parameter of a rule has another class than those it may have -/
  | ruleClass (parameter rule classes name : String)
  | parameterClass (parameter classes name : String)
  | valueClass (parameter classes name : String)
  /-- a parameter that is refused since it is not positive -/
  | notPositive (parameter : String)
  | negative (parameter : String)
  | negativeValue (parameter text : String)
  | decayRate
  | decayPower
  | decayInterval
  | warmupTarget (text : String)
  | warmupRange (finish start : String)
  | milestonesOrder
  | gammaTooLarge
  | plateauMode (text : String)
  | factorTooLarge
  | thresholdMode (text : String)
  | metricShape (text : String)
  | metricClass (name : String)
  | fractionRange (text : String)
  | threePhases
  | annealing (text : String)
  | beyondEnd (step total : String)
  | waveUnknown
  | scaleUnknown

namespace Error

def text : Error → String
  | fault _ => ""
  | missing k => s!"Please check whether state_dict is correct for optimizer. Can't find [ {k} ] in state_dict"
  | ruleClass p r cs c => s!"The type of '{p}' in '{r}' must be '{cs}', but received {c}."
  | parameterClass p cs c => s!"The type of {p} must be {cs}, but received {c}"
  | valueClass p cs c => s!"'{p}' must be {cs}, but received {c}"
  | notPositive p => s!" '{p}' must be a positive integer."
  | negative p => s!"'{p}' must be a positive integer."
  | negativeValue p t => s!"'{p}' must be a positive integer, but received {t}"
  | decayRate => " 'gamma' must be a positive number so that the learning rate will decay."
  | decayPower => " 'power' must be greater than 0.0 so that the learning rate will decay."
  | decayInterval => " 'gamma' must be in interval (0.0, 1.0) so that the learning rate will decay."
  | warmupTarget t => s!"the type of learning_rate should be [int, float or LRScheduler], the current type is {t}"
  | warmupRange b a => s!"end_lr {b} must be greater than start_lr {a}"
  | milestonesOrder => "The elements of milestones must be incremented"
  | gammaTooLarge => "gamma should be < 1.0."
  | plateauMode m => s!"mode: {m} is unknown!"
  | factorTooLarge => "new_lr = origin_lr * gamma and gamma should be < 1.0."
  | thresholdMode m => s!"threshold mode: {m} is unknown!"
  | metricShape s => s!"the metrics.shape should be (1L,), but the current metrics.shape is {s}. " ++
      "Maybe that you should call paddle.mean to process it first."
  | metricClass c => "metrics must be 'int', 'float', 'np.float', 'numpy.ndarray' or 'paddle.Tensor', " ++
      s!"but receive {c}"
  | fractionRange t => s!"'phase_pct' must be between 0 and 1, but received {t}"
  | threePhases => "When three_phase is True, 'phase_pct' must be less than 0.5"
  | annealing t => s!"'anneal_strategy' must by one of 'cos' or 'linear', but received {t}"
  | beyondEnd k n => s!"Tried to step {k} times. However the number of total steps is {n}"
  | waveUnknown => "'mode' is invalid and 'scale_fn' is not specified, " ++
      "make sure one of 'mode' or 'scale_fn' is valid"
  | scaleUnknown => "'scale_mode' must be one of 'cycle' or 'iterations"

def kind : Error → FailureKind
  | fault k => k
  | missing _ => .runtime
  | notPositive _ | decayRate | decayPower | decayInterval | warmupRange _ _ | metricShape _ => .assertion
  | ruleClass .. | parameterClass .. | valueClass .. | warmupTarget _ | metricClass _ => .type
  | _ => .value

def message : Error → Option String
  | fault _ => none
  | e => some e.text

end Error

instance : Faulty Error := { kind := Error.kind, message := Error.message, fault := .fault }

/-! ## 2. Rules -/

abbrev Curve (ν : Type) := ν → Fallible ν

/-- How a rate goes from one value to another. -/
inductive Annealing where
  | cosine
  | linear

structure Phase (ν : Type) where
  /-- the step at which the stretch begins -/
  first : ν
  /-- the last step that belongs to it -/
  last : ν
  /-- the number of steps that the rate needs -/
  size : ν
  /-- the rate at the beginning -/
  start : ν
  /-- the rate at the end -/
  finish : ν

/-- What the height of a wave depends on. -/
inductive Scale where
  /-- the number of the wave -/
  | cycle
  /-- the number of steps -/
  | iterations

structure Ramp (ν : Type) where
  steps : ν
  start : ν
  finish : ν

structure State (ν : Type) where
  /-- the rate that rules start from -/
  base : ν
  /-- the current rate -/
  rate : ν
  /-- the current epoch -/
  epoch : ν
  /-- is every new rate reported? -/
  verbose : Bool

inductive Rule (ν : Type) where
  /-- no rule was given -/
  | undefined
  /-- growth over the warm-up steps, then decay with the square root of the epoch -/
  | noam (model warmup : ν)
  /-- one value up to each boundary, and one after the last -/
  | piecewise (boundaries values : List ν)
  | naturalExp (gamma : ν)
  | inverseTime (gamma : ν)
  | polynomial (steps finish power : ν) (cycle : Bool)
  /-- a warm-up to a fixed rate -/
  | ramp (ramp : Ramp ν) (target : ν)
  | exponential (gamma : ν)
  /-- a factor for each milestone that is reached -/
  | multiStep (milestones : List ν) (gamma : ν)
  /-- a factor after every `size` epochs -/
  | steps (size gamma : ν)
  | scaled (curve : Curve ν)
  | product (curve : Curve ν)
  | cosine (period least : ν)
  | oneCycle (total : ν) (phases : List (Phase ν)) (annealing : Annealing)
  /-- waves of `period` steps, of which the fraction `rising` goes up -/
  | cyclic (period rising amplitude : ν) (height : Curve ν) (scale : Scale)

/-! ## 3. Schedules -/

inductive Direction where
  | down
  | up

structure Plateau (ν : Type) where
  direction : Direction
  /-- is the threshold a fraction of the best value? -/
  relative : Bool
  factor : ν
  patience : ν
  threshold : ν
  cooldown : ν
  /-- the rate is not lowered below this -/
  floor : ν
  /-- a smaller change of the rate is not made -/
  epsilon : ν

structure Progress (ν : Type) where
  /-- steps left in which nothing is counted -/
  cooldown : ν
  /-- the best value so far -/
  best : Option ν
  /-- steps without improvement -/
  bad : ν

end TensorKit.Schedule

namespace TensorKit

inductive Schedule (ν : Type) where
  | plain (state : Schedule.State ν) (rule : Schedule.Rule ν)
  | plateau (state : Schedule.State ν) (settings : Schedule.Plateau ν) (progress : Schedule.Progress ν)
  | warmup (state : Schedule.State ν) (ramp : Schedule.Ramp ν) (after : Schedule ν)

def Schedule.state {ν : Type} : Schedule ν → Schedule.State ν
  | plain s _ | plateau s _ _ | warmup s _ _ => s

end TensorKit

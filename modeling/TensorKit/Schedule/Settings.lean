import TensorKit.Arguments
import TensorKit.Schedule.Build
import TensorKit.Schedule.Saved
import TensorKit.Value.Marked
/-!
Schedules by name.

A schedule is asked for by the name of its kind and arguments by position and by name.  An argument is data,
a function of one number, or a schedule that a warm-up hands over to.
-/

namespace TensorKit.Schedule

inductive Setting where
  | value (v : Value)
  | curve (f : Curve Value)
  | schedule (s : Schedule Value)

namespace Setting

def data : Setting → Except Error Value
  | value v => .ok v
  | _ => .error (.fault .type)

def flag : Setting → Bool
  | value v => v.truthy
  | _ => true

def items : Setting → Except Error (List Value)
  | value (.list xs) | value (.tuple xs) | value (.labelled _ xs) => .ok xs
  | _ => .error (.fault .type)

def classText : Setting → String
  | value v => v.classText
  | curve _ => "<class 'function'>"
  | schedule _ => "<class 'LRScheduler'>"

/-- A function for a rule that asks for one; a schedule is called without a number only. -/
def needCurve (rule : String) : Setting → Except Error (Curve Value)
  | curve f => .ok f
  | schedule _ => .ok fun _ => .error .type
  | s => .error (.ruleClass "lr_lambda" rule "function" s.classText)

/-- A function, if there is one; other data cannot be called. -/
def curve? : Setting → Option (Curve Value)
  | value .null => none
  | curve f => some f
  | _ => some fun _ => .error .type

def milestones : Setting → Except Error (List Value)
  | value (.list xs) | value (.tuple xs) | value (.labelled _ xs) => .ok xs
  | s => .error (.ruleClass "milestones" "MultiStepDecay" "tuple, list" s.classText)

def data? (s : Setting) : Except Error (Option Value) := do
  return (← s.data).given

def lowered? : Setting → Option String
  | value (.str s) => some (Text.lower s)
  | _ => none

end Setting

open Setting Arguments

def real (x : Float) : Setting := .value (.float x)

def number (i : Int) : Setting := .value (.int i)

/-- The last two parameters of nearly all schedules: the epoch before the first and the switch for reports. -/
def startParameters : List (String × Option Setting) :=
  [optional "last_epoch" (number (-1)), optional "verbose" (value (.bool false))]

def parameters : String → Option (List (String × Option Setting))
  | "LRScheduler" => some (optional "learning_rate" (real 0.1) :: startParameters)
  | "NoamDecay" => some ([required "d_model", required "warmup_steps", optional "learning_rate" (real 1.0)] ++
      startParameters)
  | "PiecewiseDecay" => some ([required "boundaries", required "values"] ++ startParameters)
  | "NaturalExpDecay" | "InverseTimeDecay" | "ExponentialDecay" =>
    some ([required "learning_rate", required "gamma"] ++ startParameters)
  | "PolynomialDecay" => some ([required "learning_rate", required "decay_steps",
      optional "end_lr" (real 0.0001), optional "power" (real 1.0), optional "cycle" (value (.bool false))] ++
      startParameters)
  | "LinearWarmup" => some ([required "learning_rate", required "warmup_steps", required "start_lr",
      required "end_lr"] ++ startParameters)
  | "MultiStepDecay" => some ([required "learning_rate", required "milestones",
      optional "gamma" (real 0.1)] ++ startParameters)
  | "StepDecay" => some ([required "learning_rate", required "step_size", optional "gamma" (real 0.1)] ++
      startParameters)
  | "LambdaDecay" | "MultiplicativeDecay" =>
    some ([required "learning_rate", required "lr_lambda"] ++ startParameters)
  | "ReduceOnPlateau" => some [required "learning_rate", optional "mode" (value (.str "min")),
      optional "factor" (real 0.1), optional "patience" (number 10), optional "threshold" (real 1e-4),
      optional "threshold_mode" (value (.str "rel")), optional "cooldown" (number 0),
      optional "min_lr" (number 0), optional "epsilon" (real 1e-8),
      optional "verbose" (value (.bool false))]
  | "CosineAnnealingDecay" => some ([required "learning_rate", required "T_max",
      optional "eta_min" (number 0)] ++ startParameters)
  | "OneCycleLR" => some ([required "max_learning_rate", required "total_steps",
      optional "divide_factor" (real 25.0), optional "end_learning_rate" (real 0.0001),
      optional "phase_pct" (real 0.3), optional "anneal_strategy" (value (.str "cos")),
      optional "three_phase" (value (.bool false))] ++ startParameters)
  | "CyclicLR" => some ([required "base_learning_rate", required "max_learning_rate",
      required "step_size_up", optional "step_size_down" (value .null),
      optional "mode" (value (.str "triangular")), optional "exp_gamma" (real 1.0),
      optional "scale_fn" (value .null), optional "scale_mode" (value (.str "cycle"))] ++ startParameters)
  | _ => none

def startOf : List Setting → Except Error (Start Value)
  | [epoch, verbose] => do return { epoch := ← epoch.data, verbose := verbose.flag }
  | _ => .error (.fault .type)

def annealingOf : Setting → Except String Annealing
  | value (.str "cos") => .ok .cosine
  | value (.str "linear") => .ok .linear
  | value v => .error v.plain
  | s => .error s.classText

def waveOf? : Setting → Option Wave
  | value (.str "triangular") => some .triangular
  | value (.str "triangular2") => some .halving
  | value (.str "exp_range") => some .exponential
  | _ => none

def scaleOf? : Setting → Option Scale
  | value (.str "cycle") => some .cycle
  | value (.str "iterations") => some .iterations
  | _ => none

def ofSettings (kind : String) (settings : List Setting) : Except Error (Schedule Value) :=
  match kind, settings with
  | "LRScheduler", rate :: start => do undefined (← rate.data) (← startOf start)
  | "NoamDecay", model :: warm :: rate :: start => do
    noam (← model.data) (← warm.data) (← rate.data) (← startOf start)
  | "PiecewiseDecay", boundaries :: values :: start => do
    piecewise (← boundaries.items) (← values.items) (← startOf start)
  | "NaturalExpDecay", rate :: gamma :: start => do naturalExp (← rate.data) (← gamma.data) (← startOf start)
  | "InverseTimeDecay", rate :: gamma :: start => do
    inverseTime (← rate.data) (← gamma.data) (← startOf start)
  | "PolynomialDecay", rate :: n :: finish :: power :: cycle :: start => do
    polynomial (← rate.data) (← n.data) (← finish.data) (← power.data) cycle.flag (← startOf start)
  | "LinearWarmup", target :: n :: first :: finish :: start => do
    let ramp : Ramp Value := { steps := ← n.data, start := ← first.data, finish := ← finish.data }
    match target with
    | schedule after => rampInto after ramp (← startOf start)
    | target => rampTo (← target.data) ramp (← startOf start)
  | "ExponentialDecay", rate :: gamma :: start => do
    exponential (← rate.data) (← gamma.data) (← startOf start)
  | "MultiStepDecay", rate :: ms :: gamma :: start => do
    multiStep (← rate.data) (← ms.milestones) (← gamma.data) (← startOf start)
  | "StepDecay", rate :: size :: gamma :: start => do
    steps (← rate.data) (← size.data) (← gamma.data) (← startOf start)
  | "LambdaDecay", rate :: f :: start => do
    let f ← f.needCurve kind
    scaled (← rate.data) f (← startOf start)
  | "MultiplicativeDecay", rate :: f :: start => do
    let f ← f.needCurve kind
    product (← rate.data) f (← startOf start)
  | "ReduceOnPlateau", [rate, mode, factor, patience, threshold, thresholdMode, cooldown, least, epsilon,
      verbose] => do
    match mode.lowered? with
    | none => .error (.fault .attribute)
    | some m =>
      onPlateau (← rate.data) m thresholdMode.lowered?
        { direction := .down, relative := true, factor := ← factor.data, patience := ← patience.data,
          threshold := ← threshold.data, cooldown := ← cooldown.data, floor := ← least.data,
          epsilon := ← epsilon.data } verbose.flag
  | "CosineAnnealingDecay", rate :: period :: least :: start => do
    cosine (← rate.data) (← period.data) (← least.data) (← startOf start)
  | "OneCycleLR", most :: total :: divisor :: least :: fraction :: anneal :: three :: start => do
    oneCycle (← most.data) (← total.data) (← divisor.data) (← least.data) (← fraction.data)
      (annealingOf anneal) three.flag (← startOf start)
  | "CyclicLR", base :: most :: up :: down :: mode :: gamma :: height :: scale :: start => do
    cyclic (← base.data) (← most.data) (← up.data) (← down.data?) (waveOf? mode) (← gamma.data) height.curve?
      (scaleOf? scale) (← startOf start)
  | _, _ => .error (.fault .type)

def make (kind : String) (args : List Setting) (named : List (String × Setting)) : Except Error (Schedule Value) := do
  match parameters kind with
  | some ps => ofSettings kind (← Arguments.bind ps args named)
  | none => .error (.fault .attribute)

/-! ## Descriptions -/

/-- The argument that a description of at most some depth stands for: a schedule, if the field `lr` names its kind, a
function known by the name in the field `fn`, or data. -/
def Setting.ofDescription (curves : String → Curve Value) : Nat → Value → Except Error Setting
  | 0, v => .ok (.value v.ofMarked)
  | n + 1, v => match v.field? "lr", v.field? "fn" with
    | some kind, _ => do
      let args ← (v.part "args").items.mapM (ofDescription curves n)
      let named ← (v.part "kwargs").fields.mapM fun p => do return (p.1, ← ofDescription curves n p.2)
      return .schedule (← make kind.textOr args named)
    | none, some f => .ok (.curve (curves f.textOr))
    | none, none => .ok (.value v.ofMarked)

def ofValue (curves : String → Curve Value) (v : Value) : Except Error (Schedule Value) := do
  match ← Setting.ofDescription curves v.depth v with
  | .schedule s => return s
  | _ => .error (.fault .attribute)

end TensorKit.Schedule

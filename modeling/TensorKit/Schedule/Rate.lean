import TensorKit.Schedule.Basic
/-!
The rate of an epoch.

`Rule.rate` is the rate that a rule gives in a state.  Only the cosine rule looks at the rate before; it has a
second form, used when an epoch is chosen, that depends on the epoch alone (`Rule.rateAt`).
-/

namespace TensorKit.Schedule

open Arithmetic

variable {ν : Type} [Arithmetic ν]

/-- The value at an epoch: that of the first boundary above it, or the last one. -/
def piecewiseRate (epoch : ν) (values : List ν) : List ν → Nat → Except Error ν
  | [], _ => demand (.fault .index) values.getLast?
  | b :: bs, i => do
    if ← lt epoch b then
      demand (.fault .index) values[i]?
    else piecewiseRate epoch values bs (i + 1)

def reached (epoch : ν) : List ν → Nat → Fallible Nat
  | [], i => .ok i
  | m :: ms, i => do if ← lt epoch m then return i else reached epoch ms (i + 1)

def Ramp.rate (r : Ramp ν) (epoch : ν) : Fallible ν := do
  add (← div (← mul (← sub r.finish r.start) (← floating epoch)) (← floating r.steps)) r.start

def Annealing.between (a : Annealing) (start finish fraction : ν) : Fallible ν :=
  match a with
  | .cosine => do
    let c ← add (← cos (← mul pi fraction)) (whole 1)
    add finish (← mul (← div (← sub start finish) (decimal 20 1)) c)
  | .linear => do add (← mul (← sub finish start) fraction) start

/-- The rate of a step: in the first stretch that reaches up to it, or in the last one. -/
def phaseRate (a : Annealing) (step : ν) : List (Phase ν) → Fallible ν
  | [] => .error .index
  | [p] => inPhase p
  | p :: q :: ps => do if ← le step p.last then inPhase p else phaseRate a step (q :: ps)
where
  /-- the rate in a stretch -/
  inPhase (p : Phase ν) : Fallible ν := do
    a.between p.start p.finish (← div (← sub step p.first) p.size)

def productRate (curve : Curve ν) (base : ν) (n : Nat) : Fallible ν :=
  (List.range n).foldlM (fun r (i : Nat) => do mul r (← curve (whole ((i : Int) + 1)))) base

def cosineLift (period epoch : ν) : Fallible ν := do
  add (whole 1) (← cos (← div (← mul pi epoch) period))

def cyclicRate (period rising amplitude : ν) (height : Curve ν) (scale : Scale) (base epoch : ν) : Fallible ν := do
  let cycle ← add (whole 1) (← floorDiv epoch period)
  let place ← sub (← add (decimal 10 1) (← div epoch period)) cycle
  let factor ← if ← le place rising then div place rising
    else div (← sub (whole 1) place) (← sub (whole 1) rising)
  let lift ← mul amplitude factor
  add base (← mul lift (← height (match scale with
    | .cycle => cycle
    | .iterations => epoch)))

def polynomialRate (steps finish power : ν) (cycle : Bool) (base epoch : ν) : Fallible ν := do
  let (epoch', steps') ←
    if cycle then do
      let c ← ceil (← div (← floating epoch) (← floating steps))
      let c := if eq epoch (whole 0) then whole 1 else c
      pure (epoch, ← mul steps c)
    else do pure (← Arithmetic.min epoch steps, steps)
  let left ← sub (whole 1) (← div (← floating epoch') (← floating steps'))
  add (← mul (← sub base finish) (← pow left power)) finish

def Rule.rate (rule : Rule ν) (s : State ν) : Except Error ν :=
  match rule with
  | .undefined => .error (.fault .notImplemented)
  | .noam model warm => do
    let a ← if eq s.epoch (whole 0) then pure (whole 1) else pow s.epoch (decimal (-5) 1)
    let b ← mul (← pow warm (decimal (-15) 1)) s.epoch
    mul (← mul s.base (← pow model (decimal (-5) 1))) (← Arithmetic.min a b)
  | .piecewise boundaries values => piecewiseRate s.epoch values boundaries 0
  | .naturalExp gamma => do mul s.base (← exp (← mul (← opposite gamma) s.epoch))
  | .inverseTime gamma => do div s.base (← add (whole 1) (← mul gamma s.epoch))
  | .polynomial n finish power cycle => do polynomialRate n finish power cycle s.base s.epoch
  | .ramp r target => do if ← lt s.epoch r.steps then r.rate s.epoch else pure target
  | .exponential gamma => do mul s.base (← pow gamma s.epoch)
  | .multiStep milestones gamma => do
    mul s.base (← pow gamma (whole (← reached s.epoch milestones 0)))
  | .steps size gamma => do mul s.base (← pow gamma (← floorDiv s.epoch size))
  | .scaled curve => do mul s.base (← curve s.epoch)
  | .product curve => do productRate curve s.base (← count s.epoch).toNat
  | .cosine period least => do
    if eq s.epoch (whole 0) then pure s.base
    else
      let before ← sub s.epoch (whole 1)
      if eq (← mod (← sub before period) (← mul (whole 2) period)) (whole 0) then
        let drop ← sub (whole 1) (← cos (← div pi period))
        add s.rate (← div (← mul (← sub s.base least) drop) (whole 2))
      else
        let ratio ← div (← cosineLift period s.epoch) (← cosineLift period before)
        add (← mul ratio (← sub s.rate least)) least
  | .oneCycle total phases annealing => do
    if ← lt total s.epoch then .error (.beyondEnd (text s.epoch) (text total))
    else phaseRate annealing s.epoch phases
  | .cyclic period rising amplitude height scale => do
    cyclicRate period rising amplitude height scale s.base s.epoch

def Rule.rateAt (rule : Rule ν) (s : State ν) : Except Error ν :=
  match rule with
  | .cosine period least => do
    add least (← div (← mul (← sub s.base least) (← cosineLift period s.epoch)) (whole 2))
  | rule => rule.rate s

end TensorKit.Schedule

import TensorKit.Text.Basic
/-!
Parameters of generated functions.

A parameter is written in two ways: with its default where the function is declared, without it where
the function is defined.
-/

namespace TensorKit.Operator

structure Parameter where
  type : String
  name : String
  default : Option String := none
  deriving DecidableEq

def Parameter.define (p : Parameter) : String := p.type ++ " " ++ p.name

def Parameter.declare (p : Parameter) : String :=
  p.define ++ (match p.default with
    | some d => " = " ++ d
    | none => "")

end TensorKit.Operator

import TensorKit.Operator.Canonical
import TensorKit.Operator.Naming
/-!
Kernel signatures of a static operator.

A scalar attribute can come as a number or as a tensor, an array attribute as numbers, as a tensor or as
a list of tensors.  An operator therefore has one kernel signature for each kernel and each way to give
its attributes; the last attribute varies fastest.
-/

namespace TensorKit.Operator

open Text

def choices {α : Type} : List (List α) → List (List α)
  | [] => [[]]
  | xs :: rest => xs.flatMap fun x => (choices rest).map (x :: ·)

def attrVariables (a : TypedName) : List String :=
  if a.typename = "Scalar" then [a.name, a.name ++ "Tensor"]
  else if a.typename = "IntArray" then [a.name, a.name ++ "Tensor", a.name ++ "TensorList"]
  else [a.name]

def braced (xs : List String) : String := "\x7b" ++ commas xs ++ "\x7d"

def attrCombinations (attrs : List TypedName) : List String :=
  (choices (attrs.map attrVariables)).map fun vs => braced (vs.map quoted)

/-- The kernel signatures, one a line: kernels vary slowest, then the ways to give the attributes. -/
def kernelSignatures (kernels : List String) (inputs : List String) (attrs : List TypedName)
    (outputs : List String) : String :=
  let inputs := braced (inputs.map Naming.makerText)
  let outputs := braced (outputs.map Naming.makerText)
  join "\n" <| kernels.flatMap fun k => (attrCombinations attrs).map fun a =>
    "return KernelSignature(" ++ commas [quoted k, inputs, a, outputs] ++ ");"

def Definition.kernelSignatures? (d : Definition) : Option String :=
  match d.body with
  | .invoke _ => none
  | .kernel _ k _ =>
    let used := d.inputs.filter fun i => paramsHave (k.param.getD []) i.arg.name
    some (kernelSignatures k.func (used.map fun i => i.arg.name) (d.attrs.map Arg.bare)
      (d.outputs.map fun o => o.arg.name))

end TensorKit.Operator

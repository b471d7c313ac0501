import TensorKit.Table
import TensorKit.Text.Basic
/-!
The types of operator arguments and what they become in generated code.

Definitions name types by short words.  Each table gives, for one place in the generated code, the type
that is written there; a word that is not in a table is not accepted in that place.
-/

namespace TensorKit.Operator

/-- Words with the types that they stand for. -/
def typed (type : String → String) (words : List String) : Texts := words.map fun w => (w, type w)

/-- The words for lists of types, with the vectors that they stand for. -/
def vectors (written : String → String) (words : List String) : Texts :=
  words.map fun w => (w ++ "[]", written ("std::vector<" ++ w ++ ">"))

def reference (type : String) : String := "const " ++ type ++ "&"

def numbers : List String := ["bool", "int", "int64_t", "float", "double"]

namespace TypeTable

def inputs : Texts :=
  [("Tensor", "const Tensor&"), ("Tensor[]", "const std::vector<Tensor>&")]

def optionalInputs : Texts :=
  [("Tensor", "const paddle::optional<Tensor>&"),
   ("Tensor[]", "const paddle::optional<std::vector<Tensor>>&")]

def attrs : Texts :=
  typed reference ["IntArray"] ++
  typed (fun _ => "const Scalar&") ["Scalar", "Scalar(bool)", "Scalar(int)", "Scalar(int64_t)", "Scalar(float)"] ++
  vectors reference ["Scalar"] ++ typed id (["Place", "DataLayout", "DataType"] ++ numbers) ++
  [("str", "const std::string&")] ++ vectors reference numbers ++ [("str[]", "const std::vector<<std::string>&")]

def makerAttrs : Texts :=
  [("IntArray", "std::vector<int64_t>"), ("Scalar", "float"), ("Scalar(bool)", "bool"), ("Scalar(int)", "int"),
   ("Scalar(int64_t)", "int64_t"), ("Scalar(float)", "float")] ++ vectors id ["Scalar"] ++
  typed (fun _ => "int") ["Place", "DataLayout", "DataType"] ++ typed id numbers ++ [("str", "std::string")] ++
  vectors id numbers ++ [("str[]", "std::vector<<std::string>")]

def outputs : Texts :=
  [("Tensor", "Tensor"), ("Tensor[]", "std::vector<Tensor>")]

def kernelAttrs : Texts :=
  attrs.update
    [("IntArray", "const phi::IntArray&"), ("Scalar", "const phi::Scalar&"),
     ("Scalar[]", "std::vector<phi::Scalar>&")]

def denseInputs : Texts :=
  [("Tensor", "const phi::DenseTensor&"), ("Tensor[]", "const std::vector<const phi::DenseTensor*>&")]

def denseOptionalInputs : Texts :=
  [("Tensor", "paddle::optional<const phi::DenseTensor&>"),
   ("Tensor[]", "paddle::optional<const std::vector<phi::DenseTensor>&>")]

def denseOutputs : Texts :=
  [("Tensor", "phi::DenseTensor*"), ("Tensor[]", "std::vector<phi::DenseTensor*>")]

def rowsOutputs : Texts := [("Tensor", "phi::SelectedRows*")]

variable (s : String)

def isInput : Bool := inputs.has s

def isAttr : Bool := attrs.has s

def isOutput : Bool := outputs.has s

def isList : Bool := Text.hasEnd "[]" s

def isInitializerList : Bool := s == "\x7b\x7d"

end TypeTable

end TensorKit.Operator

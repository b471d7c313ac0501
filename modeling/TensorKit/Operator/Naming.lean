import TensorKit.Failure
import TensorKit.Text.Letter
import TensorKit.Text.Word
/-!
Names in generated code.

The gradient of a variable has its name with `_grad` at the end, an operator that overwrites its input
has an underscore at the end, a saved variable likewise.  The class of a gradient node is the operator's
name with the underscores removed and each word capitalised.
-/

namespace TensorKit.Operator.Naming

open Text

/-! ## 1. Gradients -/

variable (s : String)

def gradName : String := s ++ "_grad"

def isGradName : Bool := hasEnd "_grad" s

def forwardName? : Option String := if isGradName s then some (dropLast 5 s) else none

@[simp]
theorem isGradName_gradName : isGradName (gradName s) = true := by simp [isGradName, hasEnd, gradName]

@[simp]
theorem forwardName?_gradName : forwardName? (gradName s) = some s := by
  rw [forwardName?, if_pos (isGradName_gradName s)]
  simp [dropLast, gradName]

theorem gradName_inj {s t : String} (h : gradName s = gradName t) : s = t := by
  simpa using congrArg forwardName? h

/-- A variable in the static description of an operator: gradients are marked by a function. -/
def makerName : String :=
  match forwardName? s with
  | some v => "GradVarName(\"" ++ v ++ "\")"
  | none => quoted s

/-- A variable in the static description of an operator as a constant text: gradients are marked by a
suffix. -/
def makerText : String :=
  match forwardName? s with
  | some v => quoted (v ++ "@GRAD")
  | none => quoted s

/-- The variable in a name such as `dx` or `d2x`: what follows the letter `d` and its digits; a name
that has nothing else after them keeps the last digit. -/
def derivativeOf : Fallible String :=
  match s.toList with
  | 'd' :: cs =>
    let digits := cs.takeWhile isDecimal
    match (cs.dropWhile isDecimal).takeWhile isWord, digits.getLast? with
    | [], none => .error .attribute
    | [], some d => .ok (.ofList [d])
    | name, _ => .ok (.ofList name)
  | _ => .error .attribute

/-! ## 2. Words -/

def pascalCase : String := String.join ((split '_' s).map capitalize)

def upperFirst : String :=
  match s.toList with
  | [] => ""
  | c :: cs => .ofList (upperChar c ++ cs)

def words : List String := (split '_' s).filter fun w => !w.isEmpty

/-- The class of a gradient node.  A final word `Grad` is not repeated; a name of exactly three letters
is left out altogether. -/
def gradNodeName : String :=
  let joined := String.join ((words s).map upperFirst)
  let stem := if hasEnd "Grad" joined || joined.length == 3 then dropLast 4 joined else joined
  stem ++ "GradNode"

def logName : String := String.join ((words s).map lower)

/-! ## 3. Functions and variables -/

def eagerFunction : String := s ++ "_ad_func"

def intermediateFunction : String := s ++ "_intermediate"

def inplaceFunction : Fallible String :=
  match last? s with
  | none => .error .index
  | some c => .ok (if c == '_' then s else s ++ "_")

def withoutLast : String := dropLast 1 s

def savedName : String := s ++ "_"

def autogradMeta : String := s ++ "_autograd_meta"

def autogradMetaVector : String := s ++ "_autograd_meta_vec"

def baseName : String := before '@' s

def indent (n : Int) : String := String.join (List.replicate n.toNat "  ")

/-! ## 4. Types -/

def constReference : String :=
  (if hasStart "const " s then s else "const " ++ s) ++ (if hasEnd "&" s then "" else "&")

def withoutConstReference : String :=
  let t := if hasStart "const " s then dropFirst 6 s else s
  if hasEnd "&" s then dropLast 1 t else t

def isPlainTensor : Bool :=
  ["Tensor&", "Tensor", "const Tensor&", "const Tensor"].elem s

def isVectorTensor : Bool :=
  ["std::vector<std::vector<Tensor>>", "std::vector<Tensor>"].elem s

/-! ## 5. Calls -/

/-- The operator that a written call names: without a final underscore, and only its first run of
letters, digits and underscores. -/
def calledOperator (call : String) : Fallible String :=
  let name := before '(' call
  match last? name with
  | none => .error .index
  | some c =>
    let name := if c == '_' then withoutLast name else name
    match (name.toList.dropWhile (fun c => !isNameChar c)).takeWhile isNameChar with
    | [] => .error .attribute
    | cs => .ok (.ofList cs)

/-! ## 6. Files -/

def included (dir : String) (names : List String) : String :=
  String.join (names.map fun name => s!"#include \"paddle/{dir}/{name}.h\"\n")

end TensorKit.Operator.Naming

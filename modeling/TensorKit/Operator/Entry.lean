import TensorKit.Table
import TensorKit.Value.Text
/-!
Operator definitions as they are written.

A definition file lists operators.  Each entry gives the argument list, the outputs, and either the kernel that computes
the operator or another operator that it calls.  Everything else is optional: which inputs may be absent, which outputs
are intermediate, which inputs are overwritten.  The fields hold the written texts, which the three generators read and
check in different ways.
-/

namespace TensorKit.Operator

/-- An item of the parameter list of a kernel or a shape rule: the name of an input or attribute, or a
literal. -/
inductive Param where
  | name (s : String)
  | literal (v : Value)

namespace Param

def isName (s : String) : Param → Bool
  | name t => t == s
  | literal _ => false

/-- Two items are the same name or equal literals. -/
def same : Param → Param → Bool
  | name s, name t => s == t
  | literal v, literal w => v.same w
  | _, _ => false

/-- The item as it stands in a call: a name as it is, a truth value in lower case. -/
def text : Param → String
  | name s => s
  | literal (.bool b) => if b then "true" else "false"
  | literal v => v.plain

end Param

def paramsHave (ps : List Param) (s : String) : Bool := ps.any (Param.isName s)

def paramIndex? (ps : List Param) (s : String) : Option Nat := ps.findIdx? (Param.isName s)

/-- A written list of names: one text, in which a name is looked for as a part, or separate names. -/
inductive NameList where
  | text (s : String)
  | items (xs : List String)

def NameList.mentions (n : String) : NameList → Bool
  | text s => Text.contains n s
  | items xs => xs.elem n

structure InferMetaEntry where
  func : Option String
  param : Option (List Param)
  /-- fields that no generator reads -/
  others : Fields := []

/-- The written flag that asks for the vendor library: a truth value or a text. -/
inductive Flag where
  | bool (b : Bool)
  | text (s : String)

def Flag.code : Flag → String
  | bool b => if b then "true" else "false"
  | text s => s

structure KernelEntry where
  func : Option String
  param : Option (List Param) := none
  backend : Option String := none
  layout : Option String := none
  dataType : Option String := none
  useGpudnn : Option Flag := none

/-- Inputs that are passed to the kernel without conversion, and inputs whose type may be converted. -/
structure TransformEntry where
  skip : Option NameList := none
  support : Option NameList := none

structure Entry where
  op : Option String := none
  backwardOp : Option String := none
  args : Option String := none
  output : Option String := none
  optional : Option String := none
  intermediate : Option String := none
  noNeedBuffer : Option String := none
  inplace : Option String := none
  view : Option String := none
  invoke : Option String := none
  backward : Option String := none
  forward : Option String := none
  inferMeta : Option InferMetaEntry := none
  kernel : Option KernelEntry := none
  dataTransform : Option TransformEntry := none
  /-- the names of the fields that are given -/
  fields : List String := []

def given {α : Type} : Option α → Fallible α := demand .key

def nameList (s : String) : List String := Text.splitStrip ',' s

end TensorKit.Operator

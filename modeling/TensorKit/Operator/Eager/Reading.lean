import TensorKit.Operator.Canonical
import TensorKit.Operator.Naming
/-!
Arguments and outputs as the eager function generator reads them.

The generator keeps for each argument its position in the list.  An argument is a type word, a blank and a name, with a
default or without; tensors take no default.  The types are known from one table.
-/

namespace TensorKit.Operator.Eager

open Text Pattern

/-! ## 1. Types -/

inductive TensorForm where
  | one
  | many
  | nested
  deriving DecidableEq

def TensorForm.type : TensorForm → String
  | one => "Tensor"
  | many => "std::vector<Tensor>"
  | nested => "std::vector<std::vector<Tensor>>"

inductive ArgType where
  | tensor (form : TensorForm)
  | attr (type : String)
  deriving DecidableEq

def ArgType.text : ArgType → String
  | tensor form => form.type
  | attr type => type

def attrTypes : Texts :=
  typed id ["int", "int32_t", "int64_t", "size_t", "float", "double", "bool"] ++
  [("str", "std::string"), ("str[]", "std::vector<std::string>"), ("Scalar[]", "std::vector<phi::Scalar>"),
   ("Place", "paddle::Place")] ++ vectors id ["float", "int64_t", "int"] ++
  typed ("paddle::experimental::" ++ ·) ["DataLayout", "DataType", "IntArray"] ++
  typed (fun _ => "paddle::experimental::Scalar")
    ["Scalar", "Scalar(int)", "Scalar(int64_t)", "Scalar(float)", "Scalar(double)"]

def argTypes : Table String ArgType :=
  [("Tensor", .tensor .one), ("Tensor[]", .tensor .many), ("Tensor[Tensor[]]", .tensor .nested)] ++
  attrTypes.map fun p => (p.1, .attr p.2)

structure TensorArg where
  name : String
  form : TensorForm
  position : Nat
  deriving DecidableEq

structure AttrArg where
  name : String
  type : String
  default : Option String
  position : Nat
  deriving DecidableEq

structure ArgLists where
  inputs : List TensorArg := []
  attrs : List AttrArg := []

structure Signature where
  inputs : List TensorArg := []
  attrs : List AttrArg := []
  returns : List TensorArg := []
  deriving DecidableEq

/-! ## 2. What can be wrong -/

inductive Error where
  | argType (type : String)
  | returnType (type : String)
  /-- two things that have to agree do not -/
  | mismatch (left right : String)
  /-- a field that a definition file has to give -/
  | missing (field file : String)
  /-- an input of a gradient operator that the forward operator does not have -/
  | notFound (name : String)
  /-- an output of a gradient operator that is no gradient -/
  | noGradient
  | fault (kind : FailureKind)
  deriving DecidableEq

instance : Faulty Error where
  fault := .fault
  kind
    | .fault k => k
    | _ => .assertion
  message
    | .argType type =>
      some s!"The argument type {type} in yaml config is not supported in yaml_types_mapping."
    | .returnType type =>
      some s!"The return type {type} in yaml config is not supported in yaml_types_mapping."
    | .mismatch left right => some s!"lhs: {left}, rhs: {right}"
    | .missing field file => some s!"Unable to find \"{field}\" in {file}"
    | .notFound name => some s!"Cannot find {name} in forward position map"
    | .noGradient => some "Detected None = None"
    | .fault _ => none

abbrev Making := Except Error

def keysText (names : List String) : String :=
  "dict_keys([" ++ commas (names.map Text.shown) ++ "])"

/-! ## 3. Arguments -/

variable (cs : List Char)

/-- A type and what follows the blank after it, up to the end of the line. -/
def typedHere? : Option (String × String) := do
  let (type, cs) ← run? (fun c => !isBlank c) cs
  let cs ← expect? ' ' cs
  return (.ofList type, .ofList (cs.takeWhile (· != '\n')))

/-- A type that may begin with `const`, and what follows the blank after it. -/
def constTypedHere? : Option (String × String) :=
  let const := "const ".toList
  let marked := if const.isPrefixOf cs then
      (typedHere? (cs.drop const.length)).map fun t => ("const " ++ t.1, t.2)
    else none
  match marked with
  | some t => some t
  | none => typedHere? cs

/-- Defaults of data types and layouts are written without their namespace. -/
def qualifiedDefault (word : String) (default : Option String) : Option String :=
  if word = "DataType" || word = "DataLayout" then default.map ("paddle::experimental::" ++ ·)
  else default

def addArg (acc : ArgLists) (arg : String × Nat) : Making ArgLists :=
  match firstSuffix? constTypedHere? arg.1.toList with
  | none => .error (.fault .attribute)
  | some (word, rest) =>
    let (name, default) := match split '=' rest with
      | a :: b :: _ => (strip a, some (strip b))
      | _ => (strip rest, none)
    let name := Naming.baseName name
    match argTypes.get? word with
    | none => .error (.argType word)
    | some (.tensor form) => do
      ensure default.isNone (Error.fault .assertion)
      return { acc with inputs := acc.inputs ++ [⟨name, form, arg.2⟩] }
    | some (.attr type) =>
      .ok { acc with attrs := acc.attrs ++ [⟨name, type, qualifiedDefault word default, arg.2⟩] }

variable (s : String)

def readArgs : Making ArgLists :=
  (splitStrip ',' (strip s)).zipIdx.foldlM addArg {}

/-! ## 4. Outputs -/

/-- The type word and the name of an output; the name is empty if none is written. -/
def outputParts : Making (String × String) :=
  let s := strip (before '\x7b' s)
  if contains "(" s && contains ")" s then
    match split '(' (dropLast 1 s) with
    | type :: name :: _ => .ok (strip type, strip name)
    | _ => .error (.fault .index)
  else .ok (s, "")

def readOutput (out : String × Nat) : Making TensorArg := do
  let (word, name) ← outputParts out.1
  match argTypes.get? word with
  | none => .error (.returnType word)
  | some (.attr type) => .error (.mismatch "Tensor" type)
  | some (.tensor form) => return ⟨Naming.baseName name, form, out.2⟩

def readOutputs : Making (List TensorArg) :=
  (splitStrip ',' (strip s)).zipIdx.mapM readOutput

/-! ## 5. Whole signatures -/

/-- Arguments and outputs, read from the argument list without its parentheses. -/
def readSignature (args : Option String) (returns : String) : Making Signature := do
  match args with
  | none => .error (.fault .attribute)
  | some args =>
    let lists ← readArgs args
    return ⟨lists.inputs, lists.attrs, ← readOutputs returns⟩

def wholeInside? : Option String :=
  match (strip s).toList with
  | '(' :: rest =>
    if rest.getLast? = some ')' && !rest.elem '\n' then some (.ofList rest.dropLast) else none
  | _ => none

def readForward (args returns : String) : Making Signature := readSignature (wholeInside? args) returns

/-- What stands between a parenthesis and the next closing one on the same line. -/
def insideHere? : Option String := do
  let cs ← expect? '(' cs
  let inner := cs.takeWhile fun c => c != ')' && c != '\n'
  let _ ← expect? ')' (cs.drop inner.length)
  return .ofList inner

/-- The signature of a gradient operator.  The argument list ends at the first closing parenthesis. -/
def readBackward (args returns : String) : Making Signature :=
  readSignature (firstSuffix? insideHere? args.toList) returns

/-- The outputs after a closing parenthesis and an arrow, up to the end of the line. -/
def closingArrow? : Option (List Char) := do
  let cs ← expect? ')' (skipBlanks cs)
  let cs ← arrow? (skipBlanks cs)
  return (skipBlanks cs).takeWhile (· != '\n')

/-- The shortest text on the line before a closing parenthesis with an arrow, and the outputs after it. -/
def untilArrow? : List Char → Option (List Char × List Char)
  | [] => none
  | c :: cs =>
    match closingArrow? (c :: cs) with
    | some returns => some ([], returns)
    | none => if c = '\n' then none else (untilArrow? cs).map fun p => (c :: p.1, p.2)

def callHere? : Option (String × String) := do
  let cs ← expect? '(' cs
  let (args, returns) ← untilArrow? (skipBlanks cs)
  return (.ofList args, .ofList returns)

def readCall : Making Signature :=
  match firstSuffix? callHere? s.toList with
  | none => .error (.fault .attribute)
  | some (args, returns) => readSignature (some args) returns

/-! ## 6. In-place pairs -/

/-- A text without an opening and a closing parenthesis, if it has them. -/
def withoutParens : String :=
  let s := if hasStart "(" s then dropFirst 1 s else s
  if hasEnd ")" s then dropLast 1 s else s

def addInplace (t : Texts) (s : String) : Making Texts :=
  match splitText "->" (withoutParens (strip s)) with
  | input :: output :: _ => .ok (t.set (strip input) (strip output))
  | _ => .error (.fault .index)

def readInplace : Making Texts := (split ',' s).foldlM addInplace []

def readNames (s : Option String) : List String :=
  match s with
  | none => []
  | some s => (splitStrip ',' s).map Naming.baseName

end TensorKit.Operator.Eager

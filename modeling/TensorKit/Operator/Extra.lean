import TensorKit.Operator.Rename
/-!
Extra attributes.

Some attributes belong to an operator only in the static graph: they are no arguments of its functions.
The list of renamings writes them as `type name = default`, and the generated file holds, for the
operator and each of its gradient operators, their defaults and the functions that check them.
-/

namespace TensorKit.Operator

open Text

structure ExtraEntry where
  op : Option String := none
  backward : Option String := none
  /-- absent when the entry has no extra part or that part has no attributes -/
  attrs : Option (List String) := none

/-- An extra attribute: its type in generated code, its name and the text of its default. -/
structure ExtraAttr where
  type : String
  name : String
  value : String

def extraTypes : Texts :=
  typed id numbers ++ [("str", "std::string"), ("str[]", "std::vector<std::string>")] ++ vectors id numbers.tail

def readExtra (s : String) : Fallible ExtraAttr :=
  match Pattern.attr? s with
  | none => .error .attribute
  | some a => match extraTypes.get? a.type with
    | some t => .ok ⟨t, a.name, a.value⟩
    | none => .error .key

def ExtraAttr.checker (a : ExtraAttr) : String :=
  "[](framework::AttributeMap* attr_map, bool only_check_exist_value)-> void \x7b ExtraAttrChecker<"
    ++ a.type ++ ">(\"" ++ a.name ++ "\", " ++ a.value
    ++ ")(attr_map, only_check_exist_value);\x7d"

/-- The default of an extra attribute.  Defaults of vectors are written in braces already. -/
def ExtraAttr.initial (a : ExtraAttr) : String :=
  let value := if hasStart "std::vector" a.type then a.value else "\x7b" ++ a.value ++ "\x7d"
  "\x7b\"" ++ a.name ++ "\", " ++ a.type ++ value ++ "\x7d"

def extraLine (op contents : String) : String := "\x7b\"" ++ op ++ "\", \x7b " ++ contents ++ " \x7d\x7d"

def ExtraEntry.lines (e : ExtraEntry) : Fallible (List (String × String)) :=
  match e.attrs with
  | none => .ok []
  | some texts => do
    let attrs ← texts.mapM readExtra
    let initials := commas (attrs.map ExtraAttr.initial)
    let checkers := join ",\n      " (attrs.map ExtraAttr.checker)
    let op ← given e.op
    let grads := match e.backward with
      | some s => split ',' s
      | none => []
    return (op :: grads).map fun n =>
      let name := (bothNames n).2
      (extraLine name initials, extraLine name checkers)

def extraFile (entries : List ExtraEntry) : Fallible String := do
  let lines := (← entries.mapM ExtraEntry.lines).flatten
  let initials := join ",\n    " (lines.map Prod.fst)
  let checkers := join ",\n    " (lines.map Prod.snd)
  return s!"// This file is generated by paddle/phi/api/yaml/generator/ops_extra_info_gen.py
#include \"paddle/fluid/operators/ops_extra_info.h\"

#include \"paddle/fluid/platform/cudnn_workspace_helper.h\"

namespace paddle \x7b
namespace operators \x7b

ExtraInfoUtils::ExtraInfoUtils() \x7b
  g_extra_attrs_map_ = \x7b
    {initials}
  \x7d;

  g_extra_attrs_checker_ = \x7b
    {checkers}
  \x7d;
\x7d

\x7d  // namespace operators
\x7d  // namespace paddle
"

end TensorKit.Operator

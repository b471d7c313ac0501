import TensorKit.Operator.Api.Registration
/-!
Generated files.

A header declares the functions of all operators of a definition file, and a source file defines them.
Both start with the includes of their kind and put the functions into their namespaces.
-/

namespace TensorKit.Operator.Api

open Naming (included)

/-! ## 1. Frames -/

structure Files where
  header : String
  source : String

def baseIncludes : String := "#include <memory>\n\n#include \"glog/logging.h\"\n\n"

def headerIncludes : String :=
  included "phi/api/include" ["tensor"] ++ included "phi/common" ["scalar", "int_array"] ++ included "utils" ["optional"]

def tracingIncludes : String := included "fluid/platform/profiler" ["event_tracing", "supplement_tracing"]

def kernelIncludes (first : List String) : String :=
  included "phi/api/lib" (first ++ ["kernel_dispatch"]) ++ included "phi/core" ["kernel_registry"]

def customIncludes : String := kernelIncludes ["api_custom_impl", "api_gen_utils", "data_transform"]

def ruleIncludes : String := included "phi/infermeta" ["binary", "multiary", "nullary", "unary", "ternary"]

/-- What stands before and after the functions of a pair of files. -/
structure Frame where
  headerIncludes : String := "\n#include <tuple>\n\n" ++ Api.headerIncludes
  sourceIncludes : String
  opening : String
  closing : String

def Frame.files (f : Frame) (declarations definitions : String) : Files where
  header := "#pragma once\n" ++ f.headerIncludes ++ f.opening ++ declarations ++ f.closing
  source := f.sourceIncludes ++ f.opening ++ definitions ++ f.closing

def opening (spaces : List String) : String :=
  "\n" ++ String.join (spaces.map fun space => s!"namespace {space} \x7b\n")

def closing (spaces : List String) : String :=
  "\n" ++ String.join (spaces.reverse.map fun space => s!"\x7d  // namespace {space}\n")

def frameIn (inner : List String) (sourceIncludes : String) : Frame where
  sourceIncludes := sourceIncludes
  opening := opening (["paddle", "experimental"] ++ inner) ++ "\n"
  closing := "\n" ++ closing (["paddle", "experimental"] ++ inner)

def forwardFrame : Frame := frameIn [] <|
  "\n" ++ included "phi/api/include" ["api"] ++ baseIncludes ++
  customIncludes ++ ruleIncludes ++ "\n" ++ tracingIncludes ++
  "\nDECLARE_bool(conv2d_disable_cudnn);\n"

def backwardFrame : Frame := frameIn [] <|
  "\n" ++ included "phi/api/backward" ["backward_api"] ++ baseIncludes ++
  customIncludes ++ included "phi/api/include" ["api"] ++
  included "phi/infermeta" ["backward", "unary"] ++ "\n" ++ included "fluid/eager/api/utils" ["global_utils"] ++
  tracingIncludes ++ "\nDECLARE_bool(conv2d_disable_cudnn);\n"

def sparseFrame : Frame := frameIn ["sparse"] <|
  "\n" ++ included "phi/api/include" ["sparse_api"] ++ baseIncludes ++
  kernelIncludes ["api_gen_utils", "data_transform"] ++
  included "phi/infermeta" ["unary", "binary", "ternary", "multiary"] ++ included "utils" ["none"] ++ "\n" ++
  included "phi/infermeta/sparse" ["unary", "binary", "multiary"]

def sparseBackwardFrame : Frame :=
  { frameIn ["sparse"] <|
      "\n" ++ included "phi/api/backward" ["sparse_bw_api"] ++ baseIncludes ++
      included "phi/api/include" ["sparse_api"] ++ kernelIncludes ["api_gen_utils"] ++ "\n" ++
      included "phi/infermeta" ["unary", "binary", "backward"] ++ "\n" ++
      included "phi/infermeta/sparse" ["unary", "binary", "backward"] with
    headerIncludes := "\n" ++ Api.headerIncludes }

def stringsFrame : Frame := frameIn ["strings"] <|
  "\n" ++ included "phi/api/include" ["strings_api"] ++ "\n" ++ included "phi/api/lib" ["api_gen_utils"] ++
  included "phi/core" ["kernel_context", "string_tensor"] ++ included "phi/infermeta/strings" ["nullary", "unary"] ++
  kernelIncludes ["api_registry"]

def intermediateFrame : Frame := frameIn [] <|
  included "phi/api/lib" ["dygraph_api"] ++ "\n" ++ baseIncludes ++
  customIncludes ++ ruleIncludes ++ "\n" ++
  included "phi/infermeta/sparse" ["unary", "binary", "multiary"] ++ "\n" ++ tracingIncludes

def ruleFrame : Frame where
  headerIncludes := "\n" ++ included "phi/core" ["meta_tensor"] ++ included "phi/common" ["scalar", "int_array"]
  sourceIncludes := "\n" ++ included "phi/infermeta" ["generated"] ++ included "phi/core" ["infermeta_utils"] ++ ruleIncludes
  opening := opening ["phi"]
  closing := closing ["phi"]

/-! ## 2. Files -/

/-- The contents of a definition file, which is empty or lists operators. -/
abbrev Listing := Option (List Entry)

def listed : Listing → Making (List Entry) := demand (.fault .type)

variable (files : List Listing)

/-- The operators of several listings, of which some may be empty. -/
def listedAll : List Entry := files.flatMap fun f => f.getD []

/-- Declarations and definitions of operators; `adapt` settles which of them are printed and whether they
return their intermediate outputs. -/
def printAll (kind : Kind) (adapt : Api → Option Api) (entries : List Entry) : Making (String × String) := do
  let parts ← entries.mapM fun e => do
    match adapt (← ofEntry kind e) with
    | some api => return (← declarationText api, ← codeText api)
    | none => return ("", "")
  return (String.join (parts.map Prod.fst), String.join (parts.map Prod.snd))

def withoutIntermediate (api : Api) : Option Api := some { api with dygraph := false }

def onlyIntermediate (api : Api) : Option Api := if api.dygraph then some api else none

def Frame.print (f : Frame) (kind : Kind) (adapt : Api → Option Api) (entries : List Entry) : Making Files := do
  let (decls, defs) ← printAll kind adapt entries
  return f.files decls defs

def forwardFiles : Making Files := forwardFrame.print .forward withoutIntermediate (listedAll files)

def backwardFiles : Making Files := backwardFrame.print .backward some (listedAll files)

def sparseFiles (file : Listing) : Making Files := do sparseFrame.print .sparse withoutIntermediate (← listed file)

def sparseBackwardFiles (file : Listing) : Making Files := do
  sparseBackwardFrame.print .sparseBackward some (← listed file)

def stringsFiles (file : Listing) : Making Files := do stringsFrame.print .strings some (← listed file)

def intermediateFiles (sparse : Listing) : Making Files := do
  let (decls, defs) ← printAll .forward onlyIntermediate (listedAll files)
  let (sparseDecls, sparseDefs) ← printAll .sparse onlyIntermediate (← listed sparse)
  let within (dense sparse : String) : String :=
    dense ++ "\nnamespace sparse \x7b\n" ++ sparse ++ "\n\x7d  // namespace sparse\n"
  return intermediateFrame.files (within decls sparseDecls) (within defs sparseDefs)

/-- The files of wrapped shape rules; the registrations stand at the end of the source file. -/
def ruleFiles : Making Files := do
  let table ← ruleTable (listedAll files)
  let files := ruleFrame.files (String.join (table.wrappers.map RuleWrapper.declaration))
    (String.join (table.wrappers.map RuleWrapper.definition))
  return { files with source := files.source ++ table.registrationText }

end TensorKit.Operator.Api

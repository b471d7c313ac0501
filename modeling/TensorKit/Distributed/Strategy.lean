import TensorKit.Arguments
import TensorKit.Value.Document
/-!
Strategies of distributed training.

A strategy has fields of its own and sections with fields.  Every field has a default, and a document overrides the
fields it names; the value `not_found` counts as no value.  A field can be set to anything, and a section that is set to
data is a section no more.
-/

namespace TensorKit.Distributed

/-! ## 1. Fields and their defaults -/

inductive Section where
  | recompute
  | amp
  | sharding
  | gradientMerge
  | qat
  | tuning

namespace Section

def all : List Section := [recompute, amp, sharding, gradientMerge, qat, tuning]

def name : Section → String
  | recompute => "recompute"
  | amp => "amp"
  | sharding => "sharding"
  | gradientMerge => "gradient_merge"
  | qat => "qat"
  | tuning => "tuning"

def defaults : Section → Fields
  | recompute => [("enable", .bool false), ("checkpoints", .null), ("enable_tuning", .bool false)]
  | amp =>
    [("enable", .bool false), ("init_loss_scaling", .float 32768.0), ("incr_every_n_steps", .int 1000),
     ("decr_every_n_nan_or_inf", .int 2), ("incr_ratio", .float 2.0), ("decr_ratio", .float 0.8),
     ("use_dynamic_loss_scaling", .bool true), ("custom_white_list", .list []), ("custom_black_list", .list []),
     ("custom_black_varnames", .list []), ("use_pure_fp16", .bool false), ("use_fp16_guard", .bool true),
     ("use_optimizer_fp16", .bool false)]
  | sharding =>
    [("enable", .bool false), ("stage", .int 1), ("degree", .int 8), ("segment_broadcast_MB", .float 32.0),
     ("enable_tuning", .bool false), ("tuning_range", .list [])]
  | gradientMerge => [("enable", .bool false), ("k_steps", .int 1), ("avg", .bool true)]
  | qat =>
    [("enable", .bool false), ("channel_wise_abs_max", .bool true), ("weight_bits", .int 8),
     ("activation_bits", .int 8), ("not_quant_pattern", .list [.str "skip_quant"]), ("algo", .null)]
  | tuning =>
    [("enable", .bool false), ("batch_size", .int 1), ("dataset", .null), ("profile_start_step", .int 1),
     ("profile_end_step", .int 1), ("run_after_tuning", .bool true), ("verbose", .bool true)]

end Section

def Section.ownDefaults : Fields :=
  [("auto_mode", .str "semi"), ("gradient_scale", .bool true), ("use_cache", .bool true),
   ("return_numpy", .bool true), ("all_ranks", .bool false), ("split_data", .bool true), ("seed", .null),
   ("reinit", .bool false)]

/-! ## 2. Configurations -/

/-- Fields by name, the known ones with their defaults. -/
structure Config where
  /-- the names of the known fields -/
  known : List String
  fields : Table String Value

namespace Config

def ofDefaults (ds : Fields) : Config := ⟨ds.map Prod.fst, .ofList ds⟩

def set (c : Config) (k : String) (v : Value) : Config := { c with fields := c.fields.set k v }

/-- Set the known fields that a document names. -/
def override (c : Config) (d : Table String Value) : Config :=
  c.known.foldl (fun c k => match d.get? k with
    | some v => if v == .str "not_found" then c else c.set k v
    | none => c) c

def toList (c : Config) : Fields := c.known.map fun k => (k, (c.fields.get? k).getD .null)

end Config

def fieldsText (fs : Fields) : String :=
  "\x7b" ++ String.join (fs.map fun f => s!"\"{f.1}\":\"{f.2.plain}\",") ++ "\x7d"

/-! ## 3. Strategies -/

/-- A strategy: its own fields, and the sections that are still there. -/
structure Strategy where
  own : Config
  sections : Table String Config

variable (s : Strategy) (name : String)

namespace Strategy

inductive Error where
  | fault (kind : FailureKind)
  | notDocument (found : String)

instance : Cause Error where
  kind
    | .fault k => k
    | .notDocument _ => .value
  message
    | .fault _ => none
    | .notDocument found => some s!"Expected a dictionary. But received: {found}"

def documentOf : Value → Except Error (Table String Value)
  | .null => .ok []
  | .dict ps => .ok (ps.filterMap fun p => p.1.str?.map fun k => (k, p.2))
  | v => .error (.notDocument v.plain)

def make (config : Value) : Except Error Strategy := do
  let d ← documentOf config
  let sections ← Section.all.mapM fun s => do
    return (s.name, (Config.ofDefaults s.defaults).override (← documentOf ((d.get? s.name).getD .null)))
  return ⟨(Config.ofDefaults Section.ownDefaults).override d, sections⟩

def ofArguments : List Value → Except Error Strategy
  | [] => make .null
  | [config] => make config
  | _ => .error (.fault .type)

def toList : Fields :=
  s.own.toList ++ s.sections.map fun p => (p.1, .record p.2.toList)

def sectionOf : Except Error Config :=
  demand (.fault .attribute) (s.sections.get? name)

/-- Change the strategy itself, if no section is named, or a section. -/
def change (f : Config → Config) : Except Error Strategy := do
  if name = "" then return { s with own := f s.own }
  return { s with sections := s.sections.set name (f (← s.sectionOf name)) }

def set (name field : String) (v : Value) : Except Error Strategy := do
  let s ← s.change name fun c => c.set field v
  return if name = "" then { s with sections := s.sections.erase field } else s

/-- Set the known fields of the strategy or of a section that a document names. -/
def override (d : Value) : Except Error Strategy :=
  match d with
  | .dict ps => s.change name fun c => c.override (ps.filterMap fun p => p.1.str?.map fun k => (k, p.2))
  | _ => .error (.fault .attribute)

/-- The text of the strategy, if no section is named, of a section, or of a field. -/
def text : Except Error String :=
  if name = "" then .ok (fieldsText s.toList)
  else match s.sections.get? name, s.own.fields.get? name with
    | some c, _ => .ok (fieldsText c.toList)
    | none, some v => .ok v.shown
    | none, none => .error (.fault .attribute)

/-- Is mixed precision on, in a strategy and in a copy of it where it is switched on? -/
def switched : Except Error (List Value) := do
  let copy ← s.set "amp" "enable" (.bool true)
  return [s, copy].map fun s => (((s.sections.get? "amp").bind fun c => c.fields.get? "enable").getD .null)

end Strategy

/-! ## 4. The overview of tuned sections -/

namespace Overview

/-- The width of a column, of the gap between the two, and of a line. -/
def column : Nat := 38

def width : Nat := column + 2 + column

def across (c : Char) : String := "    +" ++ .ofList (List.replicate width c) ++ "+"

def heading (s : String) : String := "    |" ++ Text.centered width s ++ "|"

def row (f : String × Value) : String :=
  "    |" ++ Text.toRight column f.1 ++ "  " ++ Text.centered column f.2.plain ++ "|"

def ofSection (fs : Fields) : List String :=
  [across '=', heading s!"{name} auto=True <-> {name}", across '-'] ++ fs.map row

end Overview

def Strategy.overview (names : List String) : Except Strategy.Error String := do
  let parts ← names.mapM fun n => do return Overview.ofSection n (← s.sectionOf n).toList
  return "\n".intercalate ([Overview.across '=', Overview.heading "", Overview.heading "Tuned Configuartions Overview",
    Overview.heading ""] ++ parts.flatten ++ [Overview.across '='])

end TensorKit.Distributed

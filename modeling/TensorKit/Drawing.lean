import TensorKit.Arguments
import TensorKit.Value.Arithmetic
/-!
Drawings of graphs.

A drawing has a title, attributes, nodes, edges and groups of nodes of one rank; it is written as a directed graph
in the text form that layout programs read.  A preview is a drawing with three ranks in which parameters, operators
and arguments have a look of their own.
-/

namespace TensorKit.Drawing

/-! ## 1. Parts and their texts -/

structure Node where
  label : Value
  name : String
  attributes : Fields

structure Edge where
  source : String
  target : String
  attributes : Fields

structure Rank where
  kind : Value
  name : String
  priority : Value
  /-- the names of the nodes -/
  nodes : List String := []

def quoted : Value → String
  | .str s => "\"" ++ s ++ "\""
  | v => v.plain

def settings (attributes : Fields) : String :=
  ",".intercalate (attributes.map fun a => a.1 ++ "=" ++ quoted a.2)

def Node.text (n : Node) : String :=
  let extra := if n.attributes.isEmpty then "" else "," ++ settings n.attributes
  s!"{n.name} [label={n.label.plain} {extra} ];"

def Edge.text (e : Edge) : String :=
  let extra := if e.attributes.isEmpty then "" else "[" ++ settings e.attributes ++ "]"
  s!"{e.source} -> {e.target} {extra}"

def Rank.text (r : Rank) : String :=
  if r.nodes.isEmpty then ""
  else "\x7brank=" ++ r.kind.plain ++ ";" ++ ",".intercalate r.nodes ++ "\x7d"

end Drawing

open Drawing in
/-- A drawing.  Nodes are numbered from one, also those that are not kept. -/
structure Drawing where
  title : Value
  attributes : Fields
  ranks : List Rank := []
  nodes : List Node := []
  edges : List Edge := []
  numbered : Nat := 1

namespace Drawing

/-! ## 2. Building -/

def addRank (kind priority : Value) (d : Drawing) : Drawing × String :=
  let name := s!"rankgroup-{d.ranks.length}"
  ({ d with ranks := d.ranks ++ [⟨kind, name, priority, []⟩] }, name)

def intoRank (n : Node) (ranks : List Rank) : Fallible (List Rank) :=
  match n.attributes.lookup "rank" with
  | none => .ok ranks
  | some (.str r) =>
    if ranks.any fun k => k.name == r then
      .ok (ranks.map fun k => if k.name == r then { k with nodes := k.nodes ++ [n.name] } else k)
    else .error .key
  | some (.list _) | some (.dict _) | some (.set _) => .error .type
  | some _ => .error .key

def addNode (label start : Value) (attributes : Fields) (d : Drawing) : Drawing × Fallible Node :=
  let n : Node := ⟨label, s!"{start.plain}_{d.numbered}", attributes⟩
  let d := { d with numbered := d.numbered + 1 }
  match intoRank n d.ranks with
  | .ok ranks => ({ d with ranks := ranks, nodes := d.nodes ++ [n] }, .ok n)
  | .error k => (d, .error k)

/-- Add a node whose label, start of the name and description may be given by position or by name. -/
def nodeOf (args : List Value) (named : Fields) (d : Drawing) : Drawing × Fallible Node :=
  let own := ["label", "prefix", "description"]
  match Arguments.bind [Arguments.required "label", Arguments.required "prefix",
      Arguments.optional "description" (Value.str "")] args (named.filter fun a => own.contains a.1) with
  | .ok (label :: start :: _) => d.addNode label start (named.filter fun a => !own.contains a.1)
  | _ => (d, .error .type)

def addEdge (source target : Node) (attributes : Fields) (d : Drawing) : Drawing × Fallible Edge :=
  if attributes.any fun a => a.1 == "source" || a.1 == "target" then (d, .error .type)
  else
    let e : Edge := ⟨source.name, target.name, attributes⟩
    ({ d with edges := d.edges ++ [e] }, .ok e)

/-! ## 3. Writing -/

def comparePriorities : List Rank → Fallible Unit
  | a :: b :: rest => do
    let _ ← Value.less a.priority b.priority
    comparePriorities (b :: rest)
  | _ => .ok ()

variable (d : Drawing)

def ranksText : Fallible String := do
  comparePriorities d.ranks
  return "\n".intercalate (d.ranks.map Rank.text) ++ "\n"

def text : Fallible String := do
  let ranks ← d.ranksText
  return "\n".intercalate (["digraph G \x7b", "title = " ++ quoted d.title] ++
    (d.attributes.map fun a => s!"{a.1}={quoted a.2};") ++ [ranks] ++ d.nodes.map Node.text ++
    d.edges.map Edge.text ++ ["\x7d"])

def make (title : Value) (attributes : Fields) : Fallible Drawing :=
  if attributes.any fun a => a.1 == "title" then .error .type else .ok ⟨title, attributes, [], [], [], 1⟩

/-! ## 4. Previews -/

def preview (title : Value) : Drawing :=
  let d : Drawing := ⟨title, [("layout", .str "dot"), ("concentrate", .str "true"), ("rankdir", .str "TB")],
    [], [], [], 1⟩
  [2, 1, 0].foldl (fun d (p : Int) => (d.addRank (.str "same") (.int p)).1) d

def look (attributes : List (String × String)) : Fields :=
  attributes.map fun a => (a.1, .str a.2)

def color (usual : String) (highlight : Value) : String := if highlight.truthy then "orange" else usual

open Arguments in
def addParameter (args : List Value) (named : Fields) (d : Drawing) : Drawing × Fallible Node :=
  match bind [required "name", required "data_type", optional "highlight" (Value.bool false)] args named with
  | .ok [.str name, type, highlight] =>
    d.addNode (.str ("\n".intercalate ["<<table cellpadding=\"5\">", "  <tr>", "    <td bgcolor=\"#2b787e\">",
      "    <b>", name, "    </b>", "    </td>", "  </tr>", "  <tr>", "    <td>", type.plain,
      "    </td>  </tr>", "</table>>"])) (.str "param")
      (look [("shape", "none"), ("style", "rounded,filled,bold"), ("width", "1.3"),
        ("color", color "#148b97" highlight), ("fontcolor", "#ffffff"), ("fontname", "Arial")])
  | _ => (d, .error .type)

open Arguments in
/-- Add an operator; attributes other than `highlight` are not used. -/
def addOperator (args : List Value) (named : Fields) (d : Drawing) : Drawing × Fallible Node :=
  match bind [required "opType"] args (named.filter fun a => a.1 == "opType") with
  | .ok [type] =>
    d.addNode (.str ("<<B>" ++ type.plain ++ "</B>>")) (.str "op")
      (look [("shape", "box"), ("style", "rounded, filled, bold"),
        ("color", color "#303A3A" ((named.lookup "highlight").getD (.bool false))), ("fontname", "Arial"),
        ("fontcolor", "#ffffff"), ("width", "1.3"), ("height", "0.84")])
  | _ => (d, .error .type)

open Arguments in
def addArgument (args : List Value) (named : Fields) (d : Drawing) : Drawing × Fallible Node :=
  match bind [required "name", optional "highlight" (Value.bool false)] args named with
  | .ok [name, highlight] =>
    d.addNode (.str (quoted name)) (.str "arg")
      (look [("shape", "box"), ("style", "rounded,filled,bold"), ("fontname", "Arial"), ("fontcolor", "#999999"),
        ("color", color "#dddddd" highlight)])
  | _ => (d, .error .type)

def addPreviewEdge (source target : Node) (named : Fields) (d : Drawing) : Drawing × Fallible Edge :=
  let rest := named.filter fun a => a.1 != "highlight"
  if rest.any fun a => a.1 == "color" then (d, .error .type)
  else
    let c := color "#00000" ((named.lookup "highlight").getD (.bool false))
    d.addEdge source target (("color", .str c) :: rest)

end Drawing

end TensorKit

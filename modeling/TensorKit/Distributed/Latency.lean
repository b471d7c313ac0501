import TensorKit.Distributed.Device
import TensorKit.Value.Arithmetic
import TensorKit.Value.Marked
/-!
Latencies of communication.

A description may give a base time for rings and for trees, a time for a step inside a machine and between machines, and
a time for a switch; a step may be given by the kind of its link instead.  `Timing` has the times that are used: those
given, and the usual ones where none is.
-/

namespace TensorKit.Distributed

inductive Latency.Error where
  | fault (kind : FailureKind)
  | switch
  | base
  /-- a step named by its place and its way -/
  | step (name : String)

def Latency.Error.message : Latency.Error → Option String
  | fault _ => none
  | switch => some "The switch latency must be float"
  | base => some "The base ring latency must be float."
  | step name => some s!"The {name} latency must be float."

def Latency.Error.kind : Latency.Error → FailureKind
  | fault k => k
  | _ => .type

instance : Faulty Latency.Error := { kind := Latency.Error.kind, message := Latency.Error.message, fault := .fault }

/-- The latency of a step: that of a kind of link, or a time. -/
inductive Latency where
  | link (t : LinkType)
  | time (x : Value)

structure Latencies where
  baseRing : Option Value
  baseTree : Option Value
  switch : Option Value
  interRing : Option Latency
  interTree : Option Latency
  intraRing : Option Latency
  intraTree : Option Latency

namespace Latency

def document : Latency → Value
  | link t => .str t.name
  | time x => x.marked

/-- Is it the latency of a kind of link?  A time equal to the number of the kind counts as well. -/
def isLink (t : LinkType) : Latency → Bool
  | link u => t = u
  | time x => Value.same x (.int t.number)

/-- A field of a part of the description; null counts as not given. -/
def entry? (k : String) : Value → Fallible (Option Value)
  | .dict items => .ok (match (Value.dict items).field? k with
    | some .null => none
    | v? => v?)
  | _ => .error .attribute

def timeOr (e : Error) (v : Value) : Except Error Value :=
  match Arithmetic.floating v with
  | .ok x => .ok x
  | .error _ => .error e

def stepOf (name : String) (kinds : List LinkType) : Value → Except Error Latency
  | .str s => match kinds.find? fun t => t.name == s with
    | some t => .ok (link t)
    | none => .error (.fault .assertion)
  | v => (timeOr (.step name) v).map time

end Latency

namespace Latencies

open Latency

def ofValue (v : Value) : Except Latency.Error Latencies := do
  let .dict _ := v | .error (.fault .assertion)
  let base ← entry? "base" v
  let inter := (← entry? "inter" v).getD .null
  let intra := (← entry? "intra" v).getD .null
  let switch ← (← entry? "switch" v).mapM (timeOr .switch)
  let baseEntry (k : String) : Fallible (Option Value) := match base with
    | some b => entry? k b
    | none => .ok none
  let baseRing ← baseEntry "ring"
  let baseTree ← baseEntry "tree"
  let _ ← baseEntry "inter"
  let baseRing ← baseRing.mapM (timeOr .base)
  let baseTree ← baseTree.mapM (timeOr .base)
  let interRing ← entry? "ring" inter
  let interTree ← entry? "tree" inter
  let intraRing ← entry? "ring" intra
  let intraTree ← entry? "tree" intra
  return {
    baseRing, baseTree, switch
    interRing := ← interRing.mapM (stepOf "inter ring" [.net])
    interTree := ← interTree.mapM (stepOf "inter tree" [.net])
    intraRing := ← intraRing.mapM (stepOf "intra ring" [.nvl, .phb])
    intraTree := ← intraTree.mapM (stepOf "intra tree" [.nvl, .phb]) }

def document (l : Latencies) : Value :=
  let time (x : Option Value) : Value := (x.map Value.marked).getD .null
  let step (x : Option Latency) : Value := (x.map Latency.document).getD .null
  .list [time l.baseRing, time l.baseTree, time l.switch, step l.interRing, step l.interTree, step l.intraRing,
    step l.intraTree]

end Latencies

structure Timing where
  baseRing : Value := .float 8.4
  baseTree : Value := .float 0.0
  intraRing : Value := .float 3.4
  intraTree : Value := .int 28
  interRing : Value := .float 9.6
  interTree : Value := .int 28
  switch : Value := .float 10.0

namespace Timing

/-- The time of a step: that of its kind of link, or the time given, or the usual one. -/
def step (usual : Value) (kinds : List (LinkType × Value)) : Option Latency → Value
  | none => usual
  | some l => match kinds.find? fun p => l.isLink p.1, l with
    | some p, _ => p.2
    | none, .time x => x
    | none, .link _ => usual

def ofLatencies : Option Latencies → Timing
  | none => {}
  | some l => {
    baseRing := l.baseRing.getD (.float 8.4)
    baseTree := l.baseTree.getD (.float 0.0)
    intraRing := step (.float 3.4) [(.nvl, .float 3.4), (.phb, .float 5.7)] l.intraRing
    intraTree := step (.int 28) [(.nvl, .int 28), (.phb, .int 28)] l.intraTree
    interRing := step (.float 9.6) [(.net, .float 9.6)] l.interRing
    interTree := step (.int 28) [(.net, .int 28)] l.interTree
    switch := l.switch.getD (.int 10) }

def toList (t : Timing) : List Value :=
  [t.baseRing, t.baseTree, t.intraRing, t.intraTree, t.interRing, t.interTree, t.switch]

end Timing

end TensorKit.Distributed

import TensorKit.Position
import TensorKit.Value.Document
/-!
Topologies: ranks with a coordinate on each of some named axes.

The ranks are numbered in row-major order of their coordinates.  The communication groups of an axis are the lists of
ranks whose coordinates differ only on that axis.
-/

namespace TensorKit.Distributed

open Position

/-! ## 1. Names -/

/-- What counts as a name beyond ASCII.  A name can be spelled in several ways, and one of them is its normal form:
parameters are known by their normal forms, but arguments that are given by name have the names as they are spelled. -/
structure Naming where
  starts : Char → Bool
  continues : Char → Bool
  normal : String → String
  normal_normal : ∀ s, normal (normal s) = normal s
  normal_ascii : ∀ s, (∀ c ∈ s.toList, c.toNat < 128) → normal s = s

namespace Naming

def keywords : List String :=
  ["False", "None", "True", "and", "as", "assert", "async", "await", "break", "class", "continue", "def", "del",
   "elif", "else", "except", "finally", "for", "from", "global", "if", "import", "in", "is", "lambda", "nonlocal",
   "not", "or", "pass", "raise", "return", "try", "while", "with", "yield"]

/-- Can a text be the name of an axis?  It is a word that starts with a letter. -/
def isName (r : Naming) (s : String) : Bool :=
  match s.toList with
  | [] => false
  | c :: cs => (c.isAlpha || 128 ≤ c.toNat && r.starts c) &&
      cs.all (fun c => Text.isNameChar c || 128 ≤ c.toNat && r.continues c) && !keywords.contains s

/-- Letters of Latin-1 and ligatures, with what a normal form has for them. -/
def letters : Table Char String :=
  [('ª', "a"), ('º', "o"), ('µ', "μ"), ('ﬀ', "ff"), ('ﬁ', "fi"), ('ﬂ', "fl"), ('ﬃ', "ffi"), ('ﬄ', "ffl"), ('ﬅ', "st"),
   ('ﬆ', "st")]

def spelled (c : Char) : List Char := ((letters.get? c).map String.toList).getD [c]

theorem spelled_of_mem {c d : Char} (hd : d ∈ spelled c) : spelled d = [d] := by
  have hletters : ∀ p ∈ letters, p.2.toList.all fun d => spelled d = [d] := by decide
  cases hc : letters.get? c with
  | none =>
    obtain rfl : d = c := by simpa [spelled, hc] using hd
    simp [spelled, hc]
  | some s =>
    have hall := List.all_eq_true.mp (hletters _ (Table.mem_of_get?_eq_some hc))
    exact of_decide_eq_true (hall d (by simpa [spelled, hc] using hd))

theorem spelled_of_lt {c : Char} (h : c.toNat < 128) : spelled c = [c] := by
  have hletters : ∀ p ∈ letters, 128 ≤ p.1.toNat := by decide
  cases hc : letters.get? c with
  | none => simp [spelled, hc]
  | some s => exact absurd (hletters _ (Table.mem_of_get?_eq_some hc)) (Nat.not_le.mpr h)

theorem flatMap_eq_self {f : Char → List Char} {cs : List Char} (h : ∀ c ∈ cs, f c = [c]) : cs.flatMap f = cs := by
  rw [List.flatMap_def, List.map_congr_left h, ← List.flatMap_def, List.flatMap_singleton']

def isLetter (c : Char) : Bool := Text.isWord c && !"²³¹¼½¾".toList.contains c

/-- Word characters, with normal forms for Latin-1 and the ligatures. -/
def usual : Naming where
  starts c := letters.has c || isLetter c && !Text.isDecimal c
  continues c := isLetter c || c == '·'
  normal s := .ofList (s.toList.flatMap spelled)
  normal_normal s := by
    rw [String.toList_ofList, flatMap_eq_self fun d hd => ?_]
    obtain ⟨c, -, hc⟩ := List.mem_flatMap.mp hd
    exact spelled_of_mem hc
  normal_ascii s h := by rw [flatMap_eq_self fun c hc => spelled_of_lt (h c hc), String.ofList_toList]

end Naming

/-! ## 2. Making topologies -/

structure Topology where
  names : List String
  sizes : List Int
  naming : Naming

variable (t : Topology) (name : String)

namespace Topology

/-- The names of the parameters that coordinates are made of. -/
def parameters : List String := t.names.map t.naming.normal

def coordinates : List (List Nat) := Tensor.positions (t.sizes.map Int.toNat)

def make (names : List String) (sizes : List Int) (naming : Naming := .usual) : Fallible Topology :=
  let t : Topology := ⟨names, sizes, naming⟩
  if !names.all naming.isName || names.eraseDups.length ≠ names.length then .error .value
  else if t.parameters.eraseDups.length ≠ names.length then .error .illFormed
  else if sizes.isEmpty then .error .type
  else if names.length ≠ sizes.length ∧ !t.coordinates.isEmpty then .error .type
  else .ok t

def usual : Topology := ⟨["data", "pipe", "sharding", "model"], [1, 1, 1, 1], .usual⟩

/-! ## 3. Ranks and coordinates -/

def worldSize : Int := product t.sizes

def axis : Fallible Nat := find name t.names

def size : Fallible Int := do pick t.sizes (← t.axis name)

def knownSize : Fallible Int :=
  if t.names.contains name then t.size name else .error .assertion

def rankAt? (c : List Int) : Option Nat :=
  t.coordinates.findIdx? fun d => d.map Int.ofNat == c

def coordinate (rank : Int) : Fallible (List Nat) :=
  if t.worldSize ≤ rank || rank < 0 then .error .assertion
  else demand .assertion t.coordinates[rank.toNat]?

/-- Can coordinates be given by these names, next to arguments that have names of their own?  The topology itself is
always one of those, under the name `self`. -/
def areFree (taken names : List String) : Bool := !names.any fun n => n = "self" || taken.contains n

/-- The rank with coordinates that are given by name, under the names of all parameters and no others. -/
def rankBy (missing : FailureKind) (c : Table String Int) : Fallible Nat :=
  if !t.parameters.all (fun n => c.has n) || !c.keys.all fun n => t.parameters.contains n then .error .type
  else (t.rankAt? (t.parameters.filterMap fun n => c.get? n)).elim (.error missing) .ok

def rank (c : Table String Int) : Fallible Nat := do
  if !areFree [] c.keys then .error .type
  if c.length ≠ t.sizes.length then .error .assertion
  t.rankBy .assertion c

def rankFrom (rank : Int) (changes : Table String Int) : Fallible Nat := do
  if !areFree ["global_rank"] changes.keys then .error .type
  let c ← t.coordinate rank
  if !changes.keys.all fun n => t.names.contains n then .error .value
  t.rank ((t.names.zip c).map fun (n, i) => (n, (changes.get? n).getD i))

/-! ## 4. Groups -/

def ranksAt (index : Int) : Fallible (List Nat) := do
  let a ← t.axis name
  return t.coordinates.zipIdx.filterMap fun (d, r) => if d[a]?.map Int.ofNat = some index then some r else none

/-- The communication groups of an axis: one for each choice of the other coordinates, in order, with the ranks
by increasing coordinate on the axis. -/
def groups : Fallible (List (List Nat)) := do
  if !t.names.contains name then .error .assertion
  let others := t.names.filter (· ≠ name)
  let sizes ← others.mapM t.size
  (Tensor.positions (sizes.map Int.toNat)).mapM fun c => do
    (List.range (← t.size name).toNat).mapM fun (i : Nat) =>
      t.rankBy .key (others.zip (c.map Int.ofNat) ++ [(name, (i : Int))])

end Topology

end TensorKit.Distributed

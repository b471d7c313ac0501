import TensorKit.Text.Word
/-!
The shapes of texts in definitions.

Each function looks for one shape in a text and returns its parts: an output with its name and size, a call of a forward
operator, an arrow between two names, kernels with the kinds of their tensors.  The leftmost place where the shape fits
counts, and runs of characters are taken as long as they go, unless said otherwise.
-/

namespace TensorKit.Operator.Pattern

open Text

def firstSuffix? {α : Type} (f : List Char → Option α) : List Char → Option α
  | [] => f []
  | c :: cs => match f (c :: cs) with
    | some a => some a
    | none => firstSuffix? f cs

variable (cs : List Char)

def skipBlanks : List Char := cs.dropWhile isBlank

def run? (p : Char → Bool) (cs : List Char) : Option (List Char × List Char) :=
  match cs.takeWhile p with
  | [] => none
  | c :: r => some (c :: r, cs.dropWhile p)

def expect? (c : Char) : List Char → Option (List Char)
  | [] => none
  | d :: cs => if d = c then some cs else none

def arrow? : List Char → Option (List Char)
  | '-' :: '>' :: cs => some cs
  | _ => none

/-! ## 1. Outputs -/

/-- Characters of a type word: letters, digits, underscore and brackets. -/
def isTypeChar (c : Char) : Bool := isNameChar c || c == '[' || c == ']'

def enclosed? (opening closing : Char) (p : Char → Bool) (cs : List Char) : Option (List Char × List Char) := do
  let cs ← expect? opening cs
  let (inner, cs) ← run? p cs
  let cs ← expect? closing cs
  return (inner, cs)

structure OutputText where
  type : String
  name : Option String
  size : Option String

/-- An output: a type word, then a name in parentheses or none, then a size in braces or none. -/
def outputHere? : Option OutputText := do
  let (type, cs) ← run? isTypeChar cs
  let cs := skipBlanks cs
  let (name, cs) := match enclosed? '(' ')' (fun c => isNameChar c || c == '@') cs with
    | some (n, r) => (some n, r)
    | none => (none, cs)
  let cs := skipBlanks cs
  let size := (enclosed? '\x7b' '\x7d' (fun c => c != '\x7d') cs).map Prod.fst
  return ⟨.ofList type, name.map .ofList, size.map .ofList⟩

variable (s : String)

def output? : Option OutputText := firstSuffix? outputHere? s.toList

/-! ## 2. Calls of forward operators -/

structure CallText where
  name : String
  /-- the arguments with their parentheses -/
  args : String
  outputs : String

/-- What follows the arrow, up to the end of its line: without the blanks in front, unless there is
nothing else. -/
def afterArrow? : Option (List Char) :=
  match (skipBlanks cs).takeWhile (· != '\n') with
  | [] =>
    match (cs.takeWhile isBlank).reverse.find? (· != '\n') with
    | some c => some [c]
    | none => none
  | c :: r => some (c :: r)

/-- A call at this place: a name of at least two lower-case letters, digits or underscores that begins
with a letter, arguments in parentheses, an arrow, and outputs. -/
def callHere? : Option CallText := do
  let head ← cs.head?
  guard (head.isLower)
  let (rest, cs) ← run? (fun c => c.isLower || c.isDigit || c == '_') cs.tail
  let (args, cs) ← enclosed? '(' ')' (fun c => c != ')') (skipBlanks cs)
  let cs ← arrow? (skipBlanks cs)
  let outputs ← afterArrow? cs
  return ⟨.ofList (head :: rest), .ofList ('(' :: args ++ [')']), .ofList outputs⟩

def call? : Option CallText := firstSuffix? callHere? s.toList

/-! ## 3. Arrows between names -/

def pairHere? : Option (String × String) := do
  let (a, cs) ← run? isWord cs
  let cs ← arrow? (skipBlanks cs)
  let (b, _) ← run? isWord (skipBlanks cs)
  return (.ofList a, .ofList b)

def pair? : Option (String × String) := firstSuffix? pairHere? s.toList

/-! ## 4. Kernels -/

def kernelHere? : Option ((String × Option String) × List Char) := do
  let (name, cs) ← run? isNameChar cs
  let cs := skipBlanks cs
  match enclosed? '\x7b' '\x7d' (fun c => c != '\x7d') cs with
  | some (inner, rest) => return ((.ofList name, some (.ofList inner)), rest)
  | none => return ((.ofList name, none), cs)

/-- The kernels in a text, from left to right: a name, then the kinds of its tensors in braces or
nothing.  The first argument bounds the number of steps; the length of the text is enough. -/
def kernelsFrom : Nat → List Char → List (String × Option String)
  | 0, _ => []
  | _ + 1, [] => []
  | n + 1, c :: cs => match kernelHere? (c :: cs) with
    | some (k, rest) => k :: kernelsFrom n rest
    | none => kernelsFrom n cs

def kernels : List (String × Option String) :=
  kernelsFrom s.toList.length s.toList

/-! ## 5. Extra attributes -/

structure AttrText where
  type : String
  name : String
  value : String

def attrHere? : Option AttrText := do
  let (type, cs) ← run? isTypeChar cs
  let (_, cs) ← run? isBlank cs
  let (name, cs) ← run? isNameChar cs
  let cs ← expect? '=' (skipBlanks cs)
  let (value, _) ← run? (fun c => !isBlank c) (skipBlanks cs)
  return ⟨.ofList type, .ofList name, .ofList value⟩

def attr? : Option AttrText := firstSuffix? attrHere? s.toList

end TensorKit.Operator.Pattern

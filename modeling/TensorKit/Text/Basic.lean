/-!
Text as lists of characters.

Definition files are read by small rules: cut at a separator, take the blanks off both ends, look for a run of
characters of a class.  Each rule is a structural function on `List Char`, and the functions on `String` of the same
name only convert.  Cutting at one character is `List.splitOn`; cutting at a separator of several characters is
`pieces`.
-/

namespace TensorKit.Text

/-! ## 1. Blanks -/

/-- Blank characters, as ranges of code points: the controls from tab to carriage return and the four information
separators, the next-line control, and every character of the space, line and paragraph separator categories. -/
def blankRanges : List (Nat × Nat) :=
  [(9, 13), (28, 32), (0x85, 0x85), (0xa0, 0xa0), (0x1680, 0x1680), (0x2000, 0x200a), (0x2028, 0x2029),
   (0x202f, 0x202f), (0x205f, 0x205f), (0x3000, 0x3000)]

def isBlank (c : Char) : Bool := blankRanges.any fun r => r.1 ≤ c.toNat && c.toNat ≤ r.2

def dropRight (p : Char → Bool) (cs : List Char) : List Char := (cs.reverse.dropWhile p).reverse

def stripChars (p : Char → Bool) (cs : List Char) : List Char := dropRight p (cs.dropWhile p)

def strip (s : String) : String := .ofList (stripChars isBlank s.toList)

/-- A text without the characters `c` at its left end. -/
def stripLeftOf (c : Char) (s : String) : String := .ofList (s.toList.dropWhile (· == c))

/-- A text without the characters `c` at its right end. -/
def stripRightOf (c : Char) (s : String) : String := .ofList (dropRight (· == c) s.toList)

/-! ## 2. Cutting -/

def split (sep : Char) (s : String) : List String := (s.toList.splitOn sep).map .ofList

/-- The parts of a text between the characters `sep`, each without the blanks at its ends. -/
def splitStrip (sep : Char) (s : String) : List String := (split sep s).map strip

/-- The parts of a list between the occurrences of `sep`, from left to right.  The first argument counts
the characters of an occurrence that are still to be passed over. -/
def piecesFrom (sep : List Char) : Nat → List Char → List (List Char)
  | _, [] => [[]]
  | n + 1, _ :: cs => piecesFrom sep n cs
  | 0, c :: cs =>
    if sep.isPrefixOf (c :: cs) then [] :: piecesFrom sep (sep.length - 1) cs
    else (piecesFrom sep 0 cs).modifyHead (c :: ·)

/-- The parts of a list between the occurrences of a separator that is not empty. -/
def pieces (sep cs : List Char) : List (List Char) := piecesFrom sep 0 cs

/-- The parts of a text between the occurrences of a separator that is not empty. -/
def splitText (sep s : String) : List String := (pieces sep.toList s.toList).map .ofList

/-- The text before and after the first character `sep`, if there is one. -/
def cut? (sep : Char) (s : String) : Option (String × String) :=
  match s.toList.dropWhile (· != sep) with
  | [] => none
  | _ :: rest => some (.ofList (s.toList.takeWhile (· != sep)), .ofList rest)

def before (sep : Char) (s : String) : String := .ofList (s.toList.takeWhile (· != sep))

/-! ## 3. Searching and replacing -/

def hasInfix (sub : List Char) : List Char → Bool
  | [] => sub.isEmpty
  | c :: cs => sub.isPrefixOf (c :: cs) || hasInfix sub cs

def contains (sub s : String) : Bool := hasInfix sub.toList s.toList

def fromInfix? (sub : List Char) : List Char → Option (List Char)
  | [] => if sub.isEmpty then some [] else none
  | c :: cs => if sub.isPrefixOf (c :: cs) then some (c :: cs) else fromInfix? sub cs

def fromFirst? (sub s : String) : Option String := (fromInfix? sub.toList s.toList).map .ofList

def hasStart (pre s : String) : Bool := pre.toList.isPrefixOf s.toList

def hasEnd (suf s : String) : Bool := suf.toList.isSuffixOf s.toList

def dropLast (n : Nat) (s : String) : String := .ofList (s.toList.take (s.toList.length - n))

def dropFirst (n : Nat) (s : String) : String := .ofList (s.toList.drop n)

def last? (s : String) : Option Char := s.toList.getLast?

def count (c : Char) (s : String) : Nat := s.toList.count c

/-- Every occurrence of `old`, from left to right and without overlap, replaced by `new`. -/
def replace (old new s : String) : String := String.intercalate new (splitText old s)

def replaceFirstChars (old new : List Char) : List Char → List Char
  | [] => if old.isEmpty then new else []
  | c :: cs =>
    if old.isPrefixOf (c :: cs) then new ++ (c :: cs).drop old.length
    else c :: replaceFirstChars old new cs

def replaceFirst (old new s : String) : String :=
  .ofList (replaceFirstChars old.toList new.toList s.toList)

def join (sep : String) (xs : List String) : String := String.intercalate sep xs

def commas (xs : List String) : String := join ", " xs

def quoted (s : String) : String := "\"" ++ s ++ "\""

def blanks (n : Nat) : String := .ofList (List.replicate n ' ')

def toRight (n : Nat) (s : String) : String := blanks (n - s.length) ++ s

/-- A text in the middle of a field; of an odd number of blanks there is one more on the right. -/
def centered (n : Nat) (s : String) : String :=
  let gap := n - s.length
  blanks (gap / 2) ++ s ++ blanks (gap - gap / 2)

end TensorKit.Text

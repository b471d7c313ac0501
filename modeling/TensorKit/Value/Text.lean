import TensorKit.Value.Basic
import TensorKit.Text.Quoted
/-!
The text of data.

`Value.shown` writes data so that its kind can be seen: texts between quotes, sequences between brackets
or parentheses, tables between braces, and items with names behind their names.  `Value.plain` differs for a text only, which it leaves as it is.
-/

namespace TensorKit.Value

def boolText (b : Bool) : String := if b then "True" else "False"

def scalarText : Scalar → String
  | .bool b => boolText b
  | .int i => toString i
  | .float x => Number.short x
  | .text s => Text.shown s

mutual

def shown : Value → String
  | null => "None"
  | bool b => boolText b
  | int i => toString i
  | float x => Number.short x
  | str s => Text.shown s
  | bytes bs => Text.shownBytes bs
  | list xs => "[" ++ shownItems xs ++ "]"
  | tuple [x] => "(" ++ shown x ++ ",)"
  | tuple xs => "(" ++ shownItems xs ++ ")"
  | labelled kind xs => kind.name ++ "(" ++ shownFields kind.fields xs ++ ")"
  | dict items => "\x7b" ++ shownPairs items ++ "\x7d"
  | set [] => "set()"
  | set xs => "\x7b" ++ shownItems xs ++ "\x7d"
  | array a => "array([" ++ String.intercalate ", " (a.data.map scalarText) ++ "])"

def shownItems : List Value → String
  | [] => ""
  | [x] => shown x
  | x :: y :: xs => shown x ++ ", " ++ shownItems (y :: xs)

/-- Items behind their names, with commas between them. -/
def shownFields : List String → List Value → String
  | k :: _, [x] => k ++ "=" ++ shown x
  | k :: ks, x :: y :: xs => k ++ "=" ++ shown x ++ ", " ++ shownFields ks (y :: xs)
  | _, _ => ""

def shownPairs : Pairs → String
  | [] => ""
  | [p] => shownPair p
  | p :: q :: ps => shownPair p ++ ", " ++ shownPairs (q :: ps)

def shownPair : Value × Value → String
  | (k, v) => shown k ++ ": " ++ shown v

end

/-- Data as plain text: a text is left as it is. -/
def plain : Value → String
  | str s => s
  | v => shown v

end TensorKit.Value

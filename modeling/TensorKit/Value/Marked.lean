import TensorKit.Value.Document
/-!
Data in plain documents.

A plain document has null, truth values, whole numbers, texts, lists and tables with text keys.  Other data is written
in it as a table with one key that says what it is: `f` a floating number by its shortest text, `t` a tuple, `s` a set,
`b` bytes in hexadecimal, `d` a table as a list of pairs.  An array is a table with its shape, the name of its element
type and its elements.  `Value.marked` writes data that way, `Value.ofMarked` reads it back.
-/

namespace TensorKit.Value

/-! ## 1. Parts -/

def mark (k : String) (v : Value) : Value := record [(k, v)]

def hexDigit (c : Char) : Nat :=
  if c.isDigit then c.toNat - '0'.toNat else c.toNat - 'a'.toNat + 10

def ofHex : List Char → List UInt8
  | a :: b :: cs => (16 * hexDigit a + hexDigit b).toUInt8 :: ofHex cs
  | _ => []

def toHex (bs : List UInt8) : String := .ofList (bs.flatMap fun b => Text.hex 2 b.toNat)

def ofDigits (v : Value) : Float := (v.str?.bind Number.read?).getD 0.0

def markedScalar : Scalar → Value
  | .float x => mark "f" (str (Number.long x))
  | s => ofScalar s

def scalarOfMarked : Value → Scalar
  | bool b => .bool b
  | int i => .int i
  | float x => .float x
  | str s => .text s
  | v => .float (ofDigits ((v.field? "f").getD null))

def arrayOfMarked (v : Value) : Value :=
  let part (k : String) : Value := (v.field? k).getD null
  array ⟨⟨(part "nd").items.map fun n => (n.int?.getD 0).toNat, (part "data").items.map scalarOfMarked⟩,
    .ofName ((part "dtype").str?.getD "")⟩

/-! ## 2. Writing -/

def byText (xs : List Value) : List Value := xs.mergeSort fun a b => !(b.shown < a.shown)

mutual

def marked : Value → Value
  | float x => mark "f" (str (Number.long x))
  | bytes bs => mark "b" (str (toHex bs))
  | list xs => list (markedItems xs)
  | tuple xs | labelled _ xs => mark "t" (list (markedItems xs))
  | set xs => mark "s" (list (byText (markedItems xs)))
  | dict ps => mark "d" (list (markedPairs ps))
  | array a => record [("nd", list (a.shape.map fun (n : Nat) => int n)), ("dtype", str a.type.name),
      ("data", list (a.data.map markedScalar))]
  | v => v

def markedItems : List Value → List Value
  | [] => []
  | x :: xs => marked x :: markedItems xs

def markedPairs : Pairs → List Value
  | [] => []
  | p :: ps => markedPair p :: markedPairs ps

def markedPair : Value × Value → Value
  | (k, v) => list [marked k, marked v]

end

/-! ## 3. Reading -/

mutual

def ofMarked : Value → Value
  | list xs => list (itemsOfMarked xs)
  | dict [(str k, list xs)] =>
    if k = "t" then tuple (itemsOfMarked xs)
    else if k = "s" then set (itemsOfMarked xs)
    else dict (pairsOfMarked xs)
  | dict [(str k, v)] => if k = "f" then float (ofDigits v) else bytes (ofHex (v.str?.getD "").toList)
  | dict ps => arrayOfMarked (dict ps)
  | v => v

def itemsOfMarked : List Value → List Value
  | [] => []
  | x :: xs => ofMarked x :: itemsOfMarked xs

def pairsOfMarked : List Value → Pairs
  | [] => []
  | list [k, v] :: ps => (ofMarked k, ofMarked v) :: pairsOfMarked ps
  | _ :: ps => (null, null) :: pairsOfMarked ps

end

def itemsAt (v : Value) (k : String) : List Value := itemsOfMarked (v.part k).items

def fieldsOfMarked (v : Value) : Fields := v.fields.map fun p => (p.1, p.2.ofMarked)

end TensorKit.Value

import TensorKit.Text.Word
/-!
Quoted texts.

A text is shown between single quotes, or between double quotes when it holds a single quote and no
double one.  The quote in use, the backslash and what is not printable are escaped: tab, line feed and
carriage return by a letter, other characters by two, four or eight hexadecimal digits.
-/

namespace TensorKit.Text

/-- Lower-case hexadecimal digits, with zeros in front up to a width. -/
def hex (width n : Nat) : List Char :=
  let ds := Nat.toDigits 16 n
  List.replicate (width - ds.length) '0' ++ ds

/-- The escape of a character that has a short one, or else another text. -/
def escaped (quote c : Char) (other : List Char) : List Char :=
  if c == quote || c == '\\' then ['\\', c]
  else if c == '\t' then ['\\', 't']
  else if c == '\n' then ['\\', 'n']
  else if c == '\r' then ['\\', 'r']
  else other

def escapeChar (quote c : Char) : List Char := escaped quote c <|
  if isPrintable c then [c]
  else if c.toNat < 0x100 then '\\' :: 'x' :: hex 2 c.toNat
  else if c.toNat < 0x10000 then '\\' :: 'u' :: hex 4 c.toNat
  else '\\' :: 'U' :: hex 8 c.toNat

/-- The quote for a text: double exactly when it holds single quotes only. -/
def quoteFor (cs : List Char) : Char := if cs.elem '\'' && !cs.elem '"' then '"' else '\''

def shown (s : String) : String :=
  let q := quoteFor s.toList
  .ofList (q :: s.toList.flatMap (escapeChar q) ++ [q])

def escapeByte (quote : Char) (b : UInt8) : List Char :=
  let c := Char.ofNat b.toNat
  escaped quote c (if 32 ≤ b.toNat && b.toNat < 127 then [c] else '\\' :: 'x' :: hex 2 b.toNat)

/-- A byte string between quotes, marked by the letter `b`. -/
def shownBytes (bs : List UInt8) : String :=
  let q := quoteFor (bs.map fun b => Char.ofNat b.toNat)
  .ofList ('b' :: q :: bs.flatMap (escapeByte q) ++ [q])

end TensorKit.Text

import TensorKit.Number.Decimal
import TensorKit.Text.Basic
import TensorKit.Text.Letter
/-!
Numerals in texts.

A numeral may have blanks around it, a sign, and single underscores between digits.  A whole numeral has
digits only; a floating one may have a point and an exponent, or name infinity or the undefined number in
letters of either case.
-/

namespace TensorKit.Number

/-- Take out the underscores of a numeral; each has to stand between two digits. -/
def dropUnderscores : List Char → Option (List Char)
  | [] => some []
  | a :: '_' :: b :: cs =>
    if a.isDigit && b.isDigit then (dropUnderscores (b :: cs)).map (a :: ·) else none
  | '_' :: _ => none
  | [_, '_'] => none
  | a :: cs => (dropUnderscores cs).map (a :: ·)

def wholeOf? (s : String) : Option Int := do
  let cs ← dropUnderscores (Text.stripChars Text.isBlank s.toList)
  let (negative, ds) : Bool × List Char := match cs with
    | '-' :: ds => (true, ds)
    | '+' :: ds => (false, ds)
    | ds => (false, ds)
  if ds.isEmpty || !ds.all Char.isDigit then none
  else
    let n : Int := readDigits ds
    return if negative then -n else n

def floatingOf? (s : String) : Option Float := do
  let cs ← dropUnderscores (Text.stripChars Text.isBlank s.toList)
  let t := Text.lower (.ofList cs)
  read? (Text.replace "infinity" "inf" t)

end TensorKit.Number

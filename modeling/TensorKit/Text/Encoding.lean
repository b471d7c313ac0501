import TensorKit.Value.Document
/-!
Texts and bytes.

Three encodings are known, under their usual names: UTF-8, Latin-1 and ASCII.  Converting data converts the
items of lists, sets and tables one level deep; data that is neither a text nor bytes stays as it is when a
text is asked for, and cannot be converted to bytes.
-/

namespace TensorKit.Text

inductive Encoding where
  | utf8
  | latin1
  | ascii

namespace Encoding

/-- A name in small letters with a dash between its words. -/
def normalized (name : String) : String :=
  .ofList (name.toList.map fun c => if c == '_' || c == ' ' then '-' else c.toLower)

def ofName? (name : String) : Option Encoding :=
  match normalized name with
  | "utf-8" | "utf8" | "utf" | "u8" => some utf8
  | "latin-1" | "latin1" | "latin" | "l1" | "iso-8859-1" | "iso8859-1" | "8859" | "cp819" => some latin1
  | "ascii" | "us-ascii" | "646" => some ascii
  | _ => none

def encode (e : Encoding) (s : String) : Fallible (List UInt8) :=
  match e with
  | utf8 => .ok s.toUTF8.toList
  | latin1 => below 256 s
  | ascii => below 128 s
where
  /-- one byte for each character, if all are small enough -/
  below (limit : Nat) (s : String) : Fallible (List UInt8) :=
    if s.toList.all fun c => c.toNat < limit then .ok (s.toList.map fun c => c.toNat.toUInt8)
    else .error .unencodable

def decode (e : Encoding) (bs : List UInt8) : Fallible String :=
  match e with
  | utf8 => demand .encoding (String.fromUTF8? ⟨bs.toArray⟩)
  | latin1 => .ok (.ofList (bs.map fun b => Char.ofNat b.toNat))
  | ascii =>
    if bs.all fun b => b.toNat < 128 then .ok (.ofList (bs.map fun b => Char.ofNat b.toNat))
    else .error .encoding

def ofArgument : Value → Fallible Encoding
  | .str name => demand .unknownEncoding (ofName? name)
  | _ => .error .type

end Encoding

/-! ## Data -/

def itemToText (encoding : Value) : Value → Fallible Value
  | .bytes [] => match encoding with
    | .str _ => .ok (.str "")
    | _ => .error .type
  | .bytes bs => do return .str (← (← Encoding.ofArgument encoding).decode bs)
  | v => .ok v

def itemToBytes (encoding : Value) : Value → Fallible Value
  | .null => .ok .null
  | v => match encoding, v with
    | .null, _ => .error .assertion
    | e, .str s => do return .bytes (← (← Encoding.ofArgument e).encode s)
    | _, .bytes bs => .ok (.bytes bs)
    | _, _ => .error .attribute

/-- A set without repeated members. -/
def distinct (xs : List Value) : List Value :=
  xs.foldl (fun seen x => if seen.any (Value.same x) then seen else seen ++ [x]) []

def convertedPairs (f : Value → Fallible Value) (start ps : Pairs) : Fallible Pairs :=
  ps.foldlM (fun t p => do return Value.store (← f p.1) (← f p.2) t) start

/-- Data as text.  In place, a table keeps its old keys. -/
def toText (v encoding : Value) (inPlace : Bool) : Fallible Value :=
  match v with
  | .list xs => do return .list (← xs.mapM (itemToText encoding))
  | .set xs => do return .set (distinct (← xs.mapM (itemToText encoding)))
  | .dict ps => do
    let new ← convertedPairs (itemToText encoding) [] ps
    if inPlace then return .dict (new.foldl (fun t p => Value.store p.1 p.2 t) ps) else return .dict new
  | v => itemToText encoding v

def toBytes (v encoding : Value) : Fallible Value :=
  match v with
  | .list xs => do return .list (← xs.mapM (itemToBytes encoding))
  | .set xs => do return .set (distinct (← xs.mapM (itemToBytes encoding)))
  | v => itemToBytes encoding v

/-- The text of a failure that was given these arguments. -/
def ofArguments : List Value → String
  | [] => ""
  | [v] => v.plain
  | vs => (Value.tuple vs).shown

end TensorKit.Text

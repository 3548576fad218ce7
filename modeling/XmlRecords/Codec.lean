import XmlRecords.Value.Shown

/-!
The codecs of simple types. `read` takes a text that is not empty to a value, `write` gives the
canonical text of a value of whatever kind, and `zero` stands in for a required value that is
missing.
-/

set_option autoImplicit false
set_option relaxedAutoImplicit false

namespace XmlRecords

open Number Text

/-- The tokens of a list: the runs of characters between XML blanks. -/
def tokens (raw : String) : List String :=
  (Identifier.pieces isXmlBlank raw.toList).map String.ofList

/-- The integer a text denotes, any kind of text being allowed. -/
def integerOf (raw : String) : Except CodecFault Int :=
  match integerOfText raw with
  | .ok n => .ok n
  | .error .malformed => .error (.notInteger raw)
  | .error (.tooLong digits) => .error (.integerTooLong digits)

/-- Holds of blanks, a sign, digits and blanks; information separators count as blanks here. -/
def looksInteger (raw : String) : Bool :=
  let (_, body) := takeSign (trimBoth isBlank raw.toList)
  !body.isEmpty && body.all isDecimalDigit

namespace Codec

def typeName : Codec → String
  | .boolean => "bool"
  | .integer width => width.name
  | .real width => width.name
  | .text => "string"
  | .enumeration e => e.name
  | .list item => "list of " ++ item.typeName

def annotation : Codec → String
  | .boolean => "bool"
  | .integer _ => "int"
  | .real _ => "float"
  | .text => "str"
  | .enumeration e => e.name
  | .list item => "tuple[" ++ item.annotation ++ ", ...]"

def zero : Codec → Value
  | .boolean => .boolean false
  | .integer _ => .integer 0
  | .real _ => .real .zero
  | .text => .text ""
  | .enumeration e => .tag e Enumeration.unknown
  | .list _ => .list []

def readInteger (width : IntegerWidth) (raw : String) : Except CodecFault Value :=
  if looksInteger raw then
    match integerOf raw with
    | .error fault => .error fault
    | .ok n =>
      if width.least ≤ n ∧ n ≤ width.greatest then .ok (.integer n)
      else .error (.outOfRange width.name raw width.least width.greatest)
  else .error (.malformed width.name raw)

def readReal (width : RealWidth) (raw : String) : Except CodecFault Value :=
  match realOfText? raw with
  | some x => .ok (.real x)
  | none => .error (.malformed width.name raw)

/-- The value a text denotes. Only `true` is true; every other text is false. -/
def read : Codec → String → Except CodecFault Value
  | .boolean, raw => .ok (.boolean (raw == "true"))
  | .integer width, raw => readInteger width raw
  | .real width, raw => readReal width raw
  | .text, raw => .ok (.text raw)
  | .enumeration e, raw => (e.ofText raw).map (.tag e)
  | .list item, raw => ((tokens raw).mapM item.read).map .list

/-- The integer that a value stands for, cut off toward zero. -/
def integerValue : Value → Except CodecFault Int
  | .boolean b => .ok (if b then 1 else 0)
  | .integer n => .ok n
  | .real x =>
    match x with
    | .nan => .error .notWhole
    | x => (x.truncate?.map .ok).getD (.error .tooLarge)
  | .text s => integerOf s
  | .tag _ t => .ok t.number
  | _ => .error .wrongKind

def realOfInt (n : Int) : Except CodecFault Binary64 :=
  match Binary64.ofInt n with
  | .infinity _ => .error .tooLarge
  | x => .ok x

def realValue : Value → Except CodecFault Binary64
  | .boolean b => realOfInt (if b then 1 else 0)
  | .integer n => realOfInt n
  | .real x => .ok x
  | .text s => ((realOfText? s).map .ok).getD (.error .notReal)
  | .tag _ t => realOfInt t.number
  | _ => .error .wrongKind

def itemsOf : Value → Except CodecFault (List Value)
  | .list items => .ok items
  | .text s => .ok (s.toList.map fun c => .text (String.singleton c))
  | _ => .error .wrongKind

def tagText : Value → Except CodecFault String
  | .tag e t => e.toText t
  | .record layout _ =>
    if layout.slots.any (·.name == "to_string") then .error .wrongKind
    else .error .noSuchOperation
  | _ => .error .noSuchOperation

def write : Codec → Value → Except CodecFault String
  | .boolean, value => .ok (if value.isTruthy then "true" else "false")
  | .integer _, value => (integerValue value).map toString
  | .real _, value => (realValue value).map Binary64.text
  | .text, value => value.shown
  | .enumeration _, value => tagText value
  | .list item, value => do
    let texts ← (← itemsOf value).mapM item.write
    return " ".intercalate texts

end Codec

end XmlRecords

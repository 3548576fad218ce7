import XmlRecords.Text.Quoted

/-!
What can go wrong between a text and a value.
-/

set_option autoImplicit false
set_option relaxedAutoImplicit false

namespace XmlRecords

inductive CodecFault where
  /-- The text is no value of the type. -/
  | malformed (typeName raw : String)
  /-- The text is an integer that the type does not hold. -/
  | outOfRange (typeName raw : String) (least greatest : Int)
  /-- The text looks like an integer but for an information separator, or is no integer at all. -/
  | notInteger (raw : String)
  | integerTooLong (digits : Nat)
  | notReal
  /-- NaN is no integer. -/
  | notWhole
  /-- The number is beyond every floating point number, or every integer. -/
  | tooLarge
  /-- The value is of a kind that the operation does not take. -/
  | wrongKind
  /-- The value has no such operation. -/
  | noSuchOperation
  | unknownTag (tag : String)
  deriving DecidableEq, Repr

namespace CodecFault

/-- Holds of the faults that say a text or number is unsuitable, not that its kind is. -/
def isUnsuitable : CodecFault → Bool
  | .malformed .. | .outOfRange .. | .notInteger _ | .integerTooLong _ | .notReal | .notWhole => true
  | _ => false

def isExplained : CodecFault → Bool
  | .malformed .. | .outOfRange .. => true
  | _ => false

def message : CodecFault → String
  | .malformed typeName raw => s!"Invalid {typeName} value: '{raw}'"
  | .outOfRange typeName raw least greatest =>
    s!"Invalid {typeName} value: '{raw}' (out of range [{least}, {greatest}])"
  | .notInteger raw =>
    "invalid literal for int() with base 10: " ++
      String.ofList ((Text.quoted raw).toList.take 200)
  | .integerTooLong digits =>
    s!"Exceeds the limit (4300 digits) for integer string conversion: value has {digits} digits; " ++
      "use sys.set_int_max_str_digits() to increase the limit"
  | .notReal => "could not convert string to float"
  | .notWhole => "cannot convert float NaN to integer"
  | .tooLarge => "number too large"
  | .wrongKind => "wrong kind of value"
  | .noSuchOperation => "no such operation"
  | .unknownTag tag => tag

end CodecFault

end XmlRecords

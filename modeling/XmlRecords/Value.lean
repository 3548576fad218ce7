import XmlRecords.Codec.Fault
import XmlRecords.Enumeration
import XmlRecords.Number.NumberText
import XmlRecords.Occurrence

/-!
Values of fields, and their codecs: how a value of a simple type is read from the text of an
attribute or element and written as such.
-/

set_option autoImplicit false
set_option relaxedAutoImplicit false

namespace XmlRecords

open Number

inductive IntegerWidth where
  | int32
  | int64
  | uint32
  deriving DecidableEq, Repr

namespace IntegerWidth

def name : IntegerWidth → String
  | .int32 => "int32"
  | .int64 => "int64"
  | .uint32 => "uint32"

def least : IntegerWidth → Int
  | .int32 => -2147483648
  | .int64 => -9223372036854775808
  | .uint32 => 0

def greatest : IntegerWidth → Int
  | .int32 => 2147483647
  | .int64 => 9223372036854775807
  | .uint32 => 4294967295

end IntegerWidth

inductive RealWidth where
  | float
  | double
  deriving DecidableEq, Repr

def RealWidth.name : RealWidth → String
  | .float => "float"
  | .double => "double"

/-- A simple type with the enumerations it uses bound. -/
inductive Codec where
  | boolean
  | integer (width : IntegerWidth)
  | real (width : RealWidth)
  | text
  | enumeration (e : Enumeration)
  | list (item : Codec)
  deriving DecidableEq, Repr

/-- What a field is called in records and in documents, and where it stands. -/
structure FieldKey where
  name : String
  xmlName : String
  isAttribute : Bool
  occurrence : Occurrence
  deriving DecidableEq, Inhabited, Repr

/-- A field of a record as the record itself shows it; a field without a codec holds records. -/
structure Slot extends FieldKey where
  codec : Option Codec
  deriving DecidableEq, Repr

/-- The class of a record: its names and its fields, attributes and elements as declared. -/
structure Layout where
  className : String
  name : String
  slots : List Slot
  deriving DecidableEq, Repr

/-- What a field may hold. A record holds one value for each slot of its layout. -/
inductive Value where
  | absent
  | boolean (b : Bool)
  | integer (n : Int)
  | real (x : Binary64)
  | text (s : String)
  | tag (e : Enumeration) (t : Tag)
  | list (items : List Value)
  | record (layout : Layout) (values : List Value)
  deriving Inhabited, Repr

end XmlRecords

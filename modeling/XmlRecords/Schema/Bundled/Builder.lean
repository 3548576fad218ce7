import XmlRecords.Json.Basic

/-!
Short forms for schema definitions.
-/

set_option autoImplicit false
set_option relaxedAutoImplicit false

namespace XmlRecords.Schema.Bundled

/-- A member with a list as its value, left out if the list is empty. -/
def listed (key : String) (items : List Json) : List (String × Json) :=
  if items.isEmpty then [] else [(key, .array items)]

def optionalAttribute (name type : String) : Json :=
  .object [("name", .text name), ("type", .text type)]

def requiredAttribute (name type : String) : Json :=
  .object [("name", .text name), ("type", .text type), ("required", .boolean true)]

def listAttribute (name type : String) (required : Bool) : Json :=
  .object [("name", .text name), ("type", .text type), ("list", .boolean true),
    ("required", .boolean required)]

/-- An element that occurs at least so often, with no upper bound. -/
def manyElements (name type : String) (least : Int) : Json :=
  .object [("name", .text name), ("type", .text type), ("minOccurs", .integer least),
    ("maxOccurs", .text "unbounded")]

def optionalElement (name type : String) : Json :=
  .object [("name", .text name), ("type", .text type), ("minOccurs", .integer 0)]

def complexType (name : String) (attributes elements types : List Json) : Json :=
  .object (("name", .text name) ::
    listed "attributes" attributes ++ listed "elements" elements ++ listed "types" types)

def enumeration (name : String) (values : List String) : Json :=
  .object [("name", .text name), ("values", .array (values.map .text))]

def definition (name rootElement rootType : String) (enumerations types : List Json) : Json :=
  .object [("name", .text name),
    ("root", .object [("element", .text rootElement), ("type", .text rootType)]),
    ("enums", .array enumerations), ("types", .array types)]

end XmlRecords.Schema.Bundled

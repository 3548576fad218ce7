import XmlRecords.Codec.Fault
import XmlRecords.Json.Basic

/-!
Problems of a schema: why it cannot be read from its definition, bound or generated, and the place
they concern. Names in a definition may be any JSON value until something needs a text.
-/

set_option autoImplicit false
set_option relaxedAutoImplicit false

namespace XmlRecords.Schema

abbrev Label := Json

inductive Cause where
  | notObject
  | missingKey (key : String)
  | valuesNotTexts (enumeration : Label)
  | repeatedEnumeration (enumeration : Label)
  | rootNotDeclared (type : Label)
  | badBound (bound : Json)
  | defaultNotText (attr : Label)
  | unknownSimpleType (type : Label)
  | unknownType (type : Label)
  | badDefinition (reason : String)
  | unreadable (reason : String)
  | emptyRootElement
  | repeatedValue (enumeration : Label) (value : String)
  | reservedTag (enumeration : Label)
  | clashingTags (enumeration : Label) (value other tag : String)
  | classTaken (type : Label) (className : String)
  | clashingFields (name other : Label) (field : String)
  | badDefault (attr : Label) (fault : CodecFault)
  | cycle (types : List Label)
  | enumerationNotBound (enumeration : Label)
  | notSimple (type : Label)
  | refersToUnbound (element type : Label)
  | reservedClass (className : String)
  deriving Inhabited

def Cause.message : Cause → String
  | .notObject => "schema definition must be a JSON object"
  | .missingKey key => s!"missing required key '{key}'"
  | .valuesNotTexts e => s!"values of enumeration '{e.shown}' must be strings"
  | .repeatedEnumeration e => s!"duplicate enumeration '{e.shown}'"
  | .rootNotDeclared type => s!"root type '{type.shown}' is not declared"
  | .badBound bound => s!"invalid occurrence bound {bound.quotedForm}"
  | .defaultNotText attr => s!"default of attribute '{attr.shown}' must be a string"
  | .unknownSimpleType type => s!"unknown simple type '{type.shown}'"
  | .unknownType type => s!"unknown type '{type.shown}'"
  | .badDefinition reason => s!"invalid JSON: {reason}"
  | .unreadable reason => s!"cannot read schema: {reason}"
  | .emptyRootElement => "root element name is empty"
  | .repeatedValue e value => s!"enumeration '{e.shown}' declares '{value}' twice"
  | .reservedTag e => s!"enumeration '{e.shown}' cannot declare the reserved tag UNKNOWN"
  | .clashingTags e value other tag =>
    s!"enumeration '{e.shown}': '{value}' and '{other}' both map to tag '{tag}'"
  | .classTaken type className =>
    s!"type '{type.shown}' maps to class name '{className}' which is already taken"
  | .clashingFields name other field =>
    s!"'{name.shown}' and '{other.shown}' both map to field '{field}'"
  | .badDefault attr fault =>
    s!"default of attribute '{attr.shown}' is invalid: {fault.message}"
  | .cycle types =>
    "recursive complex types cannot be bound: " ++ " -> ".intercalate (types.map Json.shown)
  | .enumerationNotBound e => s!"enumeration '{e.shown}' is not bound"
  | .notSimple type =>
    s!"not a simple type: ComplexType(name={type.quotedForm}, " ++
      "attributes=[], elements=[], nested=[])"
  | .refersToUnbound element type =>
    s!"element '{element.shown}' refers to unbound type '{type.shown}'"
  | .reservedClass className => s!"class name '{className}' is reserved in generated modules"

/-- A cause at a place; a place that is empty or null is not shown. -/
structure Problem where
  cause : Cause
  location : Label
  deriving Inhabited

def Problem.message (p : Problem) : String :=
  if p.location.isFalsy then p.cause.message else p.location.shown ++ ": " ++ p.cause.message

end XmlRecords.Schema

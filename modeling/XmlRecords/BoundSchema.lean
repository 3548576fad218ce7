import XmlRecords.Notice
import XmlRecords.Record.Type
import XmlRecords.Schema.Validity

/-!
Schemas bound to enumerations and record types. Types are bound in dependency order, so that the
record type of an element is there when the type that holds it is bound.
-/

set_option autoImplicit false
set_option relaxedAutoImplicit false

namespace XmlRecords

/-- A schema with its enumerations by name and its record types by qualified name, in the order in
which they were bound. -/
structure BoundSchema where
  schema : Schema
  enumerations : List (Schema.Label × Enumeration)
  records : List (Schema.Label × RecordType)

namespace BoundSchema

open Schema

def enumerationNamed? (enumerations : List (Label × Enumeration)) (name : Label) :
    Option Enumeration :=
  (enumerations.find? (·.1.same name)).map (·.2)

def recordNamed? (records : List (Label × RecordType)) (name : Label) : Option RecordType :=
  (records.reverse.find? (·.1.same name)).map (·.2)

def attributeField (s : Schema) (enumerations : List (Label × Enumeration))
    (a : Schema.Attribute) : Except Fault Field := do
  let codec ← codecOf (enumerationNamed? enumerations) a.type s.typeName
  let default ← match a.default with
    | some text => ofCodec (codec.read text)
    | none => pure .absent
  let name ← textOf a.name
  return .simple ⟨Identifier.field name, name, true, a.occurrence⟩ codec default

def elementField (s : Schema) (enumerations : List (Label × Enumeration))
    (records : List (Label × RecordType)) (owner : Label) (e : Schema.Element) :
    Except Fault Field :=
  match e.type with
  | .complex id => do
    let target : Label := ((s.type? id).map (·.qualifiedName)).getD .null
    match recordNamed? records target with
    | some type =>
      let name ← textOf e.name
      return .nested ⟨Identifier.field name, name, false, e.occurrence⟩ type .absent
    | none => throw (.located (.refersToUnbound e.name target) owner)
  | type => do
    let codec ← codecOf (enumerationNamed? enumerations) type s.typeName
    let name ← textOf e.name
    return .simple ⟨Identifier.field name, name, false, e.occurrence⟩ codec .absent

def bindType (s : Schema) (enumerations : List (Label × Enumeration))
    (records : List (Label × RecordType)) (t : ComplexType) : Except Fault RecordType := do
  let attributes ← t.attributes.mapM (attributeField s enumerations)
  let elements ← t.elements.mapM (elementField s enumerations records t.qualifiedName)
  let name ← textOf t.qualifiedName
  RecordType.build (Identifier.recordClass name) name (attributes ++ elements)

/-- Gives a name a record type: a name already there keeps its place. -/
def putRecord (name : Label) (type : RecordType) :
    List (Label × RecordType) → List (Label × RecordType)
  | [] => [(name, type)]
  | (n, t) :: records =>
    if n.same name then (name, type) :: records else (n, t) :: putRecord name type records

def bindTypes (s : Schema) (enumerations : List (Label × Enumeration)) :
    (records : List (Label × RecordType)) → List ComplexType →
    Except Fault (List (Label × RecordType))
  | records, [] => .ok records
  | records, t :: ts => do
    let type ← bindType s enumerations records t
    bindTypes s enumerations (putRecord t.qualifiedName type records) ts

def bindEnumeration (e : Enumerated) : Except Fault (Label × Enumeration) := do
  let name ← textOf e.name
  match Enumeration.ofValues name e.values with
  | .ok bound => return (e.name, bound)
  | .error fault => throw (.enumeration fault)

def bind (s : Schema) : Except Fault BoundSchema := do
  s.validate
  let enumerations ← s.enumerations.mapM bindEnumeration
  let types ← s.dependencyOrder
  let records ← bindTypes s enumerations [] types
  return ⟨s, enumerations, records⟩

def rootType (b : BoundSchema) : Except Fault RecordType :=
  match (b.schema.type? b.schema.rootType).bind fun t => recordNamed? b.records t.qualifiedName with
  | some type => .ok type
  | none => .error .noSuchMember

def notice (b : BoundSchema) : Notice :=
  .bound b.schema.name.shown b.records.length b.enumerations.length

def enumeration (b : BoundSchema) (name : String) : Except Fault Enumeration :=
  match enumerationNamed? b.enumerations (.text name) with
  | some e => .ok e
  | none => .error (.noSuchEnumeration name b.schema.name.shown)

def record (b : BoundSchema) (name : String) : Except Fault RecordType :=
  match recordNamed? b.records (.text name) with
  | some type => .ok type
  | none => .error (.noSuchRecord name b.schema.name.shown)

end BoundSchema

end XmlRecords

import XmlRecords.Record.Type
import XmlRecords.Xml.Node

/-!
Reading records from elements. An attribute with an empty value counts as absent. Children are
matched by local name; those not declared are left out. Of a field that is not repeated the last
child counts.
-/

set_option autoImplicit false
set_option relaxedAutoImplicit false

namespace XmlRecords

open Xml

namespace Field

/-- Holds of element fields whose children go to a later field of the same element name. -/
def isShadowed (fields : List Field) (f : Field) : Bool :=
  !f.key.isAttribute &&
    match fields.reverse.find? fun g => !g.key.isAttribute && g.key.xmlName == f.key.xmlName with
    | some g => g.key.name != f.key.name
    | none => false

def forElement? (fields : List Field) (name : String) : Option Field :=
  fields.reverse.find? fun f => !f.key.isAttribute && f.key.xmlName == name

end Field

/-- What a field holds if the document gives it nothing, from the zero value of its type. -/
def FieldKey.initial (key : FieldKey) (default : Value) (zero : Except Fault Value) :
    Except Fault Value :=
  match key.occurrence with
  | .once =>
    match default with
    | .absent => zero
    | default => .ok default
  | .optional => .ok .absent
  | .repeated => .ok (.list [])

/-- Refuses field names that the class of a record cannot hold twice or read by name. -/
def checkReadable (fields : List Field) (values : List Value) : Except Fault (List Value) :=
  if fields.any (·.isShadowed fields) then .error .wrongKind else .ok values

mutual
def RecordType.empty : RecordType → Except Fault Value
  | .mk className name fields => do
    let values ← emptyValues fields
    let values ← checkReadable fields values
    (RecordType.mk className name fields).construct values

def emptyValues : List Field → Except Fault (List Value)
  | [] => .ok []
  | field :: fields => do
    let value ← field.empty
    return value :: (← emptyValues fields)

/-- What a field holds in the record of an element without attributes and children. -/
def Field.empty : Field → Except Fault Value
  | .simple key codec default => do
    if key.isAttribute then let _ ← attributeQuery key.xmlName
    key.initial default (.ok codec.zero)
  | .nested key type default => do
    if key.isAttribute then let _ ← attributeQuery key.xmlName
    key.initial default type.empty
end

namespace Field

def zero : Field → Except Fault Value
  | .simple _ codec _ => .ok codec.zero
  | .nested _ type _ => type.empty

def initial (f : Field) : Except Fault Value := f.key.initial f.default f.zero

def fromAttribute (f : Field) (attributes : List Attribute) : Except Fault Value := do
  let raw ← attributeValue attributes f.key.xmlName
  if raw = "" then f.initial
  else
    match f.codec? with
    | some codec => ofCodec (codec.read raw)
    | none => .error .noSuchMember

def fromText (key : FieldKey) (codec : Codec) (default : Value) (raw : String) :
    Except Fault Value :=
  if raw = "" then
    match key.occurrence with
    | .repeated => .ok codec.zero
    | _ => key.initial default (.ok codec.zero)
  else ofCodec (codec.read raw)

/-- The value of an element field from the items of its children, none if it is shadowed. -/
def fromItems (fields : List Field) (items : List (String × Value)) (f : Field) :
    Except Fault Value :=
  let own := (items.filter (·.1 == f.key.name)).map (·.2)
  if f.isShadowed fields then .ok .absent
  else
    match f.key.occurrence with
    | .repeated => .ok (.list own)
    | _ =>
      match own.getLast? with
      | some value => .ok value
      | none => f.initial

end Field

def attributeValues (fields : List Field) (attributes : List Attribute) :
    Except Fault (List (String × Value)) :=
  (fields.filter (·.key.isAttribute)).mapM fun f => do
    return (f.key.name, ← f.fromAttribute attributes)

/-- A record from the values of its attributes and the items of its children. -/
def RecordType.assemble (type : RecordType) (attributes items : List (String × Value)) :
    Except Fault Value := do
  let values ← type.fields.mapM fun f =>
    if f.key.isAttribute then
      match attributes.find? (·.1 == f.key.name) with
      | some (_, value) => .ok value
      | none => .error .wrongKind
    else f.fromItems type.fields items
  let values ← checkReadable type.fields values
  type.construct values

mutual
def RecordType.fromNode (type : RecordType) : Node → Except Fault Value
  | .element tag children => do
    let attributes ← attributeValues type.fields tag.attributes
    let items ← itemsOf type.fields children
    type.assemble attributes items
  | _ => .error .wrongKind

/-- The items that the children of an element give, each under the name of its field. -/
def itemsOf (fields : List Field) : List Node → Except Fault (List (String × Value))
  | [] => .ok []
  | node :: nodes =>
    match itemOf fields node with
    | .error fault => .error fault
    | .ok none => itemsOf fields nodes
    | .ok (some item) => (itemsOf fields nodes).map (item :: ·)

/-- The item that a node gives, none if it is no element or not declared. -/
def itemOf (fields : List Field) : Node → Except Fault (Option (String × Value))
  | .element tag children =>
    match Field.forElement? fields tag.name with
    | none => .ok none
    | some (.simple key codec default) => do
      let value ← Field.fromText key codec default (Node.directText children)
      return some (key.name, value)
    | some (.nested key type _) => do
      let attributes ← attributeValues type.fields tag.attributes
      let items ← itemsOf type.fields children
      let value ← type.assemble attributes items
      return some (key.name, value)
  | _ => .ok none
end

end XmlRecords

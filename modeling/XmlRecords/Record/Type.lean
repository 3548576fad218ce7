import XmlRecords.Codec
import XmlRecords.Fault

/-!
Record types: the class of a record with what reading needs, the defaults of its fields and the
types of the records inside it. A default fills only a field that occurs exactly once.
-/

set_option autoImplicit false
set_option relaxedAutoImplicit false

namespace XmlRecords

mutual
inductive RecordType where
  | mk (className name : String) (fields : List Field)

/-- A field with a codec or a record type; the default `absent` is none. -/
inductive Field where
  | simple (key : FieldKey) (codec : Codec) (default : Value)
  | nested (key : FieldKey) (type : RecordType) (default : Value)
end

namespace RecordType

def className : RecordType → String
  | .mk className _ _ => className

def name : RecordType → String
  | .mk _ name _ => name

def fields : RecordType → List Field
  | .mk _ _ fields => fields

end RecordType

namespace Field

def key : Field → FieldKey
  | .simple key _ _ => key
  | .nested key _ _ => key

def default : Field → Value
  | .simple _ _ default => default
  | .nested _ _ default => default

def codec? : Field → Option Codec
  | .simple _ codec _ => some codec
  | .nested .. => none

def type? : Field → Option RecordType
  | .simple .. => none
  | .nested _ type _ => some type

def slot (f : Field) : Slot := { f.key with codec := f.codec? }

def itemAnnotation : Field → String
  | .simple _ codec _ => codec.annotation
  | .nested _ type _ => type.className

def annotation (f : Field) : String :=
  match f.key.occurrence with
  | .once => f.itemAnnotation
  | .optional => f.itemAnnotation ++ " | None"
  | .repeated => "tuple[" ++ f.itemAnnotation ++ ", ...]"

end Field

namespace RecordType

def layout (type : RecordType) : Layout := ⟨type.className, type.name, type.fields.map Field.slot⟩

def doc (type : RecordType) : String := s!"Record for complex type '{type.name}'."

end RecordType

def isFieldName (name : String) : Bool :=
  !Identifier.keywords.contains name &&
  match name.toList with
  | [] => false
  | c :: cs =>
    (c.isAlpha || c == '_' || 0x80 ≤ c.toNat) &&
      cs.all fun c => c.isAlphanum || c == '_' || 0x80 ≤ c.toNat

inductive Accessor where
  | has
  | get
  | first
  deriving DecidableEq, Repr

/-- The accessors of a field under their names; only a repeated field has a first item. -/
def FieldKey.accessors (key : FieldKey) : List (String × Accessor) :=
  [("has_" ++ key.name, .has), ("get_" ++ key.name, .get)] ++
    match key.occurrence with
    | .repeated => [("get_first_" ++ key.name, .first)]
    | _ => []

/-- The names of members that every record class has when its fields are read, its accessors left out:
those of the base class, of every object and of every class, and the parameters of the data class
itself, which are set before. Members that classes get only later, such as the list of their fields,
are not among them. -/
def inheritedMembers : List String := [
  "read", "write", "empty", "mro", "__init__", "__new__", "__repr__", "__hash__", "__str__",
  "__getattribute__", "__setattr__", "__delattr__", "__lt__", "__le__", "__eq__", "__ne__",
  "__gt__", "__ge__", "__reduce_ex__", "__reduce__", "__getstate__", "__subclasshook__",
  "__init_subclass__", "__format__", "__sizeof__", "__dir__", "__class__", "__doc__",
  "__module__", "__xsd_name__", "__xsd_fields__", "__name__", "__qualname__", "__bases__",
  "__base__", "__mro__", "__subclasses__", "__call__", "__prepare__", "__instancecheck__",
  "__subclasscheck__", "__basicsize__", "__itemsize__", "__flags__", "__weakrefoffset__",
  "__dictoffset__", "__weakref__", "__text_signature__", "__or__", "__ror__",
  "__dataclass_params__"]

def fixedMembers : List String := ["__annotations__", "__dict__"]

/-- Holds of field names that can be the parameters of one constructor. No parameter is called
`__debug__`, and the record itself is called `__dataclass_self__` if a field is called `self`. -/
def areParameters (names : List String) : Bool :=
  !names.contains "__debug__" && !(names.contains "self" && names.contains "__dataclass_self__")

/-- Holds if a field is optional to the constructor because its name is taken by a member. -/
def hidesMember (keys : List FieldKey) (name : String) : Bool :=
  inheritedMembers.contains name || keys.any fun key => key.accessors.any (·.1 == name)

def requiredFirst (keys : List FieldKey) : List FieldKey → Bool
  | [] => true
  | key :: rest =>
    if hidesMember keys key.name then rest.all fun key => hidesMember keys key.name
    else requiredFirst keys rest

/-- The record type of names and fields, if they make up a class: field names are distinct words,
class names hold no NUL, and the constructor compiles. -/
def RecordType.build (className name : String) (fields : List Field) : Except Fault RecordType :=
  let keys := fields.map Field.key
  let names := keys.map (·.name)
  if !names.all isFieldName || ¬ names.Nodup then .error .wrongKind
  else if className.toList.contains '\x00' || names.any fixedMembers.contains then .error .unsuitable
  else if !requiredFirst keys keys then .error .wrongKind
  else if !areParameters names then .error .unsuitable
  else .ok (.mk className name fields)

def setterName : String := "__dataclass_builtins_object__"

/-- The fault of setting a field of a record, if its name belongs to the record itself or to its
constructor. Of the members that every object has these are the ones that no value can be set for: the
class takes no value that is not a class, the weak references take none, and a field of the last name
stands in the way of setting any. All others are hidden by the value. -/
def FieldKey.settingFault? (key : FieldKey) : Option Fault :=
  if key.name = "__class__" ∨ key.name = setterName then some .wrongKind
  else if key.name = "__weakref__" then some .noSuchMember
  else none

/-- The record that holds values for the fields of its type, which are set in order. -/
def RecordType.construct (type : RecordType) (values : List Value) : Except Fault Value :=
  if type.fields.any (·.key.name == setterName) then .error .wrongKind
  else
    match type.fields.findSome? (·.key.settingFault?) with
    | some fault => .error fault
    | none => .ok (.record type.layout values)

end XmlRecords

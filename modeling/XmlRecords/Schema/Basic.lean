import XmlRecords.Fault
import XmlRecords.Occurrence
import XmlRecords.Value

/-!
Schemas: enumerations, complex types with their attributes and child elements, and the root element.
Types are known by number, so that two types of one name are told apart. The declared types stand
in one list, each enclosing type right before the types nested in it; a schema also keeps the types
that are referred to without being declared.
-/

set_option autoImplicit false
set_option relaxedAutoImplicit false

namespace XmlRecords

inductive Primitive where
  | bool
  | int32
  | int64
  | uint32
  | string
  | float
  | double
  deriving DecidableEq, Repr

namespace Primitive

def all : List Primitive := [.bool, .int32, .int64, .uint32, .string, .float, .double]

def name : Primitive → String
  | .bool => "bool"
  | .int32 => "int32"
  | .int64 => "int64"
  | .uint32 => "uint32"
  | .string => "string"
  | .float => "float"
  | .double => "double"

def ofName? (name : String) : Option Primitive := all.find? (·.name == name)

def codec : Primitive → Codec
  | .bool => .boolean
  | .int32 => .integer .int32
  | .int64 => .integer .int64
  | .uint32 => .integer .uint32
  | .string => .text
  | .float => .real .float
  | .double => .real .double

end Primitive

namespace Schema

/-- An enumeration as declared: a closed set of texts. -/
structure Enumerated where
  name : Label
  values : List String
  deriving Inhabited

abbrev TypeId := Nat

inductive DeclaredType where
  | primitive (p : Primitive)
  | enumerated (e : Enumerated)
  | list (item : DeclaredType)
  | complex (id : TypeId)
  deriving Inhabited

structure Attribute where
  name : Label
  type : DeclaredType
  required : Bool
  default : Option String
  deriving Inhabited

def Attribute.occurrence (a : Attribute) : Occurrence := if a.required then .once else .optional

structure Element where
  name : Label
  type : DeclaredType
  occurrence : Occurrence
  deriving Inhabited

/-- A complex type. Its qualified name puts the names of the enclosing types in front. -/
structure ComplexType where
  id : TypeId
  name : Label
  qualifiedName : Label
  parent : Option TypeId
  attributes : List Attribute
  elements : List Element
  deriving Inhabited

/-- The complex types that the elements of a type refer to, in order. -/
def ComplexType.references (t : ComplexType) : List TypeId :=
  t.elements.filterMap fun element =>
    match element.type with
    | .complex id => some id
    | _ => none

/-- The name of a type inside another, or of a type that stands alone. -/
def qualified (enclosing : Option Label) (name : Label) : Label :=
  match enclosing with
  | some outer => .text (outer.shown ++ "." ++ name.shown)
  | none => name

/-- The text of a name; names that are no texts cannot become identifiers. -/
def textOf (name : Label) : Except Fault String :=
  match name with
  | .text s => .ok s
  | _ => .error .wrongKind

/-- Refuses the values that cannot be looked up: lists and objects. -/
def lookupKey (name : Label) : Except Fault Label :=
  match name with
  | .array _ | .object _ => .error .wrongKind
  | name => .ok name

end Schema

structure Schema where
  name : Schema.Label
  rootElement : Schema.Label
  rootType : Schema.TypeId
  declared : List Schema.ComplexType
  undeclared : List Schema.ComplexType
  enumerations : List Schema.Enumerated
  package : Schema.Label
  deriving Inhabited

namespace Schema

def type? (s : Schema) (id : TypeId) : Option ComplexType :=
  (s.declared ++ s.undeclared).find? (·.id == id)

def typeNamed? (s : Schema) (name : Label) : Option ComplexType :=
  s.declared.find? (·.qualifiedName.same name)

def enumeratedNamed? (s : Schema) (name : Label) : Option Enumerated :=
  s.enumerations.find? (·.name.same name)

def nestedIn (s : Schema) (id : TypeId) : List ComplexType := s.declared.filter (·.parent == some id)

def topLevel (s : Schema) : List ComplexType := s.declared.filter (·.parent.isNone)

def freshId (s : Schema) : TypeId :=
  ((s.declared ++ s.undeclared).map (·.id + 1)).foldl max 0

end Schema

end XmlRecords

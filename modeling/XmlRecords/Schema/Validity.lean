import XmlRecords.Codec
import XmlRecords.Schema.Definition
import XmlRecords.Schema.Dependency

/-!
Checks that a schema can be bound. The first problem found is reported, in this order: the root,
the enumerations, then each complex type with its class name, fields and defaults, and last the
references among types.
-/

set_option autoImplicit false
set_option relaxedAutoImplicit false

namespace XmlRecords.Schema

/-- The codec of a declared type, with the enumerations bound by name. -/
def codecOf (bound : Label → Option Enumeration) : DeclaredType → (name : TypeId → Label) →
    Except Fault Codec
  | .primitive p, _ => .ok p.codec
  | .list item, name => (codecOf bound item name).map .list
  | .enumerated e, _ =>
    match bound e.name with
    | some e => .ok (.enumeration e)
    | none => .error (.located (.enumerationNotBound e.name) .null)
  | .complex id, name => .error (.located (.notSimple (name id)) .null)

def typeName (s : Schema) (id : TypeId) : Label := ((s.type? id).map (·.name)).getD .null

def DeclaredType.holdsTags : DeclaredType → Bool
  | .enumerated _ => true
  | .list (.enumerated _) => true
  | _ => false

def checkRoot (s : Schema) : Except Fault Unit :=
  if s.rootElement.isFalsy then .error (.located .emptyRootElement s.name)
  else if s.declared.any (·.id == s.rootType) then .ok ()
  else
    match s.type? s.rootType with
    | some t => .error (.located (.rootNotDeclared t.qualifiedName) s.name)
    | none => .error .noSuchMember

/-- Checks that the values of an enumeration are distinct and take distinct tags; `seen` holds the
tags of the values before. -/
def checkValues (e : Enumerated) (location : Label) :
    (seen : List (String × String)) → List String → Except Fault Unit
  | _, [] => .ok ()
  | seen, value :: values =>
    let tag := Identifier.tag value
    if seen.any (·.2 == value) then .error (.located (.repeatedValue e.name value) location)
    else if tag = "UNKNOWN" then .error (.located (.reservedTag e.name) location)
    else
      match seen.find? (·.1 == tag) with
      | some (_, other) => .error (.located (.clashingTags e.name value other tag) location)
      | none => checkValues e location (seen ++ [(tag, value)]) values

def checkEnumerations (location : Label) :
    (taken : List String) → List Enumerated → Except Fault (List String)
  | taken, [] => .ok taken
  | taken, e :: es => do
    let className := Identifier.recordClass (← textOf e.name)
    if taken.contains className then
      .error (.located (.repeatedEnumeration e.name) location)
    else
      checkValues e location [] e.values
      checkEnumerations location (taken ++ [className]) es

/-- Checks that names take distinct field names; `seen` holds those of the names before. -/
def checkFields (location : Label) : (seen : List (String × Label)) → List Label → Except Fault Unit
  | _, [] => .ok ()
  | seen, name :: names => do
    let field := Identifier.field (← textOf name)
    match seen.find? (·.1 == field) with
    | some (_, other) => .error (.located (.clashingFields name other field) location)
    | none => checkFields location (seen ++ [(field, name)]) names

def checkDefault (s : Schema) (location : Label) (a : Attribute) : Except Fault Unit :=
  match a.default with
  | none => .ok ()
  | some default =>
    if a.type.holdsTags then .ok ()
    else do
      let codec ← codecOf (fun _ => none) a.type s.typeName
      match codec.read default with
      | .ok _ => return ()
      | .error fault =>
        if fault.isUnsuitable then .error (.located (.badDefault a.name fault) location)
        else .error (.codec fault)

/-- The names of the fields of a type: attributes, then elements. -/
def ComplexType.fieldNames (t : ComplexType) : List Label :=
  t.attributes.map (·.name) ++ t.elements.map (·.name)

/-- Checks the complex types; `taken` holds the class names in use. -/
def checkTypes (s : Schema) : (taken : List String) → List ComplexType → Except Fault Unit
  | _, [] => .ok ()
  | taken, t :: ts => do
    let className := Identifier.recordClass (← textOf t.qualifiedName)
    if taken.contains className then
      .error (.located (.classTaken t.qualifiedName className) s.name)
    else
      checkFields t.qualifiedName [] t.fieldNames
      t.attributes.forM (s.checkDefault t.qualifiedName)
      s.checkTypes (taken ++ [className]) ts

def validate (s : Schema) : Except Fault Unit := do
  s.checkRoot
  let enumClasses ← checkEnumerations s.name [] s.enumerations
  s.checkTypes enumClasses s.declared
  let _ ← s.dependencyIds

def load (definition : Json) (source : Label) : Except Fault Schema := do
  let s ← ofDefinition definition source
  s.validate
  return s

end XmlRecords.Schema

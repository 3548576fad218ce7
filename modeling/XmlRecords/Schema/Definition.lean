import XmlRecords.Schema.Basic

/-!
Schemas from JSON definitions. All types are declared first, an enclosing type before the types
nested in it; then each type's attributes and elements are resolved, nested types before the type
that encloses them. A type name is sought among the nested types from the innermost scope outward,
then among the top-level types, then among all qualified names.
-/

set_option autoImplicit false
set_option relaxedAutoImplicit false

namespace XmlRecords.Schema

def require (item : Json) (key : String) (location : Label) :
    Except Fault Json :=
  match item with
  | .object members =>
    match Json.member? members key with
    | some value => .ok value
    | none => .error (.located (.missingKey key) location)
  | _ => .error (.located (.missingKey key) location)

def membersOf : Json → List (String × Json)
  | .object members => members
  | _ => []

def optional? (item : Json) (key : String) : Option Json := Json.member? (membersOf item) key

/-- What a value yields item by item: an object yields its keys and a text its characters. -/
def iterate : Json → Except Fault (List Json)
  | .array items => .ok items
  | .object members => .ok (members.map fun (key, _) => .text key)
  | .text s => .ok (s.toList.map fun c => .text (String.singleton c))
  | _ => .error .wrongKind

/-- The items under a key, none if there is no such key. -/
def itemsUnder (item : Json) (key : String) : Except Fault (List Json) :=
  match optional? item key with
  | some value => iterate value
  | none => .ok []

def valuesOf (item : Json) (name source : Label) : Except Fault (List String) :=
  let texts? : Option (List String) :=
    match optional? item "values" with
    | none => some []
    | some (.array items) =>
      items.mapM fun
        | .text s => some s
        | _ => none
    | some _ => none
  match texts? with
  | some texts => .ok texts
  | none => .error (.located (.valuesNotTexts name) source)

/-- The enumerations of a definition, each name given once. -/
def declareEnumerations (source : Label) :
    (declared : List Enumerated) → List Json → Except Fault (List Enumerated)
  | declared, [] => .ok declared
  | declared, item :: items => do
    let name ← require item "name" source
    let values ← valuesOf item name source
    let name ← lookupKey name
    if declared.any (·.name.same name) then
      .error (.located (.repeatedEnumeration name) source)
    else declareEnumerations source (declared ++ [⟨name, values⟩]) items

/-- Where a type is declared: the type around it, or none at the top level. -/
abbrev Enclosing := Option (TypeId × Label)

/-- Declared types without their content: in declaration order, an enclosing type first, and with
their definitions in the order of resolution, an enclosing type last. -/
structure Outline where
  declared : List ComplexType
  pending : List (TypeId × Json)

def Outline.append (a b : Outline) : Outline := ⟨a.declared ++ b.declared, a.pending ++ b.pending⟩

mutual
/-- Declares a type and the types nested in it, numbered from `next` on. -/
def declareType (source : Label) (next : TypeId) (enclosing : Enclosing) :
    Json → Except Fault Outline
  | .object members => do
    let location := (enclosing.map (·.2)).getD source
    let name ← require (.object members) "name" location
    let qualifiedName := qualified (enclosing.map (·.2)) name
    let inner ← declareUnder source (next + 1) (some (next, qualifiedName)) members
    let declared : ComplexType := ⟨next, name, qualifiedName, enclosing.map (·.1), [], []⟩
    return ⟨declared :: inner.declared, inner.pending ++ [(next, .object members)]⟩
  | _ => .error (.located (.missingKey "name") ((enclosing.map (·.2)).getD source))

/-- Declares the types under the key `types` of an object, if it has one. -/
def declareUnder (source : Label) (next : TypeId) (enclosing : Enclosing) :
    List (String × Json) → Except Fault Outline
  | [] => .ok ⟨[], []⟩
  | (key, value) :: members =>
    if key = "types" then declareTypes source next enclosing value
    else declareUnder source next enclosing members

/-- Declares the types that a value yields; what is no object has no name. -/
def declareTypes (source : Label) (next : TypeId) (enclosing : Enclosing) :
    Json → Except Fault Outline
  | .array items => declareItems source next enclosing items
  | .object [] => .ok ⟨[], []⟩
  | .text s =>
    if s.isEmpty then .ok ⟨[], []⟩
    else .error (.located (.missingKey "name") ((enclosing.map (·.2)).getD source))
  | .object _ => .error (.located (.missingKey "name") ((enclosing.map (·.2)).getD source))
  | _ => .error .wrongKind

def declareItems (source : Label) (next : TypeId) (enclosing : Enclosing) :
    List Json → Except Fault Outline
  | [] => .ok ⟨[], []⟩
  | item :: items => do
    let first ← declareType source next enclosing item
    let rest ← declareItems source (next + first.declared.length) enclosing items
    return first.append rest
end

/-- What names stand for while types are resolved. -/
structure Scope where
  types : List ComplexType
  enumerations : List Enumerated

/-- The nested type of a name in a scope, or in a scope around it. The fuel bounds the nesting. -/
def findNested (types : List ComplexType) (name : Label) : (fuel : Nat) → Option TypeId → Option ComplexType
  | 0, _ => none
  | _, none => none
  | fuel + 1, some scope =>
    match types.find? fun t => t.parent == some scope && t.name.same name with
    | some t => some t
    | none => findNested types name fuel ((types.find? (·.id == scope)).bind (·.parent))

def findComplex (types : List ComplexType) (name : Label) (scope : Option TypeId) : Option ComplexType :=
  match findNested types name types.length scope with
  | some t => some t
  | none =>
    match types.find? fun t => t.parent.isNone && t.name.same name with
    | some t => some t
    | none => types.find? (·.qualifiedName.same name)

def primitiveNamed? : Label → Option Primitive
  | .text name => Primitive.ofName? name
  | _ => none

def Scope.enumerated? (scope : Scope) (name : Label) : Option Enumerated :=
  scope.enumerations.find? (·.name.same name)

def Scope.simpleType (scope : Scope) (name : Label) (location : Label) :
    Except Fault DeclaredType := do
  let name ← lookupKey name
  match primitiveNamed? name with
  | some p => return .primitive p
  | none =>
    match scope.enumerated? name with
    | some e => return .enumerated e
    | none => .error (.located (.unknownSimpleType name) location)

/-- The type of an element of a complex type; a complex type hides an enumeration of its name. -/
def Scope.elementType (scope : Scope) (name : Label) (owner : ComplexType) :
    Except Fault DeclaredType := do
  let name ← lookupKey name
  match primitiveNamed? name with
  | some p => return .primitive p
  | none =>
    match findComplex scope.types name (some owner.id) with
    | some t => return .complex t.id
    | none =>
      match scope.enumerated? name with
      | some e => return .enumerated e
      | none => .error (.located (.unknownType name) owner.qualifiedName)

def holdsUnder (item : Json) (key : String) : Bool :=
  match optional? item key with
  | some value => !value.isFalsy
  | none => false

def Scope.resolveAttribute (scope : Scope) (owner : ComplexType) (item : Json) :
    Except Fault Attribute := do
  let name ← require item "name" owner.qualifiedName
  let location : Label := .text (owner.qualifiedName.shown ++ "@" ++ name.shown)
  let type ← scope.simpleType (← require item "type" location) location
  let type := if holdsUnder item "list" then .list type else type
  let default ← match (optional? item "default").getD .null with
    | .null => pure none
    | .text s => pure (some s)
    | _ => .error (.located (.defaultNotText name) owner.qualifiedName)
  return ⟨name, type, holdsUnder item "required", default⟩

/-- An occurrence bound: a natural number, or `unbounded` for none; 1 if it is not given. -/
def boundOf (value : Option Json) (location : Label) : Except Fault Int :=
  match value with
  | none | some .null => .ok 1
  | some (.text "unbounded") => .ok (-1)
  | some (.integer n) =>
    if n < 0 then .error (.located (.badBound (.integer n)) location) else .ok n
  | some bound => .error (.located (.badBound bound) location)

def Scope.resolveElement (scope : Scope) (owner : ComplexType) (item : Json) :
    Except Fault Element := do
  let name ← require item "name" owner.qualifiedName
  let location : Label := .text (owner.qualifiedName.shown ++ "/" ++ name.shown)
  let typeName ← require item "type" location
  let least ← boundOf (optional? item "minOccurs") location
  let greatest ← boundOf (optional? item "maxOccurs") location
  let type ← scope.elementType typeName owner
  return ⟨name, type, .ofBounds least greatest⟩

def Scope.resolveType (scope : Scope) (t : ComplexType) (item : Json) : Except Fault ComplexType := do
  let attributes ← (← itemsUnder item "attributes").mapM (scope.resolveAttribute t)
  let elements ← (← itemsUnder item "elements").mapM (scope.resolveElement t)
  return { t with attributes, elements }

def Scope.resolve (scope : Scope) (pending : List (TypeId × Json)) :
    Except Fault (List ComplexType) :=
  pending.mapM fun (id, item) =>
    match scope.types.find? (·.id == id) with
    | some t => scope.resolveType t item
    | none => .error .wrongKind

/-- The schema of a definition, not yet checked; `source` names the definition in problems. -/
def ofDefinition (definition : Json) (source : Label) : Except Fault Schema :=
  match definition with
  | .object members => do
    let name ← require definition "name" source
    let enumerations ← declareEnumerations source [] (← itemsUnder definition "enums")
    let outline ← declareUnder source 0 none members
    let scope : Scope := ⟨outline.declared, enumerations⟩
    let resolved ← scope.resolve outline.pending
    let root ← require definition "root" source
    let rootLocation : Label := .text (source.shown ++ " root")
    let rootElement ← require root "element" rootLocation
    let rootName ← require root "type" rootLocation
    match findComplex outline.declared rootName none with
    | none => .error (.located (.rootNotDeclared rootName) source)
    | some rootType =>
      return {
        name, rootElement, rootType := rootType.id, enumerations, undeclared := []
        declared := outline.declared.map fun t => (resolved.find? (·.id == t.id)).getD t
        package := (optional? definition "package").getD .null }
  | _ => .error (.located .notObject source)

end XmlRecords.Schema
